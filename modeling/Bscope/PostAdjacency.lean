import Bscope.PostBody

set_option autoImplicit false

namespace Bscope

open Scanner

/-- A captured pair stands in one piece before the first NUL of its text. -/
theorem captured_spec (g : Grammar UInt8) (ce : Bool) (t name text : Bytes)
    (found : (name, text) ∈ captured g ce t) :
    name ++ g.eq :: text <:+: t.takeWhile (· ≠ 0) ∧ g.eq ∉ name ∧ g.accepts name = true := by
  unfold captured at found
  by_cases nul : 0 ∈ t
  · rw [if_pos nul, List.mem_append, Option.mem_toList] at found
    rcases found with closed | ended
    · have inside := emits_infix g start _ name text closed
      exact ⟨by simpa [start, since] using inside, emits_wanted g _ name text closed⟩
    · obtain ⟨carried, wanted⟩ := flush_spec g _ name text ended
      exact ⟨carried.isInfix, wanted⟩
  · rw [if_neg nul] at found
    rw [takeWhile_nul_of_free t nul]
    have whole : (name, text) ∈ emits g start t →
        name ++ g.eq :: text <:+: t ∧ g.eq ∉ name ∧ g.accepts name = true := by
      intro closed
      have inside := emits_infix g start t name text closed
      exact ⟨by simpa [start, since] using inside, emits_wanted g t name text closed⟩
    split at found
    · rcases List.eq_nil_or_concat t with rfl | ⟨u, a, rfl⟩
      · exact whole found
      · rw [List.concat_eq_append, List.dropLast_concat, List.getLast?_concat] at found
        rw [List.concat_eq_append] at whole ⊢
        split at found
        · rename_i name' v here
          rw [List.mem_append] at found
          rcases found with closed | ended
          · have inside := emits_infix g start u name text closed
            refine ⟨?_, emits_wanted g u name text closed⟩
            exact (by simpa [start, since] using inside : _ <:+: u).trans
              (List.prefix_append u [a]).isInfix
          · split at ended
            · rename_i wanted
              simp only [Option.toList_some, List.mem_singleton, Prod.mk.injEq] at ended
              obtain ⟨rfl, rfl⟩ := ended
              obtain ⟨front, carried⟩ := since_suffix g u
              have place := reached g u
              rw [here] at carried place
              refine ⟨⟨front, [], ?_⟩, place.2.2.1, wanted⟩
              rw [← carried]
              simp [since]
            · cases ended
        · exact whole found
    · exact whole found

/-- An entry made from adjacent bytes of the received text. -/
def Adjacent (received : Bytes) (kv : Kv) : Prop :=
  kv.type = .post ∧ ∃ k v, k ++ 61 :: v <:+: received ∧ 61 ∉ k ∧
    kv.key.bytes = k.map tolower ∧ kv.value.bytes = v

theorem Adjacent.mono {part received : Bytes} {kv : Kv} (adjacent : Adjacent part kv)
    (inside : part <:+: received) : Adjacent received kv := by
  obtain ⟨type, k, v, piece, key, lowered, value⟩ := adjacent
  exact ⟨type, k, v, piece.trans inside, key, lowered, value⟩

theorem recorded_adjacent (cfg : Configuration) (ce : Bool) (text : Bytes) :
    ∀ kv ∈ recorded .post (captured (postGrammar cfg) ce text), Adjacent text kv := by
  intro kv member
  rw [recorded, List.mem_reverse, List.mem_map] at member
  obtain ⟨⟨k, v⟩, found, rfl⟩ := member
  obtain ⟨piece, key, -⟩ := captured_spec (postGrammar cfg) ce text k v found
  have free : ∀ part : Bytes, part <:+: k ++ 61 :: v → 0 ∉ part := by
    intro part within nul
    simpa using List.mem_takeWhile_imp ((within.trans piece).subset nul)
  have key_free := free k (List.prefix_append k _).isInfix
  have value_free := free v ⟨k ++ [61], [], by simp⟩
  refine ⟨rfl, k, v, piece.trans (List.takeWhile_prefix _).isInfix, key, ?_, ?_⟩
  · change (cstr k).bytes.map tolower = _
    rw [cstr_bytes_of_free k key_free]
  · exact cstr_bytes_of_free v value_free

/-- The carry-over buffer after the bytes received so far: one piece of them, at
their end unless the buffer is full, and with no key start but its first byte. -/
structure Carries (cfg : Configuration) (received : Bytes) (s : Session) : Prop where
  plain : s.requestMultipart ≠ IS_MULTIPART
  resumes : since (postGrammar cfg) (scan (postGrammar cfg) start s.postBuf) = s.postBuf
  room : s.postBuf.length < POST_BUF_LENGTH
  inside : s.postBuf <:+: received
  adjacent : s.postBuf <:+ received ∨ s.postBuf.length + 1 = POST_BUF_LENGTH

/-- The pushed buffer is again one piece, and at the end unless it is full. -/
theorem joined_adjacent (received carried data : Bytes) (room : carried.length < POST_BUF_LENGTH)
    (inside : carried <:+: received)
    (adjacent : carried <:+ received ∨ carried.length + 1 = POST_BUF_LENGTH) :
    joined carried data <:+: received ++ data ∧
      (joined carried data <:+ received ++ data ∨
        (joined carried data).length + 1 = POST_BUF_LENGTH) := by
  rcases adjacent with ⟨front, rfl⟩ | full
  · have piece : joined carried data <:+: front ++ carried ++ data := by
      refine ⟨front, data.drop (POST_BUF_LENGTH - 1 - carried.length), ?_⟩
      rw [joined, List.append_assoc, List.append_assoc, List.append_assoc,
        List.take_append_drop]
    refine ⟨piece, ?_⟩
    by_cases fits : data.length ≤ POST_BUF_LENGTH - 1 - carried.length
    · refine Or.inl ⟨front, ?_⟩
      rw [joined, List.take_of_length_le fits, List.append_assoc]
    · refine Or.inr ?_
      simp only [joined, List.length_append, List.length_take]
      omega
  · have same : joined carried data = carried := by
      rw [joined, show POST_BUF_LENGTH - 1 - carried.length = 0 by omega, List.take_zero,
        List.append_nil]
    rw [same]
    exact ⟨inside.trans (List.prefix_append received data).isInfix, Or.inr full⟩

theorem rescanned_suffix (g : Grammar UInt8) (carried data : Bytes) :
    rescanned g carried data <:+ data := by
  unfold rescanned
  split
  · exact List.suffix_rfl
  · split
    · exact List.drop_suffix _ data
    · exact List.suffix_rfl

theorem carry_resumes (g : Grammar UInt8) (text : Bytes) :
    since g (scan g start (carry g text)) = carry g text := by
  unfold carry
  split
  · unfold unfinished
    split
    · rfl
    · exact since_idem g text
  · rfl

theorem joined_resumes (g : Grammar UInt8) (text : Bytes) (key : keyStart g text = some 0) :
    since g (scan g start text) = text := by
  obtain ⟨rest, _⟩ := drop_keyStart g text 0 key
  rwa [List.drop_zero, eq_comm] at rest

/-- `next` is never negative: behind the carried bytes a later key lies in the chunk. -/
theorem Carries.next {cfg : Configuration} {received : Bytes} {s : Session}
    (carries : Carries cfg received s) (data : Bytes) (p : Nat) (carried : s.postBuf ≠ [])
    (key : keyStart (postGrammar cfg) (joined s.postBuf data) = some p) (later : 0 < p) :
    s.postBuf.length ≤ p := by
  have resumes := carries.resumes
  obtain ⟨rest, size⟩ := drop_keyStart _ _ p key
  rcases since_append (postGrammar cfg) s.postBuf
      (data.take (POST_BUF_LENGTH - 1 - s.postBuf.length)) (by rwa [resumes]) with grown | ⟨moved, _⟩
  · rw [joined, grown, resumes] at size
    omega
  · have fits := moved.length_le
    rw [joined] at size
    rw [List.length_append] at size
    omega

theorem Carries.of_carry {cfg : Configuration} {received : Bytes} {s : Session} (part : Bytes)
    (plain : s.requestMultipart ≠ IS_MULTIPART) (kept : s.postBuf = carry (postGrammar cfg) part)
    (part_end : part <:+ received) : Carries cfg received s := by
  have at_end := (carry_suffix (postGrammar cfg) part).trans part_end
  have resumes := carry_resumes (postGrammar cfg) part
  have room := carry_length (postGrammar cfg) part
  rw [← kept] at at_end resumes room
  exact ⟨plain, resumes, room, at_end.isInfix, Or.inl at_end⟩

/-- One chunk adds entries made from adjacent bytes, and the buffer stays one piece. -/
theorem requestBody_adjacent (cfg : Configuration) (s : Session) (received data : Bytes)
    (posts : 0 < cfg.catchPost.length) (carries : Carries cfg received s) :
    Carries cfg (received ++ data) (requestBody cfg s data) ∧
      ∃ added, (requestBody cfg s data).proplist = added ++ s.proplist ∧
        ∀ kv ∈ added, Adjacent (received ++ data) kv := by
  obtain ⟨plain, -, room, inside, adjacent⟩ := carries
  have data_end := List.suffix_append received data
  obtain ⟨piece, joined_end⟩ := joined_adjacent received s.postBuf data room inside adjacent
  rw [requestBody_eq cfg s data posts plain room]
  by_cases fresh : s.postBuf = []
  · rw [if_pos fresh]
    refine ⟨Carries.of_carry data plain rfl data_end, _, rfl, ?_⟩
    intro kv member
    exact (recorded_adjacent cfg false data kv member).mono data_end.isInfix
  · rw [if_neg fresh]
    split
    · rename_i stays
      refine
        ⟨⟨plain, joined_resumes _ _ stays.2, joined_length _ _ room, piece, joined_end⟩, _, rfl, ?_⟩
      intro kv member
      exact (recorded_adjacent cfg false _ kv member).mono piece
    · have again := (rescanned_suffix (postGrammar cfg) s.postBuf data).trans data_end
      refine ⟨Carries.of_carry _ plain rfl again,
        _, rfl, ?_⟩
      intro kv member
      rw [recorded_append, List.mem_append] at member
      rcases member with later | first
      · exact (recorded_adjacent cfg false _ kv later).mono again.isInfix
      · exact (recorded_adjacent cfg false _ kv first).mono piece

theorem chunks_adjacent (cfg : Configuration) (s : Session) (received : Bytes)
    (chunks : List Bytes) (posts : 0 < cfg.catchPost.length) (carries : Carries cfg received s) :
    Carries cfg (received ++ chunks.flatten) (chunks.foldl (requestBody cfg) s) ∧
      ∃ added, (chunks.foldl (requestBody cfg) s).proplist = added ++ s.proplist ∧
        ∀ kv ∈ added, Adjacent (received ++ chunks.flatten) kv := by
  induction chunks generalizing s received with
  | nil => exact ⟨by simpa using carries, [], rfl, List.forall_mem_nil _⟩
  | cons data chunks ih =>
      obtain ⟨carries', first, grown, adjacent⟩ :=
        requestBody_adjacent cfg s received data posts carries
      obtain ⟨carries'', later, grown', adjacent'⟩ :=
        ih (requestBody cfg s data) (received ++ data) carries'
      rw [List.append_assoc] at carries'' adjacent'
      refine ⟨carries'', later ++ first, by rw [List.foldl_cons, grown', grown, List.append_assoc], ?_⟩
      intro kv member
      rw [List.mem_append] at member
      rcases member with new | old
      · exact adjacent' kv new
      · refine (adjacent kv old).mono ?_
        rw [List.flatten_cons, ← List.append_assoc]
        exact (List.prefix_append _ _).isInfix

theorem carries_start (cfg : Configuration) (s : Session)
    (plain : s.requestMultipart ≠ IS_MULTIPART) (fresh : s.postBuf = []) : Carries cfg [] s := by
  refine ⟨plain, ?_, ?_, ?_, Or.inl ?_⟩ <;> simp [fresh, POST_BUF_LENGTH, start, since]

/-- No body parameter is spliced together from bytes that were apart. -/
theorem bodyRun_adjacent (cfg : Configuration) (s : Session) (chunks : List Bytes) (now : Moment)
    (plain : s.requestMultipart ≠ IS_MULTIPART) (fresh : s.postBuf = []) :
    ∃ added, (bodyRun cfg s chunks now).proplist = added ++ s.proplist ∧
      ∀ kv ∈ added, kv.type = .post ∧ ∃ k v, k ++ 61 :: v <:+: chunks.flatten ∧ 61 ∉ k ∧
        kv.key.bytes = k.map tolower ∧ kv.value.bytes = v := by
  by_cases posts : 0 < cfg.catchPost.length
  · have initial := carries_start cfg s plain fresh
    obtain ⟨carries, added, grown, adjacent⟩ := chunks_adjacent cfg s [] chunks posts initial
    rw [List.nil_append] at carries adjacent
    refine ⟨recorded .post (captured (postGrammar cfg) true
      (chunks.foldl (requestBody cfg) s).postBuf) ++ added, ?_, ?_⟩
    · rw [bodyRun, requestComplete_eq _ _ _ posts, Session.record, sessionTimeMark_proplist, grown,
        ← List.append_assoc]
    · intro kv member
      rw [List.mem_append] at member
      rcases member with last | old
      · exact (recorded_adjacent cfg true _ kv last).mono carries.inside
      · exact adjacent kv old
  · exact ⟨[], bodyRun_nothing cfg s chunks now posts, List.forall_mem_nil _⟩

theorem bodyRun_adjacent_key :
    ∃ added, (bodyRun catchAll sessionInit [asc "ab", asc "c=1&d"] default).proplist =
        added ++ sessionInit.proplist ∧
      ∀ kv ∈ added, kv.type = .post ∧
        ∃ k v, k ++ 61 :: v <:+: [asc "ab", asc "c=1&d"].flatten ∧ 61 ∉ k ∧
          kv.key.bytes = k.map tolower ∧ kv.value.bytes = v :=
  bodyRun_adjacent catchAll sessionInit [asc "ab", asc "c=1&d"] default (by decide) rfl

end Bscope
