import Bscope.Filings
import Bscope.ReportPairs

set_option autoImplicit false

/- The value of a captured header on its way into the message. -/
namespace Bscope

/-- `urldecode` has nothing to do at this place: no '+', and a '%' only where too
little is left to decode. -/
def PlainAt (v : Bytes) (i : Nat) : Prop :=
  v.getD i 0 ≠ 43 ∧
    (v.getD i 0 = 37 → i + 1 = v.length ∨ i + 2 = v.length ∧ v.getD (i + 1) 0 ≠ 37)

/-- The values that `urldecode` leaves as they are. -/
def Verbatim (v : Bytes) : Prop := ∀ i < v.length, PlainAt v i

theorem getD_set_other (p : Bytes) (j k : Nat) (c : UInt8) (other : k ≠ j) :
    (p.set j c).getD k 0 = p.getD k 0 := by
  rw [List.getD_eq_getElem?_getD, List.getD_eq_getElem?_getD, List.getElem?_set_ne other.symm]

theorem getD_set_here (p : Bytes) (j : Nat) (c : UInt8) (inside : j < p.length) :
    (p.set j c).getD j 0 = c := by
  rw [List.getD_eq_getElem?_getD, List.getElem?_set_self inside, Option.getD_some]

theorem set_getD (p : Bytes) (j : Nat) : p.set j (p.getD j 0) = p := by
  by_cases inside : j < p.length
  · rw [List.getD_eq_getElem p 0 inside, List.set_getElem_self]
  · exact List.set_eq_of_length_le (by omega)

theorem urldecodeLoop_succ (l fuel : Nat) (p : Bytes) (i j : Nat) (more : i < l) :
    urldecodeLoop l (fuel + 1) p i j =
      if p.getD i 0 = 37 then
        if i + 1 < l ∧ p.getD (i + 1) 0 = 37 then
          urldecodeLoop l fuel (p.set j 37) (i + 2) (j + 1)
        else if i + 2 < l then
          urldecodeLoop l fuel
            (p.set j (strtoulHex (p.getD (i + 1) 0) (p.getD (i + 2) 0)).toUInt8) (i + 3) (j + 1)
        else urldecodeLoop l fuel p (i + 1) (j + 1)
      else if p.getD i 0 = 43 then urldecodeLoop l fuel (p.set j 32) (i + 1) (j + 1)
      else urldecodeLoop l fuel (p.set j (p.getD i 0)) (i + 1) (j + 1) := if_pos more

/-- One round reads on, and changes at most the cell it writes. -/
theorem urldecodeLoop_round (l fuel : Nat) (p : Bytes) (i j : Nat) (more : i < l) :
    ∃ p' i', urldecodeLoop l (fuel + 1) p i j = urldecodeLoop l fuel p' i' (j + 1) ∧
      (∀ k ≠ j, p'.getD k 0 = p.getD k 0) ∧ i < i' ∧ i' ≤ l := by
  have other : ∀ c, ∀ k ≠ j, (p.set j c).getD k 0 = p.getD k 0 :=
    fun c k apart => getD_set_other p j k c apart
  rw [urldecodeLoop_succ l fuel p i j more]
  split
  · split
    · rename_i escaped
      exact ⟨_, _, rfl, other _, by omega, by omega⟩
    · split
      · rename_i coded
        exact ⟨_, _, rfl, other _, by omega, by omega⟩
      · exact ⟨_, _, rfl, fun _ _ => rfl, by omega, by omega⟩
  · split
    · exact ⟨_, _, rfl, other _, by omega, by omega⟩
    · exact ⟨_, _, rfl, other _, by omega, by omega⟩

theorem urldecodeLoop_done (l fuel : Nat) (p : Bytes) (i j : Nat) (done : l ≤ i) :
    urldecodeLoop l fuel p i j = (p, j) := by
  cases fuel with
  | zero => rfl
  | succ fuel =>
      unfold urldecodeLoop
      exact if_neg (by omega)

/-- The write position never moves back, and what it has fallen behind it stays behind. -/
theorem urldecodeLoop_behind (l fuel : Nat) (p : Bytes) (i j : Nat) (behind : j ≤ i)
    (within : i ≤ l) :
    (urldecodeLoop l fuel p i j).2 + (i - j) ≤ l := by
  induction fuel generalizing p i j with
  | zero =>
      rw [urldecodeLoop]
      omega
  | succ fuel ih =>
      by_cases more : i < l
      · obtain ⟨p', i', next, -, later, inside⟩ := urldecodeLoop_round l fuel p i j more
        have rest := ih p' i' (j + 1) (by omega) inside
        rw [next]
        omega
      · rw [urldecodeLoop_done l _ p i j (by omega)]
        dsimp only
        omega

/-- Cells behind the write position are final. -/
theorem urldecodeLoop_final (l fuel : Nat) (p : Bytes) (i j k : Nat) (passed : k < j) :
    (urldecodeLoop l fuel p i j).1.getD k 0 = p.getD k 0 ∧ k < (urldecodeLoop l fuel p i j).2 := by
  induction fuel generalizing p i j with
  | zero => exact ⟨rfl, passed⟩
  | succ fuel ih =>
      by_cases more : i < l
      · obtain ⟨p', i', next, same, -, -⟩ := urldecodeLoop_round l fuel p i j more
        obtain ⟨final, left⟩ := ih p' i' (j + 1) (by omega)
        rw [next]
        exact ⟨final.trans (same k (by omega)), left⟩
      · rw [urldecodeLoop_done l _ p i j (by omega)]
        exact ⟨rfl, passed⟩

section Value

variable (v : Bytes)

theorem getD_terminated (i : Nat) : (v ++ [0]).getD i 0 = v.getD i 0 := by
  rw [List.getD_eq_getElem?_getD, List.getD_eq_getElem?_getD, List.getElem?_append]
  split
  · rfl
  · rename_i beyond
    rw [List.getElem?_eq_none (by omega : v.length ≤ i)]
    cases i - v.length <;> rfl

/-- A plain place is copied onto itself. -/
theorem urldecodeLoop_plain (fuel i : Nat) (inside : i < v.length) (plain : PlainAt v i) :
    urldecodeLoop v.length (fuel + 1) (v ++ [0]) i i =
      urldecodeLoop v.length fuel (v ++ [0]) (i + 1) (i + 1) := by
  obtain ⟨no_plus, percent⟩ := plain
  rw [urldecodeLoop_succ _ _ _ _ _ inside, getD_terminated, getD_terminated, getD_terminated]
  by_cases sign : v.getD i 0 = 37
  · have escaped : ¬ (i + 1 < v.length ∧ v.getD (i + 1) 0 = 37) := by
      rintro ⟨more, again⟩
      rcases percent sign with last | ⟨-, other⟩
      · omega
      · exact other again
    have coded : ¬ i + 2 < v.length := by
      rcases percent sign with last | ⟨last, -⟩
      · omega
      · omega
    rw [if_pos sign, if_neg escaped, if_neg coded]
  · rw [if_neg sign, if_neg no_plus, ← getD_terminated, set_getD]

/-- At a place that is not plain a '+' becomes a space, and all else makes the
result shorter. -/
theorem urldecodeLoop_lost (fuel i : Nat) (inside : i < v.length) (lost : ¬ PlainAt v i) :
    (urldecodeLoop v.length (fuel + 1) (v ++ [0]) i i).2 < v.length ∨
      (urldecodeLoop v.length (fuel + 1) (v ++ [0]) i i).1.getD i 0 = 32 ∧ v.getD i 0 = 43 ∧
        i < (urldecodeLoop v.length (fuel + 1) (v ++ [0]) i i).2 := by
  have room : i < (v ++ [0]).length := by
    rw [List.length_append, List.length_singleton]
    omega
  rw [urldecodeLoop_succ _ _ _ _ _ inside, getD_terminated, getD_terminated, getD_terminated]
  by_cases sign : v.getD i 0 = 37
  · rw [if_pos sign]
    apply Or.inl
    split
    · have rest := urldecodeLoop_behind v.length fuel ((v ++ [0]).set i 37) (i + 2) (i + 1)
        (by omega) (by omega)
      omega
    · rename_i single
      split
      · have rest := urldecodeLoop_behind v.length fuel ((v ++ [0]).set i
          (strtoulHex (v.getD (i + 1) 0) (v.getD (i + 2) 0)).toUInt8) (i + 3) (i + 1)
          (by omega) (by omega)
        omega
      · rename_i short
        refine absurd ⟨?_, ?_⟩ lost
        · rw [sign]
          decide
        · intro _
          by_cases last : i + 1 = v.length
          · exact Or.inl last
          · exact Or.inr ⟨by omega, fun again => single ⟨by omega, again⟩⟩
  · have plus : v.getD i 0 = 43 := by
      by_contra other
      exact lost ⟨other, fun percent => absurd percent sign⟩
    rw [if_neg sign, if_pos plus]
    obtain ⟨final, left⟩ := urldecodeLoop_final v.length fuel ((v ++ [0]).set i 32) (i + 1) (i + 1) i
      (by omega)
    exact Or.inr ⟨final.trans (getD_set_here _ i 32 room), plus, left⟩

theorem urldecodeLoop_reaches (n : Nat) (within : n ≤ v.length)
    (plain : ∀ i < n, PlainAt v i) :
    urldecodeLoop v.length v.length (v ++ [0]) 0 0 =
      urldecodeLoop v.length (v.length - n) (v ++ [0]) n n := by
  induction n with
  | zero => rfl
  | succ n ih =>
      rw [ih (by omega) fun i earlier => plain i (by omega),
        show v.length - n = v.length - (n + 1) + 1 by omega]
      exact urldecodeLoop_plain v _ n (by omega) (plain n (by omega))

/-- The first place that is not plain shows in the result. -/
theorem urldecode_lost (i : Nat) (free : 0 ∉ v) (inside : i < v.length)
    (first : ∀ k < i, PlainAt v k) (lost : ¬ PlainAt v i) : urldecode (cstr v) ≠ cstr v := by
  have bytes : (cstr v).bytes = v := cstr_bytes_of_free v free
  have size : (cstr v).strlen = v.length := congrArg List.length bytes
  intro same
  unfold urldecode at same
  rw [bytes, size, urldecodeLoop_reaches v i (by omega) first,
    show v.length - i = v.length - (i + 1) + 1 by omega] at same
  have kept := urldecodeLoop_length v.length (v.length - (i + 1) + 1) (v ++ [0]) i i
  rw [List.length_append, List.length_singleton] at kept
  have ended := urldecodeLoop_lost v (v.length - (i + 1)) i inside lost
  generalize urldecodeLoop v.length (v.length - (i + 1) + 1) (v ++ [0]) i i = done at same kept ended
  rcases ended with short | ⟨space, plus, left⟩
  · have fewer := cstr_set_nul done.1 done.2 (by omega)
    rw [same, size] at fewer
    omega
  · obtain ⟨rest, whole⟩ := cstr_bytes_isPrefix (done.1.set done.2 0)
    rw [same, bytes] at whole
    have cell := getD_set_other done.1 done.2 i 0 (by omega)
    rw [← whole, List.getD_append _ _ _ _ inside, plus, space] at cell
    exact absurd cell (by decide)

/-- `urldecode` leaves a value as it is exactly when every place of it is plain. -/
theorem urldecode_eq_iff (free : 0 ∉ v) : urldecode (cstr v) = cstr v ↔ Verbatim v := by
  constructor
  · intro same
    suffices plain : ∀ n ≤ v.length, ∀ i < n, PlainAt v i from plain v.length (Nat.le_refl _)
    intro n within
    induction n with
    | zero => exact fun i below => absurd below (Nat.not_lt_zero i)
    | succ n ih =>
        have first := ih (by omega)
        intro i below
        by_cases earlier : i < n
        · exact first i earlier
        · obtain rfl : i = n := by omega
          by_contra lost
          exact urldecode_lost v i free (by omega) first lost same
  · intro plain
    unfold urldecode
    rw [show (cstr v).strlen = v.length from congrArg List.length (cstr_bytes_of_free v free),
      cstr_bytes_of_free v free, urldecodeLoop_reaches v v.length (Nat.le_refl _) plain,
      Nat.sub_self]
    change cstr ((v ++ [0]).set v.length 0) = cstr v
    rw [List.set_append_right v.length 0 (Nat.le_refl _), Nat.sub_self]
    exact cstr_append_nul v []

end Value

/-- The two lists of header names, each for one side of a connection. -/
inductive Side where
  | request | response

def Side.catches (cfg : Configuration) : Side → List CStr
  | .request => cfg.catchReqHead
  | .response => cfg.catchRspHead

def Side.kvType : Side → KvType
  | .request => .requestHeader
  | .response => .responseHeader

def Side.field (data : Bytes) : Side → Event
  | .request => .requestHeaderField data
  | .response => .reponseHeaderField data

def Side.value (data : Bytes) : Side → Event
  | .request => .requestHeaderValue data
  | .response => .reponseHeaderValue data

/-- The entry of a header whose name is on the list. -/
def headerKv (side : Side) (name value : Bytes) : Kv where
  key := (strndup name name.length).strtolower
  value := cstr value
  type := side.kvType

theorem headerKv_captured (ctx : Context) (c : Conn) (side : Side) (name value : Bytes)
    (now : Moment) (accepted : isInList name name.length (side.catches ctx.cfg)) :
    headerKv side name value ∈
      captures ctx.cfg (step ctx c (now, side.field name)).1.s (side.value value) := by
  cases side with
  | request =>
      have pending : (requestHeaderField ctx.cfg c.s name).lastRequestHeader =
          some (strndup name name.length).strtolower := by
        rw [requestHeaderField_eq]
        exact if_pos accepted
      change _ ∈ _ ++ headerEntries (requestHeaderField ctx.cfg c.s name).lastRequestHeader
        .requestHeader value
      apply List.mem_append_right
      rw [pending, headerEntries, strndup_length value]
      exact List.mem_singleton_self _
  | response =>
      have pending : (reponseHeaderField ctx.cfg c.s name).lastResponseHeader =
          some (strndup name name.length).strtolower := by
        unfold reponseHeaderField
        rw [if_pos (by exact accepted)]
      change _ ∈ headerEntries (reponseHeaderField ctx.cfg c.s name).lastResponseHeader
        .responseHeader value
      rw [pending, headerEntries, strndup_length value]
      exact List.mem_singleton_self _

theorem packStr_verbatim (value : Bytes) (free : 0 ∉ value) :
    packStr (urldecode (cstr value)) = .raw value.length [value] ↔ Verbatim value := by
  have bytes : (cstr value).bytes = value := cstr_bytes_of_free value free
  rw [← urldecode_eq_iff value free]
  constructor
  · intro same
    have pieces := (Packed.raw.inj same).2
    apply CStr.ext
    rw [bytes]
    exact List.singleton_inj.mp pieces
  · intro same
    rw [same, packStr, CStr.strlen, bytes]

/-- The entry is in the session when the value has come. -/
theorem headerKv_held (ctx : Context) (stat : Status) (front : List (Moment × Event)) (side : Side)
    (name value : Bytes) (now now' : Moment)
    (accepted : isInList name name.length (side.catches ctx.cfg)) :
    headerKv side name value ∈ (after ctx (connStart stat)
      (front ++ [(now, side.field name), (now', side.value value)])).s.proplist := by
  have room := room_after ctx (connStart stat) (front ++ [(now, side.field name)])
    (room_start stat)
  have captured_here := headerKv_captured ctx (after ctx (connStart stat) front) side name value now
    accepted
  have quiet := captures_quiet ctx (after ctx (connStart stat) (front ++ [(now, side.field name)]))
    (now', side.value value) (headerKv side name value)
  have split : front ++ [(now, side.field name), (now', side.value value)] =
      (front ++ [(now, side.field name)]) ++ [(now', side.value value)] := by
    rw [List.append_assoc]
    rfl
  unfold after at captured_here quiet room ⊢
  rw [Runs.after_snoc] at quiet room
  rw [split, Runs.after_snoc, Runs.after_snoc,
    step_proplist ctx _ now' (side.value value) room (quiet captured_here)]
  exact List.mem_append_left _ captured_here

/-- An entry of a session is packed as its key and its decoded value. -/
theorem entry_packed (ctx : Context) (f : Filing) (kv : Kv) (member : kv ∈ f.s.proplist) :
    ∃ before behind, (f.report ctx).objects =
      before ++ packStr (kvTypeString kv.type kv.key) :: packStr (urldecode kv.value) :: behind := by
  have pair : propPair kv ∈ reportPairs ctx f.s f.type f.now := by
    unfold reportPairs
    apply List.mem_append_left
    apply List.mem_append_right
    exact List.mem_map_of_mem member
  obtain ⟨first, rest, split⟩ := List.append_of_mem pair
  refine ⟨first.flatMap fun p => [packStr p.1, p.2], rest.flatMap fun p => [packStr p.1, p.2], ?_⟩
  rw [Filing.report, buildReport_objects, split, List.flatMap_append, List.flatMap_cons]
  rfl

/-- A report follows that packs the entry of the header, with the value as it came
exactly when it is plain. -/
theorem headerValue_reported (ctx : Context) (stat : Status) (front back : List (Moment × Event))
    (type : CloseType) (side : Side) (name value : Bytes) (now now' last : Moment)
    (accepted : isInList name name.length (side.catches ctx.cfg)) (free : 0 ∉ value)
    (reported : filings ctx (after ctx (connStart stat)
      (front ++ [(now, side.field name), (now', side.value value)])) back type last ≠ []) :
    ∃ f ∈ filings ctx (connStart stat)
        (front ++ (now, side.field name) :: (now', side.value value) :: back) type last,
      headerKv side name value ∈ f.s.proplist ∧
        ∃ before packed behind, (f.report ctx).objects =
            before ++ packStr (kvTypeString side.kvType (headerKv side name value).key) :: packed ::
              behind ∧
          (packed = .raw value.length [value] ↔ Verbatim value) := by
  have held := headerKv_held ctx stat front side name value now now' accepted
  have room := room_after ctx (connStart stat)
    (front ++ [(now, side.field name), (now', side.value value)]) (room_start stat)
  obtain ⟨f, filed, member⟩ := entry_filed ctx _ back type last room reported _ held
  obtain ⟨before, behind, packed⟩ := entry_packed ctx f _ member
  refine ⟨f, ?_, member, before, packStr (urldecode (cstr value)), behind, packed,
    packStr_verbatim value free⟩
  have later := filings_later ctx (connStart stat) (front ++ [(now, side.field name)])
    (now', side.value value) back type last f
  simp only [List.append_assoc, List.cons_append, List.nil_append] at later
  exact later filed

/-- A request with one captured header, on a connection that then closes. -/
def headerRun (value : Bytes) : List (Moment × Event) :=
  [(default, .requestBegin), (default, .requestHeaderField (asc "Accept")),
    (default, .requestHeaderValue value)]

theorem headerValue_reported_percent :
    ∃ f ∈ filings localContext (connStart statusInit) (headerRun (asc "q=9%")) .close default,
      ∃ before behind, (f.report localContext).objects =
        before ++ packStr (lit "req-accept") :: .raw 4 [asc "q=9%"] :: behind := by
  obtain ⟨f, filed, -, before, packed, behind, objects, plain⟩ :=
    headerValue_reported localContext statusInit [(default, .requestBegin)] [] .close .request
      (asc "Accept") (asc "q=9%") default default default (by decide) (by decide)
      (List.cons_ne_nil _ _)
  refine ⟨f, filed, before, behind, ?_⟩
  rw [objects, plain.mpr (by unfold Verbatim PlainAt; decide)]
  rfl

/-- A '+' in a header is reported as a space. -/
theorem headerValue_reported_plus :
    (allReports localContext (connStart statusInit) (headerRun (asc "a+b")) .close default).map
      (fun rp => rp.value (lit "req-accept")) = [some (.raw 3 [asc "a b"])] := by
  decide

end Bscope
