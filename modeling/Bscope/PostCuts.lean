import Bscope.PostBody

set_option autoImplicit false

namespace Bscope

open Scanner

/-- A cutting of a body that the capture does not show: no inner cut falls where
the last parameter begun is a wanted pair already closed by a delimiter, and when
the body itself ends so, its last chunk begins no parameter behind a carried one. -/
structure CutsClean (g : Grammar UInt8) (chunks : List Bytes) : Prop where
  inner : ∀ front back, chunks = front ++ back → back ≠ [] → ¬ Settled g front.flatten
  last : ∀ front d, chunks = front ++ [d] → Settled g chunks.flatten →
    begun g front.flatten = [] ∨
      (begun g front.flatten).length = (begun g chunks.flatten).length

variable (g : Grammar UInt8)

/-- The text carried over after the bytes `t`. -/
def carriedText (t : Bytes) : Bytes := since g (scan g start t)

/-- What scanning the carried text once more emits. -/
def repeats (t : Bytes) : List (Bytes × Bytes) := emits g start (carriedText g t)

/-- What the second scan of a chunk emits, when the first one met a later key. -/
def restart (t d : Bytes) : List (Bytes × Bytes) :=
  if carriedText g t = [] ∨ carriedText g (t ++ d) = carriedText g t ++ d then []
  else repeats g (t ++ d)

/-- What the chunks behind `t` emit. -/
def pieces : Bytes → List Bytes → List (Bytes × Bytes)
  | _, [] => []
  | t, d :: chunks =>
      repeats g t ++ emits g (scan g start t) d ++ restart g t d ++ pieces (t ++ d) chunks

theorem repeats_eq_nil_iff (t : Bytes) : repeats g t = [] ↔ ¬ Settled g t := by
  rw [← emits_since_ne_nil_iff, not_not]
  rfl

theorem restart_eq_nil_iff (t d : Bytes) :
    restart g t d = [] ↔ (Settled g (t ++ d) →
      begun g t = [] ∨ (begun g t).length = (begun g (t ++ d)).length) := by
  unfold restart
  by_cases empty : carriedText g t = []
  · simp [empty, (since_eq_nil_iff g t).mp empty]
  · have nonempty : begun g t ≠ [] := fun none => empty ((since_eq_nil_iff g t).mpr none)
    rw [← since_extends_iff g t d empty]
    by_cases grown : carriedText g (t ++ d) = carriedText g t ++ d
    · rw [if_pos (Or.inr grown)]
      simp only [true_iff]
      exact fun _ => Or.inr grown
    · rw [if_neg (by simp [empty, grown]), repeats_eq_nil_iff]
      constructor
      · exact fun unsettled settled => absurd settled unsettled
      · intro implies settled
        rcases implies settled with none | same
        · exact nonempty none
        · exact grown same

/-- No chunk repeats anything. -/
def Silent : Bytes → List Bytes → Prop
  | _, [] => True
  | t, d :: chunks => repeats g t = [] ∧ restart g t d = [] ∧ Silent (t ++ d) chunks

theorem pieces_length (t : Bytes) (chunks : List Bytes) :
    (emits g (scan g start t) chunks.flatten).length ≤ (pieces g t chunks).length := by
  induction chunks generalizing t with
  | nil => simp [pieces]
  | cons d chunks ih =>
      have rest := ih (t ++ d)
      rw [scan_append] at rest
      simp only [pieces, List.flatten_cons, emits_append, List.length_append]
      omega

theorem pieces_of_silent (t : Bytes) (chunks : List Bytes) (silent : Silent g t chunks) :
    pieces g t chunks = emits g (scan g start t) chunks.flatten := by
  induction chunks generalizing t with
  | nil => rfl
  | cons d chunks ih =>
      obtain ⟨again, restarted, rest⟩ := silent
      rw [pieces, again, restarted, ih (t ++ d) rest, scan_append, List.flatten_cons, emits_append]
      simp

theorem silent_of_length (t : Bytes) (chunks : List Bytes)
    (same : (pieces g t chunks).length = (emits g (scan g start t) chunks.flatten).length) :
    Silent g t chunks := by
  induction chunks generalizing t with
  | nil => trivial
  | cons d chunks ih =>
      have rest := pieces_length g (t ++ d) chunks
      rw [scan_append] at rest
      simp only [pieces, List.flatten_cons, emits_append, List.length_append] at same
      refine ⟨List.length_eq_zero_iff.mp (by omega), List.length_eq_zero_iff.mp (by omega),
        ih (t ++ d) ?_⟩
      rw [scan_append]
      omega

theorem silent_iff (t : Bytes) (chunks : List Bytes) :
    Silent g t chunks ↔
      (∀ front back, chunks = front ++ back → back ≠ [] → ¬ Settled g (t ++ front.flatten)) ∧
      (∀ front d, chunks = front ++ [d] → Settled g (t ++ chunks.flatten) →
        begun g (t ++ front.flatten) = [] ∨
          (begun g (t ++ front.flatten)).length = (begun g (t ++ chunks.flatten)).length) := by
  induction chunks generalizing t with
  | nil => simp [Silent]
  | cons d chunks ih =>
      rw [Silent, ih (t ++ d), repeats_eq_nil_iff, restart_eq_nil_iff]
      constructor
      · rintro ⟨here, restarted, inner, last⟩
        constructor
        · intro front back split nonempty
          cases front with
          | nil => simpa using here
          | cons d' front =>
              obtain ⟨rfl, rest⟩ := List.cons_eq_cons.mp split
              simpa using inner front back rest nonempty
        · intro front e split settled
          cases front with
          | nil =>
              obtain ⟨rfl, rfl⟩ := List.cons_eq_cons.mp split
              simp only [List.flatten_cons, List.flatten_nil, List.append_nil] at settled ⊢
              exact restarted settled
          | cons d' front =>
              obtain ⟨rfl, rest⟩ := List.cons_eq_cons.mp split
              simpa using last front e rest (by simpa using settled)
      · rintro ⟨inner, last⟩
        refine ⟨by simpa using inner [] (d :: chunks) rfl (List.cons_ne_nil d chunks), ?_, ?_, ?_⟩
        · intro settled
          cases chunks with
          | nil => simpa using last [] d rfl (by simpa using settled)
          | cons e chunks =>
              refine absurd settled ?_
              simpa using inner [d] (e :: chunks) rfl (List.cons_ne_nil e chunks)
        · intro front back split nonempty
          simpa using inner (d :: front) back (by rw [split, List.cons_append]) nonempty
        · intro front e split settled
          simpa using last (d :: front) e (by rw [split, List.cons_append]) (by simpa using settled)

theorem silent_iff_clean (chunks : List Bytes) : Silent g [] chunks ↔ CutsClean g chunks := by
  rw [silent_iff]
  simp only [List.nil_append]
  exact ⟨fun ⟨inner, last⟩ => ⟨inner, last⟩, fun clean => ⟨clean.inner, clean.last⟩⟩

theorem carriedText_suffix (t : Bytes) : carriedText g t <:+ t := since_suffix g t

theorem carriedText_resumed (t d : Bytes) :
    carriedText g (carriedText g t ++ d) = carriedText g (t ++ d) := by
  simp only [carriedText, scan_append, scan_since]

theorem carry_free (text : Bytes) (free : 0 ∉ text) (small : text.length < POST_BUF_LENGTH) :
    carry g text = carriedText g text := by
  have fits := (carriedText_suffix g text).length_le
  have same : unfinished g text = carriedText g text := if_neg free
  rw [carry, same, if_pos (by omega)]

theorem joined_fits (carried d : Bytes) (small : (carried ++ d).length < POST_BUF_LENGTH) :
    joined carried d = carried ++ d := by
  rw [List.length_append] at small
  rw [joined, List.take_of_length_le (by omega)]

theorem keyStart_zero_iff (t d : Bytes) (carried : carriedText g t ≠ []) :
    keyStart g (carriedText g t ++ d) = some 0 ↔
      carriedText g (t ++ d) = carriedText g t ++ d := by
  have fits := (carriedText_suffix g (carriedText g t ++ d)).length_le
  rw [carriedText_resumed] at fits
  constructor
  · intro key
    obtain ⟨rest, -⟩ := drop_keyStart g _ 0 key
    rw [List.drop_zero] at rest
    exact (carriedText_resumed g t d).symm.trans rest.symm
  · intro grown
    have same : since g (scan g start (carriedText g t ++ d)) = carriedText g t ++ d :=
      (carriedText_resumed g t d).trans grown
    rw [keyStart, same, if_neg (by simp [carried]), Nat.sub_self]

/-- Behind a later key the second scan starts at that key. -/
theorem rescanned_free (t d : Bytes) (free : 0 ∉ carriedText g t ++ d)
    (small : (carriedText g t ++ d).length < POST_BUF_LENGTH) (carried : carriedText g t ≠ [])
    (moved : carriedText g (t ++ d) ≠ carriedText g t ++ d) :
    rescanned g (carriedText g t) d = carriedText g (t ++ d) := by
  rcases since_append g t d carried with grown | ⟨⟨front, whole⟩, nonempty⟩
  · exact absurd grown moved
  · rw [rescanned, joined_fits _ d small, if_neg free]
    have later : since g (scan g start (carriedText g t ++ d)) = carriedText g (t ++ d) :=
      carriedText_resumed g t d
    change front ++ carriedText g (t ++ d) = d at whole
    have size := congrArg List.length whole
    rw [List.length_append] at size
    rw [keyStart, later, if_neg (by exact nonempty)]
    dsimp only
    rw [List.length_append, show (carriedText g t).length + d.length -
      (carriedText g (t ++ d)).length - (carriedText g t).length = front.length by omega]
    conv_lhs => rw [← whole]
    exact List.drop_left

section Run

variable (cfg : Configuration) (s : Session)

/-- One chunk of a NUL-free body that the buffer holds. -/
theorem requestBody_pieces (t d : Bytes) (posts : 0 < cfg.catchPost.length)
    (plain : s.requestMultipart ≠ IS_MULTIPART) (free : 0 ∉ t ++ d)
    (small : (t ++ d).length < POST_BUF_LENGTH)
    (carried : s.postBuf = carriedText (postGrammar cfg) t) :
    requestBody cfg s d =
      (s.record .post (repeats (postGrammar cfg) t ++
        emits (postGrammar cfg) (scan (postGrammar cfg) start t) d ++
        restart (postGrammar cfg) t d)).carrying (carriedText (postGrammar cfg) (t ++ d)) := by
  have part := carriedText_suffix (postGrammar cfg) t
  have fits := part.length_le
  have joined_small : (carriedText (postGrammar cfg) t ++ d).length < POST_BUF_LENGTH := by
    rw [List.length_append] at small ⊢
    omega
  have joined_free : 0 ∉ carriedText (postGrammar cfg) t ++ d := by
    rw [List.mem_append, not_or] at free ⊢
    exact ⟨fun nul => free.1 (part.subset nul), free.2⟩
  rw [List.length_append] at small
  rw [requestBody_eq cfg s d posts plain (by rw [carried]; omega), carried]
  by_cases empty : carriedText (postGrammar cfg) t = []
  · have afresh := scan_eq_start (postGrammar cfg) t empty
    have free_d : 0 ∉ d := fun nul => free (List.mem_append_right t nul)
    have whole : carriedText (postGrammar cfg) (t ++ d) = carriedText (postGrammar cfg) d := by
      rw [carriedText, scan_append, afresh]
      rfl
    rw [if_pos empty, captured_of_free _ d free_d, carry_free _ d free_d (by omega), whole, repeats,
      restart, if_pos (Or.inl empty), afresh, empty]
    simp only [emits_nil, List.nil_append, List.append_nil]
  · rw [if_neg empty, joined_fits _ d joined_small, captured_of_free _ _ joined_free]
    have emitted : emits (postGrammar cfg) start (carriedText (postGrammar cfg) t ++ d) =
        repeats (postGrammar cfg) t ++
          emits (postGrammar cfg) (scan (postGrammar cfg) start t) d := by
      rw [emits_append, carriedText, scan_since]
      rfl
    rw [emitted]
    by_cases grown : carriedText (postGrammar cfg) (t ++ d) = carriedText (postGrammar cfg) t ++ d
    · rw [if_pos ⟨joined_free, (keyStart_zero_iff _ t d empty).mpr grown⟩, restart,
        if_pos (Or.inr grown), List.append_nil, grown]
    · rw [if_neg (fun stays => grown ((keyStart_zero_iff _ t d empty).mp stays.2)), restart,
        if_neg (by simp [empty, grown]),
        rescanned_free _ t d joined_free joined_small empty grown]
      have rest := carriedText_suffix (postGrammar cfg) (t ++ d)
      have rest_free : 0 ∉ carriedText (postGrammar cfg) (t ++ d) :=
        fun nul => free (rest.subset nul)
      have rest_small := rest.length_le
      rw [List.length_append] at rest_small
      have again : carriedText (postGrammar cfg) (carriedText (postGrammar cfg) (t ++ d)) =
          carriedText (postGrammar cfg) (t ++ d) := since_idem (postGrammar cfg) (t ++ d)
      rw [captured_of_free _ _ rest_free, carry_free _ _ rest_free (by omega), again]
      rfl

/-- A NUL-free body that the buffer holds, chunk after chunk. -/
theorem chunks_pieces (t : Bytes) (chunks : List Bytes) (posts : 0 < cfg.catchPost.length)
    (plain : s.requestMultipart ≠ IS_MULTIPART) (free : 0 ∉ t ++ chunks.flatten)
    (small : (t ++ chunks.flatten).length < POST_BUF_LENGTH)
    (carried : s.postBuf = carriedText (postGrammar cfg) t) :
    (chunks.foldl (requestBody cfg) s).proplist =
        recorded .post (pieces (postGrammar cfg) t chunks) ++ s.proplist ∧
      (chunks.foldl (requestBody cfg) s).postBuf =
        carriedText (postGrammar cfg) (t ++ chunks.flatten) := by
  induction chunks generalizing s t with
  | nil => exact ⟨rfl, by simpa using carried⟩
  | cons d chunks ih =>
      rw [List.flatten_cons, ← List.append_assoc] at free small ⊢
      have first_free : 0 ∉ t ++ d := fun nul => free (List.mem_append_left _ nul)
      have first_small : (t ++ d).length < POST_BUF_LENGTH := by
        rw [List.length_append] at small
        omega
      have stepped := requestBody_pieces cfg s t d posts plain first_free first_small carried
      have plain' : (requestBody cfg s d).requestMultipart ≠ IS_MULTIPART := by
        rw [stepped]
        exact plain
      have carried' : (requestBody cfg s d).postBuf = carriedText (postGrammar cfg) (t ++ d) := by
        rw [stepped]
        rfl
      obtain ⟨grown, kept⟩ := ih (requestBody cfg s d) (t ++ d) plain' free small carried'
      refine ⟨?_, kept⟩
      rw [List.foldl_cons, grown, stepped, pieces, recorded_append]
      exact (List.append_assoc _ _ _).symm

theorem not_settled_of_none (none : ¬ 0 < cfg.catchPost.length) (t : Bytes) :
    ¬ Settled (postGrammar cfg) t := by
  have nobody : cfg.catchPost = [] := List.length_eq_zero_iff.mp (by omega)
  rintro ⟨-, u, -, wanted⟩
  have never : pair (postGrammar cfg) u = Option.none := by
    simp [pair, postGrammar, paramGrammar, isInList, nobody]
  rw [never] at wanted
  cases wanted

/-- Where a body is cut shows in the captured parameters exactly when a cut, or
the end of a cut body, meets a closed parameter that is still carried over. -/
theorem bodyRun_cut_iff (chunks : List Bytes) (now : Moment)
    (plain : s.requestMultipart ≠ IS_MULTIPART) (fresh : s.postBuf = [])
    (free : 0 ∉ chunks.flatten) (small : chunks.flatten.length < POST_BUF_LENGTH) :
    (bodyRun cfg s chunks now).proplist = (bodyRun cfg s [chunks.flatten] now).proplist ↔
      CutsClean (postGrammar cfg) chunks := by
  by_cases posts : 0 < cfg.catchPost.length
  · obtain ⟨cut, kept⟩ := chunks_pieces cfg s [] chunks posts plain free small fresh
    obtain ⟨whole, kept'⟩ := chunks_pieces cfg s [] [chunks.flatten] posts plain
      (by simpa using free) (by simpa using small) fresh
    rw [List.flatten_singleton] at kept'
    have single : pieces (postGrammar cfg) [] [chunks.flatten] =
        emits (postGrammar cfg) start chunks.flatten := by
      simp [pieces, repeats, restart, carriedText, start, since]
    rw [single] at whole
    rw [bodyRun, bodyRun, requestComplete_eq _ _ _ posts, requestComplete_eq _ _ _ posts]
    simp only [Session.record, sessionTimeMark_proplist, cut, whole, kept, kept']
    rw [← silent_iff_clean]
    constructor
    · intro same
      have size := congrArg List.length same
      simp only [List.length_append, recorded_length] at size
      exact silent_of_length _ [] chunks (by
        change _ = (emits (postGrammar cfg) start chunks.flatten).length
        omega)
    · intro silent
      rw [pieces_of_silent _ [] chunks silent]
      rfl
  · rw [bodyRun_nothing cfg s chunks now posts, bodyRun_nothing cfg s _ now posts]
    refine iff_of_true rfl ⟨fun front _ _ _ => not_settled_of_none cfg posts front.flatten, ?_⟩
    exact fun _ _ _ settled => absurd settled (not_settled_of_none cfg posts _)

theorem bodyRun_cut_iff_value :
    (bodyRun catchAll sessionInit [asc "aa=1", asc "2&bb=3"] default).proplist =
        (bodyRun catchAll sessionInit [asc "aa=12&bb=3"] default).proplist ↔
      CutsClean (postGrammar catchAll) [asc "aa=1", asc "2&bb=3"] :=
  bodyRun_cut_iff catchAll sessionInit [asc "aa=1", asc "2&bb=3"] default (by decide) rfl
    (by decide) (by decide)

/-- A cut right behind a delimiter records the parameter before it twice. -/
theorem bodyRun_cut_repeats :
    sessionInit.requestMultipart ≠ IS_MULTIPART ∧ sessionInit.postBuf = [] ∧
      0 ∉ asc "aa=1&bb=2" ∧ (asc "aa=1&bb=2").length < POST_BUF_LENGTH ∧
      [asc "aa=1&", asc "bb=2"].flatten = asc "aa=1&bb=2" ∧
      (bodyRun catchAll sessionInit [asc "aa=1&", asc "bb=2"] default).proplist ≠
        (bodyRun catchAll sessionInit [asc "aa=1&bb=2"] default).proplist := by
  decide

end Run

end Bscope
