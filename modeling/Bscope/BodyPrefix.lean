import Bscope.Connection

set_option autoImplicit false

/- The fragments of a response body that the session keeps. -/
namespace Bscope

/-- The fragments kept with so many bytes held already. -/
def keep : Nat → List Bytes → List Bytes
  | _, [] => []
  | held, f :: fs =>
      if held + f.length < 65535 then f :: keep (held + f.length) fs else keep held fs

def fragment (f : Bytes) : BodyBuf := ⟨f, f.length⟩

theorem responseBody_keep (s : Session) (fs : List Bytes) (caught : s.isCatchResponseBody = true) :
    (fs.foldl responseBody s).responseBody =
      s.responseBody ++ (keep s.responseBodySize fs).map fragment := by
  induction fs generalizing s with
  | nil => exact (List.append_nil _).symm
  | cons f fs ih =>
      rw [List.foldl_cons, keep]
      by_cases fits : s.responseBodySize + f.length < 65535
      · have kept : responseBody s f =
            { s with
              responseBody := s.responseBody ++ [fragment f]
              responseBodySize := s.responseBodySize + f.length } := by
          unfold responseBody fragment
          rw [if_pos caught, if_pos fits, Nat.mod_eq_of_lt (by omega : f.length < 65536),
            Nat.mod_eq_of_lt (by omega : s.responseBodySize + f.length < 65536)]
        have still : (responseBody s f).isCatchResponseBody = true := by
          rw [kept]
          exact caught
        rw [ih (responseBody s f) still, kept, if_pos fits, List.map_cons]
        exact List.append_assoc s.responseBody [fragment f] _
      · have left_out : responseBody s f = s := by
          unfold responseBody
          rw [if_pos caught, if_neg fits]
        rw [left_out, ih s caught, if_neg fits]

theorem keep_head (held : Nat) (fs : List Bytes) (f : Bytes) (kept : List Bytes)
    (first : keep held fs = f :: kept) : held + f.length < 65535 := by
  induction fs with
  | nil => cases first
  | cons g fs ih =>
      rw [keep] at first
      split at first
      · obtain ⟨rfl, -⟩ := List.cons.inj first
        assumption
      · exact ih first

theorem keep_eq_nil_iff (held : Nat) (fs : List Bytes) :
    keep held fs = [] ↔ ∀ g ∈ fs, 65535 ≤ held + g.length := by
  induction fs with
  | nil => exact iff_of_true rfl (List.forall_mem_nil _)
  | cons f fs ih =>
      rw [keep, List.forall_mem_cons]
      split
      · rename_i fits
        apply iff_of_false (List.cons_ne_nil _ _)
        omega
      · rename_i full
        rw [ih]
        exact ⟨fun rest => ⟨by omega, rest⟩, And.right⟩

/-- Every fragment behind one that was left out is as much too long. -/
def Stops (held : Nat) (fs : List Bytes) : Prop :=
  ∀ front f later, fs = front ++ f :: later →
    65535 ≤ held + front.flatten.length + f.length →
      ∀ g ∈ later, 65535 ≤ held + front.flatten.length + g.length

theorem stops_cons_fits (held : Nat) (f : Bytes) (fs : List Bytes)
    (fits : held + f.length < 65535) : Stops held (f :: fs) ↔ Stops (held + f.length) fs := by
  constructor
  · intro stops front g later split
    have whole := stops (f :: front) g later (congrArg (f :: ·) split)
    rwa [List.flatten_cons, List.length_append, ← Nat.add_assoc] at whole
  · intro stops front g later split long
    cases front with
    | nil =>
        obtain ⟨rfl, -⟩ := List.cons.inj split
        exact absurd long (by simpa using fits)
    | cons f' front =>
        obtain ⟨rfl, rest⟩ := List.cons.inj split
        rw [List.flatten_cons, List.length_append, ← Nat.add_assoc] at long ⊢
        exact stops front g later rest long

theorem stops_cons_full (held : Nat) (f : Bytes) (fs : List Bytes)
    (full : 65535 ≤ held + f.length) :
    Stops held (f :: fs) ↔ ∀ g ∈ fs, 65535 ≤ held + g.length := by
  constructor
  · intro stops
    exact stops [] f fs rfl full
  · intro rest front g later split long h member
    cases front with
    | nil =>
        obtain ⟨rfl, rfl⟩ := List.cons.inj split
        exact rest h member
    | cons f' front =>
        obtain ⟨rfl, -⟩ := List.cons.inj split
        rw [List.flatten_cons, List.length_append]
        omega

/-- What is kept are the first fragments exactly when nothing follows a gap. -/
theorem keep_isPrefix_iff (held : Nat) (fs : List Bytes) : keep held fs <+: fs ↔ Stops held fs := by
  induction fs generalizing held with
  | nil =>
      apply iff_of_true List.prefix_rfl
      intro front f later split
      exact absurd split.symm (List.append_ne_nil_of_right_ne_nil front (List.cons_ne_nil f later))
  | cons f fs ih =>
      rw [keep]
      by_cases fits : held + f.length < 65535
      · rw [if_pos fits, List.cons_prefix_cons, stops_cons_fits held f fs fits, ih]
        exact and_iff_right rfl
      · rw [if_neg fits, stops_cons_full held f fs (by omega), ← keep_eq_nil_iff]
        constructor
        · intro front
          cases kept : keep held fs with
          | nil => rfl
          | cons g rest =>
              rw [kept, List.cons_prefix_cons] at front
              obtain ⟨rfl, -⟩ := front
              exact absurd (keep_head held fs g rest kept) fits
        · intro none
          rw [none]
          exact List.nil_prefix

/-- The kept fragments, as they are packed, are the first of the response, and so
their bytes a prefix of its body, exactly when every fragment behind one that was
left out is left out. -/
theorem responseBody_prefix (cfg : Configuration) (s : Session) (statusCode : StatusCode)
    (fs : List Bytes) (selected : cfg.catchCode statusCode = true) :
    let heard := responseHeadersComplete cfg s statusCode
    ∃ kept, (fs.foldl responseBody heard).responseBody = s.responseBody ++ kept.map fragment ∧
      ((kept.map fragment).map fun b => b.data.take b.size) = kept ∧
      (kept.flatten <+: fs.flatten ∧ kept <+: fs ↔ Stops s.responseBodySize fs) := by
  refine ⟨keep s.responseBodySize fs, responseBody_keep _ fs selected, ?_, ?_⟩
  · rw [List.map_map]
    have whole : (fun b : BodyBuf => b.data.take b.size) ∘ fragment = id := by
      funext f
      exact List.take_length
    rw [whole, List.map_id]
  · rw [← keep_isPrefix_iff]
    constructor
    · exact And.right
    · intro front
      obtain ⟨rest, whole⟩ := front
      refine ⟨⟨rest.flatten, ?_⟩, rest, whole⟩
      rw [← List.flatten_append, whole]

theorem responseBody_prefix_small :
    ∃ kept, ([asc "ab", asc "cd"].foldl responseBody
        (responseHeadersComplete catchAll sessionInit 200)).responseBody = kept.map fragment ∧
      kept <+: [asc "ab", asc "cd"] := by
  obtain ⟨kept, held, -, stops⟩ := responseBody_prefix catchAll sessionInit 200
    [asc "ab", asc "cd"] rfl
  refine ⟨kept, held, (stops.mpr ?_).2⟩
  rw [stops_cons_fits _ _ _ (by decide), stops_cons_fits _ _ _ (by decide)]
  intro front f later split
  exact absurd split.symm (List.append_ne_nil_of_right_ne_nil front (List.cons_ne_nil f later))

/-- The second of three fragments is left out and the third kept. -/
theorem keep_gap (s : Session) (a b c : Bytes) (caught : s.isCatchResponseBody = true)
    (fresh : s.responseBody = [] ∧ s.responseBodySize = 0)
    (fits : a.length + c.length < 65535) (full : 65535 ≤ a.length + b.length)
    (other : b.head? ≠ c.head?) (some_byte : c ≠ []) :
    ([a, b, c].foldl responseBody s).responseBody = [fragment a, fragment c] ∧
      ¬ [a, c].flatten <+: [a, b, c].flatten := by
  constructor
  · rw [responseBody_keep s _ caught, fresh.1, fresh.2, keep, if_pos (by omega), keep,
      if_neg (by omega), keep, if_pos (by omega), keep]
    rfl
  · change ¬ a ++ (c ++ []) <+: a ++ (b ++ (c ++ []))
    rw [List.prefix_append_right_inj]
    intro front
    obtain ⟨x, c', rfl⟩ := List.exists_cons_of_ne_nil some_byte
    cases b with
    | nil =>
        rw [List.length_nil] at full
        omega
    | cons y b' =>
        rw [List.cons_append, List.cons_append, List.cons_prefix_cons] at front
        exact other (congrArg some front.1.symm)

theorem responseBody_prefix_gap :
    let fs := [List.replicate 40000 1, List.replicate 30000 2, List.replicate 20000 3]
    (fs.foldl responseBody (responseHeadersComplete catchAll sessionInit 200)).responseBody =
        [fragment (List.replicate 40000 1), fragment (List.replicate 20000 3)] ∧
      ¬ [List.replicate 40000 1, List.replicate 20000 3].flatten <+: fs.flatten := by
  apply keep_gap _ _ _ _ rfl ⟨rfl, rfl⟩
  · rw [List.length_replicate, List.length_replicate]
    decide
  · rw [List.length_replicate, List.length_replicate]
    decide
  · rw [List.head?_replicate, List.head?_replicate]
    decide
  · rw [Ne, List.replicate_eq_nil_iff]
    decide

end Bscope
