import Mathlib.Data.List.TakeWhile

set_option autoImplicit false

/- Cutting a text into tokens, one call after another. -/
namespace Bscope.Tokens

variable {α : Type} (isSep : α → Bool)

/-- One call of `strtok`: the token behind the separators, and what stands behind
the separator that ends it. -/
def strtok (s : List α) : Option (List α × List α) :=
  match s.dropWhile isSep with
  | [] => none
  | c :: rest =>
      some ((c :: rest).takeWhile (!isSep ·), ((c :: rest).dropWhile (!isSep ·)).tail)

/-- The pieces between separators that are not empty. -/
def tokens (s : List α) : List (List α) := (s.splitOnP isSep).filter (!·.isEmpty)

@[simp] theorem tokens_nil : tokens isSep [] = [] := by
  simp [tokens]

theorem tokens_cons_sep (c : α) (s : List α) (sep : isSep c = true) :
    tokens isSep (c :: s) = tokens isSep s := by
  simp [tokens, List.splitOnP_cons_eq_if_modifyHead, sep]

theorem tokens_dropWhile (s : List α) : tokens isSep (s.dropWhile isSep) = tokens isSep s := by
  induction s with
  | nil => rfl
  | cons c s ih =>
      cases sep : isSep c
      · rw [List.dropWhile_cons_of_neg (by simp [sep])]
      · rw [List.dropWhile_cons_of_pos sep, ih, tokens_cons_sep isSep c s sep]

/-- A token and a separator in front of a text. -/
theorem tokens_append_cons (t : List α) (c : α) (s : List α) (plain : ∀ a ∈ t, isSep a = false)
    (sep : isSep c = true) (nonempty : t ≠ []) :
    tokens isSep (t ++ c :: s) = t :: tokens isSep s := by
  unfold tokens
  rw [List.splitOnP_append_cons_of_forall_mem plain c sep, List.filter_cons_of_pos]
  simpa using nonempty

theorem tokens_single (t : List α) (plain : ∀ a ∈ t, isSep a = false) (nonempty : t ≠ []) :
    tokens isSep t = [t] := by
  unfold tokens
  rw [List.splitOnP_eq_singleton plain, List.filter_cons_of_pos]
  · rfl
  · simpa using nonempty

/-- Texts with a separator behind each. -/
theorem tokens_flatMap (ts : List (List α)) (c : α) (sep : isSep c = true)
    (plain : ∀ t ∈ ts, t ≠ [] ∧ ∀ a ∈ t, isSep a = false) :
    tokens isSep (ts.flatMap (· ++ [c])) = ts := by
  induction ts with
  | nil => exact tokens_nil isSep
  | cons t ts ih =>
      have ⟨nonempty, own⟩ := plain t List.mem_cons_self
      rw [List.flatMap_cons, List.append_assoc, List.singleton_append,
        tokens_append_cons isSep t c _ own sep nonempty, ih]
      intro t' member
      exact plain t' (List.mem_cons_of_mem t member)

/-- What is found is a token, and the rest has the tokens behind it. -/
theorem strtok_some (s t rest : List α) (found : strtok isSep s = some (t, rest)) :
    tokens isSep s = t :: tokens isSep rest ∧ rest.length < s.length := by
  unfold strtok at found
  have shorter := (List.dropWhile_suffix isSep (l := s)).length_le
  rw [← tokens_dropWhile]
  cases kept : s.dropWhile isSep with
  | nil => rw [kept] at found; cases found
  | cons c text =>
      rw [kept] at found shorter
      obtain ⟨rfl, rfl⟩ := Prod.ext_iff.mp (Option.some.inj found)
      have first : isSep c = false := by
        have stopped := List.head_dropWhile_not isSep (l := s) (by simp [kept])
        simpa only [kept, List.head_cons, Bool.not_eq_true] using stopped
      have plain : ∀ a ∈ (c :: text).takeWhile (!isSep ·), isSep a = false := by
        intro a member
        simpa using List.mem_takeWhile_imp member
      have nonempty : (c :: text).takeWhile (!isSep ·) ≠ [] := by
        rw [List.takeWhile_cons_of_pos (by simp [first])]
        exact List.cons_ne_nil _ _
      have cut := List.takeWhile_append_dropWhile (p := (!isSep ·)) (l := c :: text)
      have sizes := congrArg List.length cut
      rw [List.length_append] at sizes
      have positive := List.length_pos_iff.mpr nonempty
      constructor
      · cases back : (c :: text).dropWhile (!isSep ·) with
        | nil =>
            rw [back, List.append_nil] at cut
            rw [List.tail_nil, tokens_nil, ← tokens_single isSep _ plain nonempty, cut]
        | cons d more =>
            have sep : isSep d = true := by
              have stopped := List.head_dropWhile_not (!isSep ·) (l := c :: text) (by simp [back])
              simpa only [back, List.head_cons, Bool.not_eq_true, Bool.not_eq_false'] using stopped
            rw [List.tail_cons, ← tokens_append_cons isSep _ d more plain sep nonempty, ← back, cut]
      · rw [List.length_tail]
        omega

theorem strtok_none (s : List α) (found : strtok isSep s = none) : tokens isSep s = [] := by
  unfold strtok at found
  rw [← tokens_dropWhile]
  cases kept : s.dropWhile isSep with
  | nil => exact tokens_nil isSep
  | cons c text => rw [kept] at found; cases found

end Bscope.Tokens
