import Bscope.ScannerSegments

set_option autoImplicit false

/- Reading a text in pieces: what the text since the last key tells about the
pieces that follow it. -/
namespace Bscope.Scanner

variable {α : Type} [DecidableEq α] (g : Grammar α)

theorem since_idem (t : List α) :
    since g (scan g start (since g (scan g start t))) = since g (scan g start t) := by
  rw [scan_since]

/-- Nothing is carried exactly at the places where a scan starts afresh. -/
theorem scan_eq_start (t : List α) (none : since g (scan g start t) = []) :
    scan g start t = start := by
  have resumed := scan_since g t
  rw [none] at resumed
  exact resumed.symm

/-- More text extends what is carried, or a later key replaces it. -/
theorem since_append (t u : List α) (carried : since g (scan g start t) ≠ []) :
    since g (scan g start (t ++ u)) = since g (scan g start t) ++ u ∨
      since g (scan g start (t ++ u)) <:+ u ∧ since g (scan g start (t ++ u)) ≠ [] := by
  induction u using List.reverseRecOn with
  | nil => exact Or.inl (by simp)
  | append_singleton u a ih =>
      rw [← List.append_assoc, scan_snoc]
      rcases since_next g (scan g start (t ++ u)) a with same | fresh | ⟨before, _⟩
      · rw [same]
        rcases ih with extended | ⟨⟨front, later⟩, _⟩
        · exact Or.inl (by rw [extended, List.append_assoc])
        · exact Or.inr ⟨⟨front, by rw [← List.append_assoc, later]⟩, by simp⟩
      · rw [fresh]
        exact Or.inr ⟨List.suffix_append u [a], by simp⟩
      · rcases ih with extended | ⟨_, nonempty⟩
        · rw [before] at extended
          exact absurd (List.append_eq_nil_iff.mp extended.symm).1 carried
        · exact absurd before nonempty

/-- The next symbol begins a parameter. -/
def Opens (t : List α) (a : α) : Prop := param g (current g t) = [] ∧ g.starts a = true

theorem begun_snoc_opens (t : List α) (a : α) (opens : Opens g t a) :
    (begun g (t ++ [a])).length = (begun g t).length + 1 := by
  have other := not_split_of_starts g a opens.2
  rw [begun_eq, begun_eq, closed_snoc_other g t a other, current_snoc_other g t a other,
    param_snoc, if_pos opens.1, if_pos opens.2, if_pos opens.1]
  simp

theorem begun_snoc_stays (t : List α) (a : α) (stays : ¬ Opens g t a) :
    (begun g (t ++ [a])).length = (begun g t).length := by
  by_cases delimiter : a = g.split
  · rw [delimiter, begun_snoc_split]
  · by_cases outside : param g (current g t) = []
    · have padding : g.starts a = false := by simpa [Opens, outside] using stays
      rw [begun_snoc_padding g t a delimiter outside padding]
    · rw [begun_eq, begun_eq, closed_snoc_other g t a delimiter, current_snoc_other g t a delimiter,
        param_snoc, if_neg outside, if_neg outside, if_neg (by simp)]
      simp

theorem since_snoc_opens (t : List α) (a : α) (opens : Opens g t a) :
    since g (scan g start (t ++ [a])) = [a] := by
  have here := reached g t
  rw [scan_snoc]
  cases place : scan g start t with
  | ready trail => rw [next_ready, if_pos opens.2]; rfl
  | key name =>
      rw [place] at here
      exact absurd (here.1.symm.trans opens.1) here.2.1
  | value name text =>
      rw [place] at here
      exact absurd (here.1.symm.trans opens.1) (by simp)

theorem since_snoc_stays (t : List α) (a : α) (carried : since g (scan g start t) ≠ [])
    (stays : ¬ Opens g t a) :
    since g (scan g start (t ++ [a])) = since g (scan g start t) ++ [a] := by
  have here := reached g t
  rw [scan_snoc]
  cases place : scan g start t with
  | ready trail =>
      rw [place] at here carried
      rw [next_ready, if_neg (fun begins => stays ⟨here.1, begins⟩), if_neg (by exact carried)]
      rfl
  | key name =>
      rw [next_key]
      split
      · rename_i eq
        rw [eq]
        rfl
      · split <;> rfl
  | value name text =>
      rw [next_value]
      split
      · rfl
      · simp [since]

theorem begun_length_mono (t u : List α) :
    (begun g t).length ≤ (begun g (t ++ u)).length := by
  induction u using List.reverseRecOn with
  | nil => simp
  | append_singleton u a ih =>
      rw [← List.append_assoc]
      by_cases opens : Opens g (t ++ u) a
      · rw [begun_snoc_opens g (t ++ u) a opens]
        omega
      · rwa [begun_snoc_stays g (t ++ u) a opens]

/-- What is carried only grows exactly when no further parameter begins. -/
theorem since_extends_iff (t u : List α) (carried : since g (scan g start t) ≠ []) :
    since g (scan g start (t ++ u)) = since g (scan g start t) ++ u ↔
      (begun g t).length = (begun g (t ++ u)).length := by
  induction u using List.reverseRecOn with
  | nil => simp
  | append_singleton u a ih =>
      rw [← List.append_assoc, ← List.append_assoc]
      by_cases opens : Opens g (t ++ u) a
      · have more := begun_length_mono g t u
        rw [begun_snoc_opens g (t ++ u) a opens, since_snoc_opens g (t ++ u) a opens]
        constructor
        · intro grown
          have size := congrArg List.length grown
          have positive := List.length_pos_of_ne_nil carried
          simp only [List.length_append, List.length_singleton] at size
          omega
        · intro same
          omega
      · have still : since g (scan g start (t ++ u)) ≠ [] := by
          rcases since_append g t u carried with extended | ⟨_, nonempty⟩
          · rw [extended]
            simp [carried]
          · exact nonempty
        rw [begun_snoc_stays g (t ++ u) a opens, since_snoc_stays g (t ++ u) a still opens, ← ih]
        exact List.append_left_inj [a]

end Bscope.Scanner
