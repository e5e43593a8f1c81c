import Bscope.ScannerSegments

set_option autoImplicit false

/- Where the keys of a text begin, segment by segment. -/
namespace Bscope.Scanner

variable {α : Type}

/-- Where consecutive segments, each with its delimiter, have their keys; the first
segment stands at `k`. -/
def keyPlaces (starts : α → Bool) : Nat → List (List α) → List Nat
  | _, [] => []
  | k, segment :: segments =>
      ((segment.findIdx? starts).map (k + ·)).toList ++
        keyPlaces starts (k + segment.length + 1) segments

/-- The symbols of some segments and their delimiters. -/
def covered (segments : List (List α)) : Nat := segments.flatten.length + segments.length

theorem keyPlaces_append (starts : α → Bool) (k : Nat) (front back : List (List α)) :
    keyPlaces starts k (front ++ back) =
      keyPlaces starts k front ++ keyPlaces starts (k + covered front) back := by
  induction front generalizing k with
  | nil => rfl
  | cons segment front ih =>
      rw [List.cons_append, keyPlaces, keyPlaces, ih, List.append_assoc]
      congr 3
      rw [covered, covered, List.flatten_cons, List.length_append, List.length_cons]
      omega

variable [DecidableEq α] (g : Grammar α)

theorem covered_closed (t : List α) : covered (closed g t) + (current g t).length = t.length := by
  induction t using List.reverseRecOn with
  | nil => rfl
  | append_singleton t a ih =>
      by_cases closes : a = g.split
      · rw [closes, closed_snoc_split, current_snoc_split, List.length_append, ← ih]
        simp only [covered, List.flatten_append, List.flatten_singleton, List.length_append,
          List.length_cons, List.length_nil]
        omega
      · rw [closed_snoc_other g t a closes, current_snoc_other g t a closes, List.length_append,
          List.length_append, ← Nat.add_assoc, ih]

omit [DecidableEq α] in
theorem findIdx?_starts_none (segment : List α) :
    segment.findIdx? g.starts = none ↔ param g segment = [] := by
  rw [List.findIdx?_eq_none_iff, param, List.dropWhile_eq_nil_iff]
  simp

/-- The last key is the one of the current segment, or it was closed. -/
theorem getLast?_keyPlaces (t : List α) :
    (keyPlaces g.starts 0 (t.splitOn g.split)).getLast? =
      (((current g t).findIdx? g.starts).map (covered (closed g t) + ·)).or
        (keyPlaces g.starts 0 (closed g t)).getLast? := by
  rw [← closed_append_current, keyPlaces_append, Nat.zero_add, keyPlaces, keyPlaces,
    List.append_nil, List.getLast?_append]
  cases (current g t).findIdx? g.starts <;> rfl

theorem keyPlaces_snoc_split (t : List α) :
    (keyPlaces g.starts 0 ((t ++ [g.split]).splitOn g.split)).getLast? =
      (keyPlaces g.starts 0 (t.splitOn g.split)).getLast? := by
  rw [getLast?_keyPlaces, closed_snoc_split, current_snoc_split, ← closed_append_current]
  rfl

theorem keyPlaces_snoc_other (t : List α) (a : α) (other : a ≠ g.split) :
    (keyPlaces g.starts 0 ((t ++ [a]).splitOn g.split)).getLast? =
      if param g (current g t) = [] ∧ g.starts a = true then some t.length
      else (keyPlaces g.starts 0 (t.splitOn g.split)).getLast? := by
  have size := covered_closed g t
  rw [getLast?_keyPlaces, getLast?_keyPlaces, closed_snoc_other g t a other,
    current_snoc_other g t a other, List.findIdx?_append]
  simp only [← findIdx?_starts_none]
  cases inside : (current g t).findIdx? g.starts with
  | some i => simp
  | none =>
      cases begins : g.starts a
      · simp [begins]
      · simp [begins, size]

/-- The place where the text since the last key begins, as `since` gives it. -/
def sincePlace (t : List α) : Option Nat :=
  if since g (scan g start t) = [] then none
  else some (t.length - (since g (scan g start t)).length)

/-- A key begins at a symbol that may begin one, outside every parameter. -/
theorem since_snoc (t : List α) (a : α) :
    since g (scan g start (t ++ [a])) =
      if param g (current g t) = [] ∧ g.starts a = true then [a]
      else if since g (scan g start t) = [] then [] else since g (scan g start t) ++ [a] := by
  have place := reached g t
  rw [scan_snoc]
  cases here : scan g start t with
  | ready trail =>
      rw [here] at place
      rw [next_ready]
      by_cases begins : g.starts a = true
      · rw [if_pos begins, if_pos ⟨place.1, begins⟩]
        rfl
      · have padding : ¬ (param g (current g t) = [] ∧ g.starts a = true) := fun both =>
          begins both.2
        rw [if_neg begins, if_neg padding]
        by_cases empty : trail = []
        · rw [if_pos empty]
          exact (if_pos empty).symm
        · rw [if_neg empty]
          exact (if_neg empty).symm
  | key name =>
      rw [here] at place
      obtain ⟨inside, nonempty, -⟩ := place
      rw [inside, if_neg (fun both => nonempty both.1), since, if_neg nonempty, next_key]
      split
      · rename_i assigns
        rw [assigns]
        rfl
      · split <;> rfl
  | value name text =>
      rw [here] at place
      obtain ⟨inside, -⟩ := place
      rw [inside, if_neg (fun both => by simp at both), since, if_neg (by simp), next_value]
      split
      · rfl
      · simp [since]

theorem sincePlace_snoc (t : List α) (a : α) :
    sincePlace g (t ++ [a]) =
      if param g (current g t) = [] ∧ g.starts a = true then some t.length
      else sincePlace g t := by
  unfold sincePlace
  rw [since_snoc, List.length_append, List.length_singleton]
  by_cases begins : param g (current g t) = [] ∧ g.starts a = true
  · rw [if_pos begins, if_pos begins, if_neg (List.cons_ne_nil a []), List.length_singleton]
    rfl
  · rw [if_neg begins, if_neg begins]
    by_cases none : since g (scan g start t) = []
    · rw [if_pos none, if_pos none, if_pos rfl]
    · rw [if_neg none, if_neg none, if_neg (by simp), List.length_append, List.length_singleton,
        Nat.add_sub_add_right]

/-- The scanner keeps the text from the last key of all the segments on. -/
theorem sincePlace_eq (t : List α) :
    sincePlace g t = (keyPlaces g.starts 0 (t.splitOn g.split)).getLast? := by
  induction t using List.reverseRecOn with
  | nil => rfl
  | append_singleton t a ih =>
      rw [sincePlace_snoc]
      by_cases closes : a = g.split
      · rw [closes, keyPlaces_snoc_split, g.starts_split, ← ih]
        exact if_neg (fun both => Bool.false_ne_true both.2)
      · rw [keyPlaces_snoc_other g t a closes, ih]

end Bscope.Scanner
