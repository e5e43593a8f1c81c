import Mathlib.Data.List.Basic

set_option autoImplicit false

/- Pieces put together again: a list in which neighbours are merged where they can be. -/
namespace Bscope.Joining

variable {α : Type} (merge : α → α → Option α)

/-- A piece in front of what is joined already. -/
def put (x : α) : List α → List α
  | [] => [x]
  | y :: later =>
      match merge x y with
      | some z => z :: later
      | none => x :: y :: later

def join : List α → List α
  | [] => []
  | x :: rest => put merge x (join rest)

/-- Which of the pieces are merged first makes no difference. -/
structure Associates (merge : α → α → Option α) : Prop where
  apart : ∀ x y z w, merge x y = some z → merge y w = none → merge z w = none
  both : ∀ x y z w v, merge x y = some z → merge y w = some v →
    ∃ u, merge x v = some u ∧ merge z w = some u

@[simp] theorem join_nil : join merge [] = [] := rfl

theorem join_append_congr (front : List α) {back back' : List α}
    (same : join merge back = join merge back') :
    join merge (front ++ back) = join merge (front ++ back') := by
  induction front with
  | nil => exact same
  | cons x front ih =>
      show put merge x (join merge (front ++ back)) = put merge x (join merge (front ++ back'))
      rw [ih]

/-- Two neighbours may be merged beforehand. -/
theorem join_merge (associates : Associates merge) {x y z : α} (merged : merge x y = some z)
    (rest : List α) : join merge (x :: y :: rest) = join merge (z :: rest) := by
  show put merge x (put merge y (join merge rest)) = put merge z (join merge rest)
  cases join merge rest with
  | nil =>
      show put merge x [y] = [z]
      rw [put, merged]
  | cons w later =>
      cases next : merge y w with
      | none =>
          have apart := associates.apart x y z w merged next
          rw [put, put, next, apart]
          show put merge x (y :: w :: later) = z :: w :: later
          rw [put, merged]
      | some v =>
          obtain ⟨u, first, second⟩ := associates.both x y z w v merged next
          rw [put, put, next, second]
          show put merge x (v :: later) = u :: later
          rw [put, first]

/-- The front may be joined beforehand. -/
theorem join_join (associates : Associates merge) (front back : List α) :
    join merge (join merge front ++ back) = join merge (front ++ back) := by
  induction front with
  | nil => rfl
  | cons x front ih =>
      show join merge (put merge x (join merge front) ++ back) = put merge x (join merge (front ++ back))
      rw [← ih]
      cases join merge front with
      | nil => rfl
      | cons y later =>
          cases merged : merge x y with
          | none =>
              rw [put, merged]
              rfl
          | some z =>
              have once := join_merge merge associates merged (later ++ back)
              rw [put, merged]
              exact once.symm

theorem join_congr (associates : Associates merge) {front front' back back' : List α}
    (first : join merge front = join merge front') (second : join merge back = join merge back') :
    join merge (front ++ back) = join merge (front' ++ back') := by
  rw [join_append_congr merge front second, ← join_join merge associates, first,
    join_join merge associates]

/-- What merges with nothing stays what it is, and where it is among its like. -/
theorem filter_join (q : α → Bool) (front : ∀ x y z, merge x y = some z → q x = false)
    (back : ∀ x y z, merge x y = some z → q y = false)
    (made : ∀ x y z, merge x y = some z → q z = false) (items : List α) :
    (join merge items).filter q = items.filter q := by
  induction items with
  | nil => rfl
  | cons x rest ih =>
      rw [List.filter_cons, ← ih]
      show (put merge x (join merge rest)).filter q = _
      cases join merge rest with
      | nil => rw [put, List.filter_cons]
      | cons y later =>
          cases merged : merge x y with
          | none => rw [put, merged, List.filter_cons]
          | some z =>
              rw [put, merged]
              dsimp only
              rw [List.filter_cons, List.filter_cons, front x y z merged, back x y z merged,
                made x y z merged]
              rfl

/-- What merges with nothing before it stays the last. -/
theorem join_concat {x : α} (apart : ∀ y, merge y x = none) (items : List α) :
    join merge (items ++ [x]) = join merge items ++ [x] := by
  induction items with
  | nil => rfl
  | cons y rest ih =>
      show put merge y (join merge (rest ++ [x])) = put merge y (join merge rest) ++ [x]
      rw [ih]
      cases join merge rest with
      | nil =>
          show put merge y [x] = [y] ++ [x]
          rw [put, apart]
          rfl
      | cons w later =>
          rw [List.cons_append, put, put]
          split <;> rfl

theorem join_filled {items : List α} (filled : items ≠ []) : join merge items ≠ [] := by
  obtain ⟨x, rest, rfl⟩ := List.exists_cons_of_ne_nil filled
  show put merge x (join merge rest) ≠ []
  cases join merge rest with
  | nil => exact List.cons_ne_nil x []
  | cons y later =>
      rw [put]
      split
      · exact List.cons_ne_nil _ _
      · exact List.cons_ne_nil _ _

/-- What no merging makes was last before if it is last behind. -/
theorem getLast_join {x : α} (made : ∀ y z, merge y z ≠ some x) (items : List α)
    (last : (join merge items).getLast? = some x) : items.getLast? = some x := by
  induction items with
  | nil => exact last
  | cons y rest ih =>
      have split : join merge (y :: rest) = put merge y (join merge rest) := rfl
      rw [split] at last
      cases rest with
      | nil => exact last
      | cons y' rest =>
          obtain ⟨w, later, joins⟩ := List.exists_cons_of_ne_nil
            (join_filled merge (List.cons_ne_nil y' rest))
          rw [joins] at last ih
          rw [List.getLast?_cons_cons]
          apply ih
          cases merged : merge y w with
          | none =>
              rw [put, merged] at last
              exact last
          | some z =>
              rw [put, merged] at last
              cases later with
              | nil =>
                  cases last
                  exact absurd merged (made y w)
              | cons v later => exact last

end Bscope.Joining
