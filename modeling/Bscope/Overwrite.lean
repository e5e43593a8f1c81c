import Mathlib.Data.List.GetD

set_option autoImplicit false

/- A buffer that is overwritten from the left while its old content is still read
further on. -/
namespace Bscope.Overwrite

variable {α : Type}

/-- The buffer `w` behind the output that has taken its first cells. -/
def overwritten (out w : List α) : List α := out ++ w.drop out.length

@[simp] theorem overwritten_nil (w : List α) : overwritten [] w = w := rfl

/-- What the output has not reached is as it was. -/
theorem overwritten_getD (out w : List α) (k : Nat) (d : α) (ahead : out.length ≤ k) :
    (overwritten out w).getD k d = w.getD k d := by
  have cell : out.length + (k - out.length) = k := by omega
  rw [List.getD_eq_getElem?_getD, List.getD_eq_getElem?_getD, overwritten,
    List.getElem?_append_right ahead, List.getElem?_drop, cell]

/-- The next cell is written. -/
theorem overwritten_set (out w : List α) (c : α) (room : out.length < w.length) :
    (overwritten out w).set out.length c = overwritten (out ++ [c]) w := by
  have next : w.drop out.length = w[out.length] :: w.drop (out.length + 1) :=
    List.drop_eq_getElem_cons room
  have size : (out ++ [c]).length = out.length + 1 := List.length_append
  rw [overwritten, overwritten, List.set_append_right _ _ (Nat.le_refl _), Nat.sub_self, next,
    List.set_cons_zero, size, List.append_assoc, List.singleton_append]

/-- The next cell is passed over: it shows what the buffer held. -/
theorem overwritten_skip (out w : List α) (d : α) (room : out.length < w.length) :
    overwritten out w = overwritten (out ++ [w.getD out.length d]) w := by
  have next : w.drop out.length = w[out.length] :: w.drop (out.length + 1) :=
    List.drop_eq_getElem_cons room
  have size : (out ++ [w.getD out.length d]).length = out.length + 1 := List.length_append
  rw [overwritten, overwritten, size, next, List.getD_eq_getElem w d room, List.append_assoc,
    List.singleton_append]

end Bscope.Overwrite
