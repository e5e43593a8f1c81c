import Mathlib.Algebra.BigOperators.Group.Finset.Piecewise
import Mathlib.Algebra.Order.Group.Defs
import Mathlib.Data.Fintype.Basic

set_option autoImplicit false

/- A stopwatch with one running mark and a total for each phase. -/
namespace Bscope.Stopwatch

structure Watch (ι α : Type) where
  mark : α
  spent : ι → α

namespace Watch

variable {ι α : Type} [DecidableEq ι] [AddCommGroup α]

/-- The time since the mark goes to phase `i`; the mark moves. -/
def lap (w : Watch ι α) (i : ι) (now : α) : Watch ι α where
  mark := now
  spent := Function.update w.spent i (w.spent i + (now - w.mark))

def laps (w : Watch ι α) (ls : List (ι × α)) : Watch ι α :=
  ls.foldl (fun w l => w.lap l.1 l.2) w

section Total

variable [Fintype ι]

def total (w : Watch ι α) : α := Finset.univ.sum w.spent

theorem lap_total (w : Watch ι α) (i : ι) (now : α) :
    (w.lap i now).total = w.total + (now - w.mark) := by
  have member : i ∈ (Finset.univ : Finset ι) := Finset.mem_univ i
  unfold total lap
  dsimp only
  rw [Finset.sum_update_of_mem member, ← Finset.add_sum_erase Finset.univ w.spent member,
    Finset.sdiff_singleton_eq_erase, add_right_comm]

/-- No interval is lost, and none is counted twice. -/
theorem laps_total (w : Watch ι α) (ls : List (ι × α)) :
    (w.laps ls).total = w.total + ((w.laps ls).mark - w.mark) := by
  induction ls generalizing w with
  | nil => simp [laps]
  | cons l ls ih =>
      have rest := ih (w.lap l.1 l.2)
      have marked : (w.lap l.1 l.2).mark = l.2 := rfl
      change ((w.lap l.1 l.2).laps ls).total = w.total + (((w.lap l.1 l.2).laps ls).mark - w.mark)
      rw [rest, lap_total, marked, add_assoc, sub_add_sub_cancel']

end Total

section Order

variable [PartialOrder α] [IsOrderedAddMonoid α]

theorem lap_nonneg (w : Watch ι α) (i : ι) (now : α) (forward : w.mark ≤ now)
    (held : ∀ k, 0 ≤ w.spent k) (k : ι) : 0 ≤ (w.lap i now).spent k := by
  unfold lap
  dsimp only
  by_cases here : k = i
  · rw [here, Function.update_self]
    exact add_nonneg (held i) (sub_nonneg.mpr forward)
  · rw [Function.update_of_ne here]
    exact held k

/-- On a clock that never goes back no total becomes negative. -/
theorem laps_nonneg (w : Watch ι α) (ls : List (ι × α))
    (forward : (w.mark :: ls.map Prod.snd).Pairwise (· ≤ ·)) (held : ∀ k, 0 ≤ w.spent k) (k : ι) :
    0 ≤ (w.laps ls).spent k := by
  induction ls generalizing w with
  | nil => exact held k
  | cons l ls ih =>
      rw [List.map_cons, List.pairwise_cons] at forward
      have next := forward.1 l.2 List.mem_cons_self
      apply ih (w.lap l.1 l.2) forward.2
      exact lap_nonneg w l.1 l.2 next held

end Order

end Watch

end Bscope.Stopwatch
