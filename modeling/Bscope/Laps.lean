import Mathlib.Data.List.Infix

set_option autoImplicit false

/- A log written in laps, and what a reader that stands in one of its laps has
still to see. -/
namespace Bscope.Laps

/-- The laps a writer has left, oldest first, and the one it is in. -/
structure Log (α : Type) where
  done : List (List α)
  cur : List α

namespace Log

variable {α : Type}

def laps (log : Log α) : List (List α) := log.done ++ [log.cur]

/-- The number of the lap the writer is in. -/
def lap (log : Log α) : Nat := log.done.length

/-- Everything written since a lap began. -/
def since (log : Log α) (lap : Nat) : List α := (log.laps.drop lap).flatten

def push (log : Log α) (a : α) : Log α := { log with cur := log.cur ++ [a] }

def pushLap (log : Log α) (a : α) : Log α := ⟨log.done ++ [log.cur], [a]⟩

theorem since_lap (log : Log α) : log.since log.lap = log.cur := by
  rw [since, laps, Log.lap, List.drop_left]
  simp

theorem since_push (log : Log α) (a : α) (lap : Nat) (inside : lap ≤ log.lap) :
    (log.push a).since lap = log.since lap ++ [a] := by
  unfold Log.lap at inside
  rw [since, since, laps, laps, List.drop_append_of_le_length inside]
  simp [Log.push, List.drop_append_of_le_length inside]

theorem since_pushLap (log : Log α) (a : α) (lap : Nat) (inside : lap ≤ log.lap) :
    (log.pushLap a).since lap = log.since lap ++ [a] := by
  unfold Log.lap at inside
  change ((log.laps ++ [[a]]).drop lap).flatten = _
  rw [List.drop_append_of_le_length (by simp only [laps, List.length_append]; omega),
    List.flatten_append]
  rfl

/-- A reader has seen `seen` of a lap, which goes on with `rest`; `later` are the
laps after it. -/
def Stands (log : Log α) (lap : Nat) (seen rest : List α) (later : List (List α)) : Prop :=
  ∃ old, log.laps = old ++ (seen ++ rest) :: later ∧ old.length = lap

theorem stands_start (log : Log α) : log.Stands log.lap [] log.cur [] := ⟨log.done, rfl, rfl⟩

theorem Stands.lap_eq {log : Log α} {lap : Nat} {seen rest : List α} {later : List (List α)}
    (stands : log.Stands lap seen rest later) : lap + later.length = log.lap := by
  obtain ⟨old, whole, rfl⟩ := stands
  have size := congrArg List.length whole
  simp only [laps, List.length_append, List.length_cons, List.length_nil] at size
  unfold Log.lap
  omega

theorem Stands.last {log : Log α} {lap : Nat} {seen rest : List α}
    (stands : log.Stands lap seen rest []) : log.cur = seen ++ rest ∧ log.done.length = lap := by
  obtain ⟨old, whole, rfl⟩ := stands
  obtain ⟨same, inside⟩ := List.append_inj' whole rfl
  exact ⟨by simpa using inside, by rw [same]⟩

theorem Stands.previous {log : Log α} {lap : Nat} {seen rest cur : List α}
    (stands : log.Stands lap seen rest [cur]) :
    log.done.getLast? = some (seen ++ rest) ∧ log.cur = cur ∧ log.done.length = lap + 1 := by
  obtain ⟨old, whole, rfl⟩ := stands
  rw [laps, List.append_cons old] at whole
  obtain ⟨same, inside⟩ := List.append_inj' whole rfl
  simp [same, List.head_eq_of_cons_eq inside]

theorem Stands.step {log : Log α} {lap : Nat} {seen rest : List α} {a : α}
    {later : List (List α)} (stands : log.Stands lap seen (a :: rest) later) :
    log.Stands lap (seen ++ [a]) rest later := by
  obtain ⟨old, whole, size⟩ := stands
  exact ⟨old, by simpa using whole, size⟩

theorem Stands.push {log : Log α} {lap : Nat} {seen rest : List α} {later : List (List α)}
    (stands : log.Stands lap seen rest later) (a : α) :
    ∃ rest' later', (log.push a).Stands lap seen rest' later' := by
  obtain ⟨old, whole, size⟩ := stands
  rcases List.eq_nil_or_concat later with rfl | ⟨front, cur, rfl⟩
  · obtain ⟨same, inside⟩ := List.append_inj' whole rfl
    have cur : log.cur = seen ++ rest := by simpa using inside
    exact ⟨rest ++ [a], [], old, by simp [laps, Log.push, same, cur], size⟩
  · rw [List.concat_eq_append, ← List.cons_append, ← List.append_assoc] at whole
    obtain ⟨same, -⟩ := List.append_inj' whole rfl
    exact ⟨rest, front ++ [log.cur ++ [a]], old, by simp [laps, Log.push, same], size⟩

theorem Stands.pushLap {log : Log α} {lap : Nat} {seen rest : List α} {later : List (List α)}
    (stands : log.Stands lap seen rest later) (a : α) :
    (log.pushLap a).Stands lap seen rest (later ++ [[a]]) := by
  obtain ⟨old, whole, size⟩ := stands
  refine ⟨old, ?_, size⟩
  change log.laps ++ [[a]] = _
  rw [whole]
  simp

/-- What a reader has printed that started at lap `first` and missed nothing. -/
def Delivered (log : Log α) (first lap : Nat) (seen printed : List α) : Prop :=
  first ≤ lap ∧ printed = ((log.laps.take lap).drop first).flatten ++ seen

theorem take_push (log : Log α) (a : α) (lap : Nat) (inside : lap ≤ log.lap) :
    (log.push a).laps.take lap = log.laps.take lap := by
  unfold laps
  unfold Log.lap at inside
  rw [List.take_append_of_le_length inside]
  exact List.take_append_of_le_length inside

theorem take_pushLap (log : Log α) (a : α) (lap : Nat) (inside : lap ≤ log.lap) :
    (log.pushLap a).laps.take lap = log.laps.take lap := by
  change (log.laps ++ [[a]]).take lap = _
  refine List.take_append_of_le_length ?_
  unfold Log.lap at inside
  simp only [laps, List.length_append]
  omega

/-- A reader that missed nothing has printed a beginning of what was written. -/
theorem Delivered.prefix_since {log : Log α} {first lap : Nat} {seen printed rest : List α}
    {later : List (List α)} (delivered : log.Delivered first lap seen printed)
    (stands : log.Stands lap seen rest later) :
    log.since first = printed ++ rest ++ later.flatten := by
  obtain ⟨order, rfl⟩ := delivered
  obtain ⟨old, whole, rfl⟩ := stands
  unfold since
  rw [whole, List.take_left, List.drop_append_of_le_length order]
  simp

/-- Starting over in the writer's lap after the reader's own lap was read. -/
theorem Delivered.next_lap {log : Log α} {first lap : Nat} {seen printed cur : List α}
    (delivered : log.Delivered first lap seen printed) (stands : log.Stands lap seen [] [cur]) :
    log.Delivered first log.lap [] printed := by
  have size := stands.lap_eq
  obtain ⟨order, rfl⟩ := delivered
  obtain ⟨old, whole, rfl⟩ := stands
  refine ⟨by simp only [List.length_singleton] at size; omega, ?_⟩
  rw [List.length_singleton] at size
  rw [whole, List.take_left, ← size, List.append_cons,
    List.take_left' (by simp), List.drop_append_of_le_length order]
  simp

end Log

end Bscope.Laps
