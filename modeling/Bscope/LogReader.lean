import Bscope.LogRing
import Bscope.Runs

set_option autoImplicit false

namespace Bscope

open Memory Laps

/-- A reader in `show_log`, with the lap of the writer that it takes itself to be in. -/
structure Reader where
  i : Int
  p : Nat
  lap : Nat

/-- The reader that `show_log(stat->life, 0, 0)` starts. -/
def readerStart (w : Writer) : Reader := ⟨w.stat.life, 0, w.log.lap⟩

inductive LogEvent where
  | push (m : LogMsg)
  | look

structure LogState where
  w : Writer
  r : Reader

/-- One push, or one activation of `show_log` with the line it prints. A reader
that waits or starts over takes itself to be in the writer's lap. -/
def logStep (s : LogState) : LogEvent → LogState × Option Bytes
  | .push m => ({ s with w := s.w.push m }, none)
  | .look =>
      match showLog s.w.stat s.r.i s.r.p with
      | .wait => ({ s with r := { s.r with lap := s.w.log.lap } }, none)
      | .shutdown => (s, none)
      | .restart i p => ({ s with r := ⟨i, p, s.w.log.lap⟩ }, none)
      | .line text i p => ({ s with r := ⟨i, p, s.r.lap⟩ }, some text)

/-- The segment after some pushes, and a reader that starts there. -/
def logStart (before : List LogMsg) : LogState :=
  let w := before.foldl Writer.push writerStart
  ⟨w, readerStart w⟩

abbrev logAfter : LogState → List LogEvent → LogState := Runs.after logStep

/-- The lines printed in a run. -/
abbrev printed : LogState → List LogEvent → List Bytes := Runs.outputs logStep

/-- The reader has seen `seen` of its lap and stands behind the last record of it. -/
structure Placed (w : Writer) (r : Reader) (seen rest : List LogMsg)
    (later : List (List LogMsg)) : Prop where
  stands : w.log.Stands r.lap seen rest later
  offset : r.p = (records seen).length
  counter : r.i = toChar r.lap

theorem showLog_record (stat : Status) (i : Int) (p : Nat) (m : LogMsg)
    (held : Holds stat.data p (record m))
    (inside : p + (record m).length ≤ SHMEM_SIZE - DATA_OFFSET)
    (open_end : ¬ (i = stat.life ∧ p = stat.p)) (kept : ¬ (i ≠ stat.life ∧ stat.p > p)) :
    showLog stat i p = .line m.text.bytes i (p + (record m).length) := by
  have fits := m.fits
  unfold LOG_BUF_SIZE at fits
  rw [record_length] at inside ⊢
  obtain ⟨size, text⟩ := (holds_append _ _ _ _).mp held
  have read := loadShort_of_holds stat.data p (m.text.strlen + 1) (by omega) size
  have line := loadString_of_holds stat.data (p + 2) (SHMEM_SIZE - DATA_OFFSET - (p + 2))
    m.text.bytes m.text.nulFree text (by change m.text.strlen < _; omega)
  have short : ¬ m.text.strlen + 1 > LOG_BUF_SIZE := by unfold LOG_BUF_SIZE; omega
  unfold showLog
  rw [if_neg open_end]
  simp only [read, line]
  rw [if_neg (by rintro (long | passed) <;> contradiction)]
  congr 1
  omega

theorem showLog_marker (stat : Status) (i : Int) (p : Nat) (held : Holds stat.data p endMarker)
    (other : i ≠ stat.life) : showLog stat i p = .restart stat.life 0 := by
  have read := loadShort_of_holds stat.data p 65535 (by decide) held
  unfold showLog
  rw [if_neg (fun same => other same.1)]
  simp only [read]
  exact if_pos (Or.inl (by decide))

section Look

variable {w : Writer} {r : Reader} {seen rest : List LogMsg} (written : Written w)
include written

theorem look_waits (placed : Placed w r seen [] []) : showLog w.stat r.i r.p = .wait := by
  obtain ⟨cur, lap⟩ := placed.stands.last
  rw [List.append_nil] at cur
  have here : r.i = w.stat.life ∧ r.p = w.stat.p := by
    rw [placed.counter, placed.offset, written.life, written.offset, cur, Log.lap, lap]
    exact ⟨rfl, rfl⟩
  unfold showLog
  rw [if_pos here, written.alive]
  rfl

/-- In the writer's own lap the next record is printed. -/
theorem look_here (m : LogMsg) (placed : Placed w r seen (m :: rest) []) :
    showLog w.stat r.i r.p = .line m.text.bytes r.i (r.p + (record m).length) := by
  obtain ⟨cur, lap⟩ := placed.stands.last
  have held := written.here
  have inside := written.inside
  have size := written.offset
  have life := written.life
  rw [cur, records_append, holds_append, Nat.zero_add, records_cons, holds_append,
    ← placed.offset] at held
  rw [cur, records_append, records_cons, List.length_append, List.length_append,
    ← placed.offset] at size
  rw [Log.lap, lap, ← placed.counter] at life
  have positive : 0 < (record m).length := by
    rw [record_length]
    omega
  exact showLog_record w.stat r.i r.p m held.2.1 (by omega) (by omega)
    (fun passed => passed.1 life.symm)

theorem behind_counter {cur : List LogMsg} (placed : Placed w r seen rest [cur]) :
    r.i ≠ w.stat.life := by
  obtain ⟨-, -, lap⟩ := placed.stands.previous
  rw [placed.counter, written.life, Log.lap, lap]
  exact (toChar_succ_ne r.lap).symm

theorem behind_held {cur : List LogMsg} (placed : Placed w r seen rest [cur])
    (kept : w.stat.p ≤ r.p) :
    Holds w.stat.data r.p (records rest ++ endMarker) ∧
      r.p + (records rest).length + 2 ≤ SHMEM_SIZE - DATA_OFFSET := by
  obtain ⟨previous, -, -⟩ := placed.stands.previous
  obtain ⟨held, inside⟩ := written.before _ previous
  have here := held.later r.p kept
  rw [records_append, List.append_assoc, placed.offset, List.drop_left] at here
  rw [records_append, List.length_append] at inside
  rw [placed.offset]
  exact ⟨here, by omega⟩

/-- One lap behind, what the writer has not reached yet is still printed. -/
theorem look_behind {cur : List LogMsg} (m : LogMsg) (placed : Placed w r seen (m :: rest) [cur])
    (kept : w.stat.p ≤ r.p) :
    showLog w.stat r.i r.p = .line m.text.bytes r.i (r.p + (record m).length) := by
  obtain ⟨held, inside⟩ := behind_held written placed kept
  have other := behind_counter written placed
  rw [records_cons, List.append_assoc, holds_append] at held
  rw [records_cons, List.length_append] at inside
  exact showLog_record w.stat r.i r.p m held.1 (by omega) (fun same => other same.1)
    (fun passed => absurd passed.2 (by omega))

/-- Behind the last record of its lap the reader finds the marker and starts over. -/
theorem look_turns {cur : List LogMsg} (placed : Placed w r seen [] [cur])
    (kept : w.stat.p ≤ r.p) : showLog w.stat r.i r.p = .restart w.stat.life 0 := by
  obtain ⟨held, -⟩ := behind_held written placed kept
  exact showLog_marker w.stat r.i r.p held (behind_counter written placed)

theorem placed_start : Placed w (readerStart w) [] w.log.cur [] where
  stands := w.log.stands_start
  offset := rfl
  counter := written.life

end Look

theorem Placed.next {w : Writer} {r : Reader} {seen rest : List LogMsg} {m : LogMsg}
    {later : List (List LogMsg)} (placed : Placed w r seen (m :: rest) later) :
    Placed w ⟨r.i, r.p + (record m).length, r.lap⟩ (seen ++ [m]) rest later where
  stands := placed.stands.step
  offset := by simp [placed.offset]
  counter := placed.counter

theorem written_after (s : LogState) (events : List LogEvent) (written : Written s.w) :
    Written (logAfter s events).w := by
  refine Runs.after_induction logStep (fun s => Written s.w) s events written ?_
  intro front event back _ kept
  cases event with
  | push m => exact push_written _ m kept
  | look =>
      unfold logStep
      dsimp only
      split <;> exact kept

/-- The messages that a run pushes. -/
def pushed (events : List LogEvent) : List LogMsg :=
  events.filterMap fun
    | .push m => some m
    | .look => none

theorem lap_mono (w : Writer) (m : LogMsg) : w.log.lap ≤ (w.push m).log.lap := by
  unfold Writer.push
  by_cases full : Wraps w.stat m <;> simp [full, Log.lap, Log.push, Log.pushLap]

theorem since_writer_push (w : Writer) (m : LogMsg) (lap : Nat) (inside : lap ≤ w.log.lap) :
    (w.push m).log.since lap = w.log.since lap ++ [m] := by
  unfold Writer.push
  by_cases full : Wraps w.stat m
  · simp only [full, ↓reduceIte, w.log.since_pushLap m lap inside]
  · simp only [full, ↓reduceIte, w.log.since_push m lap inside]

theorem look_writer (s : LogState) : (logStep s .look).1.w = s.w := by
  unfold logStep
  dsimp only
  split <;> rfl

/-- What was pushed since a lap the writer had begun when the run did. -/
theorem since_run (s : LogState) (events : List LogEvent) (first : Nat) (begun : first ≤ s.w.log.lap) :
    first ≤ (logAfter s events).w.log.lap ∧
      (logAfter s events).w.log.since first = s.w.log.since first ++ pushed events := by
  induction events using List.reverseRecOn with
  | nil => exact ⟨begun, by simp [pushed]⟩
  | append_singleton events event ih =>
      obtain ⟨grown, so_far⟩ := ih
      unfold logAfter at grown so_far ⊢
      rw [Runs.after_snoc]
      cases event with
      | push m =>
          refine ⟨grown.trans (lap_mono _ m), ?_⟩
          change ((Runs.after logStep s events).w.push m).log.since first = _
          rw [since_writer_push _ m _ grown, so_far]
          simp [pushed]
      | look =>
          rw [look_writer]
          exact ⟨grown, by rw [so_far]; simp [pushed]⟩

theorem written_pushes (before : List LogMsg) (w : Writer) (written : Written w) :
    Written (before.foldl Writer.push w) := by
  induction before generalizing w with
  | nil => exact written
  | cons m before ih => exact ih (w.push m) (push_written w m written)

end Bscope
