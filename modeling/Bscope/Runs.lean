import Mathlib.Data.List.Infix

set_option autoImplicit false

/- Runs of a machine that reads events and may answer each with an output. -/
namespace Bscope.Runs

variable {σ ε ω : Type} (step : σ → ε → σ × Option ω)

/-- The state after a list of events. -/
def after (s : σ) (events : List ε) : σ := events.foldl (fun s e => (step s e).1) s

/-- The answers, one place for each event. -/
def trace : σ → List ε → List (Option ω)
  | _, [] => []
  | s, e :: events => (step s e).2 :: trace (step s e).1 events

/-- The answers that were given, in order. -/
def outputs (s : σ) (events : List ε) : List ω := (trace step s events).filterMap id

@[simp] theorem after_nil (s : σ) : after step s [] = s := rfl

@[simp] theorem after_cons (s : σ) (e : ε) (events : List ε) :
    after step s (e :: events) = after step (step s e).1 events := rfl

@[simp] theorem trace_nil (s : σ) : trace step s [] = [] := rfl

@[simp] theorem trace_cons (s : σ) (e : ε) (events : List ε) :
    trace step s (e :: events) = (step s e).2 :: trace step (step s e).1 events := rfl

theorem after_append (s : σ) (first second : List ε) :
    after step s (first ++ second) = after step (after step s first) second := List.foldl_append

theorem trace_append (s : σ) (first second : List ε) :
    trace step s (first ++ second) =
      trace step s first ++ trace step (after step s first) second := by
  induction first generalizing s with
  | nil => rfl
  | cons e first ih => simp only [List.cons_append, trace_cons, after_cons, ih]

theorem outputs_cons (s : σ) (e : ε) (events : List ε) :
    outputs step s (e :: events) = (step s e).2.toList ++ outputs step (step s e).1 events := by
  unfold outputs
  rw [trace_cons]
  cases (step s e).2 <;> rfl

theorem outputs_append (s : σ) (first second : List ε) :
    outputs step s (first ++ second) =
      outputs step s first ++ outputs step (after step s first) second := by
  simp only [outputs, trace_append, List.filterMap_append]

theorem after_snoc (s : σ) (events : List ε) (e : ε) :
    after step s (events ++ [e]) = (step (after step s events) e).1 := after_append step s events [e]

theorem outputs_snoc (s : σ) (events : List ε) (e : ε) :
    outputs step s (events ++ [e]) =
      outputs step s events ++ (step (after step s events) e).2.toList := by
  rw [outputs_append]
  cases answer : (step (after step s events) e).2 <;> simp [outputs, answer]

/-- What holds at the start and is kept by every event of a run that is taken
in a state where it holds, holds at the end. -/
theorem after_induction (P : σ → Prop) (s : σ) (events : List ε) (initial : P s)
    (kept : ∀ front e back, events = front ++ e :: back → P (after step s front) →
      P (step (after step s front) e).1) : P (after step s events) := by
  induction events using List.reverseRecOn with
  | nil => exact initial
  | append_singleton events e ih =>
      rw [after_snoc]
      refine kept events e [] rfl (ih ?_)
      intro front e' back split
      exact kept front e' (back ++ [e]) (by simp [split])

section Simulation

variable {σ' ε' ω' : Type} {step} {step' : σ' → ε' → σ' × Option ω'}
variable (view : σ → σ') (label : ε → ε') (show' : ω → ω')

/-- Every step of one machine is, seen through `view`, a step of another. -/
def Simulates (step : σ → ε → σ × Option ω) (step' : σ' → ε' → σ' × Option ω') : Prop :=
  ∀ s e, step' (view s) (label e) = (view (step s e).1, (step s e).2.map show')

variable {view label show'} (simulates : Simulates view label show' step step')
include simulates

theorem Simulates.after (s : σ) (events : List ε) :
    Runs.after step' (view s) (events.map label) = view (Runs.after step s events) := by
  induction events generalizing s with
  | nil => rfl
  | cons e events ih => rw [List.map_cons, after_cons, simulates, ih, after_cons]

theorem Simulates.outputs (s : σ) (events : List ε) :
    Runs.outputs step' (view s) (events.map label) = (Runs.outputs step s events).map show' := by
  induction events generalizing s with
  | nil => rfl
  | cons e events ih =>
      rw [List.map_cons, outputs_cons, outputs_cons, simulates, ih, List.map_append]
      cases (step s e).2 <;> rfl

end Simulation

end Bscope.Runs
