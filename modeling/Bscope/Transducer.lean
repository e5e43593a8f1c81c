set_option autoImplicit false

/- Runs of a machine that answers each input with any number of outputs. -/
namespace Bscope.Transducer

variable {σ ε ω : Type} (step : σ → ε → σ × List ω)

/-- The state after a list of inputs. -/
def after (s : σ) (inputs : List ε) : σ := inputs.foldl (fun s e => (step s e).1) s

/-- All the outputs, in order. -/
def emits : σ → List ε → List ω
  | _, [] => []
  | s, e :: inputs => (step s e).2 ++ emits (step s e).1 inputs

@[simp] theorem after_nil (s : σ) : after step s [] = s := rfl

@[simp] theorem after_cons (s : σ) (e : ε) (inputs : List ε) :
    after step s (e :: inputs) = after step (step s e).1 inputs := rfl

@[simp] theorem emits_nil (s : σ) : emits step s [] = [] := rfl

@[simp] theorem emits_cons (s : σ) (e : ε) (inputs : List ε) :
    emits step s (e :: inputs) = (step s e).2 ++ emits step (step s e).1 inputs := rfl

theorem after_append (s : σ) (first second : List ε) :
    after step s (first ++ second) = after step (after step s first) second := List.foldl_append

theorem emits_append (s : σ) (first second : List ε) :
    emits step s (first ++ second) =
      emits step s first ++ emits step (after step s first) second := by
  induction first generalizing s with
  | nil => rfl
  | cons e first ih => simp only [List.cons_append, emits_cons, after_cons, ih, List.append_assoc]

end Bscope.Transducer
