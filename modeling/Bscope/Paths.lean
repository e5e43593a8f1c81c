import Mathlib.Data.List.Induction

set_option autoImplicit false

/- Runs of a machine that may refuse an act. -/
namespace Bscope.Paths

variable {σ α : Type} (step : σ → α → Option σ)

/-- The state after a list of acts, if none of them is refused. -/
def run (s : σ) : List α → Option σ
  | [] => some s
  | a :: acts => (step s a).bind fun next => run next acts

@[simp] theorem run_nil (s : σ) : run step s [] = some s := rfl

@[simp] theorem run_cons (s : σ) (a : α) (acts : List α) :
    run step s (a :: acts) = (step s a).bind fun next => run step next acts := rfl

theorem run_append (s : σ) (front back : List α) :
    run step s (front ++ back) = (run step s front).bind fun mid => run step mid back := by
  induction front generalizing s with
  | nil => rfl
  | cons a front ih => simp only [List.cons_append, run_cons, ih, Option.bind_assoc]

theorem run_snoc (s : σ) (acts : List α) (a : α) :
    run step s (acts ++ [a]) = (run step s acts).bind fun mid => step mid a := by
  rw [run_append]
  simp only [run_cons, run_nil, Option.bind_fun_some]

/-- A run that is not refused has every state on its way. -/
theorem run_reaches (s t : σ) (front back : List α) (whole : run step s (front ++ back) = some t) :
    ∃ mid, run step s front = some mid ∧ run step mid back = some t := by
  rw [run_append] at whole
  exact Option.bind_eq_some_iff.mp whole

/-- `P` holds in every state a run passes. -/
def Always (P : σ → Prop) (s : σ) (acts : List α) : Prop :=
  ∀ front back mid, acts = front ++ back → run step s front = some mid → P mid

/-- `G` holds of every act of a run, in the state that takes it. -/
def Guarded (G : σ → α → Prop) (s : σ) (acts : List α) : Prop :=
  ∀ front a back mid, acts = front ++ a :: back → run step s front = some mid → G mid a

variable {step}

/-- What holds at the start and is kept by every guarded act holds all along. -/
theorem always_of_guarded {P : σ → Prop} {G : σ → α → Prop} (s : σ) (acts : List α) (initial : P s)
    (kept : ∀ s a next, P s → G s a → step s a = some next → P next)
    (guarded : Guarded step G s acts) : Always step P s acts := by
  intro front
  induction front using List.reverseRecOn with
  | nil =>
      intro back mid _ here
      cases here
      exact initial
  | append_singleton front a ih =>
      intro back mid split here
      rw [run_snoc] at here
      obtain ⟨last, before, taken⟩ := Option.bind_eq_some_iff.mp here
      rw [List.append_assoc] at split
      apply kept last a mid
      · exact ih (a :: back) last split before
      · exact guarded front a back last split before
      · exact taken

/-- Where an invariant shows in what is seen of the state, and what is seen after an
act tells whether the act was guarded, the invariant, the sight and the guard stand
or fall together. -/
theorem seen_iff_guarded {P Seen : σ → Prop} {G : σ → α → Prop} (s t : σ) (acts : List α)
    (whole : run step s acts = some t) (initial : P s) (shows : ∀ s, P s → Seen s)
    (kept : ∀ s a next, P s → G s a → step s a = some next → P next)
    (tells : ∀ s a next, P s → Seen next → step s a = some next → G s a) :
    Always step Seen s acts ↔ Guarded step G s acts := by
  constructor
  · intro seen front
    have sofar : ∀ back mid, acts = front ++ back → run step s front = some mid → P mid := by
      induction front using List.reverseRecOn with
      | nil =>
          intro back mid _ here
          cases here
          exact initial
      | append_singleton front a ih =>
          intro back mid split here
          have now := seen (front ++ [a]) back mid split here
          rw [run_snoc] at here
          obtain ⟨last, before, taken⟩ := Option.bind_eq_some_iff.mp here
          rw [List.append_assoc] at split
          have held := ih (a :: back) last split before
          exact kept last a mid held (tells last a mid held now taken) taken
    intro a back mid split here
    have moved : run step s ((front ++ [a]) ++ back) = some t := by
      rw [List.append_assoc]
      exact split ▸ whole
    obtain ⟨next, reached, -⟩ := run_reaches step s t (front ++ [a]) back moved
    have now := seen (front ++ [a]) back next (by rw [split, List.append_assoc]; rfl) reached
    rw [run_snoc, here] at reached
    exact tells mid a next (sofar (a :: back) mid split here) now reached
  · intro guarded front back mid split here
    exact shows mid (always_of_guarded s acts initial kept guarded front back mid split here)

end Bscope.Paths
