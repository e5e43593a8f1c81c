import Bscope.Runs

set_option autoImplicit false

/- A debt that is incurred again and again and paid at once: it is owed or not, and
paying without owing does nothing. -/
namespace Bscope.Debts

inductive Act where
  | incur | pay | pass
deriving DecidableEq

def step (owes : Bool) : Act → Bool × Option Unit
  | .incur => (true, none)
  | .pay => (false, if owes then some () else none)
  | .pass => (owes, none)

/-- How often the debt is incurred when it is not owed. -/
def fresh : Bool → List Act → Nat
  | _, [] => 0
  | owes, a :: acts => (if a = .incur ∧ owes = false then 1 else 0) + fresh (step owes a).1 acts

/-- What was owed at the start or incurred afresh was paid, or is still owed. -/
theorem balance (owes : Bool) (acts : List Act) :
    (Runs.outputs step owes acts).length + (Runs.after step owes acts).toNat =
      fresh owes acts + owes.toNat := by
  induction acts generalizing owes with
  | nil =>
      change 0 + owes.toNat = 0 + owes.toNat
      rfl
  | cons a acts ih =>
      have rest := ih (step owes a).1
      rw [Runs.outputs_cons, Runs.after_cons, List.length_append, fresh, Nat.add_assoc, rest]
      cases a <;> cases owes <;> simp [step] <;> omega

/-- Once paid, nothing is owed until the debt is incurred again. -/
theorem unpaid (acts : List Act) (none_new : .incur ∉ acts) : Runs.after step false acts = false := by
  induction acts with
  | nil => rfl
  | cons a acts ih =>
      rw [Runs.after_cons]
      cases a with
      | incur => exact absurd List.mem_cons_self none_new
      | pay => exact ih fun member => none_new (List.mem_cons_of_mem _ member)
      | pass => exact ih fun member => none_new (List.mem_cons_of_mem _ member)

/-- A payment is made only of what is owed, and clears it. -/
theorem paid (owes : Bool) (a : Act) (made : (step owes a).2 ≠ none) :
    a = .pay ∧ owes = true ∧ (step owes a).1 = false := by
  cases a with
  | incur => exact absurd rfl made
  | pass => exact absurd rfl made
  | pay =>
      cases owes with
      | false => exact absurd rfl made
      | true => exact ⟨rfl, rfl, rfl⟩

/-- Between two payments the debt is incurred again. -/
theorem incurred_between (owes : Bool) (front mid : List Act) (a b : Act)
    (first : (step (Runs.after step owes front) a).2 ≠ none)
    (second : (step (Runs.after step owes (front ++ a :: mid)) b).2 ≠ none) : .incur ∈ mid := by
  by_contra none_new
  obtain ⟨-, -, cleared⟩ := paid _ a first
  obtain ⟨-, still, -⟩ := paid _ b second
  rw [Runs.after_append, Runs.after_cons, cleared, unpaid mid none_new] at still
  cases still

/-- What is owed is paid by the next act that pays. -/
theorem paid_later (acts : List Act) (pays : .pay ∈ acts) :
    ∃ mid a rest, acts = mid ++ a :: rest ∧ (step (Runs.after step true mid) a).2 ≠ none := by
  induction acts with
  | nil => cases pays
  | cons a acts ih =>
      cases a with
      | pay => exact ⟨[], .pay, acts, rfl, Option.some_ne_none _⟩
      | incur =>
          have later : Act.pay ∈ acts := (List.mem_cons.mp pays).resolve_left nofun
          obtain ⟨mid, a, rest, rfl, made⟩ := ih later
          exact ⟨.incur :: mid, a, rest, rfl, made⟩
      | pass =>
          have later : Act.pay ∈ acts := (List.mem_cons.mp pays).resolve_left nofun
          obtain ⟨mid, a, rest, rfl, made⟩ := ih later
          exact ⟨.pass :: mid, a, rest, rfl, made⟩

end Bscope.Debts
