import Mathlib.Data.List.TakeWhile

set_option autoImplicit false

/- Commands that change a state one after another, and what running them twice leaves. -/
namespace Bscope.Commands

variable {σ ε β : Type} (apply : σ → ε → σ)

/-- A command that is refused ends the run, in the state before it. -/
def attempt (refused : ε → Bool) (s : σ) (e : ε) : Except σ σ :=
  if refused e then .error s else .ok (apply s e)

/-- The commands in front of the first one that is refused. -/
def heeded (refused : ε → Bool) (es : List ε) : List ε := es.takeWhile (!refused ·)

theorem heeded_of_accepted (refused : ε → Bool) (es : List ε)
    (accepted : es.any refused = false) : heeded refused es = es := by
  apply List.takeWhile_eq_self_iff.mpr
  intro e member
  rw [List.any_eq_false] at accepted
  simp [accepted e member]

theorem foldlM_attempt (refused : ε → Bool) (es : List ε) (s : σ) :
    es.foldlM (attempt apply refused) s =
      if es.any refused then .error ((heeded refused es).foldl apply s)
      else .ok (es.foldl apply s) := by
  induction es generalizing s with
  | nil => rfl
  | cons e es ih =>
      rw [List.foldlM_cons]
      cases bad : refused e with
      | true => simp [attempt, heeded, bad, bind, Except.bind]
      | false =>
          have go : attempt apply refused s e = .ok (apply s e) := by simp [attempt, bad]
          rw [go]
          show es.foldlM (attempt apply refused) (apply s e) = _
          rw [ih]
          simp [heeded, bad]

section Registers

variable (get : σ → β)

/-- A command that leaves a register as it is, or gives it a value of its own. -/
def Overwrites (e : ε) : Prop :=
  (∀ s, get (apply s e) = get s) ∨ ∀ s s', get (apply s e) = get (apply s' e)

theorem overwrites_run (es : List ε) (each : ∀ e ∈ es, Overwrites apply get e) :
    (∀ s, get (es.foldl apply s) = get s) ∨
      ∀ s s', get (es.foldl apply s) = get (es.foldl apply s') := by
  induction es with
  | nil => left; simp
  | cons e es ih =>
      rcases ih fun e' member => each e' (List.mem_cons_of_mem e member) with keep | fixed
      · rcases each e List.mem_cons_self with quiet | sets
        · left
          intro s
          rw [List.foldl_cons, keep, quiet]
        · right
          intro s s'
          rw [List.foldl_cons, List.foldl_cons, keep, keep]
          exact sets s s'
      · right
        intro s s'
        exact fixed (apply s e) (apply s' e)

theorem overwrites_twice (es : List ε) (each : ∀ e ∈ es, Overwrites apply get e) (s : σ) :
    get (es.foldl apply (es.foldl apply s)) = get (es.foldl apply s) := by
  rcases overwrites_run apply get es each with keep | fixed
  · exact keep _
  · exact fixed _ s

/-- The commands are spent on a register once they have run, and nothing revives them. -/
structure Latches : Prop where
  settles : ∀ s e, get (apply (apply s e) e) = get (apply s e)
  stays : ∀ s e e', get (apply s e) = get s → get (apply (apply s e') e) = get (apply s e')

variable {apply get}

theorem Latches.still (latches : Latches apply get) (es : List ε) (s : σ)
    (spent : ∀ e ∈ es, get (apply s e) = get s) : get (es.foldl apply s) = get s := by
  induction es generalizing s with
  | nil => rfl
  | cons e es ih =>
      have first := spent e List.mem_cons_self
      rw [List.foldl_cons, ih, first]
      intro e' member
      apply latches.stays
      exact spent e' (List.mem_cons_of_mem e member)

theorem Latches.spent (latches : Latches apply get) (es : List ε) (s : σ) (e : ε)
    (member : e ∈ es ∨ get (apply s e) = get s) :
    get (apply (es.foldl apply s) e) = get (es.foldl apply s) := by
  induction es generalizing s with
  | nil => simpa using member
  | cons e' es ih =>
      rw [List.foldl_cons]
      apply ih
      rcases member with among | quiet
      · rcases List.mem_cons.mp among with rfl | later
        · right
          exact latches.settles s e
        · left
          exact later
      · right
        exact latches.stays s e e' quiet

theorem Latches.twice (latches : Latches apply get) (es : List ε) (s : σ) :
    get (es.foldl apply (es.foldl apply s)) = get (es.foldl apply s) := by
  apply latches.still
  intro e member
  exact latches.spent es s e (Or.inl member)

end Registers

theorem appends_run (items : σ → List β) (adds : ε → List β)
    (each : ∀ s e, items (apply s e) = items s ++ adds e) (es : List ε) (s : σ) :
    items (es.foldl apply s) = items s ++ es.flatMap adds := by
  induction es generalizing s with
  | nil => simp
  | cons e es ih => rw [List.foldl_cons, ih, each, List.append_assoc, List.flatMap_cons]

theorem counts_run (count : σ → Nat) (adds : ε → Bool)
    (each : ∀ s e, count (apply s e) = count s + if adds e then 1 else 0) (es : List ε) (s : σ) :
    count (es.foldl apply s) = count s + es.countP adds := by
  induction es generalizing s with
  | nil => rfl
  | cons e es ih =>
      rw [List.foldl_cons, ih, each, List.countP_cons]
      omega

end Bscope.Commands
