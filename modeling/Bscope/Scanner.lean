import Mathlib.Data.List.Infix

set_option autoImplicit false

/- A one-pass scanner for delimited `key=value` lists over any alphabet. Text
before a key may be padding; only keys the grammar accepts are emitted. -/
namespace Bscope.Scanner

/-- A delimited parameter list: which symbols may begin a key, the symbol
between key and value, the delimiter, and the keys that are wanted. -/
structure Grammar (α : Type) where
  starts : α → Bool
  eq : α
  split : α
  accepts : List α → Bool
  starts_eq : starts eq = false
  starts_split : starts split = false
  split_ne_eq : split ≠ eq

/-- Where the scanner stands. Outside a parameter it keeps the text read since
the last key began, which is empty before the first key. -/
inductive Cursor (α : Type) where
  | ready (trail : List α)
  | key (name : List α)
  | value (name text : List α)

variable {α : Type} [DecidableEq α] (g : Grammar α)

def start : Cursor α := .ready []

/-- The text read since the last key began. -/
def since : Cursor α → List α
  | .ready trail => trail
  | .key name => name
  | .value name text => name ++ g.eq :: text

def next : Cursor α → α → Cursor α
  | .ready trail, a =>
      if g.starts a then .key [a] else if trail = [] then .ready [] else .ready (trail ++ [a])
  | .key name, a =>
      if a = g.eq then .value name []
      else if a = g.split then .ready (name ++ [a])
      else .key (name ++ [a])
  | .value name text, a =>
      if a = g.split then .ready (name ++ g.eq :: text ++ [a]) else .value name (text ++ [a])

/-- The pair an open value would give if it ended here. -/
def flush : Cursor α → Option (List α × List α)
  | .value name text => if g.accepts name then some (name, text) else none
  | _ => none

def emit (c : Cursor α) (a : α) : Option (List α × List α) :=
  if a = g.split then flush g c else none

def scan (c : Cursor α) (t : List α) : Cursor α := t.foldl (next g) c

def emits : Cursor α → List α → List (List α × List α)
  | _, [] => []
  | c, a :: t => (emit g c a).toList ++ emits (next g c a) t

@[simp] theorem emit_ready (trail : List α) (a : α) : emit g (.ready trail) a = none := by
  simp [emit, flush]

@[simp] theorem emit_key (name : List α) (a : α) : emit g (.key name) a = none := by
  simp [emit, flush]

@[simp] theorem scan_nil (c : Cursor α) : scan g c [] = c := rfl

@[simp] theorem scan_cons (c : Cursor α) (a : α) (t : List α) :
    scan g c (a :: t) = scan g (next g c a) t := rfl

@[simp] theorem emits_nil (c : Cursor α) : emits g c [] = [] := rfl

@[simp] theorem emits_cons (c : Cursor α) (a : α) (t : List α) :
    emits g c (a :: t) = (emit g c a).toList ++ emits g (next g c a) t := rfl

theorem scan_append (c : Cursor α) (s t : List α) :
    scan g c (s ++ t) = scan g (scan g c s) t := List.foldl_append

theorem emits_append (c : Cursor α) (s t : List α) :
    emits g c (s ++ t) = emits g c s ++ emits g (scan g c s) t := by
  induction s generalizing c with
  | nil => rfl
  | cons a s ih => simp only [List.cons_append, emits_cons, scan_cons, ih, List.append_assoc]

theorem scan_snoc (c : Cursor α) (t : List α) (a : α) :
    scan g c (t ++ [a]) = next g (scan g c t) a := scan_append g c t [a]

theorem emits_snoc (c : Cursor α) (t : List α) (a : α) :
    emits g c (t ++ [a]) = emits g c t ++ (emit g (scan g c t) a).toList := by
  simp only [emits_append, emits_cons, emits_nil, List.append_nil]

theorem next_ready (trail : List α) (a : α) :
    next g (.ready trail) a =
      if g.starts a then .key [a] else if trail = [] then .ready [] else .ready (trail ++ [a]) :=
  rfl

theorem next_key (name : List α) (a : α) :
    next g (.key name) a =
      if a = g.eq then .value name []
      else if a = g.split then .ready (name ++ [a]) else .key (name ++ [a]) := rfl

theorem next_value (name text : List α) (a : α) :
    next g (.value name text) a =
      if a = g.split then .ready (name ++ g.eq :: text ++ [a])
      else .value name (text ++ [a]) := rfl

/-- Reading one symbol extends the text since the last key, or begins a new
key, or is padding before the first key. -/
theorem since_next (c : Cursor α) (a : α) :
    since g (next g c a) = since g c ++ [a] ∨
      since g (next g c a) = [a] ∨ (since g c = [] ∧ since g (next g c a) = []) := by
  cases c with
  | ready trail =>
      rw [next_ready]
      split
      · exact Or.inr (Or.inl rfl)
      · split
        · rename_i padding
          exact Or.inr (Or.inr ⟨padding, rfl⟩)
        · exact Or.inl rfl
  | key name =>
      apply Or.inl
      rw [next_key]
      split
      · rename_i eq
        simp only [since, eq]
      · split <;> rfl
  | value name text =>
      apply Or.inl
      rw [next_value]
      split
      · rfl
      · simp only [since, List.append_assoc, List.cons_append]

theorem since_suffix (t : List α) : since g (scan g start t) <:+ t := by
  induction t using List.reverseRecOn with
  | nil => exact List.suffix_rfl
  | append_singleton t a ih =>
      rw [scan_snoc]
      rcases since_next g (scan g start t) a with same | fresh | ⟨_, none⟩
      · rw [same]
        obtain ⟨front, whole⟩ := ih
        exact ⟨front, by rw [← List.append_assoc, whole]⟩
      · rw [fresh]
        exact List.suffix_append t [a]
      · rw [none]
        exact List.nil_suffix

/-- Scanning again from the last key start reaches the same place: the carried
text is all the scanner needs to resume. -/
theorem scan_since (t : List α) :
    scan g start (since g (scan g start t)) = scan g start t := by
  induction t using List.reverseRecOn with
  | nil => rfl
  | append_singleton t a ih =>
      rw [scan_snoc]
      cases reached : scan g start t with
      | ready trail =>
          rw [reached] at ih
          by_cases begins : g.starts a = true
          · simp [next, begins, since, start]
          · by_cases none : trail = []
            · simp [next, begins, none, since, start]
            · simp only [next, begins, none, since, ↓reduceIte, Bool.false_eq_true] at ih ⊢
              rw [scan_snoc, ih]
              simp [next, begins, none]
      | key name =>
          rw [reached] at ih
          by_cases eq : a = g.eq
          · simp only [next, eq, since, ↓reduceIte] at ih ⊢
            rw [scan_snoc, ih]
            simp [next]
          · by_cases closes : a = g.split
            · subst closes
              simp only [next, eq, since, ↓reduceIte] at ih ⊢
              rw [scan_snoc, ih]
              simp [next, eq]
            · simp only [next, eq, closes, since, ↓reduceIte] at ih ⊢
              rw [scan_snoc, ih]
              simp [next, eq, closes]
      | value name text =>
          rw [reached] at ih
          by_cases closes : a = g.split
          · simp only [next, closes, since, ↓reduceIte] at ih ⊢
            rw [scan_snoc, ih]
            simp [next]
          · simp only [next, closes, since, ↓reduceIte] at ih ⊢
            rw [show name ++ g.eq :: (text ++ [a]) = (name ++ g.eq :: text) ++ [a] by simp,
              scan_snoc, ih]
            simp [next, closes]

end Bscope.Scanner
