import Bscope.Scanner
import Mathlib.Data.List.TakeWhile

set_option autoImplicit false

/- The scanner against its grammar: split the text at the delimiter, drop the
padding before each key, and cut each parameter at its first key/value symbol. -/
namespace Bscope.Scanner

variable {α : Type} [DecidableEq α] (g : Grammar α)

/-- The segments that a delimiter has closed. -/
def closed (t : List α) : List (List α) := (t.splitOn g.split).dropLast

/-- The segment after the last delimiter. -/
def current (t : List α) : List α := (t.splitOn g.split).getLastD []

/-- A segment without the padding before its key; empty when no key begins. -/
def param (segment : List α) : List α := segment.dropWhile (fun a => !g.starts a)

/-- The pair a parameter gives, when it has a value and its key is wanted. -/
def pair (u : List α) : Option (List α × List α) :=
  if g.eq ∈ u ∧ g.accepts (u.takeWhile (· ≠ g.eq)) then
    some (u.takeWhile (· ≠ g.eq), (u.dropWhile (· ≠ g.eq)).tail)
  else none

/-- The parameters begun in a text, in order, the last one perhaps still open. -/
def begun (t : List α) : List (List α) :=
  ((closed g t ++ [current g t]).map (param g)).filter (· ≠ [])

/-- The last parameter begun is a wanted pair that a delimiter has closed. -/
def Settled (t : List α) : Prop :=
  param g (current g t) = [] ∧ ∃ u, (begun g t).getLast? = some u ∧ (pair g u).isSome

theorem splitOn_snoc_other (t : List α) (a s : α) (other : a ≠ s) :
    (t ++ [a]).splitOn s =
      (t.splitOn s).dropLast ++ [(t.splitOn s).getLastD [] ++ [a]] := by
  induction t with
  | nil => simp [List.splitOn_cons_eq_if_modifyHead, other]
  | cons x t ih =>
      have some_segment := List.splitOn_ne_nil s t
      rw [List.cons_append, List.splitOn_cons_eq_if_modifyHead, ih,
        List.splitOn_cons_eq_if_modifyHead]
      cases segments : t.splitOn s with
      | nil => exact absurd segments some_segment
      | cons first rest =>
          by_cases delimiter : x = s
          · simp [delimiter]
          · cases rest <;> simp [delimiter]

@[simp] theorem closed_nil : closed g [] = [] := rfl

@[simp] theorem current_nil : current g [] = [] := rfl

theorem closed_snoc_split (t : List α) : closed g (t ++ [g.split]) = closed g t ++ [current g t] := by
  have nonempty := List.splitOn_ne_nil g.split t
  unfold closed current
  rw [List.splitOn_append_cons_self]
  simp only [List.splitOn_nil, List.dropLast_concat]
  rw [List.getLastD_eq_getLast?, List.getLast?_eq_some_getLast nonempty, Option.getD_some,
    List.dropLast_concat_getLast]

theorem current_snoc_split (t : List α) : current g (t ++ [g.split]) = [] := by
  unfold current
  rw [List.splitOn_append_cons_self]
  simp

theorem closed_snoc_other (t : List α) (a : α) (other : a ≠ g.split) :
    closed g (t ++ [a]) = closed g t := by
  unfold closed
  rw [splitOn_snoc_other t a g.split other, List.dropLast_concat]

theorem current_snoc_other (t : List α) (a : α) (other : a ≠ g.split) :
    current g (t ++ [a]) = current g t ++ [a] := by
  unfold current
  rw [splitOn_snoc_other t a g.split other]
  simp

omit [DecidableEq α] in
theorem param_snoc (segment : List α) (a : α) :
    param g (segment ++ [a]) =
      if param g segment = [] then (if g.starts a then [a] else []) else param g segment ++ [a] := by
  unfold param
  rw [List.dropWhile_append]
  by_cases padding : List.dropWhile (fun a => !g.starts a) segment = []
  · cases begins : g.starts a <;> simp [padding, begins]
  · simp [padding, List.isEmpty_eq_false_iff.mpr padding]

theorem begun_eq (t : List α) :
    begun g t = ((closed g t).map (param g)).filter (· ≠ []) ++
      if param g (current g t) = [] then [] else [param g (current g t)] := by
  unfold begun
  rw [List.map_append, List.filter_append]
  congr 1
  by_cases empty : param g (current g t) = [] <;> simp [empty]

theorem begun_snoc_split (t : List α) : begun g (t ++ [g.split]) = begun g t := by
  have padding : param g ([] : List α) = [] := rfl
  unfold begun
  rw [closed_snoc_split, current_snoc_split, List.map_append, List.filter_append]
  simp [padding]

theorem begun_snoc_padding (t : List α) (a : α) (other : a ≠ g.split)
    (outside : param g (current g t) = []) (padding : g.starts a = false) :
    begun g (t ++ [a]) = begun g t := by
  rw [begun_eq, begun_eq, closed_snoc_other g t a other, current_snoc_other g t a other,
    param_snoc]
  simp [outside, padding]

theorem getLast?_begun_of_open (t : List α) (inside : param g (current g t) ≠ []) :
    (begun g t).getLast? = some (param g (current g t)) := by
  rw [begun_eq]
  simp [inside]

theorem pair_of_key (u : List α) (absent : g.eq ∉ u) : pair g u = none := by
  simp [pair, absent]

theorem pair_of_value (name text : List α) (absent : g.eq ∉ name) :
    pair g (name ++ g.eq :: text) =
      if g.accepts name then some (name, text) else none := by
  have before : ∀ a ∈ name, decide (a ≠ g.eq) = true := by
    intro a member
    rw [decide_eq_true_eq]
    rintro rfl
    exact absent member
  unfold pair
  rw [List.takeWhile_append_of_pos before, List.dropWhile_append_of_pos before]
  simp

/-- What the scanner's place says about the grammar's reading of the text. -/
def Reached (t : List α) : Cursor α → Prop
  | .ready trail => param g (current g t) = [] ∧ (trail = [] ↔ begun g t = []) ∧
      emits g start trail = ((begun g t).getLast?.bind (pair g)).toList
  | .key name => param g (current g t) = name ∧ name ≠ [] ∧ g.eq ∉ name ∧
      emits g start name = []
  | .value name text => param g (current g t) = name ++ g.eq :: text ∧ name ≠ [] ∧
      g.eq ∉ name ∧ emits g start (name ++ g.eq :: text) = []

theorem flush_reached (t : List α) (c : Cursor α) (reached : Reached g t c) :
    flush g c = pair g (param g (current g t)) := by
  cases c with
  | ready trail =>
      rw [reached.1]
      exact (pair_of_key g [] List.not_mem_nil).symm
  | key name =>
      rw [reached.1]
      exact (pair_of_key g name reached.2.2.1).symm
  | value name text =>
      rw [reached.1, pair_of_value g name text reached.2.2.1]
      rfl

omit [DecidableEq α] in
theorem not_split_of_starts (a : α) (begins : g.starts a = true) : a ≠ g.split := by
  rintro rfl
  rw [g.starts_split] at begins
  cases begins

theorem reached_snoc_ready (t trail : List α) (a : α)
    (here : scan g start t = .ready trail) (reached : Reached g t (.ready trail)) :
    Reached g (t ++ [a]) (next g (.ready trail) a) := by
  obtain ⟨outside, none_iff, replay⟩ := reached
  rw [next_ready]
  by_cases begins : g.starts a = true
  · have other := not_split_of_starts g a begins
    have not_eq : a ≠ g.eq := by
      rintro rfl
      rw [g.starts_eq] at begins
      cases begins
    rw [if_pos begins]
    refine ⟨?_, by simp, by simpa using Ne.symm not_eq, by simp [start]⟩
    rw [current_snoc_other g t a other, param_snoc, if_pos outside, if_pos begins]
  · have padding : g.starts a = false := by simpa using begins
    have same : begun g (t ++ [a]) = begun g t := by
      by_cases delimiter : a = g.split
      · rw [delimiter, begun_snoc_split]
      · exact begun_snoc_padding g t a delimiter outside padding
    have still : param g (current g (t ++ [a])) = [] := by
      by_cases delimiter : a = g.split
      · rw [delimiter, current_snoc_split]
        rfl
      · rw [current_snoc_other g t a delimiter, param_snoc, if_pos outside, padding]
        rfl
    rw [if_neg begins]
    by_cases empty : trail = []
    · rw [if_pos empty]
      refine ⟨still, ?_, ?_⟩
      · rw [same, ← none_iff, empty]
      · rw [same, none_iff.mp empty]
        rfl
    · have resumed := scan_since g t
      rw [here] at resumed
      rw [if_neg empty]
      refine ⟨still, ?_, ?_⟩
      · rw [same, ← none_iff]
        simp [empty]
      · rw [emits_snoc, replay, same, show scan g start trail = .ready trail from resumed]
        simp

theorem reached_snoc_key (t name : List α) (a : α)
    (here : scan g start t = .key name) (reached : Reached g t (.key name)) :
    Reached g (t ++ [a]) (next g (.key name) a) := by
  obtain ⟨inside, nonempty, absent, replay⟩ := reached
  have resumed := scan_since g t
  rw [here] at resumed
  have silent : ∀ b, emits g start (name ++ [b]) = [] := by
    intro b
    rw [emits_snoc, replay, show scan g start name = .key name from resumed]
    simp
  rw [next_key]
  split
  · rename_i eq
    subst eq
    refine ⟨?_, nonempty, absent, silent g.eq⟩
    rw [current_snoc_other g t g.eq (Ne.symm g.split_ne_eq), param_snoc, inside, if_neg nonempty]
  · rename_i not_eq
    split
    · rename_i closes
      subst closes
      have last := getLast?_begun_of_open g t (by rw [inside]; exact nonempty)
      refine ⟨by rw [current_snoc_split]; rfl, ?_, ?_⟩
      · rw [begun_snoc_split]
        constructor
        · intro impossible
          simp at impossible
        · intro impossible
          rw [impossible] at last
          cases last
      · rw [silent, begun_snoc_split, last, inside, Option.bind_some, pair_of_key g name absent]
        rfl
    · rename_i other
      refine ⟨?_, by simp, by simp [absent, Ne.symm not_eq], silent a⟩
      rw [current_snoc_other g t a other, param_snoc, inside, if_neg nonempty]

theorem reached_snoc_value (t name text : List α) (a : α)
    (here : scan g start t = .value name text) (reached : Reached g t (.value name text)) :
    Reached g (t ++ [a]) (next g (.value name text) a) := by
  obtain ⟨inside, nonempty, absent, replay⟩ := reached
  have resumed := scan_since g t
  rw [here] at resumed
  have replayed : ∀ b, emits g start (name ++ g.eq :: text ++ [b]) =
      (emit g (.value name text) b).toList := by
    intro b
    rw [emits_snoc, replay,
      show scan g start (name ++ g.eq :: text) = .value name text from resumed, List.nil_append]
  rw [next_value]
  split
  · rename_i closes
    subst closes
    have last := getLast?_begun_of_open g t (by rw [inside]; simp)
    refine ⟨by rw [current_snoc_split]; rfl, ?_, ?_⟩
    · rw [begun_snoc_split]
      constructor
      · intro impossible
        simp at impossible
      · intro impossible
        rw [impossible] at last
        cases last
    · rw [replayed, begun_snoc_split, last, inside, Option.bind_some,
        pair_of_value g name text absent]
      simp only [emit, flush, ↓reduceIte]
  · rename_i other
    refine ⟨?_, nonempty, absent, ?_⟩
    · rw [current_snoc_other g t a other, param_snoc, inside, if_neg (by simp)]
      simp
    · rw [← List.cons_append, ← List.append_assoc, replayed]
      simp [emit, other]

/-- The scanner's place after a text is the one the grammar describes. -/
theorem reached (t : List α) : Reached g t (scan g start t) := by
  induction t using List.reverseRecOn with
  | nil => exact ⟨rfl, by simp [begun, param], rfl⟩
  | append_singleton t a ih =>
      rw [scan_snoc]
      cases here : scan g start t with
      | ready trail => exact reached_snoc_ready g t trail a here (by rwa [here] at ih)
      | key name => exact reached_snoc_key g t name a here (by rwa [here] at ih)
      | value name text => exact reached_snoc_value g t name text a here (by rwa [here] at ih)

/-- The scanner emits exactly the wanted pairs among the closed segments. -/
theorem emits_eq_segments (t : List α) :
    emits g start t = (closed g t).filterMap (fun segment => pair g (param g segment)) := by
  induction t using List.reverseRecOn with
  | nil => rfl
  | append_singleton t a ih =>
      rw [emits_snoc, ih]
      by_cases closes : a = g.split
      · subst closes
        rw [closed_snoc_split, List.filterMap_append, emit, if_pos rfl,
          flush_reached g t _ (reached g t)]
        cases got : pair g (param g (current g t)) <;> simp [got]
      · rw [closed_snoc_other g t a closes, emit, if_neg closes]
        simp

/-- An open value at the end of the text is the pair of the last segment. -/
theorem flush_eq_current (t : List α) :
    flush g (scan g start t) = pair g (param g (current g t)) :=
  flush_reached g t _ (reached g t)

theorem closed_append_current (t : List α) : closed g t ++ [current g t] = t.splitOn g.split := by
  have nonempty := List.splitOn_ne_nil g.split t
  unfold closed current
  rw [List.getLastD_eq_getLast?, List.getLast?_eq_some_getLast nonempty, Option.getD_some,
    List.dropLast_concat_getLast]

/-- With the open value added, every segment gives its pair. -/
theorem emits_flush_eq (t : List α) :
    emits g start t ++ (flush g (scan g start t)).toList =
      (t.splitOn g.split).filterMap fun segment => pair g (param g segment) := by
  rw [← closed_append_current g t, List.filterMap_append, ← emits_eq_segments, flush_eq_current]
  rfl

/-- Scanning the carried text again repeats the last pair exactly when a
delimiter has already closed it. -/
theorem emits_since_ne_nil_iff (t : List α) :
    emits g start (since g (scan g start t)) ≠ [] ↔ Settled g t := by
  have here := reached g t
  unfold Settled
  cases place : scan g start t with
  | ready trail =>
      rw [place] at here
      rw [since, here.2.2]
      simp only [here.1, true_and]
      cases (begun g t).getLast? with
      | none => simp
      | some u => cases got : pair g u <;> simp [got]
  | key name =>
      rw [place] at here
      simp [since, here.2.2.2, here.1, here.2.1]
  | value name text =>
      rw [place] at here
      simp [since, here.2.2.2, here.1]

theorem since_eq_nil_iff (t : List α) :
    since g (scan g start t) = [] ↔ begun g t = [] := by
  have here := reached g t
  cases place : scan g start t with
  | ready trail =>
      rw [place] at here
      exact here.2.1
  | key name =>
      rw [place] at here
      have last := getLast?_begun_of_open g t (by rw [here.1]; exact here.2.1)
      simp only [since, here.2.1, false_iff]
      intro none
      rw [none] at last
      cases last
  | value name text =>
      rw [place] at here
      have last := getLast?_begun_of_open g t (by rw [here.1]; simp)
      simp only [since, List.append_eq_nil_iff, reduceCtorEq, and_false, false_iff]
      intro none
      rw [none] at last
      cases last

theorem pair_some (u name text : List α) (found : pair g u = some (name, text)) :
    u = name ++ g.eq :: text ∧ g.eq ∉ name ∧ g.accepts name = true := by
  unfold pair at found
  split at found
  · rename_i wanted
    obtain ⟨rfl, rfl⟩ := Prod.ext_iff.mp (Option.some.inj found)
    have cut := List.takeWhile_append_dropWhile (p := fun a => decide (a ≠ g.eq)) (l := u)
    have absent : g.eq ∉ u.takeWhile (fun a => decide (a ≠ g.eq)) := by
      intro member
      simpa using List.mem_takeWhile_imp member
    refine ⟨?_, absent, wanted.2⟩
    cases rest : u.dropWhile (fun a => decide (a ≠ g.eq)) with
    | nil =>
        rw [rest, List.append_nil] at cut
        rw [cut] at absent
        exact absurd wanted.1 absent
    | cons b tail =>
        have nonempty : u.dropWhile (fun a => decide (a ≠ g.eq)) ≠ [] := by
          rw [rest]
          exact List.cons_ne_nil b tail
        have stopped := List.head_dropWhile_not (fun a => decide (a ≠ g.eq)) nonempty
        have head : b = g.eq := by
          simpa only [rest, List.head_cons, decide_eq_false_iff_not, ne_eq, not_not] using stopped
        rw [rest, head] at cut
        exact cut.symm
  · cases found

/-- Whatever is emitted stands in the text in one piece. -/
theorem emits_infix (c : Cursor α) (t : List α) (name text : List α)
    (emitted : (name, text) ∈ emits g c t) : name ++ g.eq :: text <:+: since g c ++ t := by
  induction t generalizing c with
  | nil => cases emitted
  | cons a t ih =>
      rw [emits_cons, List.mem_append] at emitted
      rcases emitted with now | later
      · refine List.IsInfix.trans ?_ (List.infix_append' [] (since g c) (a :: t))
        unfold emit at now
        split at now
        · cases c with
          | ready trail => simp [flush] at now
          | key name => simp [flush] at now
          | value name' text' =>
              simp only [flush] at now
              split at now <;> simp_all [since, List.infix_rfl]
        · simp at now
      · have inside := ih (next g c a) later
        rcases since_next g c a with same | fresh | ⟨before, after⟩
        · simpa [same] using inside
        · rw [fresh] at inside
          exact inside.trans (List.suffix_append (since g c) (a :: t)).isInfix
        · rw [after, List.nil_append] at inside
          rw [before, List.nil_append]
          exact inside.trans (List.suffix_cons a t).isInfix

theorem emits_wanted (t : List α) (name text : List α)
    (emitted : (name, text) ∈ emits g start t) : g.eq ∉ name ∧ g.accepts name = true := by
  rw [emits_eq_segments, List.mem_filterMap] at emitted
  obtain ⟨segment, _, found⟩ := emitted
  exact (pair_some g _ name text found).2

theorem flush_spec (t : List α) (name text : List α)
    (open_value : flush g (scan g start t) = some (name, text)) :
    name ++ g.eq :: text <:+ t ∧ g.eq ∉ name ∧ g.accepts name = true := by
  have wanted := open_value
  rw [flush_eq_current] at wanted
  refine ⟨?_, (pair_some g _ name text wanted).2⟩
  have carried := since_suffix g t
  cases place : scan g start t with
  | ready trail => simp [place, flush] at open_value
  | key name' => simp [place, flush] at open_value
  | value name' text' =>
      rw [place] at carried open_value
      simp only [flush] at open_value
      split at open_value <;> simp_all [since]

end Bscope.Scanner
