import Mathlib.Data.List.TakeDrop
import Mathlib.Data.List.Infix

set_option autoImplicit false

/- Pieces of a stream that come in any order, some of them twice or overlapping: how
far they tell the stream without a gap, and what a reader has to keep to tell it. -/
namespace Bscope.Reassembly

variable {α : Type}

/-- Some of a stream, from the place `pos` on. -/
structure Piece (α : Type) where
  pos : Nat
  body : List α

def Piece.stop (p : Piece α) : Nat := p.pos + p.body.length

/-- The piece says what the stream has at its place. -/
def Piece.Of (stream : List α) (p : Piece α) : Prop := p.body <+: stream.drop p.pos

def Covers (pieces : List (Piece α)) (i : Nat) : Prop := ∃ p ∈ pieces, p.pos ≤ i ∧ i < p.stop

/-- The pieces tell the first `n` places of a stream, and not the next one. -/
structure Known (pieces : List (Piece α)) (n : Nat) : Prop where
  covered : ∀ i < n, Covers pieces i
  gap : ¬ Covers pieces n

/-- The order in which pieces came, and how often, makes no difference. -/
theorem Known.congr {first second : List (Piece α)} {n : Nat} (known : Known first n)
    (same : ∀ p, p ∈ first ↔ p ∈ second) : Known second n where
  covered i below := by
    obtain ⟨p, member, inside⟩ := known.covered i below
    exact ⟨p, (same p).mp member, inside⟩
  gap := by
    rintro ⟨p, member, inside⟩
    exact known.gap ⟨p, (same p).mpr member, inside⟩

/-- A reader that has taken the first `n` places keeps the pieces it may still need. -/
structure Waiting (seen pending : List (Piece α)) (n : Nat) : Prop where
  covered : ∀ i < n, Covers seen i
  kept : ∀ p ∈ seen, p.stop ≤ n ∨ p ∈ pending
  held : ∀ p ∈ pending, p ∈ seen
  sorted : pending.Pairwise (·.pos ≤ ·.pos)

/-- None of them is of use yet. -/
def Ahead (pending : List (Piece α)) (n : Nat) : Prop := ∀ p ∈ pending, n < p.pos

theorem waiting_nil : Waiting ([] : List (Piece α)) [] 0 where
  covered i below := absurd below (Nat.not_lt_zero i)
  kept := nofun
  held := nofun
  sorted := .nil

section Steps

variable {seen pending rest : List (Piece α)} {n : Nat} {p : Piece α}

theorem Covers.cons {i : Nat} (covers : Covers seen i) : Covers (p :: seen) i := by
  obtain ⟨q, member, inside⟩ := covers
  exact ⟨q, List.mem_cons_of_mem p member, inside⟩

/-- A piece that says nothing new is dropped. -/
theorem Waiting.stale (waiting : Waiting seen pending n) (old : p.stop ≤ n) :
    Waiting (p :: seen) pending n where
  covered i below := (waiting.covered i below).cons
  kept q member := by
    rcases List.mem_cons.mp member with same | later
    · left
      rw [same]
      exact old
    · exact waiting.kept q later
  held q member := List.mem_cons_of_mem p (waiting.held q member)
  sorted := waiting.sorted

/-- A piece behind a gap is filed. -/
theorem Waiting.file (waiting : Waiting seen pending n) {filed : List (Piece α)}
    (members : ∀ q, q ∈ filed ↔ q = p ∨ q ∈ pending)
    (sorted : filed.Pairwise (·.pos ≤ ·.pos)) : Waiting (p :: seen) filed n where
  covered i below := (waiting.covered i below).cons
  kept q member := by
    rcases List.mem_cons.mp member with same | later
    · exact Or.inr ((members q).mpr (Or.inl same))
    · apply (waiting.kept q later).imp_right
      intro held
      exact (members q).mpr (Or.inr held)
  held q member := by
    rcases (members q).mp member with same | held
    · exact List.mem_cons.mpr (Or.inl same)
    · exact List.mem_cons_of_mem p (waiting.held q held)
  sorted := sorted

/-- A piece that starts no later than the next place is taken up to its end. -/
theorem Waiting.advance (waiting : Waiting seen pending n) (member : p ∈ seen)
    (start : p.pos ≤ n) : Waiting seen pending (max n p.stop) where
  covered i below := by
    by_cases before : i < n
    · exact waiting.covered i before
    · exact ⟨p, member, by omega, by omega⟩
  kept q seen := (waiting.kept q seen).imp_left fun old => Nat.le_trans old (Nat.le_max_left ..)
  held := waiting.held
  sorted := waiting.sorted

/-- A piece that brings the next place is taken at once. -/
theorem Waiting.accept (waiting : Waiting seen pending n) (start : p.pos ≤ n)
    (order : n ≤ p.stop) : Waiting (p :: seen) pending p.stop where
  covered i below := by
    by_cases before : i < n
    · exact (waiting.covered i before).cons
    · exact ⟨p, List.mem_cons_self, by omega, below⟩
  kept q member := by
    rcases List.mem_cons.mp member with same | later
    · rw [same]
      exact Or.inl (Nat.le_refl _)
    · exact (waiting.kept q later).imp_left fun old => Nat.le_trans old order
  held q member := List.mem_cons_of_mem p (waiting.held q member)
  sorted := waiting.sorted

/-- The first of the pieces that are kept is let go when it says nothing new. -/
theorem Waiting.pop (waiting : Waiting seen (p :: rest) n) (old : p.stop ≤ n) :
    Waiting seen rest n where
  covered := waiting.covered
  kept q member := by
    rcases waiting.kept q member with stop | held
    · exact Or.inl stop
    · rcases List.mem_cons.mp held with same | later
      · left
        rw [same]
        exact old
      · exact Or.inr later
  held q member := waiting.held q (List.mem_cons_of_mem p member)
  sorted := waiting.sorted.of_cons

/-- Where the first piece is behind a gap, all of them are. -/
theorem Waiting.front (waiting : Waiting seen (p :: rest) n) (gap : n < p.pos) :
    Ahead (p :: rest) n := by
  intro q member
  rcases List.mem_cons.mp member with same | later
  · rw [same]
    exact gap
  · have order := List.rel_of_pairwise_cons waiting.sorted later
    omega

/-- A reader that waits has taken all that the pieces tell. -/
theorem Waiting.known (waiting : Waiting seen pending n) (ahead : Ahead pending n) :
    Known seen n where
  covered := waiting.covered
  gap := by
    rintro ⟨q, member, start, stop⟩
    rcases waiting.kept q member with old | held
    · omega
    · have := ahead q held
      omega

end Steps

section Bodies

variable {stream : List α} {p : Piece α} {n : Nat}

theorem Piece.Of.stop_le (of : p.Of stream) (some : p.body ≠ []) : p.stop ≤ stream.length := by
  have length := List.IsPrefix.length_le of
  have positive := List.length_pos_iff.mpr some
  rw [List.length_drop] at length
  show p.pos + p.body.length ≤ _
  omega

theorem Piece.Of.getElem? (of : p.Of stream) {i : Nat} {x : α} (start : p.pos ≤ i)
    (here : p.body[i - p.pos]? = some x) : stream[i]? = some x := by
  obtain ⟨rest, split⟩ := of
  have inside := (List.getElem?_eq_some_iff.mp here).1
  have there : (stream.drop p.pos)[i - p.pos]? = some x := by
    rw [← split, List.getElem?_append_left inside, here]
  rw [List.getElem?_drop] at there
  rw [← there]
  congr 1
  omega

/-- What a piece adds to the first `n` places, up to the place `m`. -/
theorem Piece.Of.take_append (of : p.Of stream) {m : Nat} (start : p.pos ≤ n) (order : n ≤ m)
    (inside : m ≤ p.stop) :
    stream.take m = stream.take n ++ (p.body.drop (n - p.pos)).take (m - n) := by
  obtain ⟨rest, split⟩ := of
  have fits : m - n ≤ (p.body.drop (n - p.pos)).length := by
    rw [List.length_drop]
    have : p.stop = p.pos + p.body.length := rfl
    omega
  have back : stream.drop n = p.body.drop (n - p.pos) ++ rest.drop (n - p.pos - p.body.length) := by
    rw [← List.drop_append, split, List.drop_drop]
    congr 1
    omega
  have whole : m = n + (m - n) := by omega
  rw [whole, List.take_add, back, List.take_append_of_le_length fits, ← whole]

end Bodies

/-- What is left of a list where the marked entries are taken out. -/
def sift : List Bool → List α → List α
  | mark :: marks, x :: xs => if mark then sift marks xs else x :: sift marks xs
  | _, _ => []

@[simp] theorem sift_nil (marks : List Bool) : sift marks ([] : List α) = [] := by
  cases marks <;> rfl

theorem sift_append (marks marks' : List Bool) (xs ys : List α)
    (aligned : marks.length = xs.length) :
    sift (marks ++ marks') (xs ++ ys) = sift marks xs ++ sift marks' ys := by
  induction marks generalizing xs with
  | nil =>
      rw [List.length_eq_zero_iff.mp aligned.symm]
      simp
  | cons mark marks ih =>
      cases xs with
      | nil => simp at aligned
      | cons x xs =>
          have tails := ih xs (by simpa using aligned)
          cases mark <;> simp [sift, tails]

/-- Without a mark nothing is taken out. -/
theorem sift_unmarked (marks : List Bool) (xs : List α) (aligned : marks.length = xs.length)
    (unmarked : true ∉ marks) : sift marks xs = xs := by
  induction marks generalizing xs with
  | nil => exact (List.length_eq_zero_iff.mp aligned.symm).symm ▸ rfl
  | cons mark marks ih =>
      cases xs with
      | nil => simp at aligned
      | cons x xs =>
          simp only [List.mem_cons, not_or] at unmarked
          have tails := ih xs (by simpa using aligned) unmarked.2
          cases mark with
          | false => simp [sift, tails]
          | true => exact absurd rfl unmarked.1

theorem length_sift (marks : List Bool) (xs : List α) (aligned : marks.length = xs.length) :
    (sift marks xs).length + marks.count true = xs.length := by
  induction marks generalizing xs with
  | nil =>
      rw [List.length_eq_zero_iff.mp aligned.symm]
      rfl
  | cons mark marks ih =>
      cases xs with
      | nil => simp at aligned
      | cons x xs =>
          have tails := ih xs (by simpa using aligned)
          cases mark <;> simp [sift] <;> omega

end Bscope.Reassembly
