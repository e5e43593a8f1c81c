import Bscope.HeaderValues
import Bscope.Overwrite

set_option autoImplicit false

/- `urldecode` on the pieces of its input: what it reads, and what it leaves in the
buffer. -/
namespace Bscope

open Overwrite

/-- A piece of the input that the decoder takes as one character. -/
inductive Piece where
  | plain (c : UInt8)
  | pair
  | code (high low : UInt8)
deriving DecidableEq

namespace Piece

def text : Piece → Bytes
  | plain c => [c]
  | pair => [37, 37]
  | code high low => [37, high, low]

def byte : Piece → UInt8
  | plain c => if c = 43 then 32 else c
  | pair => 37
  | code high low => (strtoulHex high low).toUInt8

/-- No '%' stands alone, and an escape has its two digits. -/
def Fits : Piece → Prop
  | plain c => c ≠ 37
  | pair => True
  | code high low => (hexValue high).isSome ∧ (hexValue low).isSome

end Piece

theorem hexDigit_ne_percent (c : UInt8) (digit : (hexValue c).isSome) : c ≠ 37 := by
  rintro rfl
  exact absurd digit (by decide)

section Loop

variable (v front rest out : Bytes) (fuel : Nat)

/-- The cells of a piece are read as they came. -/
theorem piece_getD (t : Piece) (k : Nat) (whole : v = front ++ (t.text ++ rest))
    (behind : out.length ≤ front.length) (inside : k < t.text.length) :
    (overwritten out (v ++ [0])).getD (front.length + k) 0 = t.text.getD k 0 := by
  rw [overwritten_getD _ _ _ _ (by omega), getD_terminated, whole,
    List.getD_append_right _ _ _ _ (by omega), Nat.add_sub_cancel_left,
    List.getD_append _ _ _ _ inside]

/-- One piece is read, and one character is written. -/
theorem urldecodeLoop_piece (t : Piece) (whole : v = front ++ (t.text ++ rest))
    (behind : out.length ≤ front.length) (fits : t.Fits) :
    urldecodeLoop v.length (fuel + 1) (overwritten out (v ++ [0])) front.length out.length =
      urldecodeLoop v.length fuel (overwritten (out ++ [t.byte]) (v ++ [0]))
        (front.length + t.text.length) (out.length + 1) := by
  have size : v.length = front.length + (t.text.length + rest.length) := by
    rw [whole, List.length_append, List.length_append]
  have cell := piece_getD v front rest out t
  have room : out.length < (v ++ [0]).length := by
    rw [List.length_append, List.length_singleton]
    omega
  cases t with
  | plain c =>
      have first : (overwritten out (v ++ [0])).getD front.length 0 = c :=
        cell 0 whole behind Nat.zero_lt_one
      rw [urldecodeLoop_succ _ _ _ _ _ (by rw [size, Piece.text, List.length_singleton]; omega),
        first, if_neg fits]
      split
      · rename_i plus
        rw [overwritten_set _ _ _ room, Piece.byte, if_pos plus]
        rfl
      · rename_i other
        rw [overwritten_set _ _ _ room, Piece.byte, if_neg other]
        rfl
  | pair =>
      have width : Piece.pair.text.length = 2 := rfl
      have first : (overwritten out (v ++ [0])).getD front.length 0 = 37 :=
        cell 0 whole behind (by decide)
      have second : (overwritten out (v ++ [0])).getD (front.length + 1) 0 = 37 :=
        cell 1 whole behind (by decide)
      rw [urldecodeLoop_succ _ _ _ _ _ (by omega), first, second, if_pos rfl,
        if_pos ⟨by omega, rfl⟩, overwritten_set _ _ _ room]
      rfl
  | code high low =>
      have width : (Piece.code high low).text.length = 3 := rfl
      have first : (overwritten out (v ++ [0])).getD front.length 0 = 37 :=
        cell 0 whole behind (by omega)
      have second : (overwritten out (v ++ [0])).getD (front.length + 1) 0 = high :=
        cell 1 whole behind (by omega)
      have third : (overwritten out (v ++ [0])).getD (front.length + 2) 0 = low :=
        cell 2 whole behind (by omega)
      have digit := hexDigit_ne_percent high fits.1
      rw [urldecodeLoop_succ _ _ _ _ _ (by omega), first, second, third, if_pos rfl,
        if_neg fun both => digit both.2, if_pos (by omega), overwritten_set _ _ _ room]
      rfl

/-- A '%' too close to the end moves the output on over a cell that it does not write. -/
theorem urldecodeLoop_truncated (whole : v = front ++ 37 :: rest)
    (behind : out.length ≤ front.length)
    (short : rest.length ≤ 1) (single : rest ≠ [37]) :
    urldecodeLoop v.length (fuel + 1) (overwritten out (v ++ [0])) front.length out.length =
      urldecodeLoop v.length fuel (overwritten (out ++ [v.getD out.length 0]) (v ++ [0]))
        (front.length + 1) (out.length + 1) := by
  have size : v.length = front.length + (1 + rest.length) := by
    rw [whole, List.length_append, List.length_cons, Nat.add_comm 1]
  have room : out.length < (v ++ [0]).length := by
    rw [List.length_append, List.length_singleton]
    omega
  have ahead : ∀ k, (overwritten out (v ++ [0])).getD (front.length + k) 0 =
      (37 :: rest).getD k 0 := by
    intro k
    rw [overwritten_getD _ _ _ _ (by omega), getD_terminated, whole,
      List.getD_append_right _ _ _ _ (by omega), Nat.add_sub_cancel_left]
  have no_pair : ¬ (front.length + 1 < v.length ∧
      (overwritten out (v ++ [0])).getD (front.length + 1) 0 = 37) := by
    rintro ⟨more, again⟩
    rw [ahead 1] at again
    obtain ⟨c, rfl⟩ : ∃ c, rest = [c] := List.length_eq_one_iff.mp (by omega)
    exact single (congrArg (fun c => [c]) again)
  have first : (overwritten out (v ++ [0])).getD front.length 0 = 37 := ahead 0
  rw [urldecodeLoop_succ _ _ _ _ _ (by omega), if_pos first, if_neg no_pair, if_neg (by omega),
    overwritten_skip out (v ++ [0]) 0 room, getD_terminated]

theorem urldecodeLoop_pieces (ts : List Piece) (whole : v = front ++ (ts.flatMap Piece.text ++ rest))
    (behind : out.length ≤ front.length) (fits : ∀ t ∈ ts, t.Fits) :
    urldecodeLoop v.length (fuel + ts.length) (overwritten out (v ++ [0])) front.length out.length =
      urldecodeLoop v.length fuel (overwritten (out ++ ts.map Piece.byte) (v ++ [0]))
        (front.length + (ts.flatMap Piece.text).length) (out.length + ts.length) := by
  induction ts generalizing front out with
  | nil =>
      rw [List.map_nil, List.append_nil]
      rfl
  | cons t ts ih =>
      have split : v = front ++ (t.text ++ (ts.flatMap Piece.text ++ rest)) := by
        rw [whole, List.flatMap_cons, List.append_assoc]
      have split' : v = (front ++ t.text) ++ (ts.flatMap Piece.text ++ rest) := by
        rw [split, List.append_assoc]
      have wide : 0 < t.text.length := by cases t <;> exact Nat.succ_pos _
      have one : (out ++ [t.byte]).length = out.length + 1 := List.length_append
      have two : (front ++ t.text).length = front.length + t.text.length := List.length_append
      have first := urldecodeLoop_piece v front (ts.flatMap Piece.text ++ rest) out
        (fuel + ts.length) t split behind (fits t List.mem_cons_self)
      have later := ih (front ++ t.text) (out ++ [t.byte]) split' (by omega)
        fun t' member => fits t' (List.mem_cons_of_mem _ member)
      rw [one, two] at later
      rw [List.length_cons, ← Nat.add_assoc, first, later, List.append_assoc, List.flatMap_cons,
        List.length_append, ← Nat.add_assoc, Nat.add_comm ts.length 1, ← Nat.add_assoc]
      rfl

end Loop

/-- What `urldecode` leaves in the buffer of a string, its terminator included. -/
def urldecodeBuffer (v : Bytes) : Bytes :=
  let done := urldecodeLoop v.length v.length (v ++ [0]) 0 0
  done.1.set done.2 0

theorem urldecode_cstr (v : Bytes) (free : 0 ∉ v) :
    urldecode (cstr v) = cstr (urldecodeBuffer v) := by
  unfold urldecode CStr.strlen
  rw [cstr_bytes_of_free v free]
  rfl

theorem texts_length (ts : List Piece) : ts.length ≤ (ts.flatMap Piece.text).length := by
  induction ts with
  | nil => exact Nat.le_refl 0
  | cons t ts ih =>
      have wide : 0 < t.text.length := by cases t <;> exact Nat.succ_pos _
      rw [List.flatMap_cons, List.length_append, List.length_cons]
      omega

/-- Where the loop leaves its output, the terminator comes behind it. -/
theorem urldecodeBuffer_of_run (v out : Bytes)
    (run : urldecodeLoop v.length v.length (v ++ [0]) 0 0 = (overwritten out (v ++ [0]), out.length))
    (room : out.length < (v ++ [0]).length) :
    urldecodeBuffer v = overwritten (out ++ [0]) (v ++ [0]) := by
  unfold urldecodeBuffer
  rw [run]
  exact overwritten_set out (v ++ [0]) 0 room

/-- An input of whole pieces. -/
theorem urldecodeBuffer_pieces (v : Bytes) (ts : List Piece) (whole : v = ts.flatMap Piece.text)
    (fits : ∀ t ∈ ts, t.Fits) :
    urldecodeBuffer v = overwritten (ts.map Piece.byte ++ [0]) (v ++ [0]) := by
  have count := texts_length ts
  rw [← whole] at count
  have fuel : v.length = v.length - ts.length + ts.length := by omega
  have run := urldecodeLoop_pieces v [] [] [] (v.length - ts.length) ts
    (by rw [List.nil_append, List.append_nil]; exact whole) (Nat.le_refl 0) fits
  rw [← fuel, overwritten_nil, List.length_nil, Nat.zero_add, Nat.zero_add, List.nil_append,
    ← whole, urldecodeLoop_done _ _ _ _ _ (Nat.le_refl _)] at run
  apply urldecodeBuffer_of_run
  · rw [run, List.length_map]
  · rw [List.length_map, List.length_append, List.length_singleton]
    omega

/-- Characters that stand for themselves. -/
theorem plain_text (tail : Bytes) : (tail.map Piece.plain).flatMap Piece.text = tail := by
  rw [List.flatMap_map]
  exact List.flatMap_singleton' tail

theorem plain_fits (tail : Bytes) (free : 37 ∉ tail) : ∀ t ∈ tail.map Piece.plain, t.Fits := by
  intro t member
  obtain ⟨c, inside, rfl⟩ := List.mem_map.mp member
  rintro rfl
  exact free inside

/-- The input ends with a '%' that is too close to the end. -/
theorem urldecodeBuffer_truncated (v tail : Bytes) (ts : List Piece)
    (whole : v = ts.flatMap Piece.text ++ 37 :: tail) (fits : ∀ t ∈ ts, t.Fits)
    (short : tail.length ≤ 1) (single : tail ≠ [37]) :
    urldecodeBuffer v =
      overwritten
        (ts.map Piece.byte ++ v.getD ts.length 0 :: (tail.map fun c => (Piece.plain c).byte) ++ [0])
        (v ++ [0]) := by
  have count := texts_length ts
  have size : v.length = (ts.flatMap Piece.text).length + (tail.length + 1) := by
    rw [whole, List.length_append, List.length_cons]
  have free : 37 ∉ tail := by
    intro inside
    obtain ⟨d, rfl⟩ : ∃ d, tail = [d] := List.length_eq_one_iff.mp (by
      have filled := List.length_pos_of_mem inside
      omega)
    exact single (congrArg (fun c => [c]) (List.mem_singleton.mp inside).symm)
  obtain ⟨fuel, enough⟩ : ∃ fuel, v.length = fuel + tail.length + 1 + ts.length :=
    ⟨v.length - tail.length - 1 - ts.length, by omega⟩
  -- up to the '%', over it, and to the end
  have first := urldecodeLoop_pieces v [] (37 :: tail) [] (fuel + tail.length + 1) ts whole
    (Nat.le_refl 0) fits
  have second := urldecodeLoop_truncated v (ts.flatMap Piece.text) tail (ts.map Piece.byte)
    (fuel + tail.length) whole (by rwa [List.length_map]) short single
  have third := urldecodeLoop_pieces v (ts.flatMap Piece.text ++ [37]) []
    (ts.map Piece.byte ++ [v.getD ts.length 0]) fuel (tail.map Piece.plain)
    (by rw [plain_text, List.append_nil, List.append_assoc]; exact whole)
    (by simpa using count) (plain_fits tail free)
  rw [overwritten_nil, List.nil_append, List.length_nil, Nat.zero_add, Nat.zero_add] at first
  rw [List.length_map] at second
  simp only [List.length_append, List.length_map, List.length_singleton, List.map_map, plain_text]
    at third
  have ended : ∀ p j, urldecodeLoop v.length fuel p
      ((ts.flatMap Piece.text).length + 1 + tail.length) j = (p, j) := by
    intro p j
    exact urldecodeLoop_done _ _ _ _ _ (by omega)
  have out : ts.map Piece.byte ++ v.getD ts.length 0 :: (tail.map fun c => (Piece.plain c).byte) =
      ts.map Piece.byte ++ [v.getD ts.length 0] ++ tail.map (Piece.byte ∘ Piece.plain) := by
    rw [List.append_assoc]
    rfl
  rw [out]
  apply urldecodeBuffer_of_run
  · nth_rewrite 2 [enough]
    rw [first, second, third, ended]
    simp only [List.length_append, List.length_map, List.length_singleton]
  · simp only [List.length_append, List.length_map, List.length_singleton]
    omega

section Accesses

inductive Access where
  | read (k : Nat) (c : UInt8)
  | write (k : Nat) (c : UInt8)
deriving DecidableEq

/-- What one round of the loop reads, in order, what it stores if anything, and how
far it moves `i`. -/
structure Round where
  reads : List Nat
  store : Option UInt8
  width : Nat

def urldecodeRound (l : Nat) (p : Bytes) (i : Nat) : Round :=
  if p.getD i 0 = 37 then
    if i + 1 < l ∧ p.getD (i + 1) 0 = 37 then ⟨[i, i + 1], some 37, 2⟩
    else if i + 2 < l then
      ⟨[i, i + 1, i + 1, i + 2],
        some (strtoulHex (p.getD (i + 1) 0) (p.getD (i + 2) 0)).toUInt8, 3⟩
    else ⟨if i + 1 < l then [i, i + 1] else [i], none, 1⟩
  else if p.getD i 0 = 43 then ⟨[i, i], some 32, 1⟩
  else ⟨[i, i, i], some (p.getD i 0), 1⟩

def Round.apply (r : Round) (p : Bytes) (j : Nat) : Bytes := r.store.elim p (p.set j)

/-- The accesses of the loop to the buffer, in order. -/
def urldecodeAccesses (l : Nat) : Nat → Bytes → Nat → Nat → List Access
  | 0, _, _, _ => []
  | fuel + 1, p, i, j =>
      if i < l then
        let r := urldecodeRound l p i
        r.reads.map (fun k => .read k (p.getD k 0)) ++ (r.store.map (Access.write j)).toList ++
          urldecodeAccesses l fuel (r.apply p j) (i + r.width) (j + 1)
      else []

/-- A buffer after these accesses. -/
def replay (p : Bytes) (accesses : List Access) : Bytes :=
  accesses.foldl (fun p access => match access with
    | .read _ _ => p
    | .write k c => p.set k c) p

variable (l fuel : Nat) (p : Bytes) (i j : Nat)

theorem urldecodeLoop_eq_round (more : i < l) :
    urldecodeLoop l (fuel + 1) p i j =
      urldecodeLoop l fuel ((urldecodeRound l p i).apply p j) (i + (urldecodeRound l p i).width)
        (j + 1) := by
  rw [urldecodeLoop_succ _ _ _ _ _ more]
  unfold urldecodeRound
  split
  · split
    · rfl
    · split <;> rfl
  · split <;> rfl

theorem urldecodeRound_bounds :
    (∀ k ∈ (urldecodeRound l p i).reads, i ≤ k) ∧ 0 < (urldecodeRound l p i).width := by
  unfold urldecodeRound
  split
  · split
    · exact ⟨by simp, Nat.succ_pos _⟩
    · split
      · exact ⟨by simp, Nat.succ_pos _⟩
      · refine ⟨?_, Nat.succ_pos _⟩
        split <;> simp
  · split <;> exact ⟨by simp, Nat.succ_pos _⟩

theorem replay_append (first second : List Access) :
    replay p (first ++ second) = replay (replay p first) second := List.foldl_append

theorem replay_reads (ks : List Nat) :
    replay p (ks.map fun k => .read k (p.getD k 0)) = p := by
  unfold replay
  induction ks with
  | nil => rfl
  | cons k ks ih => exact ih

/-- They are the accesses that make the loop's buffer. -/
theorem replay_urldecodeAccesses :
    replay p (urldecodeAccesses l fuel p i j) = (urldecodeLoop l fuel p i j).1 := by
  induction fuel generalizing p i j with
  | zero => rfl
  | succ fuel ih =>
      unfold urldecodeAccesses
      by_cases more : i < l
      · have stored : replay p ((urldecodeRound l p i).store.map (Access.write j)).toList =
            (urldecodeRound l p i).apply p j := by
          unfold Round.apply
          cases (urldecodeRound l p i).store <;> rfl
        rw [if_pos more, urldecodeLoop_eq_round l fuel p i j more]
        dsimp only
        rw [replay_append, replay_append, replay_reads, stored, ih]
      · rw [if_neg more, urldecodeLoop_done _ _ _ _ _ (by omega)]
        rfl

/-- An entry of a log stands in its first part or in its second. -/
theorem log_split (first second before after : List Access) (x : Access)
    (split : first ++ second = before ++ x :: after) :
    (∃ mid, first = before ++ x :: mid) ∨
      ∃ mid, before = first ++ mid ∧ second = mid ++ x :: after := by
  rcases List.append_eq_append_iff.mp split with ⟨mid, beyond, rest⟩ | ⟨mid, within, rest⟩
  · exact Or.inr ⟨mid, beyond, rest⟩
  · cases mid with
    | nil =>
        rw [List.append_nil] at within
        rw [List.nil_append] at rest
        exact Or.inr ⟨[], by rw [within, List.append_nil], rest.symm⟩
    | cons y mid =>
        rw [List.cons_append, List.cons.injEq] at rest
        exact Or.inl ⟨mid, by rw [within, rest.1]⟩

section OneRound

variable (r : Round)

/-- What a round logs before its store are reads. -/
theorem reads_only (k : Nat) (c : UInt8) :
    Access.write k c ∉ r.reads.map fun k => Access.read k (p.getD k 0) := by
  intro member
  obtain ⟨_, -, same⟩ := List.mem_map.mp member
  cases same

/-- What it logs behind them goes to the cell it writes. -/
theorem store_only (x : Access) (member : x ∈ (r.store.map (Access.write j)).toList) :
    ∃ c, x = .write j c := by
  rw [Option.mem_toList, Option.map_eq_some_iff] at member
  obtain ⟨c, -, same⟩ := member
  exact ⟨c, same.symm⟩

theorem apply_other (k : Nat) (apart : k ≠ j) : (r.apply p j).getD k 0 = p.getD k 0 := by
  unfold Round.apply
  cases r.store with
  | none => rfl
  | some c => exact getD_set_other p j k c apart

end OneRound

/-- Every read takes a cell as it was when the loop began, and that no write has
touched since. -/
theorem urldecodeAccesses_intact (behind : j ≤ i) (before after : List Access) (k : Nat) (c : UInt8)
    (split : urldecodeAccesses l fuel p i j = before ++ .read k c :: after) :
    i ≤ k ∧ p.getD k 0 = c ∧ ∀ c', Access.write k c' ∉ before := by
  induction fuel generalizing p i j before with
  | zero => exact absurd (split ▸ List.mem_append_right before List.mem_cons_self) List.not_mem_nil
  | succ fuel ih =>
      unfold urldecodeAccesses at split
      by_cases more : i < l
      · obtain ⟨ahead, wide⟩ := urldecodeRound_bounds l p i
        rw [if_pos more] at split
        generalize urldecodeRound l p i = r at split ahead wide
        dsimp only at split
        rw [List.append_assoc] at split
        rcases log_split _ _ _ _ _ split with ⟨mid, reads⟩ | ⟨mid, rfl, rest⟩
        -- one of this round's reads
        · have member : Access.read k c ∈ r.reads.map fun k => Access.read k (p.getD k 0) := by
            rw [reads]
            exact List.mem_append_right _ List.mem_cons_self
          obtain ⟨k', inside, same⟩ := List.mem_map.mp member
          cases same
          refine ⟨ahead k inside, rfl, ?_⟩
          intro c' written
          exact reads_only p r k c' (reads ▸ List.mem_append_left _ written)
        · rcases log_split _ _ _ _ _ rest with ⟨mid', writes⟩ | ⟨mid', rfl, later⟩
          · have stored : Access.read k c ∈ (r.store.map (Access.write j)).toList := by
              rw [writes]
              exact List.mem_append_right _ List.mem_cons_self
            obtain ⟨c', same⟩ := store_only j r _ stored
            cases same
          -- a read of a later round, which lies ahead of the cell this one has written
          · obtain ⟨beyond, cell, untouched⟩ := ih (r.apply p j) (i + r.width) (j + 1) (by omega)
              mid' later
            have apart : k ≠ j := by omega
            refine ⟨by omega, ?_, ?_⟩
            · rw [← cell, apply_other p j r k apart]
            · intro c' written
              rw [List.mem_append, List.mem_append] at written
              rcases written with read | wrote | rest'
              · exact reads_only p r k c' read
              · obtain ⟨c'', same⟩ := store_only j r _ wrote
                cases same
                exact apart rfl
              · exact untouched c' rest'
      · rw [if_neg more] at split
        exact absurd (split ▸ List.mem_append_right before List.mem_cons_self) List.not_mem_nil

end Accesses

end Bscope
