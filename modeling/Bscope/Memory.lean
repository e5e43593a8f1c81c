import Mathlib.Data.List.GetD
import Mathlib.Data.List.TakeWhile

set_option autoImplicit false

/- Byte-addressed memory with block stores, and the strings read back from it. -/
namespace Bscope.Memory

abbrev Mem := Nat → UInt8

def storeBytes (m : Mem) (base : Nat) (bs : List UInt8) : Mem :=
  fun a => if base ≤ a ∧ a < base + bs.length then bs.getD (a - base) 0 else m a

/-- A block that is written somewhere. -/
structure Store where
  base : Nat
  bytes : List UInt8
deriving DecidableEq

/-- The memory after some stores, the first of them made first. -/
def replay (m : Mem) (stores : List Store) : Mem :=
  stores.foldl (fun m store => storeBytes m store.base store.bytes) m

/-- Every byte lands below `size`. -/
def Store.Inside (size : Nat) (store : Store) : Prop :=
  ∀ i < store.bytes.length, store.base + i < size

/-- A 16-bit little-endian word. -/
def loadShort (m : Mem) (a : Nat) : Nat := (m a).toNat + 256 * (m (a + 1)).toNat

def shortBytes (n : Nat) : List UInt8 := [(n % 256).toUInt8, (n / 256 % 256).toUInt8]

/-- The bytes before the first zero, looking at `fuel` bytes at most. -/
def loadString (m : Mem) : Nat → Nat → List UInt8
  | 0, _ => []
  | fuel + 1, a => if m a = 0 then [] else m a :: loadString m fuel (a + 1)

/-- The block `bs` stands at `base`. -/
def Holds (m : Mem) (base : Nat) (bs : List UInt8) : Prop :=
  ∀ i, (inside : i < bs.length) → m (base + i) = bs[i]

theorem replay_append (m : Mem) (first second : List Store) :
    replay m (first ++ second) = replay (replay m first) second := List.foldl_append

theorem store_inside (size : Nat) (store : Store) (fits : store.base + store.bytes.length ≤ size) :
    store.Inside size := by
  intro i inside
  omega

theorem storeBytes_outside (m : Mem) (base : Nat) (bs : List UInt8) (a : Nat)
    (outside : a < base ∨ base + bs.length ≤ a) : storeBytes m base bs a = m a := by
  unfold storeBytes
  rw [if_neg (by omega)]

theorem storeBytes_holds (m : Mem) (base : Nat) (bs : List UInt8) :
    Holds (storeBytes m base bs) base bs := by
  intro i inside
  unfold storeBytes
  rw [if_pos (by omega), Nat.add_sub_cancel_left]
  simp [inside]

/-- A store leaves a block standing that it does not touch. -/
theorem Holds.store {m : Mem} {base : Nat} {bs : List UInt8} (held : Holds m base bs)
    (other : Nat) (new : List UInt8)
    (apart : base + bs.length ≤ other ∨ other + new.length ≤ base) :
    Holds (storeBytes m other new) base bs := by
  intro i inside
  rw [storeBytes_outside m other new (base + i) (by omega)]
  exact held i inside

theorem storeBytes_append (m : Mem) (base : Nat) (front back : List UInt8) :
    storeBytes (storeBytes m base front) (base + front.length) back =
      storeBytes m base (front ++ back) := by
  funext a
  unfold storeBytes
  by_cases first : base ≤ a ∧ a < base + front.length
  · rw [if_neg (by omega), if_pos first, if_pos (by rw [List.length_append]; omega)]
    rw [List.getD_append _ _ _ _ (by omega)]
  · by_cases second : base + front.length ≤ a ∧ a < base + front.length + back.length
    · rw [if_pos second, if_pos (by rw [List.length_append]; omega),
        List.getD_append_right _ _ _ _ (by omega)]
      congr 1
      omega
    · rw [if_neg second, if_neg first, if_neg (by rw [List.length_append]; omega)]

/-- What stands from `base` on stands from a later address on. -/
theorem Holds.later {m : Mem} {base : Nat} {bs : List UInt8} (held : Holds m base (bs.drop base))
    (base' : Nat) (above : base ≤ base') : Holds m base' (bs.drop base') := by
  intro i inside
  rw [List.length_drop] at inside
  have read := held (base' - base + i) (by rw [List.length_drop]; omega)
  rw [show base + (base' - base + i) = base' + i by omega] at read
  rw [read, List.getElem_drop, List.getElem_drop]
  congr 1
  omega

theorem holds_append (m : Mem) (base : Nat) (front back : List UInt8) :
    Holds m base (front ++ back) ↔ Holds m base front ∧ Holds m (base + front.length) back := by
  constructor
  · intro held
    constructor
    · intro i inside
      rw [held i (by simp only [List.length_append]; omega), List.getElem_append_left inside]
    · intro i inside
      rw [Nat.add_assoc, held (front.length + i) (by simp only [List.length_append]; omega)]
      simp
  · rintro ⟨first, second⟩ i inside
    by_cases inFront : i < front.length
    · rw [List.getElem_append_left inFront]
      exact first i inFront
    · have bound : i - front.length < back.length := by
        simp only [List.length_append] at inside
        omega
      have read := second (i - front.length) bound
      rw [show base + front.length + (i - front.length) = base + i by omega] at read
      rw [read, List.getElem_append_right (by omega)]

theorem loadShort_of_holds (m : Mem) (base n : Nat) (small : n < 65536)
    (held : Holds m base (shortBytes n)) : loadShort m base = n := by
  have low := held 0 (by simp [shortBytes])
  have high := held 1 (by simp [shortBytes])
  simp only [shortBytes, Nat.add_zero, List.getElem_cons_zero, List.getElem_cons_succ] at low high
  unfold loadShort
  rw [low, high]
  simp only [Nat.toUInt8, UInt8.toNat_ofNat']
  omega

theorem loadString_of_holds (m : Mem) (base fuel : Nat) (text : List UInt8) (free : 0 ∉ text)
    (held : Holds m base (text ++ [0])) (enough : text.length < fuel) :
    loadString m fuel base = text := by
  induction text generalizing base fuel with
  | nil =>
      cases fuel with
      | zero => simp at enough
      | succ fuel =>
          have stop := held 0 (by simp)
          simp only [Nat.add_zero, List.nil_append, List.getElem_cons_zero] at stop
          simp [loadString, stop]
  | cons c text ih =>
      cases fuel with
      | zero => simp at enough
      | succ fuel =>
          have first := held 0 (by simp)
          simp only [Nat.add_zero, List.cons_append, List.getElem_cons_zero] at first
          have present : c ≠ 0 := by
            rintro rfl
            exact free List.mem_cons_self
          have rest : Holds m (base + 1) (text ++ [0]) := by
            intro i inside
            rw [Nat.add_right_comm, Nat.add_assoc,
              held (i + 1) (by simpa using inside)]
            simp
          rw [loadString, first, if_neg present,
            ih (base + 1) fuel (fun member => free (List.mem_cons_of_mem c member)) rest
              (by simpa using enough)]

end Bscope.Memory
