import Bscope.ConfigCommands
import Bscope.Masks

set_option autoImplicit false

/- The entries of the list `host-ip`, and what `ip_parse` makes of them. -/
namespace Bscope

open Masks Tokens

/-- A decimal numeral that does not exceed `max`; it may begin with zeros. -/
structure Numeral (max : Nat) where
  digits : Bytes
  nonempty : digits ≠ [] := by decide +kernel
  decimals : ∀ c ∈ digits, isdigit c = true := by decide +kernel
  bounded : decimalValue digits ≤ max := by decide +kernel

def Numeral.value {max : Nat} (n : Numeral max) : Nat := decimalValue n.digits

/-- An entry `a.b.c.d` or `a.b.c.d/m`. -/
structure HostEntry where
  a : Numeral 255
  b : Numeral 255
  c : Numeral 255
  d : Numeral 255
  bits : Option (Numeral 32)

def HostEntry.text (e : HostEntry) : Bytes :=
  e.a.digits ++ 46 :: (e.b.digits ++ 46 :: (e.c.digits ++ 46 :: (e.d.digits ++
    match e.bits with
    | some m => 47 :: m.digits
    | none => [])))

def HostEntry.address (e : HostEntry) : Nat := quad e.a.value e.b.value e.c.value e.d.value

/-- The length of the prefix that the entry compares. -/
def HostEntry.prefixLength (e : HostEntry) : Nat :=
  match e.bits with
  | some m => m.value
  | none => 32

theorem digit_least (c : UInt8) (digit : isdigit c = true) : 48 ≤ c.toNat := by
  have least := (Bool.and_eq_true_iff.mp digit).1
  simpa [UInt8.le_iff_toNat_le] using least

theorem digit_plain (c : UInt8) (digit : isdigit c = true) :
    isspace c = false ∧ c ≠ 43 ∧ c ≠ 45 ∧ c ≠ 46 ∧ c ≠ 47 := by
  have low := digit_least c digit
  have space : ¬ (c = 32 ∨ 9 ≤ c ∧ c ≤ 13) := by
    rintro (rfl | ⟨-, most⟩)
    · exact absurd low (by decide)
    · rw [UInt8.le_iff_toNat_le] at most
      have thirteen : (13 : UInt8).toNat = 13 := rfl
      omega
  have larger : ∀ d : UInt8, d.toNat < 48 → c ≠ d := by
    rintro d small rfl
    omega
  refine ⟨?_, larger 43 (by decide), larger 45 (by decide), larger 46 (by decide),
    larger 47 (by decide)⟩
  simpa [isspace] using space

theorem atoi_digits (digits : Bytes) (decimals : ∀ c ∈ digits, isdigit c = true)
    (bounded : decimalValue digits < 2 ^ 31) : atoi digits = decimalValue digits := by
  have cut : digits.takeWhile isdigit = digits := List.takeWhile_eq_self_iff.mpr decimals
  have first : ∀ c ∈ digits.head?, isspace c = false ∧ c ≠ 43 ∧ c ≠ 45 := by
    intro c head
    have ⟨space, plus, minus, _⟩ := digit_plain c (decimals c (List.mem_of_mem_head? head))
    exact ⟨space, plus, minus⟩
  have kept : digits.dropWhile isspace = digits := by
    cases digits with
    | nil => rfl
    | cons c rest => exact List.dropWhile_cons_of_neg (by simp [(first c rfl).1])
  have minus : digits.head? ≠ some 45 := fun head => (first 45 head).2.2 rfl
  have plus : digits.head? ≠ some 43 := fun head => (first 43 head).2.1 rfl
  unfold atoi
  simp only [kept, minus, plus, or_self, if_false, cut]
  show (min (2 ^ 63 - 1) (decimalValue digits : Int)).bmod (2 ^ 32) = _
  rw [Int.min_eq_right (by omega), Int.bmod_def]
  split <;> omega

theorem Numeral.atoi {max : Nat} (n : Numeral max) (small : max < 2 ^ 31) :
    atoi n.digits = n.value :=
  atoi_digits n.digits n.decimals (Nat.lt_of_le_of_lt n.bounded small)

theorem Numeral.free {max : Nat} (n : Numeral max) : 46 ∉ n.digits ∧ 47 ∉ n.digits := by
  constructor
  · intro member
    exact absurd (n.decimals 46 member) (by decide)
  · intro member
    exact absurd (n.decimals 47 member) (by decide)

theorem strchr_append (s rest : Bytes) (c : UInt8) (free : c ∉ s) :
    strchr (s ++ c :: rest) c = some (c :: rest) ∧
      (s ++ c :: rest).takeWhile (· ≠ c) = s := by
  have others : ∀ a ∈ s, decide (a ≠ c) = true := by
    intro a member
    rw [decide_eq_true_eq]
    rintro rfl
    exact free member
  constructor
  · unfold strchr
    rw [if_pos (by simp), List.dropWhile_append_of_pos others, List.dropWhile_cons_of_neg (by simp)]
  · rw [List.takeWhile_append_of_pos others, List.takeWhile_cons_of_neg (by simp), List.append_nil]

theorem strchr_none (s : Bytes) (c : UInt8) (free : c ∉ s) : strchr s c = none := if_neg free

theorem ipParseLoop_numeral (i max : Nat) (n : Numeral max) (small : max < 2 ^ 31) (rest : Bytes)
    (ip : UInt32) :
    ipParseLoop (i + 1) (n.digits ++ 46 :: rest) ip =
      ipParseLoop i rest (ip + UInt32.ofInt n.value <<< (8 * (i + 1)).toUInt32) := by
  have ⟨found, cut⟩ := strchr_append n.digits rest 46 n.free.1
  rw [ipParseLoop, found, cut, n.atoi small]
  rfl

theorem ofInt_value (n : Nat) (small : n < 2 ^ 32) : (UInt32.ofInt n).toNat = n := by
  show ((n : Int) % 2 ^ 32).toNat % 2 ^ 32 = n
  omega

/-- The sum that `ip_parse` builds from the octets. -/
def octetSum (a b c d : Nat) : UInt32 :=
  0 + UInt32.ofInt a <<< (24 : UInt32) + UInt32.ofInt b <<< (16 : UInt32) +
    UInt32.ofInt c <<< (8 : UInt32) + UInt32.ofInt d

theorem octetSum_value (a b c d : Nat) (ha : a ≤ 255) (hb : b ≤ 255) (hc : c ≤ 255)
    (hd : d ≤ 255) : (octetSum a b c d).toNat = quad a b c d := by
  have shifted : ∀ (n : Nat) (k : UInt32), k.toNat < 32 →
      (UInt32.ofInt n <<< k).toNat = (UInt32.ofInt n).toNat * 2 ^ k.toNat % 2 ^ 32 := by
    intro n k short
    rw [UInt32.toNat_shiftLeft, Nat.mod_eq_of_lt short, Nat.shiftLeft_eq]
  have first : (UInt32.ofInt a <<< (24 : UInt32)).toNat = a * 2 ^ 24 % 2 ^ 32 := by
    rw [shifted a 24 (by decide), ofInt_value a (by omega)]
    rfl
  have second : (UInt32.ofInt b <<< (16 : UInt32)).toNat = b * 2 ^ 16 % 2 ^ 32 := by
    rw [shifted b 16 (by decide), ofInt_value b (by omega)]
    rfl
  have third : (UInt32.ofInt c <<< (8 : UInt32)).toNat = c * 2 ^ 8 % 2 ^ 32 := by
    rw [shifted c 8 (by decide), ofInt_value c (by omega)]
    rfl
  have zero : (0 : UInt32).toNat = 0 := rfl
  unfold octetSum quad
  rw [UInt32.toNat_add, UInt32.toNat_add, UInt32.toNat_add, UInt32.toNat_add, zero, first, second,
    third, ofInt_value d (by omega)]
  omega

/-- The mask of an entry with a prefix length. -/
def maskOf (m : Nat) : UInt32 :=
  if (m : Int) = 0 then 0 else 4294967295 <<< UInt32.ofInt (32 - (m : Int))

theorem maskOf_bits (m : Nat) (positive : 0 < m) (short : m ≤ 32) :
    (maskOf m).toBitVec = BitVec.allOnes 32 <<< (32 - m) := by
  have count : UInt32.ofInt (32 - (m : Int)) = UInt32.ofInt (32 - m : Nat) := by
    congr 1
    omega
  unfold maskOf
  rw [if_neg (by omega), count, UInt32.toBitVec_shiftLeft, BitVec.shiftLeft_eq']
  congr 1
  show (UInt32.ofInt (32 - m : Nat)).toNat % 32 = 32 - m
  rw [ofInt_value _ (by omega), Nat.mod_eq_of_lt (by omega)]

/-- Under the mask two addresses agree when their first `m` bits do. -/
theorem maskOf_iff (m : Nat) (short : m ≤ 32) (x y : UInt32) :
    x &&& maskOf m = y &&& maskOf m ↔
      x.toNat / 2 ^ (32 - m) = y.toNat / 2 ^ (32 - m) := by
  by_cases zero : m = 0
  · subst zero
    have none : ∀ z : UInt32, z.toNat / 2 ^ (32 - 0) = 0 := fun z =>
      Nat.div_eq_of_lt z.toNat_lt
    have clear : ∀ z : UInt32, z &&& maskOf 0 = 0 := fun z => UInt32.and_zero
    rw [none, none, clear, clear]
    simp
  · rw [← UInt32.toBitVec_inj, UInt32.toBitVec_and, UInt32.toBitVec_and,
      maskOf_bits m (by omega) short]
    exact masked_eq_iff x.toBitVec y.toBitVec (32 - m)

theorem ipParse_text (e : HostEntry) :
    ipParse e.text =
      some (octetSum e.a.value e.b.value e.c.value e.d.value &&& maskOf e.prefixLength,
        maskOf e.prefixLength) := by
  unfold ipParse HostEntry.text
  rw [ipParseLoop_numeral 2 255 e.a (by decide), ipParseLoop_numeral 1 255 e.b (by decide),
    ipParseLoop_numeral 0 255 e.c (by decide)]
  unfold HostEntry.prefixLength
  cases e.bits with
  | none =>
      simp only [ipParseLoop, List.append_nil, strchr_none e.d.digits 47 e.d.free.2,
        e.d.atoi (show 255 < 2 ^ 31 by decide)]
      rfl
  | some m =>
      have ⟨found, cut⟩ := strchr_append e.d.digits m.digits 47 e.d.free.2
      simp only [ipParseLoop, found, cut, List.tail_cons, m.atoi (show 32 < 2 ^ 31 by decide),
        e.d.atoi (show 255 < 2 ^ 31 by decide)]
      rfl

theorem HostEntry.text_least (e : HostEntry) : ∀ c ∈ e.text, 46 ≤ c.toNat := by
  have digits : ∀ (max : Nat) (n : Numeral max), ∀ c ∈ n.digits, 46 ≤ c.toNat := by
    intro max n c member
    have least := digit_least c (n.decimals c member)
    omega
  have mask : ∀ c ∈ (match e.bits with | some m => 47 :: m.digits | none => []), 46 ≤ c.toNat := by
    cases e.bits with
    | none => simp
    | some m =>
        intro c member
        rcases List.mem_cons.mp member with rfl | digit
        · decide
        · exact digits 32 m c digit
  intro c member
  simp only [HostEntry.text, List.mem_append, List.mem_cons] at member
  rcases member with a | rfl | b | rfl | c' | rfl | d | m
  · exact digits 255 e.a c a
  · decide
  · exact digits 255 e.b c b
  · decide
  · exact digits 255 e.c c c'
  · decide
  · exact digits 255 e.d c d
  · exact mask c m

theorem HostEntry.text_nonempty (e : HostEntry) : e.text ≠ [] := by
  unfold HostEntry.text
  simp

/-- Every list of entries can be written on a line. -/
theorem hostLine_tokens (entries : List HostEntry) :
    listTokens [(lit "http-scope", lit "host-ip",
        cstr ((entries.map HostEntry.text).flatMap (· ++ [44])))] .hostIp =
      entries.map HostEntry.text := by
  have key : settingOf (lit "http-scope") (lit "host-ip") = some (.list .hostIp) := by decide +kernel
  have free : 0 ∉ (entries.map HostEntry.text).flatMap (· ++ [44]) := by
    intro member
    obtain ⟨t, written, inside⟩ := List.mem_flatMap.mp member
    obtain ⟨e, -, rfl⟩ := List.mem_map.mp written
    rcases List.mem_append.mp inside with own | comma
    · exact absurd (e.text_least 0 own) (by decide)
    · exact absurd comma (by decide)
  unfold listTokens
  rw [List.flatMap_singleton, if_pos key, cstr_bytes_of_free _ free]
  apply tokens_flatMap isSplit _ 44 rfl
  intro t written
  obtain ⟨e, -, rfl⟩ := List.mem_map.mp written
  refine ⟨e.text_nonempty, ?_⟩
  intro c member
  have least := e.text_least c member
  rw [Bool.eq_false_iff]
  intro splits
  have cases : c = 44 ∨ c = 32 := by simpa [isSplit] using splits
  rcases cases with rfl | rfl
  · exact absurd least (by decide)
  · exact absurd least (by decide)

end Bscope
