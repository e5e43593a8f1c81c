import Mathlib.Algebra.Group.Int.Defs
import Mathlib.Algebra.Group.Nat.Defs
import Mathlib.Tactic.SplitIfs

set_option autoImplicit false

/- The objects and maps of a self-describing binary format: a tag byte, then what
the tag announces, numbers with their most significant byte first. -/
namespace Bscope.WireFormat

/-- The objects that stand for themselves; a float is its 32 bits. -/
inductive Value where
  | nil
  | int (v : Int)
  | float (bits : UInt32)
  | raw (bytes : List UInt8)
deriving DecidableEq

/-- The last `n` bytes of a number. -/
def bigEndian : Nat → Nat → List UInt8
  | 0, _ => []
  | n + 1, v => bigEndian n (v / 256) ++ [v.toUInt8]

def ofBigEndian (bytes : List UInt8) : Nat := bytes.foldl (fun v b => v * 256 + b.toNat) 0

def readNat (n : Nat) (bytes : List UInt8) : Option (Nat × List UInt8) :=
  if n ≤ bytes.length then some (ofBigEndian (bytes.take n), bytes.drop n) else none

def readRaw (len : Nat) (bytes : List UInt8) : Option (Value × List UInt8) :=
  if len ≤ bytes.length then some (.raw (bytes.take len), bytes.drop len) else none

/-- An `n`-byte number in two's complement. -/
def signed (n v : Nat) : Int := if 2 * v < 256 ^ n then v else v - 256 ^ n

/-- The first object of the text, and the text behind it. -/
def decodeValue : List UInt8 → Option (Value × List UInt8)
  | [] => none
  | tag :: rest =>
      let t := tag.toNat
      if t < 0x80 then some (.int t, rest)
      else if 0xa0 ≤ t ∧ t < 0xc0 then readRaw (t - 0xa0) rest
      else if t = 0xc0 then some (.nil, rest)
      else if t = 0xca then (readNat 4 rest).map fun r => (.float r.1.toUInt32, r.2)
      else if 0xcc ≤ t ∧ t ≤ 0xcf then
        (readNat (2 ^ (t - 0xcc)) rest).map fun r => (.int r.1, r.2)
      else if 0xd0 ≤ t ∧ t ≤ 0xd3 then
        (readNat (2 ^ (t - 0xd0)) rest).map fun r => (.int (signed (2 ^ (t - 0xd0)) r.1), r.2)
      else if t = 0xda then (readNat 2 rest).bind fun r => readRaw r.1 r.2
      else if t = 0xdb then (readNat 4 rest).bind fun r => readRaw r.1 r.2
      else if 0xe0 ≤ t then some (.int (t - 256), rest)
      else none

/-- So many keys, each with its value. -/
def decodePairs : Nat → List UInt8 → Option (List (Value × Value) × List UInt8)
  | 0, bytes => some ([], bytes)
  | n + 1, bytes =>
      (decodeValue bytes).bind fun key =>
        (decodeValue key.2).bind fun value =>
          (decodePairs n value.2).map fun rest => ((key.1, value.1) :: rest.1, rest.2)

/-- A map with a size of 16 bits. -/
def decodeMap : List UInt8 → Option (List (Value × Value) × List UInt8)
  | tag :: high :: low :: rest =>
      if tag = 0xde then decodePairs (high.toNat * 256 + low.toNat) rest else none
  | _ => none

/-- These bytes are the object, whatever follows. -/
def Encodes (bytes : List UInt8) (v : Value) : Prop :=
  ∀ rest, decodeValue (bytes ++ rest) = some (v, rest)

/-- The entry points of a packer; the body of a raw object is written as it is. -/
structure Packer where
  packNil : List UInt8
  packInt : Int → List UInt8
  packFloat : Int → List UInt8
  packRaw : Nat → List UInt8
  packMap : Nat → List UInt8

/-- What a packer promises, for the arguments of the C types; `bits` is how a
whole number is rounded to a float. -/
structure Packer.Lawful (pk : Packer) (bits : Int → UInt32) : Prop where
  nil : Encodes pk.packNil .nil
  int : ∀ v, -2147483648 ≤ v → v < 2147483648 → Encodes (pk.packInt v) (.int v)
  float : ∀ v, -2147483648 ≤ v → v < 2147483648 → Encodes (pk.packFloat v) (.float (bits v))
  raw : ∀ body : List UInt8, body.length < 4294967296 →
    Encodes (pk.packRaw body.length ++ body) (.raw body)
  map : ∃ high low, pk.packMap 20 = [0xde, high, low]

theorem decodePairs_flatMap {α : Type} (key value : α → List UInt8) (k v : α → Value)
    (items : List α) (each : ∀ a ∈ items, Encodes (key a) (k a) ∧ Encodes (value a) (v a)) :
    decodePairs items.length (items.flatMap fun a => key a ++ value a) =
      some (items.map fun a => (k a, v a), []) := by
  induction items with
  | nil => rfl
  | cons a items ih =>
      obtain ⟨first, second⟩ := each a List.mem_cons_self
      have rest := ih fun b member => each b (List.mem_cons_of_mem a member)
      rw [List.flatMap_cons, List.length_cons, decodePairs, List.append_assoc, first]
      simp only [Option.bind_some]
      rw [second]
      simp only [Option.bind_some]
      rw [rest]
      rfl

/-- A map header in front of as many pairs as it says. -/
theorem decodeMap_flatMap {α : Type} (key value : α → List UInt8) (k v : α → Value)
    (items : List α) (each : ∀ a ∈ items, Encodes (key a) (k a) ∧ Encodes (value a) (v a))
    (high low : UInt8) (size : high.toNat * 256 + low.toNat = items.length) :
    decodeMap (0xde :: high :: low :: items.flatMap fun a => key a ++ value a) =
      some (items.map fun a => (k a, v a), []) := by
  rw [decodeMap, if_pos rfl, size]
  exact decodePairs_flatMap key value k v items each

theorem bigEndian_length (n v : Nat) : (bigEndian n v).length = n := by
  induction n generalizing v with
  | zero => rfl
  | succ n ih => rw [bigEndian, List.length_append, ih, List.length_singleton]

theorem ofBigEndian_bigEndian (n v : Nat) (small : v < 256 ^ n) :
    ofBigEndian (bigEndian n v) = v := by
  induction n generalizing v with
  | zero =>
      obtain rfl : v = 0 := by omega
      rfl
  | succ n ih =>
      have high := ih (v / 256) (by rw [Nat.pow_succ] at small; omega)
      have low : v.toUInt8.toNat = v % 256 := UInt8.toNat_ofNat'
      unfold ofBigEndian at high ⊢
      rw [bigEndian, List.foldl_append, high, List.foldl_cons, List.foldl_nil, low]
      omega

theorem readNat_bigEndian (n v : Nat) (rest : List UInt8) (small : v < 256 ^ n) :
    readNat n (bigEndian n v ++ rest) = some (v, rest) := by
  have long := bigEndian_length n v
  rw [readNat, if_pos (by rw [List.length_append, long]; omega), List.take_left' long,
    List.drop_left' long, ofBigEndian_bigEndian n v small]

theorem readRaw_append (body rest : List UInt8) :
    readRaw body.length (body ++ rest) = some (.raw body, rest) := by
  rw [readRaw, if_pos (by rw [List.length_append]; omega), List.take_left, List.drop_left]

theorem byte_toNat (v : Nat) (byte : v < 256) : v.toUInt8.toNat = v := Nat.mod_eq_of_lt byte

/-- A number of `2 ^ w` bytes behind its tag. -/
theorem decodeValue_unsigned (tag : UInt8) (w n v : Nat) (rest : List UInt8)
    (named : tag.toNat = 0xcc + w) (width : w < 4) (bytes : 2 ^ w = n) (small : v < 256 ^ n) :
    decodeValue (tag :: bigEndian n v ++ rest) = some (.int v, rest) := by
  have read := readNat_bigEndian n v rest small
  rw [List.cons_append, decodeValue, named, if_neg (by omega), if_neg (by omega), if_neg (by omega),
    if_neg (by omega), if_pos (by omega), Nat.add_sub_cancel_left, bytes, read]
  rfl

theorem decodeValue_signed (tag : UInt8) (w n v : Nat) (rest : List UInt8)
    (named : tag.toNat = 0xd0 + w) (width : w < 4) (bytes : 2 ^ w = n) (small : v < 256 ^ n) :
    decodeValue (tag :: bigEndian n v ++ rest) = some (.int (signed n v), rest) := by
  have read := readNat_bigEndian n v rest small
  rw [List.cons_append, decodeValue, named, if_neg (by omega), if_neg (by omega), if_neg (by omega),
    if_neg (by omega), if_neg (by omega), if_pos (by omega), Nat.add_sub_cancel_left, bytes, read]
  rfl

theorem decodeValue_float (bits : UInt32) (rest : List UInt8) :
    decodeValue (0xca :: bigEndian 4 bits.toNat ++ rest) = some (.float bits, rest) := by
  have read := readNat_bigEndian 4 bits.toNat rest bits.toNat_lt
  have same : bits.toNat.toUInt32 = bits := UInt32.ofNat_toNat
  have tag : (0xca : UInt8).toNat = 0xca := rfl
  rw [List.cons_append, decodeValue, tag, if_neg (by omega), if_neg (by omega), if_neg (by omega),
    if_pos rfl, read, Option.map_some, same]

theorem decodeValue_small (v : Nat) (rest : List UInt8) (small : v < 128) :
    decodeValue (v.toUInt8 :: rest) = some (.int v, rest) := by
  have tag : v.toUInt8.toNat = v := byte_toNat _ (by omega)
  rw [decodeValue, tag, if_pos small]

theorem decodeValue_negative (v : Nat) (rest : List UInt8) (small : 224 ≤ v) (byte : v < 256) :
    decodeValue (v.toUInt8 :: rest) = some (.int (v - 256), rest) := by
  have tag : v.toUInt8.toNat = v := byte_toNat v byte
  rw [decodeValue, tag, if_neg (by omega), if_neg (by omega), if_neg (by omega),
    if_neg (by omega), if_neg (by omega), if_neg (by omega), if_neg (by omega),
    if_neg (by omega), if_pos (by omega)]

/-- The shortest form of a number, negative ones in two's complement. -/
def packInt (v : Int) : List UInt8 :=
  if v < -32768 then 0xd2 :: bigEndian 4 (v + 4294967296).toNat
  else if v < -128 then 0xd1 :: bigEndian 2 (v + 65536).toNat
  else if v < -32 then 0xd0 :: bigEndian 1 (v + 256).toNat
  else if v < 0 then [(v + 256).toNat.toUInt8]
  else if v < 128 then [v.toNat.toUInt8]
  else if v < 256 then 0xcc :: bigEndian 1 v.toNat
  else if v < 65536 then 0xcd :: bigEndian 2 v.toNat
  else 0xce :: bigEndian 4 v.toNat

def packRaw (len : Nat) : List UInt8 :=
  if len < 32 then [(0xa0 + len).toUInt8]
  else if len < 65536 then 0xda :: bigEndian 2 len
  else 0xdb :: bigEndian 4 len

def packMap (size : Nat) : List UInt8 :=
  if size < 16 then [(0x80 + size).toUInt8]
  else if size < 65536 then 0xde :: bigEndian 2 size
  else 0xdf :: bigEndian 4 size

/-- The packer that writes every object in its shortest form. -/
def shortest (bits : Int → UInt32) : Packer where
  packNil := [0xc0]
  packInt := packInt
  packFloat := fun v => 0xca :: bigEndian 4 (bits v).toNat
  packRaw := packRaw
  packMap := packMap

theorem packInt_encodes (v : Int) (lower : -2147483648 ≤ v) (upper : v < 2147483648) :
    Encodes (packInt v) (.int v) := by
  intro rest
  unfold packInt
  split_ifs
  · rw [decodeValue_signed 0xd2 2 4 (v + 4294967296).toNat rest rfl (by omega) rfl (by omega)]
    congr 3
    unfold signed
    split <;> omega
  · rw [decodeValue_signed 0xd1 1 2 (v + 65536).toNat rest rfl (by omega) rfl (by omega)]
    congr 3
    unfold signed
    split <;> omega
  · rw [decodeValue_signed 0xd0 0 1 (v + 256).toNat rest rfl (by omega) rfl (by omega)]
    congr 3
    unfold signed
    split <;> omega
  · rw [List.singleton_append, decodeValue_negative (v + 256).toNat rest (by omega) (by omega)]
    congr 3
    omega
  · rw [List.singleton_append, decodeValue_small v.toNat rest (by omega)]
    congr 3
    omega
  · rw [decodeValue_unsigned 0xcc 0 1 v.toNat rest rfl (by omega) rfl (by omega)]
    congr 3
    omega
  · rw [decodeValue_unsigned 0xcd 1 2 v.toNat rest rfl (by omega) rfl (by omega)]
    congr 3
    omega
  · rw [decodeValue_unsigned 0xce 2 4 v.toNat rest rfl (by omega) rfl (by omega)]
    congr 3
    omega

theorem packRaw_encodes (body : List UInt8) (short : body.length < 4294967296) :
    Encodes (packRaw body.length ++ body) (.raw body) := by
  intro rest
  rw [List.append_assoc]
  unfold packRaw
  split_ifs
  · have tag : (0xa0 + body.length).toUInt8.toNat = 0xa0 + body.length :=
      byte_toNat _ (by omega)
    rw [List.singleton_append, decodeValue, tag, if_neg (by omega), if_pos (by omega),
      Nat.add_sub_cancel_left, readRaw_append]
  · have read := readNat_bigEndian 2 body.length (body ++ rest) (by omega)
    have tag : (0xda : UInt8).toNat = 0xda := rfl
    rw [List.cons_append, decodeValue, tag, if_neg (by omega), if_neg (by omega), if_neg (by omega),
      if_neg (by omega), if_neg (by omega), if_neg (by omega), if_pos rfl, read, Option.bind_some,
      readRaw_append]
  · have read := readNat_bigEndian 4 body.length (body ++ rest) (by omega)
    have tag : (0xdb : UInt8).toNat = 0xdb := rfl
    rw [List.cons_append, decodeValue, tag, if_neg (by omega), if_neg (by omega), if_neg (by omega),
      if_neg (by omega), if_neg (by omega), if_neg (by omega), if_neg (by omega), if_pos rfl, read,
      Option.bind_some, readRaw_append]

theorem shortest_lawful (bits : Int → UInt32) : (shortest bits).Lawful bits where
  nil := fun _ => rfl
  int := packInt_encodes
  float := fun v _ _ rest => decodeValue_float (bits v) rest
  raw := packRaw_encodes
  map := ⟨0, 20, rfl⟩

end Bscope.WireFormat
