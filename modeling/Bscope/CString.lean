import Mathlib.Algebra.Group.Int.Defs
import Mathlib.Algebra.Group.Nat.Defs
import Mathlib.Data.List.TakeWhile

set_option autoImplicit false

/- C strings and the libc functions the sniffer calls on them. A `char *` is the
bytes before its terminator; a read past those bytes meets the terminator. -/
namespace Bscope

abbrev Bytes := List UInt8

/-- A NUL-terminated string, without its terminator. -/
@[ext] structure CStr where
  bytes : Bytes
  nulFree : 0 ∉ bytes
deriving DecidableEq

/-- The string a pointer to these bytes denotes: everything before the first NUL. -/
def cstr (p : Bytes) : CStr where
  bytes := p.takeWhile (· ≠ 0)
  nulFree := fun member => by simpa using List.mem_takeWhile_imp member

def asc (text : String) : Bytes := text.toList.map fun c => c.toNat.toUInt8

def lit (text : String) : CStr := cstr (asc text)

def CStr.strlen (s : CStr) : Nat := s.bytes.length

def strndup (p : Bytes) (n : Nat) : CStr := cstr (p.take n)

def tolower (c : UInt8) : UInt8 := if 65 ≤ c ∧ c ≤ 90 then c + 32 else c

/-- The comparison loop of `strncasecmp`; its sign is the sign of the first
difference, and it stops at a terminator common to both strings. -/
def strncasecmp : Bytes → Bytes → Nat → Int
  | _, _, 0 => 0
  | p1, p2, n + 1 =>
      let result : Int := (tolower (p1.headD 0)).toNat - (tolower (p2.headD 0)).toNat
      if result ≠ 0 ∨ p1.headD 0 = 0 then result else strncasecmp p1.tail p2.tail n

/-- The text from the first occurrence of `needle` on. -/
def strstr (haystack needle : Bytes) : Option Bytes :=
  match haystack with
  | [] => if needle = [] then some [] else none
  | c :: rest => if needle.isPrefixOf (c :: rest) then some (c :: rest) else strstr rest needle

/-- The text from the first `c` on. -/
def strchr (s : Bytes) (c : UInt8) : Option Bytes :=
  if c ∈ s then some (s.dropWhile (· ≠ c)) else none

theorem tolower_eq_zero (c : UInt8) : tolower c = 0 ↔ c = 0 := by
  unfold tolower
  split
  · rename_i upper
    constructor
    · intro zero
      have value := congrArg UInt8.toNat zero
      simp only [UInt8.le_iff_toNat_le, UInt8.toNat_ofNat, UInt8.toNat_add] at upper value
      omega
    · rintro rfl
      simp at upper
  · rfl

def CStr.strtolower (s : CStr) : CStr where
  bytes := s.bytes.map tolower
  nulFree := by
    rw [List.mem_map]
    rintro ⟨c, member, zero⟩
    rw [tolower_eq_zero] at zero
    exact s.nulFree (zero ▸ member)

theorem takeWhile_nul_of_free (p : Bytes) (free : 0 ∉ p) : p.takeWhile (· ≠ 0) = p := by
  rw [List.takeWhile_eq_self_iff]
  intro c member
  simpa using fun zero : c = 0 => free (zero ▸ member)

@[simp] theorem cstr_bytes_of_free (p : Bytes) (free : 0 ∉ p) : (cstr p).bytes = p :=
  takeWhile_nul_of_free p free

theorem cstr_bytes_isPrefix (p : Bytes) : (cstr p).bytes <+: p := List.takeWhile_prefix _

theorem cstr_append_nul (p rest : Bytes) : cstr (p ++ 0 :: rest) = cstr p := by
  apply CStr.ext
  change (p ++ 0 :: rest).takeWhile (· ≠ 0) = p.takeWhile (· ≠ 0)
  rw [List.takeWhile_append]
  split
  · rename_i whole
    rw [(List.takeWhile_prefix _).eq_of_length whole]
    simp
  · rfl

@[simp] theorem strtolower_strlen (s : CStr) : s.strtolower.strlen = s.strlen :=
  List.length_map tolower

theorem strndup_strlen_le (p : Bytes) (n : Nat) : (strndup p n).strlen ≤ p.length :=
  ((cstr_bytes_isPrefix (p.take n)).length_le).trans (List.length_take_le' n p)

theorem strndup_length (p : Bytes) : strndup p p.length = cstr p := by
  rw [strndup, List.take_length]

theorem strstr_suffix (haystack needle found : Bytes) (hit : strstr haystack needle = some found) :
    found <:+ haystack := by
  induction haystack with
  | nil =>
      rw [strstr] at hit
      split at hit
      · obtain rfl := Option.some.inj hit
        exact List.suffix_rfl
      · cases hit
  | cons c rest ih =>
      rw [strstr] at hit
      split at hit
      · obtain rfl := Option.some.inj hit
        exact List.suffix_rfl
      · exact (ih hit).trans (List.suffix_cons c rest)

theorem strstr_starts (haystack needle found : Bytes) (hit : strstr haystack needle = some found) :
    needle <+: found := by
  induction haystack with
  | nil =>
      rw [strstr] at hit
      split at hit
      · rename_i empty
        rw [empty]
        exact List.nil_prefix
      · cases hit
  | cons c rest ih =>
      rw [strstr] at hit
      split at hit
      · rename_i here
        obtain rfl := Option.some.inj hit
        exact List.isPrefixOf_iff_prefix.mp here
      · exact ih hit

end Bscope
