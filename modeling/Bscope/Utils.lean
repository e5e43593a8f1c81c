import Bscope.CString

set_option autoImplicit false

namespace Bscope

/-- `"*"` accepts every name; a configured name is compared over the length of
the tested one. -/
def isInList (test : Bytes) (strlen : Nat) (list : List CStr) : Bool :=
  list.any fun name => name.bytes = [42] || strncasecmp test name.bytes strlen = 0

def hexValue (c : UInt8) : Option Nat :=
  if 48 ≤ c ∧ c ≤ 57 then some (c.toNat - 48)
  else if 65 ≤ c ∧ c ≤ 70 then some (c.toNat - 55)
  else if 97 ≤ c ∧ c ≤ 102 then some (c.toNat - 87)
  else none

/-- `strtoul` on `"0x"` and two more characters, base 16: it stops at the first
character that is no hexadecimal digit. -/
def strtoulHex (c2 c3 : UInt8) : Nat :=
  match hexValue c2 with
  | none => 0
  | some high =>
      match hexValue c3 with
      | none => high
      | some low => high * 16 + low

/-- The loop of `urldecode` over the buffer that it reads and writes; `i` reads,
`j` writes. A `'%'` too close to the end advances `j` without a store. -/
def urldecodeLoop (l : Nat) : Nat → Bytes → Nat → Nat → Bytes × Nat
  | 0, p, _, j => (p, j)
  | fuel + 1, p, i, j =>
      if i < l then
        if p.getD i 0 = 37 then
          if i + 1 < l ∧ p.getD (i + 1) 0 = 37 then
            urldecodeLoop l fuel (p.set j 37) (i + 2) (j + 1)
          else if i + 2 < l then
            urldecodeLoop l fuel
              (p.set j (strtoulHex (p.getD (i + 1) 0) (p.getD (i + 2) 0)).toUInt8) (i + 3) (j + 1)
          else urldecodeLoop l fuel p (i + 1) (j + 1)
        else if p.getD i 0 = 43 then urldecodeLoop l fuel (p.set j 32) (i + 1) (j + 1)
        else urldecodeLoop l fuel (p.set j (p.getD i 0)) (i + 1) (j + 1)
      else (p, j)

/-- The string that the buffer holds after decoding in place. -/
def urldecode (p : CStr) : CStr :=
  let done := urldecodeLoop p.strlen p.strlen (p.bytes ++ [0]) 0 0
  cstr (done.1.set done.2 0)

example : urldecode (lit "a%41+%%b%2") = lit "aA %b%2" := by decide

theorem urldecodeLoop_length (l fuel : Nat) (p : Bytes) (i j : Nat) :
    (urldecodeLoop l fuel p i j).1.length = p.length := by
  induction fuel generalizing p i j with
  | zero => rfl
  | succ fuel ih =>
      unfold urldecodeLoop
      split
      · split
        · split
          · rw [ih, List.length_set]
          · split
            · rw [ih, List.length_set]
            · exact ih p (i + 1) (j + 1)
        · split <;> rw [ih, List.length_set]
      · rfl

/-- The write position stays behind the read position. -/
theorem urldecodeLoop_end (l fuel : Nat) (p : Bytes) (i j : Nat) (behind : j ≤ i) (within : i ≤ l) :
    (urldecodeLoop l fuel p i j).2 ≤ l := by
  induction fuel generalizing p i j with
  | zero => exact behind.trans within
  | succ fuel ih =>
      unfold urldecodeLoop
      split
      · split
        · split
          · exact ih _ _ _ (by omega) (by omega)
          · split
            · exact ih _ _ _ (by omega) (by omega)
            · exact ih _ _ _ (by omega) (by omega)
        · split <;> exact ih _ _ _ (by omega) (by omega)
      · exact behind.trans within

theorem cstr_set_nul (p : Bytes) (k : Nat) (inside : k < p.length) :
    (cstr (p.set k 0)).strlen ≤ k := by
  rw [List.set_eq_take_append_cons_drop, if_pos inside, cstr_append_nul]
  exact (cstr_bytes_isPrefix _).length_le.trans (List.length_take_le k p)

/-- Decoding never lengthens a string. -/
theorem urldecode_strlen_le (p : CStr) : (urldecode p).strlen ≤ p.strlen := by
  have last := urldecodeLoop_end p.strlen p.strlen (p.bytes ++ [0]) 0 0 (Nat.le_refl 0)
    (Nat.zero_le _)
  refine (cstr_set_nul _ _ ?_).trans last
  rw [urldecodeLoop_length, List.length_append]
  exact Nat.lt_succ_of_le last

end Bscope
