import Bscope.Session

set_option autoImplicit false

namespace Bscope

inductive ScanState where
  | inReady | inKey | inValueIgnore | inValue
deriving DecidableEq

/-- The locals of `parse_string`, with `ks` as an offset into `p`, the list the
items go to, and one past the furthest byte of `p` read so far. -/
structure ScanVars where
  i : Nat
  j : Nat
  kl : Nat
  k : ScanState
  ks : Option Nat
  proplist : List Kv
  reads : Nat

structure Parsed where
  s : Session
  ret : Option Nat
  reads : Nat

/-- `*(p+i)`; the bytes of `p` end with the block they were allocated in. -/
def charAt (p : Bytes) (i : Nat) : UInt8 := p.getD i 0

/-- The item recorded at the end of a value. -/
def scanItem (p : Bytes) (type : KvType) (v : ScanVars) : Kv where
  key := (strndup (p.drop (v.ks.getD 0)) v.kl).strtolower
  value := strndup (p.drop v.j) (v.i - v.j)
  type := type

/-- The end of a value: a wanted one is recorded. -/
def scanRecord (p : Bytes) (type : KvType) (v : ScanVars) : ScanVars :=
  let v := if v.k = .inValue then
      { v with proplist := scanItem p type v :: v.proplist, reads := max v.reads v.i }
    else v
  { v with k := .inReady }

def scanCompare (split : UInt8) (p : Bytes) (type : KvType) (v : ScanVars) : ScanVars :=
  let v := { v with reads := max v.reads (v.i + 1) }
  if charAt p v.i = split ∨ charAt p v.i = 0 then scanRecord p type v else v

/-- The two value states. On the last byte `catch_end_of_length` steps `i` past
the end; unless that byte was the first, no byte is compared at all. -/
def scanValue (split : UInt8) (p : Bytes) (l : Nat) (type : KvType) (catchEndOfLength : Bool)
    (v : ScanVars) : ScanVars :=
  if v.i + 1 = l ∧ catchEndOfLength then
    if v.i ≠ 0 then scanRecord p type { v with i := v.i + 1 }
    else scanCompare split p type { v with i := v.i + 1 }
  else scanCompare split p type v

/-- The `switch`. Its `return 0` on a NUL inside the value states is the test
that follows the `switch` and is made there. -/
def scanSwitch (split : UInt8) (p : Bytes) (l : Nat) (type : KvType) (tester : List CStr)
    (catchEndOfLength : Bool) (v : ScanVars) : ScanVars :=
  match v.k with
  | .inReady =>
      let v := { v with reads := max v.reads (v.i + 1) }
      if (charAt p v.i).toInt8 > 65 then { v with k := .inKey, j := v.i, ks := some v.i } else v
  | .inKey =>
      let v := { v with reads := max v.reads (v.i + 1) }
      if charAt p v.i = 61 then
        if isInList (p.drop v.j) (v.i - v.j) tester then
          { v with k := .inValue, kl := v.i - v.j, j := v.i + 1 }
        else { v with k := .inValueIgnore, j := v.i + 1 }
      else if charAt p v.i = split then { v with k := .inReady }
      else v
  | .inValue => scanValue split p l type catchEndOfLength v
  | .inValueIgnore => scanValue split p l type catchEndOfLength v

/-- The `for` loop; it runs at most `l` times. -/
def scanLoop (split : UInt8) (p : Bytes) (l : Nat) (type : KvType) (tester : List CStr)
    (catchEndOfLength : Bool) : Nat → ScanVars → List Kv × Option Nat × Nat
  | 0, v => (v.proplist, none, v.reads)
  | fuel + 1, v =>
      if v.i < l then
        let v := scanSwitch split p l type tester catchEndOfLength v
        if v.i < l ∧ charAt p v.i = 0 then (v.proplist, none, v.reads)
        else if v.i + 1 = l then (v.proplist, v.ks, v.reads)
        else scanLoop split p l type tester catchEndOfLength fuel { v with i := v.i + 1 }
      else (v.proplist, none, v.reads)

def parseString (split : UInt8) (p : Bytes) (l : Nat) (type : KvType) (tester : List CStr)
    (s : Session) (catchEndOfLength : Bool) : Parsed :=
  let r := scanLoop split p l type tester catchEndOfLength l
    { i := 0, j := 0, kl := 0, k := .inReady, ks := none, proplist := s.proplist, reads := 0 }
  { s := { s with proplist := r.1 }, ret := r.2.1, reads := r.2.2 }

example : (parseString 38 (asc "aa=1&Bb=&cc=2") 13 .get [lit "*"] sessionInit true).s.proplist =
    [⟨lit "cc", lit "2", .get⟩, ⟨lit "bb", lit "", .get⟩, ⟨lit "aa", lit "1", .get⟩] := by
  decide

end Bscope
