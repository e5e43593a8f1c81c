import Bscope.Settings

set_option autoImplicit false

/- The parser of INI files: a handler is called for each value. -/
namespace Bscope

def MAX_LINE : Nat := 200

def MAX_SECTION : Nat := 50

def MAX_NAME : Nat := 50

def rstrip (s : Bytes) : Bytes := (s.reverse.dropWhile isspace).reverse

def lskip (s : Bytes) : Bytes := s.dropWhile isspace

/-- The text from the first `c` on, or from the first ';' behind a whitespace. -/
def findCharOrComment (c : UInt8) : Bool → Bytes → Bytes
  | _, [] => []
  | wasWhitespace, x :: s =>
      if x = c ∨ (wasWhitespace = true ∧ x = 59) then x :: s
      else findCharOrComment c (isspace x) s

/-- The part of `s` in front of its suffix `stop`. -/
def before (s stop : Bytes) : Bytes := s.take (s.length - stop.length)

def strncpy0 (src : Bytes) (size : Nat) : Bytes := src.take (size - 1)

/-- `fgets` into a buffer of `size` bytes: a line with its newline, or as much of it as
fits, and the rest of the file. -/
def fgets (size : Nat) (file : Bytes) : Option (Bytes × Bytes) :=
  if file = [] then none
  else
    let head := file.takeWhile (· ≠ 10)
    let line := if head.length + 1 ≤ size - 1 then file.take (head.length + 1)
      else file.take (size - 1)
    some (line, file.drop line.length)

/-- What a line is to the parser. -/
inductive IniLine where
  | blank
  | more (value : Bytes)
  | heading (name : Bytes)
  | pair (name value : Bytes)
  | malformed
deriving DecidableEq

/-- The value of a pair, behind its '=' or ':'. -/
def iniValue (text : Bytes) : Bytes :=
  let value := lskip text
  rstrip (before value (findCharOrComment 0 false value))

/-- The tests that `ini_parse_file` makes on a line; a whitespace in front of it
continues the value of `prevName`. -/
def iniLine (prevName line : Bytes) : IniLine :=
  let stripped := rstrip (cstr line).bytes
  let start := lskip stripped
  if start.headD 0 = 59 ∨ start.headD 0 = 35 then .blank
  else if prevName ≠ [] ∧ start ≠ [] ∧ start ≠ stripped then .more start
  else if start.headD 0 = 91 then
    let stop := findCharOrComment 93 false start.tail
    if stop.headD 0 = 93 then .heading (before start.tail stop) else .malformed
  else if start ≠ [] ∧ start.headD 0 ≠ 59 then
    let stop := findCharOrComment 61 false start
    let stop := if stop.headD 0 ≠ 61 then findCharOrComment 58 false start else stop
    if stop.headD 0 = 61 ∨ stop.headD 0 = 58 then
      .pair (rstrip (before start stop)) (iniValue stop.tail)
    else .malformed
  else .blank

/-- The locals of `ini_parse_file`. -/
structure IniState where
  sect : Bytes
  prevName : Bytes
  lineno : Nat
  error : Nat
deriving DecidableEq

section Parse

variable {σ ε : Type} (handler : σ → CStr → CStr → CStr → Except ε (σ × Bool))

/-- The first error is kept, by its line. -/
def IniState.fault (st : IniState) : IniState :=
  if st.error = 0 then { st with error := st.lineno } else st

def iniCall (user : σ) (st : IniState) (name value : Bytes) : Except ε (σ × IniState) :=
  (handler user (cstr st.sect) (cstr name) (cstr value)).map fun r =>
    (r.1, if r.2 then st else st.fault)

def iniStep (user : σ) (st : IniState) (line : Bytes) : Except ε (σ × IniState) :=
  let st := { st with lineno := st.lineno + 1 }
  match iniLine st.prevName line with
  | .blank => .ok (user, st)
  | .more value => iniCall handler user st st.prevName value
  | .heading name =>
      .ok (user, { st with sect := strncpy0 name MAX_SECTION, prevName := [] })
  | .pair name value =>
      iniCall handler user { st with prevName := strncpy0 name MAX_NAME } name value
  | .malformed => .ok (user, st.fault)

def iniLoop : Nat → Bytes → σ → IniState → Except ε (σ × IniState)
  | 0, _, user, st => .ok (user, st)
  | fuel + 1, file, user, st =>
      match fgets MAX_LINE file with
      | some (line, rest) =>
          (iniStep handler user st line).bind fun r => iniLoop fuel rest r.1 r.2
      | none => .ok (user, st)

/-- The state of the user, and the line of the first error. -/
def iniParseFile (file : Bytes) (user : σ) : Except ε (σ × Nat) :=
  (iniLoop handler file.length file user ⟨[], [], 0, 0⟩).map fun r => (r.1, r.2.error)

end Parse

/-- The values of a file, each with its section and its name: every line behind a pair
that begins with a whitespace gives its name another value. -/
def iniPairs : Nat → Bytes → Bytes → Bytes → List (CStr × CStr × CStr)
  | 0, _, _, _ => []
  | fuel + 1, file, sect, prevName =>
      match fgets MAX_LINE file with
      | some (line, rest) =>
          match iniLine prevName line with
          | .more value => (cstr sect, cstr prevName, cstr value) :: iniPairs fuel rest sect prevName
          | .heading name => iniPairs fuel rest (strncpy0 name MAX_SECTION) []
          | .pair name value =>
              (cstr sect, cstr name, cstr value) ::
                iniPairs fuel rest sect (strncpy0 name MAX_NAME)
          | _ => iniPairs fuel rest sect prevName
      | none => []

def iniFilePairs (file : Bytes) : List (CStr × CStr × CStr) := iniPairs file.length file [] []

example : iniFilePairs (asc "[s]\na = 1 ; one\n  2\n#b = 3\nc : 4") =
    [(lit "s", lit "a", lit "1"), (lit "s", lit "a", lit "2"), (lit "s", lit "c", lit "4")] := by
  decide +kernel

@[simp] theorem IniState.fault_sect (st : IniState) : st.fault.sect = st.sect := by
  unfold IniState.fault
  split <;> rfl

@[simp] theorem IniState.fault_prevName (st : IniState) : st.fault.prevName = st.prevName := by
  unfold IniState.fault
  split <;> rfl

section Pairs

variable {σ ε : Type} (handler : σ → CStr → CStr → CStr → Except ε (σ × Bool))

/-- The handler on one value, its answer dropped. -/
def iniHandle (user : σ) (pair : CStr × CStr × CStr) : Except ε σ :=
  (handler user pair.1 pair.2.1 pair.2.2).map Prod.fst

theorem iniCall_pairs (user : σ) (st : IniState) (name value : Bytes)
    (loop : σ → IniState → Except ε (σ × IniState)) (later : List (CStr × CStr × CStr))
    (ih : ∀ user st', st'.sect = st.sect → st'.prevName = st.prevName →
      (loop user st').map Prod.fst = later.foldlM (iniHandle handler) user) :
    ((iniCall handler user st name value).bind fun r => loop r.1 r.2).map Prod.fst =
      ((cstr st.sect, cstr name, cstr value) :: later).foldlM (iniHandle handler) user := by
  rw [List.foldlM_cons]
  unfold iniCall iniHandle
  cases handler user (cstr st.sect) (cstr name) (cstr value) with
  | error e => rfl
  | ok r =>
      apply ih
      · show (if r.2 then st else st.fault).sect = st.sect
        split <;> simp
      · show (if r.2 then st else st.fault).prevName = st.prevName
        split <;> simp

theorem iniLoop_pairs (fuel : Nat) (file : Bytes) (user : σ) (st : IniState) :
    (iniLoop handler fuel file user st).map Prod.fst =
      (iniPairs fuel file st.sect st.prevName).foldlM (iniHandle handler) user := by
  induction fuel generalizing file user st with
  | zero => rfl
  | succ fuel ih =>
      cases next : fgets MAX_LINE file with
      | none => simp [iniLoop, iniPairs, next, Except.map, pure, Except.pure]
      | some found =>
          obtain ⟨line, rest⟩ := found
          cases kind : iniLine st.prevName line with
          | blank => simp [iniLoop, iniPairs, iniStep, next, kind, Except.bind, ih]
          | malformed => simp [iniLoop, iniPairs, iniStep, next, kind, Except.bind, ih]
          | heading name => simp [iniLoop, iniPairs, iniStep, next, kind, Except.bind, ih]
          | more value =>
              simp only [iniLoop, iniPairs, iniStep, next, kind]
              apply iniCall_pairs
              intro user st' sects names
              rw [ih, sects, names]
          | pair name value =>
              simp only [iniLoop, iniPairs, iniStep, next, kind]
              apply iniCall_pairs
              intro user st' sects names
              rw [ih, sects, names]

/-- What the parser does to the state of the user: the handler on the values in turn. -/
theorem iniParseFile_pairs (file : Bytes) (user : σ) :
    (iniParseFile handler file user).map Prod.fst =
      (iniFilePairs file).foldlM (iniHandle handler) user := by
  have loop := iniLoop_pairs handler file.length file user ⟨[], [], 0, 0⟩
  unfold iniParseFile iniFilePairs
  rw [← loop]
  cases iniLoop handler file.length file user ⟨[], [], 0, 0⟩ <;> rfl

end Pairs

end Bscope
