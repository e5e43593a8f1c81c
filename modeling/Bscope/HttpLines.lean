import Bscope.HttpSegments

set_option autoImplicit false

/- The first lines of messages, as they are written and as the parser reads them. -/
namespace Bscope.Http

/-- What was read before. -/
def Parsed.after (calls : List HttpCallback) (n : Nat) (done : Parsed) : Parsed :=
  { done with calls := calls ++ done.calls, nparsed := done.nparsed + n }

/-- Within a segment the parser gets over this text, and makes these callbacks. -/
def Scans (settings : Settings) (p : Parser) (marks : Marks) (text : Bytes)
    (calls : List HttpCallback) (p' : Parser) (marks' : Marks) : Prop :=
  ∀ rest, executeFrom settings p marks 0 (text ++ rest) =
    (executeFrom settings p' marks' 0 rest).map (Parsed.after calls text.length)

/-- The same within the header lines, however many bytes of them came before. -/
def Heads (settings : Settings) (p : Parser) (marks : Marks) (text : Bytes)
    (calls : List HttpCallback) (p' : Parser) (marks' : Marks) : Prop :=
  ∀ n, n + text.length ≤ HTTP_MAX_HEADER_SIZE →
    Scans settings { p with nread := n } marks text calls { p' with nread := n + text.length } marks'

section Scanning

variable {settings : Settings} {p p' p'' : Parser} {marks marks' marks'' : Marks}
  {text text' : Bytes} {calls calls' : List HttpCallback}

theorem Parsed.after_after (calls calls' : List HttpCallback) (n n' : Nat) (done : Parsed) :
    (done.after calls' n').after calls n = done.after (calls ++ calls') (n + n') := by
  unfold Parsed.after
  rw [List.append_assoc, Nat.add_assoc, Nat.add_comm n' n]

theorem Scans.nil (p : Parser) (marks : Marks) : Scans settings p marks [] [] p marks := by
  intro rest
  cases here : executeFrom settings p marks 0 rest with
  | none => rw [List.nil_append, here, Option.map_none]
  | some done => rw [List.nil_append, here, Option.map_some, Parsed.after, List.nil_append]; rfl

theorem Scans.append (first : Scans settings p marks text calls p' marks')
    (second : Scans settings p' marks' text' calls' p'' marks'') :
    Scans settings p marks (text ++ text') (calls ++ calls') p'' marks'' := by
  intro rest
  rw [List.append_assoc, first, second, Option.map_map, List.length_append]
  congr 1
  funext done
  exact Parsed.after_after calls calls' text.length text'.length done

/-- One byte. -/
theorem Scans.byte {ch : UInt8} (fits : ¬ p.counted.overflows)
    (here : turn settings p.counted marks ch [] = some (.goes p' marks' calls 0)) :
    Scans settings p marks [ch] calls p' (marks'.advance ch) := by
  intro rest
  rw [List.singleton_append, executeFrom_byte settings p marks ch rest fits, here]
  rfl

theorem Heads.nil (p : Parser) (marks : Marks) : Heads settings p marks [] [] p marks :=
  fun n _ => Scans.nil { p with nread := n } marks

theorem Heads.append (first : Heads settings p marks text calls p' marks')
    (second : Heads settings p' marks' text' calls' p'' marks'') :
    Heads settings p marks (text ++ text') (calls ++ calls') p'' marks'' := by
  intro n fits
  rw [List.length_append] at fits ⊢
  have later := second (n + text.length) (by omega)
  rw [Nat.add_assoc] at later
  exact (first n (by omega)).append later

/-- A byte that counts as one of the header lines. -/
theorem Scans.counted {ch : UInt8} {n : Nat} (header : p.state.parsingHeader = true)
    (room : n + 1 ≤ HTTP_MAX_HEADER_SIZE)
    (here : turn settings { p with nread := n + 1 } marks ch [] = some (.goes p' marks' calls 0)) :
    Scans settings { p with nread := n } marks [ch] calls p' (marks'.advance ch) := by
  have counts : ({ p with nread := n } : Parser).counted = { p with nread := n + 1 } := if_pos header
  have fits : ¬ ({ p with nread := n } : Parser).counted.overflows := by
    rw [counts]
    intro full
    have beyond : n + 1 > HTTP_MAX_HEADER_SIZE := full.2
    omega
  rw [← counts] at here
  exact Scans.byte fits here

/-- One byte of the header lines. -/
theorem Heads.byte (p' : Parser) (marks' : Marks) (ch : UInt8) (calls : List HttpCallback)
    (header : p.state.parsingHeader = true)
    (here : ∀ n, turn settings { p with nread := n } marks ch [] =
      some (.goes { p' with nread := n } marks' calls 0)) :
    Heads settings p marks [ch] calls p' (marks'.advance ch) :=
  fun n fits => Scans.counted header fits (here (n + 1))

/-- Bytes that are passed over. -/
theorem Heads.passed (header : p.state.parsingHeader = true) (text : Bytes)
    (here : ∀ ch ∈ text, ∀ n, turn settings { p with nread := n } noMarks ch [] =
      some (.goes { p with nread := n } noMarks [] 0)) :
    Heads settings p noMarks text [] p noMarks := by
  induction text with
  | nil => exact .nil p noMarks
  | cons ch text ih =>
      have first := Heads.byte p noMarks ch [] header (here ch List.mem_cons_self)
      exact first.append (ih fun other inside => here other (List.mem_cons_of_mem ch inside))

/-- The one byte that may come. -/
theorem Heads.strictly (s next : State) (want : UInt8) (p : Parser)
    (code : ∀ q : Parser, q.state = s →
      turn settings q noMarks want [] = some (strictly want next q noMarks want))
    (header : s.parsingHeader = true) :
    Heads settings { p with state := s } noMarks [want] [] { p with state := next } noMarks := by
  apply Heads.byte { p with state := next } noMarks want [] header
  intro n
  rw [code _ rfl, Http.strictly, if_neg (not_not.mpr rfl)]
  rfl

end Scanning

/-- The byte of a decimal digit. -/
def numeral (n : Nat) : UInt8 := UInt8.ofNat (48 + n)

theorem numeral_digit (d : Fin 10) : isNum (numeral d) = true ∧ digit (numeral d) = d := by
  revert d
  decide

theorem numeral_least : ∀ d : Fin 10, ¬ (numeral d < 48 ∨ numeral d > 57) := by decide

theorem numeral_positive : ∀ d : Fin 10, d ≠ 0 → ¬ (numeral d < 49 ∨ numeral d > 57) := by decide

/-- The parts of a version. -/
structure Version where
  major : Fin 10
  minor : Fin 10

def Version.bytes (v : Version) : Bytes :=
  asc "HTTP/" ++ [numeral v.major, 46, numeral v.minor]

def crlf : Bytes := [CR, LF]

/-- The first line of a response. -/
structure StatusLine where
  version : Version
  code : StatusCode
  reason : Option Bytes
  plain : ∀ text ∈ reason, ∀ c ∈ text, c ≠ CR ∧ c ≠ LF

def codeBytes (code : Nat) : Bytes :=
  [numeral (code / 100), numeral (code / 10 % 10), numeral (code % 10)]

def StatusLine.bytes (line : StatusLine) : Bytes :=
  line.version.bytes ++ [SP] ++ codeBytes line.code.val ++
    (match line.reason with
    | some text => SP :: text
    | none => []) ++ crlf

section Versions

variable (settings : Settings) (p : Parser)

/-- `TTP/`, behind the first letter. -/
theorem slash_heads (s₁ s₂ s₃ s₄ s₅ : State)
    (first : ∀ q : Parser, q.state = s₁ → turn settings q noMarks 84 [] = some (strictly 84 s₂ q noMarks 84))
    (second : ∀ q : Parser, q.state = s₂ → turn settings q noMarks 84 [] = some (strictly 84 s₃ q noMarks 84))
    (third : ∀ q : Parser, q.state = s₃ → turn settings q noMarks 80 [] = some (strictly 80 s₄ q noMarks 80))
    (fourth : ∀ q : Parser, q.state = s₄ → turn settings q noMarks 47 [] = some (strictly 47 s₅ q noMarks 47))
    (header : ∀ s ∈ [s₁, s₂, s₃, s₄], s.parsingHeader = true) :
    Heads settings { p with state := s₁ } noMarks [84, 84, 80, 47] [] { p with state := s₅ } noMarks :=
  (Heads.strictly s₁ s₂ 84 p first (header s₁ (by simp))).append
    ((Heads.strictly s₂ s₃ 84 p second (header s₂ (by simp))).append
      ((Heads.strictly s₃ s₄ 80 p third (header s₃ (by simp))).append
        (Heads.strictly s₄ s₅ 47 p fourth (header s₄ (by simp)))))

/-- The digits of a version. -/
theorem digits_heads (v : Version) (least : UInt8)
    (above : ¬ (numeral v.major < least ∨ numeral v.major > 57)) (s₁ s₂ s₃ s₄ : State)
    (first : ∀ (q : Parser) ch, q.state = s₁ →
      turn settings q noMarks ch [] = some (firstMajor least s₂ q noMarks ch))
    (point : ∀ (q : Parser) ch, q.state = s₂ →
      turn settings q noMarks ch [] = some (moreMajor s₃ q noMarks ch))
    (second : ∀ (q : Parser) ch, q.state = s₃ →
      turn settings q noMarks ch [] = some (firstMinor s₄ q noMarks ch))
    (header : ∀ s ∈ [s₁, s₂, s₃], s.parsingHeader = true) :
    Heads settings { p with state := s₁ } noMarks [numeral v.major, 46, numeral v.minor] []
      { p with httpMajor := v.major, httpMinor := v.minor, state := s₄ } noMarks := by
  obtain ⟨-, major⟩ := numeral_digit v.major
  obtain ⟨num, minor⟩ := numeral_digit v.minor
  have one : Heads settings { p with state := s₁ } noMarks [numeral v.major] []
      { p with httpMajor := v.major, state := s₂ } noMarks := by
    apply Heads.byte { p with httpMajor := v.major, state := s₂ } noMarks _ [] (header s₁ (by simp))
    intro n
    rw [first _ _ rfl, firstMajor, if_neg above, major]
    rfl
  have two : Heads settings { p with httpMajor := v.major, state := s₂ } noMarks [46] []
      { p with httpMajor := v.major, state := s₃ } noMarks := by
    apply Heads.byte { p with httpMajor := v.major, state := s₃ } noMarks _ [] (header s₂ (by simp))
    intro n
    rw [point _ _ rfl, moreMajor, if_pos rfl]
    rfl
  have three : Heads settings { p with httpMajor := v.major, state := s₃ } noMarks
      [numeral v.minor] [] { p with httpMajor := v.major, httpMinor := v.minor, state := s₄ }
      noMarks := by
    apply Heads.byte { p with httpMajor := v.major, httpMinor := v.minor, state := s₄ } noMarks _ []
      (header s₃ (by simp))
    intro n
    rw [second _ _ rfl, firstMinor, num, minor]
    rfl
  exact one.append (two.append three)

end Versions

section Status

variable {settings : Settings} (p : Parser)

/-- The version at the beginning of a response. -/
theorem version_response (v : Version) :
    Heads settings { p with state := .startRes } noMarks (v.bytes ++ [SP]) [.messageBegin]
      { p with
        flags := .none, contentLength := ULLONG_MAX, httpMajor := v.major, httpMinor := v.minor,
        state := .resFirstStatusCode } noMarks := by
  let begun : Parser := { p with flags := .none, contentLength := ULLONG_MAX }
  have letter : Heads settings { p with state := .startRes } noMarks [72] [.messageBegin]
      { begun with state := .resH } noMarks := .byte _ noMarks 72 _ rfl fun _ => rfl
  have name := slash_heads settings begun .resH .resHT .resHTT .resHTTP .resFirstHttpMajor
    (fun q s => by rw [turn, s]) (fun q s => by rw [turn, s]) (fun q s => by rw [turn, s])
    (fun q s => by rw [turn, s]) (by decide)
  have digits := digits_heads settings begun v 48 (numeral_least v.major) .resFirstHttpMajor
    .resHttpMajor .resFirstHttpMinor .resHttpMinor (fun q ch s => by rw [turn, s])
    (fun q ch s => by rw [turn, s]) (fun q ch s => by rw [turn, s]) (by decide)
  have blank : Heads settings
      { begun with httpMajor := v.major, httpMinor := v.minor, state := .resHttpMinor } noMarks [SP] []
      { begun with
        httpMajor := v.major, httpMinor := v.minor, state := .resFirstStatusCode } noMarks :=
    .byte _ noMarks SP [] rfl fun _ => rfl
  exact letter.append (name.append (digits.append blank))

/-- The three digits of a status. -/
theorem code_heads (code : StatusCode) :
    Heads settings { p with state := .resFirstStatusCode } noMarks (codeBytes code.val) []
      { p with statusCode := code.val, state := .resStatusCode } noMarks := by
  have range := code.isLt
  obtain ⟨num₁, value₁⟩ := numeral_digit ⟨code.val / 100, by omega⟩
  obtain ⟨num₂, value₂⟩ := numeral_digit ⟨code.val / 10 % 10, by omega⟩
  obtain ⟨num₃, value₃⟩ := numeral_digit ⟨code.val % 10, by omega⟩
  have first : Heads settings { p with state := .resFirstStatusCode } noMarks
      [numeral (code.val / 100)] []
      { p with statusCode := code.val / 100, state := .resStatusCode } noMarks := by
    apply Heads.byte { p with statusCode := code.val / 100, state := .resStatusCode } noMarks _ [] rfl
    intro n
    simp only [turn, resFirstStatusCode, num₁, value₁]
    rfl
  have more : ∀ (before d after : Nat), isNum (numeral d) = true → digit (numeral d) = d →
      after = before * 10 + d → after ≤ 999 →
      Heads settings { p with statusCode := before, state := .resStatusCode } noMarks [numeral d] []
        { p with statusCode := after, state := .resStatusCode } noMarks := by
    intro before d after num value sum small
    apply Heads.byte { p with statusCode := after, state := .resStatusCode } noMarks _ [] rfl
    intro n
    simp only [turn, resStatusCode, num, value, ← sum, if_neg (Nat.not_lt.mpr small)]
    rfl
  have second := more (code.val / 100) (code.val / 10 % 10) (code.val / 10) num₂ value₂ (by omega)
    (by omega)
  have third := more (code.val / 10) (code.val % 10) code.val num₃ value₃ (by omega) (by omega)
  exact first.append (second.append third)

/-- The end of a line. -/
theorem crlf_heads (s almost : State) (header : s.parsingHeader = true)
    (here : ∀ n, turn settings { p with state := s, nread := n } noMarks CR [] =
      some (.goes { p with state := almost, nread := n } noMarks [] 0))
    (code : ∀ q : Parser, q.state = almost →
      turn settings q noMarks LF [] = some (strictly LF .headerFieldStart q noMarks LF))
    (header' : almost.parsingHeader = true) :
    Heads settings { p with state := s } noMarks crlf [] { p with state := .headerFieldStart }
      noMarks := by
  have first : Heads settings { p with state := s } noMarks [CR] [] { p with state := almost } noMarks :=
    .byte _ noMarks CR [] header here
  exact first.append (.strictly almost .headerFieldStart LF p code header')

variable (settings) in
theorem statusLine_heads (line : StatusLine) :
    Heads settings { p with state := .startRes } noMarks line.bytes [.messageBegin]
      { p with
        flags := .none, contentLength := ULLONG_MAX, httpMajor := line.version.major,
        httpMinor := line.version.minor, statusCode := line.code.val, state := .headerFieldStart }
      noMarks := by
  let versioned : Parser :=
    { p with
      flags := .none, contentLength := ULLONG_MAX, httpMajor := line.version.major,
      httpMinor := line.version.minor }
  let coded : Parser := { versioned with statusCode := line.code.val }
  have begun : Heads settings { p with state := .startRes } noMarks
      (line.version.bytes ++ [SP] ++ codeBytes line.code.val) [.messageBegin]
      { coded with state := .resStatusCode } noMarks :=
    (version_response p line.version).append (code_heads versioned line.code)
  unfold StatusLine.bytes
  rw [List.append_assoc _ _ crlf]
  apply begun.append
  cases text : line.reason with
  | none =>
      exact crlf_heads coded .resStatusCode .resLineAlmostDone rfl (fun _ => rfl)
        (fun q s => by rw [turn, s]) rfl
  | some reason =>
      have blank : Heads settings { coded with state := .resStatusCode } noMarks [SP] []
          { coded with state := .resStatus } noMarks := .byte _ noMarks SP [] rfl fun _ => rfl
      have passed : Heads settings { coded with state := .resStatus } noMarks reason []
          { coded with state := .resStatus } noMarks := by
        apply Heads.passed rfl
        intro ch member n
        obtain ⟨apart, apart'⟩ := line.plain reason text ch member
        simp only [turn, resStatus, lineEnd, if_neg apart, if_neg apart']
        rfl
      exact blank.append (passed.append (crlf_heads coded .resStatus .resLineAlmostDone rfl
        (fun _ => rfl) (fun q s => by rw [turn, s]) rfl))

end Status

/-- The first line of a request, with a path. -/
structure RequestLine where
  method : HttpMethod
  url : Bytes
  version : Version
  path : url.head? = some 47
  printable : ∀ c ∈ url, 33 ≤ c ∧ c ≤ 126
  major : version.major ≠ 0

def RequestLine.bytes (line : RequestLine) : Bytes :=
  (httpMethodStr line.method).bytes ++ [SP] ++ (line.url ++ [SP]) ++ (line.version.bytes ++ crlf)

/-- The method that the parser has in mind behind these letters. -/
def spelt : HttpMethod → Nat → Bytes → Option HttpMethod
  | method, _, [] => some method
  | method, index, ch :: rest =>
      if index > (httpMethodStr method).bytes.length then none
      else if ch = (httpMethodStr method).bytes.getD index 0 then spelt method (index + 1) rest
      else
        match otherMethod method index ch with
        | .ok method => spelt method (index + 1) rest
        | .error _ => none

theorem spelt_method (method : HttpMethod) : ∃ ch letters first,
    (httpMethodStr method).bytes = ch :: letters ∧ isAlpha ch = true ∧ ch ≠ CR ∧ ch ≠ LF ∧
      (∀ c ∈ letters, c ≠ 0 ∧ c ≠ SP) ∧ firstMethod ch = some first ∧
      spelt first 1 letters = some method := by
  cases method <;>
    exact ⟨_, _, _, rfl, by decide, by decide, by decide, by decide +kernel, rfl, by decide +kernel⟩

section Request

variable {settings : Settings} (p : Parser)

variable (settings) in
theorem letters_heads (letters : Bytes) : ∀ (first method : HttpMethod) (index : Nat),
    (∀ c ∈ letters, c ≠ 0 ∧ c ≠ SP) → spelt first index letters = some method →
      Heads settings { p with method := first, index := index, state := .reqMethod } noMarks letters []
        { p with method := method, index := index + letters.length, state := .reqMethod } noMarks := by
  induction letters with
  | nil =>
      intro first method index _ spells
      cases spells
      exact .nil _ _
  | cons ch rest ih =>
      intro first method index plain spells
      obtain ⟨filled, solid⟩ := plain ch List.mem_cons_self
      have step : ∀ next : HttpMethod, spelt next (index + 1) rest = some method →
          (∀ n, turn settings
            { p with method := first, index := index, state := .reqMethod, nread := n } noMarks ch [] =
              some (.goes { p with method := next, index := index + 1, state := .reqMethod, nread := n }
                noMarks [] 0)) →
          Heads settings { p with method := first, index := index, state := .reqMethod } noMarks
            (ch :: rest) []
            { p with method := method, index := index + (ch :: rest).length, state := .reqMethod }
            noMarks := by
        intro next later here
        have letter : Heads settings
            { p with method := first, index := index, state := .reqMethod } noMarks [ch] []
            { p with method := next, index := index + 1, state := .reqMethod } noMarks :=
          .byte _ noMarks ch [] rfl here
        have behind := ih next method (index + 1)
          (fun other inside => plain other (List.mem_cons_of_mem ch inside)) later
        rw [List.length_cons, Nat.add_comm rest.length 1, ← Nat.add_assoc]
        exact letter.append behind
      unfold spelt at spells
      split at spells
      case isTrue => exact absurd spells (by simp)
      case isFalse fits =>
        split at spells
        case isTrue same =>
          apply step first spells
          intro n
          simp only [turn, reqMethod, if_neg filled, if_neg fits, solid, false_and, if_false,
            if_pos same]
          rfl
        case isFalse other =>
          split at spells
          case h_1 next found =>
            apply step next spells
            intro n
            simp only [turn, reqMethod, if_neg filled, if_neg fits, solid, false_and, if_false,
              if_neg other, found]
            rfl
          case h_2 => exact absurd spells (by simp)

variable (settings) in
/-- With the first letter of a method a message begins. -/
theorem letter_heads (method : HttpMethod) : ∃ ch letters first,
    (httpMethodStr method).bytes = ch :: letters ∧ (∀ c ∈ letters, c ≠ 0 ∧ c ≠ SP) ∧
      spelt first 1 letters = some method ∧
      Heads settings { p with state := .startReq } noMarks [ch] [.messageBegin]
        { p with
          flags := .none, contentLength := ULLONG_MAX, method := first, index := 1,
          state := .reqMethod } noMarks := by
  obtain ⟨ch, letters, first, text, alpha, apart, apart', plain, known, spells⟩ := spelt_method method
  refine ⟨ch, letters, first, text, plain, spells, ?_⟩
  apply Heads.byte
    { p with
      flags := .none, contentLength := ULLONG_MAX, method := first, index := 1, state := .reqMethod }
    noMarks ch _ rfl
  intro n
  simp only [turn, startReq, apart, apart', or_self, if_false, alpha, Bool.not_true,
    Bool.false_eq_true, known]

/-- The method, and the blank behind it. -/
theorem method_heads (method : HttpMethod) :
    Heads settings { p with state := .startReq } noMarks ((httpMethodStr method).bytes ++ [SP])
      [.messageBegin]
      { p with
        flags := .none, contentLength := ULLONG_MAX, method := method,
        index := (httpMethodStr method).bytes.length + 1, state := .reqSpacesBeforeUrl } noMarks := by
  obtain ⟨ch, letters, first, text, plain, spells, letter⟩ := letter_heads settings p method
  let begun : Parser := { p with flags := .none, contentLength := ULLONG_MAX }
  have length : 1 + letters.length = (httpMethodStr method).bytes.length := by
    rw [text, List.length_cons, Nat.add_comm]
  have rest := letters_heads settings begun letters first method 1 plain spells
  rw [length] at rest
  have blank : Heads settings
      { begun with
        method := method, index := (httpMethodStr method).bytes.length, state := .reqMethod }
      noMarks [SP] []
      { begun with
        method := method, index := (httpMethodStr method).bytes.length + 1,
        state := .reqSpacesBeforeUrl } noMarks := by
    apply Heads.byte
      { begun with
        method := method, index := (httpMethodStr method).bytes.length + 1,
        state := .reqSpacesBeforeUrl } noMarks SP [] rfl
    intro n
    have ended : (httpMethodStr method).bytes.getD (httpMethodStr method).bytes.length 0 = 0 := by
      rw [List.getD_eq_getElem?_getD, List.getElem?_eq_none (Nat.le_refl _), Option.getD_none]
    have blank : SP ≠ 0 := by decide
    simp only [turn, reqMethod, if_neg blank, gt_iff_lt, Nat.lt_irrefl, if_false, ended, and_self,
      if_true]
    rfl
  have whole := letter.append (rest.append blank)
  rw [text] at whole ⊢
  exact whole

/-- The states behind the path's slash. -/
def State.inPath : State → Bool
  | .reqPath | .reqQueryStringStart | .reqQueryString | .reqFragmentStart | .reqFragment => true
  | _ => false

theorem parseUrlChar_path {s : State} (inside : s.inPath = true) {ch : UInt8}
    (printable : 33 ≤ ch ∧ ch ≤ 126) : (parseUrlChar s ch).inPath = true := by
  have plain : ¬ (ch = SP ∨ ch = CR ∨ ch = LF ∨ ch = HT ∨ ch = 12) := by
    rintro (rfl | rfl | rfl | rfl | rfl) <;> exact absurd printable (by decide)
  have known : isUrlChar ch = true ∨ ch = 35 ∨ ch = 63 := by
    by_cases hash : ch = 35
    · exact Or.inr (Or.inl hash)
    · by_cases mark : ch = 63
      · exact Or.inr (Or.inr mark)
      · left
        simp [isUrlChar, hash, mark, printable.1, printable.2]
  unfold parseUrlChar
  rw [if_neg plain]
  cases s with
  | reqPath | reqQueryStringStart | reqQueryString | reqFragmentStart | reqFragment =>
      dsimp only
      rcases known with url | rfl | rfl
      · simp only [url, true_or, if_true]
        rfl
      · rfl
      · rfl
  | _ => exact absurd inside (by decide)

/-- The rest of a URL, up to the blank behind it. -/
theorem path_heads (text : Bytes) (printable : ∀ c ∈ text, 33 ≤ c ∧ c ≤ 126) :
    ∀ (s : State) (held : Bytes), s.inPath = true →
      Heads settings { p with state := s } (word .url held) (text ++ [SP]) [.data .url (held ++ text)]
        { p with state := .reqHttpStart } noMarks := by
  induction text with
  | nil =>
      intro s held inside
      rw [List.nil_append, List.append_nil]
      apply Heads.byte { p with state := .reqHttpStart } noMarks SP [.data .url held]
      · cases s <;> first | rfl | exact absurd inside (by decide)
      · intro n
        have code : turn settings { p with state := s, nread := n } (word .url held) SP [] =
            some (urlBack { p with state := s, nread := n } (word .url held) SP) := by
          cases s <;> first | rfl | exact absurd inside (by decide)
        rw [code, urlBack, if_pos rfl, word_clear, word_calls]
  | cons ch text ih =>
      intro s held inside
      have here := printable ch List.mem_cons_self
      have next := parseUrlChar_path inside here
      have letter : Heads settings { p with state := s } (word .url held) [ch] []
          { p with state := parseUrlChar s ch } (word .url (held ++ [ch])) := by
        rw [← word_advance]
        apply Heads.byte { p with state := parseUrlChar s ch } (word .url held) ch []
        · cases s <;> first | rfl | exact absurd inside (by decide)
        · intro n
          have code : turn settings { p with state := s, nread := n } (word .url held) ch [] =
              some (urlBack { p with state := s, nread := n } (word .url held) ch) := by
            cases s <;> first | rfl | exact absurd inside (by decide)
          have plain : ch ≠ SP ∧ ch ≠ CR ∧ ch ≠ LF := by
            refine ⟨?_, ?_, ?_⟩ <;> rintro rfl <;> exact absurd here (by decide)
          have goes : parseUrlChar s ch ≠ .dead := by
            intro dead
            rw [dead] at next
            exact absurd next (by decide)
          rw [code, urlBack, if_neg plain.1, lineEnd, if_neg plain.2.1, if_neg plain.2.2, urlChar]
          dsimp only
          rw [if_neg goes]
          rfl
      have rest := ih (fun other inside => printable other (List.mem_cons_of_mem ch inside))
        (parseUrlChar s ch) (held ++ [ch]) next
      rw [List.append_assoc] at rest
      exact letter.append rest

theorem url_heads (line : RequestLine) (settled : p.method ≠ .connect) :
    Heads settings { p with state := .reqSpacesBeforeUrl } noMarks (line.url ++ [SP])
      [.data .url line.url] { p with state := .reqHttpStart } noMarks := by
  have path := line.path
  cases text : line.url with
  | nil =>
      rw [text] at path
      exact absurd path (by simp)
  | cons ch rest =>
      rw [text] at path
      cases path
      have slash : Heads settings { p with state := .reqSpacesBeforeUrl } noMarks [47] []
          { p with state := .reqPath } (word .url [47]) := by
        have marked : Heads settings { p with state := .reqSpacesBeforeUrl } noMarks [47] []
            { p with state := .reqPath } ((word .url []).advance 47) := by
          apply Heads.byte { p with state := .reqPath } (word .url []) 47 [] rfl
          intro n
          have blank : ¬ (47 : UInt8) = SP := by decide
          simp only [turn, reqSpacesBeforeUrl, if_neg blank, if_neg settled, none_mark]
          rfl
        rw [word_advance] at marked
        exact marked
      exact slash.append (path_heads p rest (fun c inside => line.printable c (by
        rw [text]
        exact List.mem_cons_of_mem 47 inside)) .reqPath [47] rfl)

variable (settings) in
theorem requestLine_heads (line : RequestLine) (settled : line.method ≠ .connect) :
    Heads settings { p with state := .startReq } noMarks line.bytes
      [.messageBegin, .data .url line.url]
      { p with
        flags := .none, contentLength := ULLONG_MAX, method := line.method,
        index := (httpMethodStr line.method).bytes.length + 1, httpMajor := line.version.major,
        httpMinor := line.version.minor, state := .headerFieldStart } noMarks := by
  let named : Parser :=
    { p with
      flags := .none, contentLength := ULLONG_MAX, method := line.method,
      index := (httpMethodStr line.method).bytes.length + 1 }
  let versioned : Parser :=
    { named with httpMajor := line.version.major, httpMinor := line.version.minor }
  have letter : Heads settings { named with state := .reqHttpStart } noMarks [72] []
      { named with state := .reqHttpH } noMarks := .byte _ noMarks 72 _ rfl fun _ => rfl
  have name := slash_heads settings named .reqHttpH .reqHttpHT .reqHttpHTT .reqHttpHTTP
    .reqFirstHttpMajor (fun q s => by rw [turn, s]) (fun q s => by rw [turn, s])
    (fun q s => by rw [turn, s]) (fun q s => by rw [turn, s]) (by decide)
  have digits := digits_heads settings named line.version 49 (numeral_positive _ line.major)
    .reqFirstHttpMajor .reqHttpMajor .reqFirstHttpMinor .reqHttpMinor (fun q ch s => by rw [turn, s])
    (fun q ch s => by rw [turn, s]) (fun q ch s => by rw [turn, s]) (by decide)
  have ends : Heads settings { versioned with state := .reqHttpMinor } noMarks crlf []
      { versioned with state := .headerFieldStart } noMarks := by
    have first : Heads settings { versioned with state := .reqHttpMinor } noMarks [CR] []
        { versioned with state := .reqLineAlmostDone } noMarks :=
      .byte _ noMarks CR [] rfl fun _ => rfl
    have second : Heads settings { versioned with state := .reqLineAlmostDone } noMarks [LF] []
        { versioned with state := .headerFieldStart } noMarks :=
      .byte _ noMarks LF [] rfl fun _ => rfl
    exact first.append second
  have version : Heads settings { named with state := .reqHttpStart } noMarks
      (line.version.bytes ++ crlf) [] { versioned with state := .headerFieldStart } noMarks :=
    letter.append (name.append (digits.append ends))
  exact ((method_heads p line.method).append (url_heads named line settled)).append version

end Request

end Bscope.Http
