import Bscope.HttpHeaders

set_option autoImplicit false

/- Whole messages, as they are written and as the parser reads them: header lines, the blank
line behind them, and the body they announce. -/
namespace Bscope.Http

/-- A header line. -/
structure Field where
  name : Bytes
  gap : Bytes
  value : Bytes
  named : name ≠ []
  token : ∀ c ∈ name, tokens c ≠ 0
  blank : ∀ c ∈ gap, c = SP ∨ c = HT
  first : ∀ c ∈ value.head?, c ≠ SP ∧ c ≠ HT
  plain : ∀ c ∈ value, c ≠ CR ∧ c ≠ LF
  length : wordState (name.map tokens) = .contentLength →
    (∀ c ∈ value, isNum c = true) ∧ number value < ULLONG_MAX.toNat

def Field.bytes (f : Field) : Bytes := f.name ++ [58] ++ (f.gap ++ (f.value ++ crlf))

def Field.calls (f : Field) : List HttpCallback :=
  [.data .headerField f.name, .data .headerValue f.value]

/-- What header lines say of a body. -/
structure Framing where
  flags : Flags
  length : UInt64

/-- What one line says. -/
def Framing.note (framing : Framing) (f : Field) : Framing :=
  if f.value = [] then framing
  else
    match wordState (f.name.map tokens) with
    | .contentLength => { framing with length := (number f.value).toUInt64 }
    | s => { framing with flags := noteValue s f.value framing.flags }

/-- The parser when it has read this much of the header lines. -/
def Parser.reading (p : Parser) (framing : Framing) (s : State) : Parser :=
  { p with flags := framing.flags, contentLength := framing.length, state := s }

section Fields

variable (settings : Settings)

theorem field_heads (f : Field) (p : Parser) (framing : Framing) (s : State)
    (start : s = .headerFieldStart ∨ s = .headerValueLws) :
    ∃ h i, Heads settings (p.reading framing s) noMarks f.bytes f.calls
      ({ p with headerState := h, index := i }.reading (framing.note f) .headerValueLws)
      noMarks := by
  obtain ⟨h, i, named, known⟩ := name_heads settings (p.reading framing s) f.name
    f.named f.token start
  let valued : Parser :=
    { p.reading framing s with state := .headerValueStart, headerState := h, index := i }
  have gap : Heads settings valued noMarks f.gap [] valued noMarks := by
    apply Heads.passed rfl
    intro ch member n
    have blank := f.blank ch member
    rw [turn]
    show some (headerValueStart _ _ _) = _
    rw [headerValueStart, if_pos blank]
    rfl
  by_cases empty : f.value = []
  · have value := empty_heads settings valued h
    refine ⟨.general, 0, ?_⟩
    have note : framing.note f = framing := if_pos empty
    rw [note, Field.bytes, Field.calls, empty]
    exact named.append (gap.append value)
  by_cases length : wordState (f.name.map tokens) = .contentLength
  · have state : h = .contentLength := by
      rw [length] at known
      cases h <;> first | rfl | exact absurd known (by decide)
    obtain ⟨digits, small⟩ := f.length length
    obtain ⟨i', value⟩ := length_heads settings valued f.value empty digits small
    refine ⟨.contentLength, i', ?_⟩
    have note : framing.note f = { framing with length := (number f.value).toUInt64 } := by
      rw [Framing.note, if_neg empty, length]
    rw [note]
    cases state
    exact named.append (gap.append value)
  · have other : h ≠ .contentLength := by
      intro same
      rw [same] at known
      exact length known.symm
    obtain ⟨h', i', value⟩ := value_heads settings valued h other f.value empty
      f.first f.plain
    refine ⟨h', i', ?_⟩
    have note : framing.note f =
        { framing with flags := noteValue h.named f.value framing.flags } := by
      rw [Framing.note, if_neg empty, ← known]
      rw [← known] at length
      split
      case h_1 same => exact absurd same length
      case h_2 => rfl
    rw [note]
    exact named.append (gap.append value)

/-- The header lines of a message. -/
theorem fields_heads (fields : List Field) : ∀ (p : Parser) (framing : Framing) (s : State),
    s = .headerFieldStart ∨ s = .headerValueLws →
    ∃ h i s', (s' = .headerFieldStart ∨ s' = .headerValueLws) ∧
      Heads settings (p.reading framing s) noMarks (fields.flatMap Field.bytes)
        (fields.flatMap Field.calls)
        ({ p with headerState := h, index := i }.reading (fields.foldl Framing.note framing) s')
        noMarks := by
  induction fields with
  | nil => exact fun p framing s start => ⟨p.headerState, p.index, s, start, .nil _ noMarks⟩
  | cons f fields ih =>
      intro p framing s start
      obtain ⟨h, i, here⟩ := field_heads settings f p framing s start
      obtain ⟨h', i', s', start', later⟩ := ih { p with headerState := h, index := i }
        (framing.note f) .headerValueLws (Or.inr rfl)
      exact ⟨h', i', s', start', here.append later⟩

end Fields

/-- Whether the connection is kept behind a message whose end is known. -/
def keeps (httpMajor httpMinor : Nat) (flags : Flags) : Bool :=
  if httpMajor > 0 ∧ httpMinor > 0 then !flags.connectionClose else flags.connectionKeepAlive

def Parser.headersCall (p : Parser) : HttpCallback :=
  .headersComplete p.method p.httpMajor p.httpMinor p.statusCode

section Ends

variable (settings : Settings) (p : Parser)

theorem newMessage_keeps (ends : httpMessageNeedsEof p = false) :
    p.newMessage = if keeps p.httpMajor p.httpMinor p.flags then p.startState else .dead := by
  have same : httpShouldKeepAlive p = keeps p.httpMajor p.httpMinor p.flags := by
    unfold httpShouldKeepAlive keeps
    rw [ends]
    by_cases recent : p.httpMajor > 0 ∧ p.httpMinor > 0
    · rw [if_pos recent, if_pos recent]
      cases p.flags.connectionClose <;> rfl
    · rw [if_neg recent, if_neg recent]
      cases p.flags.connectionKeepAlive <;> rfl
  rw [Parser.newMessage, same]

theorem headers_cr {s : State} (start : s = .headerFieldStart ∨ s = .headerValueLws) :
    Heads settings { p with state := s } noMarks [CR] [] { p with state := .headersAlmostDone }
      noMarks := by
  apply Heads.byte { p with state := .headersAlmostDone } noMarks CR []
  · rcases start with rfl | rfl <;> rfl
  · intro n
    rcases start with rfl | rfl <;> rfl

/-- A byte that ends a line and what was marked in it. -/
theorem Scans.closing {p' : Parser} {calls : List HttpCallback} {ch : UInt8} {n : Nat}
    (header : p.state.parsingHeader = true) (room : n + 1 ≤ HTTP_MAX_HEADER_SIZE)
    (here : turn settings { p with nread := n + 1 } noMarks ch [] =
      some (.goes p' noMarks calls 0)) :
    Scans settings { p with nread := n } noMarks [ch] calls p' noMarks :=
  Scans.counted header room here

/-- A byte behind the header lines. -/
theorem Scans.uncounted {p' : Parser} {marks : Marks} {calls : List HttpCallback} {ch : UInt8}
    (body : p.state.parsingHeader = false)
    (here : turn settings p marks ch [] = some (.goes p' noMarks calls 0)) :
    Scans settings p marks [ch] calls p' noMarks := by
  rw [← counted_body p body] at here
  exact Scans.byte (overflows_body p body) here

/-- The end of the blank line behind the header lines. -/
theorem almostDone_turn (willing : ∀ q, settings.onHeadersComplete q = 0)
    (state : p.state = .headersAlmostDone) (trailing : p.flags.trailing = false)
    (settled : p.method ≠ .connect) :
    turn settings p noMarks LF [] = some ((headersDone settings
      { p with state := .headersDone, upgrade := p.flags.upgrade } noMarks LF).behind
        [p.headersCall]) := by
  have upgrade : (p.flags.upgrade || decide (p.method = .connect)) = p.flags.upgrade := by
    rw [decide_eq_false settled, Bool.or_false]
  rw [turn, state]
  show some (headersAlmostDone _ _ _ _) = _
  rw [headersAlmostDone, if_neg (not_not.mpr rfl), trailing, if_neg Bool.false_ne_true]
  dsimp only
  rw [upgrade, if_pos (willing _)]
  rfl

theorem blank_scans (willing : ∀ q, settings.onHeadersComplete q = 0) (settled : p.method ≠ .connect)
    (plain : p.flags.trailing = false ∧ p.flags.upgrade = false) (p' : Parser)
    (calls : List HttpCallback) (n : Nat) (room : n + 1 ≤ HTTP_MAX_HEADER_SIZE)
    (done : headersDone settings { p with state := .headersDone, upgrade := false } noMarks LF =
      .goes p' noMarks calls 0) :
    Scans settings { p with state := .headersAlmostDone, nread := n } noMarks [LF]
      (p.headersCall :: calls) p' noMarks := by
  apply Scans.closing settings { p with state := .headersAlmostDone } rfl room
  have same : headersDone settings
      { p with state := .headersDone, upgrade := p.flags.upgrade, nread := n + 1 } noMarks LF =
        .goes p' noMarks calls 0 := by
    rw [plain.2, ← done, headersDone, headersDone]
    rfl
  rw [almostDone_turn settings { p with state := .headersAlmostDone, nread := n + 1 } willing rfl
    plain.1 settled]
  exact congrArg (fun t : Turn => some (t.behind [p.headersCall])) same

/-- The end of the blank line behind the trailers. -/
theorem trailing_scans (trailing : p.flags.trailing = true) (n : Nat)
    (room : n + 1 ≤ HTTP_MAX_HEADER_SIZE) :
    Scans settings { p with state := .headersAlmostDone, nread := n } noMarks [LF]
      [.messageComplete p.statusCode]
      (messageComplete settings { p with state := .headersAlmostDone, nread := n + 1 }) noMarks := by
  apply Scans.closing settings { p with state := .headersAlmostDone } rfl room
  rw [turn]
  show some (headersAlmostDone _ _ _ _) = _
  rw [headersAlmostDone, if_neg (not_not.mpr rfl), if_pos trailing]
  rfl

end Ends

section Bodies

variable (settings : Settings) (p : Parser)

/-- Bytes that were read at once. -/
theorem executeFrom_skip (text rest : Bytes) : ∀ marks : Marks,
    executeFrom settings p marks text.length (text ++ rest) =
      (executeFrom settings p (text.foldl Marks.advance marks) 0 rest).map
        (Parsed.after [] text.length) := by
  induction text with
  | nil =>
      intro marks
      exact Scans.nil p marks rest
  | cons ch text ih =>
      intro marks
      rw [List.length_cons, List.cons_append, executeFrom, ih, Option.map_map]
      congr 1

theorem advance_none (text : Bytes) : text.foldl Marks.advance noMarks = noMarks := by
  induction text with
  | nil => rfl
  | cons ch text ih => exact ih

theorem advance_word (kind : DataKind) (text : Bytes) : ∀ held,
    text.foldl Marks.advance (word kind held) = word kind (held ++ text) := by
  induction text with
  | nil =>
      intro held
      rw [List.append_nil]
      rfl
  | cons ch text ih =>
      intro held
      rw [List.foldl_cons, word_advance, ih, List.append_assoc]
      rfl

/-- A body that is there whole is read at once. -/
theorem Scans.body (ch : UInt8) (text : Bytes) (marks' : Marks) (p' : Parser)
    (calls : List HttpCallback) (body : p.state.parsingHeader = false)
    (here : ∀ rest, turn settings p noMarks ch (text ++ rest) =
      some (.goes p' marks' calls text.length)) :
    Scans settings p noMarks (ch :: text) calls p'
      (text.foldl Marks.advance (marks'.advance ch)) := by
  intro rest
  rw [List.cons_append, executeFrom_cons settings p noMarks ch _ (overflows_body p body),
    counted_body p body, here, Option.bind_some, resume, executeFrom_skip, Option.map_map,
    List.length_cons]
  congr 1

theorem toRead_whole (ch : UInt8) (text rest : Bytes)
    (length : p.contentLength = (ch :: text).length.toUInt64)
    (small : (ch :: text).length < ULLONG_MAX.toNat) :
    p.contentLength ≠ 0 ∧ p.contentLength ≠ ULLONG_MAX ∧
      toRead p (text ++ rest) = text.length + 1 ∧ (readBody p (text ++ rest)).contentLength = 0 := by
  have max : ULLONG_MAX.toNat = 2 ^ 64 - 1 := rfl
  have size : p.contentLength.toNat = text.length + 1 := by
    rw [length]
    exact UInt64.toNat_ofNat_of_lt' (by show _ < 2 ^ 64; omega)
  have read : toRead p (text ++ rest) = text.length + 1 := by
    unfold toRead
    rw [size, List.length_append]
    omega
  refine ⟨?_, ?_, read, ?_⟩
  · intro zero
    rw [zero] at size
    exact absurd size (by simp)
  · intro top
    rw [top] at size
    rw [List.length_cons] at small
    omega
  · rw [readBody_empty, read, size]

/-- A body of known length. -/
theorem identity_scans (bytes : Bytes) (filled : bytes ≠ []) (state : p.state = .bodyIdentity)
    (length : p.contentLength = bytes.length.toUInt64) (small : bytes.length < ULLONG_MAX.toNat) :
    Scans settings p noMarks bytes [.data .body bytes, .messageComplete p.statusCode]
      (messageComplete settings { p with contentLength := 0, state := .messageDone }) noMarks := by
  obtain ⟨ch, text, rfl⟩ := List.exists_cons_of_ne_nil filled
  have scans := Scans.body settings p ch text noMarks
    (messageComplete settings { p with contentLength := 0, state := .messageDone })
    [.data .body (ch :: text), .messageComplete p.statusCode]
    (by rw [state]; rfl) (by
      intro rest
      obtain ⟨some', known, read, done⟩ := toRead_whole p ch text rest length small
      rw [turn, state]
      dsimp only
      rw [bodyIdentity, if_neg (not_or.mpr ⟨some', known⟩)]
      dsimp only
      rw [if_pos done, read, none_mark]
      have whole : (ch :: (text ++ rest)).take (text.length + 1) = ch :: text := by
        rw [List.take_succ_cons, List.take_left]
      have held : (word .body [] .body).getD [] = [] := rfl
      have rest' : readBody p (text ++ rest) = { p with contentLength := 0 } := by
        rw [← done]
        rfl
      rw [whole, held, word_clear, rest']
      rfl)
  rw [none_advance, advance_none] at scans
  exact scans

/-- The data of a chunk. -/
theorem chunk_data (bytes : Bytes) (filled : bytes ≠ []) (state : p.state = .chunkData)
    (chunked : p.flags.chunked = true) (length : p.contentLength = bytes.length.toUInt64)
    (small : bytes.length < ULLONG_MAX.toNat) :
    Scans settings p noMarks bytes [] { p with contentLength := 0, state := .chunkDataAlmostDone }
      (word .body bytes) := by
  obtain ⟨ch, text, rfl⟩ := List.exists_cons_of_ne_nil filled
  have scans := Scans.body settings p ch text (word .body [])
    { p with contentLength := 0, state := .chunkDataAlmostDone } []
    (by rw [state]; rfl) (by
      intro rest
      obtain ⟨some', known, read, done⟩ := toRead_whole p ch text rest length small
      rw [turn, state]
      dsimp only
      rw [chunkData, chunked, if_neg (by
        rintro (bad | bad | bad)
        · exact absurd bad (by decide)
        · exact some' bad
        · exact known bad)]
      dsimp only
      rw [if_pos done, read, none_mark]
      have rest' : readBody p (text ++ rest) = { p with contentLength := 0 } := by
        rw [← done]
        rfl
      rw [rest']
      rfl)
  rw [word_advance, advance_word] at scans
  exact scans

end Bodies

/-- The number that hexadecimal digits are. -/
def hexNumber : Bytes → Nat := numberIn 16 fun c => (unhex c).getD 0

/-- The line in front of a chunk. -/
structure SizeLine where
  size : Bytes
  extension : Option Bytes
  sized : size ≠ []
  hex : ∀ c ∈ size, (unhex c).isSome = true
  small : hexNumber size < ULLONG_MAX.toNat
  plain : ∀ text ∈ extension, ∀ c ∈ text, c ≠ CR

def SizeLine.extensionBytes (line : SizeLine) : Bytes :=
  match line.extension with
  | some text => 59 :: text
  | none => []

/-- The line but for its last byte. -/
def SizeLine.front (line : SizeLine) : Bytes := line.size ++ (line.extensionBytes ++ [CR])

def SizeLine.bytes (line : SizeLine) : Bytes := line.front ++ [LF]

def SizeLine.value (line : SizeLine) : Nat := hexNumber line.size

/-- A chunk: its size is that of its data. -/
structure Chunk where
  line : SizeLine
  data : Bytes
  filled : data ≠ []
  length : line.value = data.length
  fits : line.bytes.length ≤ HTTP_MAX_HEADER_SIZE

def Chunk.bytes (chunk : Chunk) : Bytes := chunk.line.bytes ++ (chunk.data ++ crlf)

/-- What ends a body in chunks. -/
structure Trailers where
  line : SizeLine
  fields : List Field
  last : line.value = 0
  fits : line.bytes.length ≤ HTTP_MAX_HEADER_SIZE

/-- The lines behind the last size. -/
def Trailers.lines (trailers : Trailers) : Bytes := trailers.fields.flatMap Field.bytes ++ crlf

section Chunks

variable (settings : Settings) (p : Parser)

theorem unhex_plain {ch : UInt8} (hex : (unhex ch).isSome = true) : ch ≠ CR := by
  rintro rfl
  exact absurd hex (by decide)

/-- The digits of a size behind the first. -/
theorem digits_size (text : Bytes) (hex : ∀ c ∈ text, (unhex c).isSome = true)
    (chunked : p.flags.chunked = true) :
    ∀ held : Bytes, hexNumber (held ++ text) < ULLONG_MAX.toNat →
      Heads settings { p with state := .chunkSize, contentLength := (hexNumber held).toUInt64 }
        noMarks text []
        { p with state := .chunkSize, contentLength := (hexNumber (held ++ text)).toUInt64 }
        noMarks := by
  induction text with
  | nil =>
      intro held _
      rw [List.append_nil]
      exact .nil _ _
  | cons ch text ih =>
      intro held small
      have hex' := hex ch List.mem_cons_self
      obtain ⟨value, known⟩ := Option.isSome_iff_exists.mp hex'
      have snoc : hexNumber (held ++ [ch]) = hexNumber held * 16 + value := by
        rw [hexNumber, numberIn_snoc, known]
        rfl
      have grows : hexNumber (held ++ [ch]) ≤ hexNumber (held ++ [ch] ++ text) :=
        numberIn_grows 16 _ (held ++ [ch]) text (by decide)
      rw [List.append_assoc] at grows
      have first : Heads settings
          { p with state := .chunkSize, contentLength := (hexNumber held).toUInt64 } noMarks [ch] []
          { p with state := .chunkSize, contentLength := (hexNumber (held ++ [ch])).toUInt64 }
          noMarks := by
        apply Heads.byte
          { p with state := .chunkSize, contentLength := (hexNumber (held ++ [ch])).toUInt64 }
          noMarks ch [] rfl
        intro n
        have more := moreLength_number
          { p with state := .chunkSize, contentLength := (hexNumber held).toUInt64, nread := n } 16
          value (hexNumber held) (snoc ▸ Nat.lt_of_le_of_lt grows small) (by decide) rfl
        rw [turn]
        simp only [chunkSize, chunked, Bool.not_true, Bool.false_eq_true, if_false,
          if_neg (unhex_plain hex'), known, more, snoc]
        rfl
      have rest := ih (fun other inside => hex other (List.mem_cons_of_mem ch inside))
        (held ++ [ch]) (by rw [List.append_assoc]; exact small)
      rw [List.append_assoc] at rest
      exact first.append rest

/-- What may stand behind the digits, and the first byte of the line's end. -/
theorem extension_heads (line : SizeLine) (chunked : p.flags.chunked = true) :
    Heads settings { p with state := .chunkSize } noMarks (line.extensionBytes ++ [CR]) []
      { p with state := .chunkSizeAlmostDone } noMarks := by
  have plain := line.plain
  unfold SizeLine.extensionBytes
  cases known : line.extension with
  | none =>
      apply Heads.byte { p with state := .chunkSizeAlmostDone } noMarks CR [] rfl
      intro n
      rw [turn]
      simp only [chunkSize, chunked, Bool.not_true, Bool.false_eq_true, if_false, if_true]
      rfl
  | some text =>
      have opens : Heads settings { p with state := .chunkSize } noMarks [59] []
          { p with state := .chunkParameters } noMarks := by
        apply Heads.byte { p with state := .chunkParameters } noMarks 59 [] rfl
        intro n
        have none' : unhex 59 = none := by decide
        have apart : ¬ (59 : UInt8) = CR := by decide
        rw [turn]
        simp only [chunkSize, chunked, Bool.not_true, Bool.false_eq_true, if_false, if_neg apart,
          none', true_or, if_true]
        rfl
      have passed : Heads settings { p with state := .chunkParameters } noMarks text []
          { p with state := .chunkParameters } noMarks := by
        apply Heads.passed rfl
        intro ch member n
        rw [turn]
        simp only [chunkParameters, chunked, Bool.not_true, Bool.false_eq_true, if_false,
          if_neg (plain text known ch member)]
        rfl
      have closes : Heads settings { p with state := .chunkParameters } noMarks [CR] []
          { p with state := .chunkSizeAlmostDone } noMarks := by
        apply Heads.byte { p with state := .chunkSizeAlmostDone } noMarks CR [] rfl
        intro n
        rw [turn]
        simp only [chunkParameters, chunked, Bool.not_true, Bool.false_eq_true, if_false, if_true]
        rfl
      exact opens.append (passed.append closes)

/-- The line in front of a chunk, or of the end of the body. -/
theorem sizeLine_scans (line : SizeLine) (chunked : p.flags.chunked = true)
    (room : line.bytes.length ≤ HTTP_MAX_HEADER_SIZE) :
    Scans settings { p with state := .chunkSizeStart, nread := 0 } noMarks line.bytes []
      (if line.value = 0 then
        { p with
          state := .headerFieldStart, nread := 0, contentLength := 0
          flags := { p.flags with trailing := true } }
      else { p with state := .chunkData, nread := 0, contentLength := line.value.toUInt64 })
      noMarks := by
  obtain ⟨ch, text, size⟩ := List.exists_cons_of_ne_nil line.sized
  have hex := line.hex
  have small := line.small
  rw [size] at hex small
  obtain ⟨value, known⟩ := Option.isSome_iff_exists.mp (hex ch List.mem_cons_self)
  have one : hexNumber [ch] = value := by
    show 0 * 16 + (unhex ch).getD 0 = value
    rw [known, Option.getD_some]
    omega
  have length : line.bytes.length = 1 + (text ++ (line.extensionBytes ++ [CR])).length + 1 := by
    rw [SizeLine.bytes, SizeLine.front, size]
    simp only [List.length_append, List.length_cons, List.length_nil]
    omega
  rw [length] at room
  have first : Scans settings { p with state := .chunkSizeStart, nread := 0 } noMarks [ch] []
      { p with state := .chunkSize, nread := 1, contentLength := (hexNumber [ch]).toUInt64 }
      noMarks := by
    apply Scans.closing settings { p with state := .chunkSizeStart } rfl (by omega)
    rw [turn]
    simp only [chunkSizeStart, chunked, known, one]
    rfl
  have digits := digits_size settings p text
    (fun c inside => hex c (List.mem_cons_of_mem ch inside)) chunked [ch] small
  have front := (digits.append (extension_heads settings
    { p with contentLength := (hexNumber ([ch] ++ text)).toUInt64 } line chunked)) 1 (by omega)
  have whole : hexNumber ([ch] ++ text) = line.value := by
    rw [SizeLine.value, size]
    rfl
  rw [whole] at front
  have word : line.value.toUInt64 = 0 ↔ line.value = 0 := by
    have max : ULLONG_MAX.toNat = 2 ^ 64 - 1 := rfl
    have below := line.small
    have same : line.value.toUInt64.toNat = line.value :=
      UInt64.toNat_ofNat_of_lt' (by show hexNumber line.size < 2 ^ 64; omega)
    rw [← UInt64.toNat_inj, same]
    rfl
  have last : ∀ n, n + 1 ≤ HTTP_MAX_HEADER_SIZE → Scans settings
      { p with
        state := .chunkSizeAlmostDone, contentLength := line.value.toUInt64, nread := n }
      noMarks [LF] []
      (if line.value = 0 then
        { p with
          state := .headerFieldStart, nread := 0, contentLength := 0
          flags := { p.flags with trailing := true } }
      else { p with state := .chunkData, nread := 0, contentLength := line.value.toUInt64 })
      noMarks := by
    intro n fits
    apply Scans.closing settings
      { p with state := .chunkSizeAlmostDone, contentLength := line.value.toUInt64 } rfl fits
    rw [turn]
    by_cases zero : line.value = 0
    · simp only [chunkSizeAlmostDone, chunked, Bool.not_true, Bool.false_eq_true, if_false, zero]
      rfl
    · simp only [chunkSizeAlmostDone, chunked, Bool.not_true, Bool.false_eq_true, if_false,
        if_neg zero, word]
      rfl
  have all := first.append (front.append (last _ (by omega)))
  have text' : [ch] ++ (text ++ (line.extensionBytes ++ [CR]) ++ [LF]) = line.bytes := by
    rw [SizeLine.bytes, SizeLine.front, size, List.cons_append, List.cons_append]
    rfl
  rw [text'] at all
  exact all

/-- The two bytes behind a chunk. -/
theorem chunk_crlf (held : Bytes) (chunked : p.flags.chunked = true) (empty : p.contentLength = 0) :
    Scans settings { p with state := .chunkDataAlmostDone } (word .body held) crlf
      [.data .body held] { p with state := .chunkSizeStart, nread := 0 } noMarks := by
  have first : Scans settings { p with state := .chunkDataAlmostDone } (word .body held) [CR]
      [.data .body held] { p with state := .chunkDataDone } noMarks := by
    apply Scans.uncounted settings { p with state := .chunkDataAlmostDone } rfl
    rw [turn]
    simp only [chunkDataAlmostDone, chunked, Bool.not_true, Bool.false_eq_true, empty, ne_eq,
      not_true_eq_false, or_self, if_false, word_clear, word_calls]
  have second : Scans settings { p with state := .chunkDataDone } noMarks [LF] []
      { p with state := .chunkSizeStart, nread := 0 } noMarks := by
    apply Scans.uncounted settings { p with state := .chunkDataDone } rfl
    rw [turn]
    simp only [chunkDataDone, chunked, Bool.not_true, Bool.false_eq_true, if_false, ne_eq,
      not_true_eq_false]
    rfl
  exact first.append second

theorem chunk_scans (chunk : Chunk) (chunked : p.flags.chunked = true) :
    Scans settings { p with state := .chunkSizeStart, nread := 0 } noMarks chunk.bytes
      [.data .body chunk.data] { p with state := .chunkSizeStart, nread := 0, contentLength := 0 }
      noMarks := by
  have small := chunk.line.small
  have value : hexNumber chunk.line.size = chunk.data.length := chunk.length
  rw [value] at small
  have positive : chunk.line.value ≠ 0 := by
    rw [chunk.length]
    exact fun zero => chunk.filled (List.length_eq_zero_iff.mp zero)
  have line := sizeLine_scans settings p chunk.line chunked chunk.fits
  rw [if_neg positive, chunk.length] at line
  have data := chunk_data settings
    { p with state := .chunkData, nread := 0, contentLength := chunk.data.length.toUInt64 }
    chunk.data chunk.filled rfl chunked rfl small
  exact line.append (data.append
    (chunk_crlf settings { p with nread := 0, contentLength := 0 } chunk.data chunked rfl))

theorem chunks_scans (chunks : List Chunk) : ∀ p : Parser, p.flags.chunked = true →
    ∃ length, Scans settings { p with state := .chunkSizeStart, nread := 0 } noMarks
      (chunks.flatMap Chunk.bytes) (chunks.map fun chunk => .data .body chunk.data)
      { p with state := .chunkSizeStart, nread := 0, contentLength := length } noMarks := by
  induction chunks with
  | nil => exact fun p _ => ⟨p.contentLength, .nil _ noMarks⟩
  | cons chunk chunks ih =>
      intro p chunked
      obtain ⟨length, later⟩ := ih { p with contentLength := 0 } chunked
      exact ⟨length, (chunk_scans settings p chunk chunked).append later⟩

end Chunks

inductive Body where
  | none
  | sized (bytes : Bytes)
  | chunked (chunks : List Chunk) (trailers : Trailers)

def Body.bytes : Body → Bytes
  | .none => []
  | .sized bytes => bytes
  | .chunked chunks trailers => chunks.flatMap Chunk.bytes ++ (trailers.line.bytes ++ trailers.lines)

def Body.calls : Body → List HttpCallback
  | .none => []
  | .sized bytes => [.data .body bytes]
  | .chunked chunks trailers =>
      (chunks.map fun chunk => .data .body chunk.data) ++ trailers.fields.flatMap Field.calls

/-- What the lines behind the body say too. -/
def Body.ending (framing : Framing) : Body → Framing
  | .none | .sized _ => framing
  | .chunked _ trailers =>
      trailers.fields.foldl Framing.note ⟨{ framing.flags with trailing := true }, 0⟩

/-- The bytes that still count when the message is complete. -/
def Body.carried : Body → Nat
  | .none | .sized _ => 0
  | .chunked _ trailers => trailers.lines.length

/-- A message that has no body unless its header lines say so. -/
def Parser.bodiless (p : Parser) : Prop :=
  p.type = .request ∨ p.statusCode / 100 = 1 ∨ p.statusCode = 204 ∨ p.statusCode = 304

/-- The header lines announce this body. -/
def Body.Framed (bodiless : Prop) (framing : Framing) : Body → Prop
  | .none =>
      framing.flags.chunked = false ∧ (framing.length = 0 ∨ framing.length = ULLONG_MAX ∧ bodiless)
  | .sized bytes =>
      framing.flags.chunked = false ∧ bytes ≠ [] ∧ framing.length = bytes.length.toUInt64 ∧
        bytes.length < ULLONG_MAX.toNat
  | .chunked _ _ => framing.flags.chunked = true

/-- The header lines, the blank line and the body. -/
structure Content where
  fields : List Field
  body : Body

def Content.head (content : Content) : Bytes := content.fields.flatMap Field.bytes ++ crlf

def Content.bytes (content : Content) : Bytes := content.head ++ content.body.bytes

def Content.framing (content : Content) : Framing :=
  content.fields.foldl Framing.note ⟨.none, ULLONG_MAX⟩

def Content.ending (content : Content) : Framing := content.body.ending content.framing

section Notes

theorem note_flags (framing : Framing) (f : Field) :
    (framing.note f).flags.trailing = framing.flags.trailing ∧
      (framing.note f).flags.skipbody = framing.flags.skipbody ∧
      (framing.flags.chunked = true → (framing.note f).flags.chunked = true) := by
  unfold Framing.note
  split
  case isTrue => exact ⟨rfl, rfl, id⟩
  case isFalse =>
    cases wordState (f.name.map tokens) with
    | transferEncoding =>
        refine ⟨rfl, rfl, ?_⟩
        intro chunked
        show (framing.flags.chunked || _) = true
        rw [chunked, Bool.true_or]
    | _ => exact ⟨rfl, rfl, id⟩

theorem notes_flags (fields : List Field) : ∀ framing : Framing,
    (fields.foldl Framing.note framing).flags.trailing = framing.flags.trailing ∧
      (fields.foldl Framing.note framing).flags.skipbody = framing.flags.skipbody ∧
      (framing.flags.chunked = true → (fields.foldl Framing.note framing).flags.chunked = true) := by
  induction fields with
  | nil => exact fun framing => ⟨rfl, rfl, id⟩
  | cons f fields ih =>
      intro framing
      obtain ⟨trailing, skipbody, chunked⟩ := note_flags framing f
      obtain ⟨trailing', skipbody', chunked'⟩ := ih (framing.note f)
      exact ⟨trailing'.trans trailing, skipbody'.trans skipbody, fun here => chunked' (chunked here)⟩

end Notes

/-- The parser where a message is complete. -/
structure Ended (p : Parser) (ending : Framing) (carried : Nat) (q : Parser) : Prop where
  type : q.type = p.type
  errno : q.httpErrno = p.httpErrno
  status : q.statusCode = p.statusCode
  method : q.method = p.method
  version : q.httpMajor = p.httpMajor ∧ q.httpMinor = p.httpMinor
  flags : q.flags = ending.flags
  nread : q.nread = carried
  owed : q.needReport = p.needReport
  whole : httpMessageNeedsEof q = false

section Contents

variable (settings : Settings) (p : Parser)

theorem needsEof_chunked (chunked : p.flags.chunked = true) : httpMessageNeedsEof p = false := by
  unfold httpMessageNeedsEof
  simp only [chunked, true_or, if_true, ite_self]

theorem needsEof_length (known : p.contentLength ≠ ULLONG_MAX) : httpMessageNeedsEof p = false := by
  unfold httpMessageNeedsEof
  simp only [known, ne_eq, not_false_eq_true, or_true, if_true, ite_self]

theorem needsEof_bodiless (bodiless : p.bodiless) : httpMessageNeedsEof p = false := by
  unfold httpMessageNeedsEof
  rcases bodiless with request | code
  · rw [if_pos request]
  · have without : p.statusCode / 100 = 1 ∨ p.statusCode = 204 ∨ p.statusCode = 304 ∨
        p.flags.skipbody = true := by
      rcases code with info | empty | same
      · exact Or.inl info
      · exact Or.inr (Or.inl empty)
      · exact Or.inr (Or.inr (Or.inl same))
    rw [if_pos without, ite_self]

/-- Behind the blank line a message without a body is complete. -/
theorem headersDone_none (plain : p.flags.skipbody = false) (current : p.upgrade = false)
    (framed : Body.none.Framed p.bodiless ⟨p.flags, p.contentLength⟩) :
    headersDone settings p noMarks LF =
      .goes (messageComplete settings { p with nread := 0 }) noMarks
        [.messageComplete p.statusCode] 0 := by
  obtain ⟨identity, length⟩ := framed
  have identity' : p.flags.chunked = false := identity
  rw [headersDone, if_neg (not_not.mpr rfl)]
  dsimp only
  rw [current, plain, identity']
  simp only [Bool.false_eq_true, if_false]
  rcases length with zero | ⟨top, bodiless⟩
  · have zero' : p.contentLength = 0 := zero
    rw [if_pos zero']
    rfl
  · have top' : p.contentLength = ULLONG_MAX := top
    have ends : httpMessageNeedsEof { p with nread := 0, upgrade := false } = false :=
      needsEof_bodiless { p with nread := 0, upgrade := false } bodiless
    rw [top', if_neg (by decide), if_neg (not_not.mpr rfl), ← top', ends]
    simp only [Bool.not_false, or_true, if_true]
    rfl

/-- Behind it a body of known length begins. -/
theorem headersDone_sized (plain : p.flags.skipbody = false) (current : p.upgrade = false)
    (identity : p.flags.chunked = false) (some' : p.contentLength ≠ 0)
    (known : p.contentLength ≠ ULLONG_MAX) :
    headersDone settings p noMarks LF =
      .goes { p with nread := 0, state := .bodyIdentity } noMarks [] 0 := by
  rw [headersDone, if_neg (not_not.mpr rfl)]
  dsimp only
  rw [if_neg (by rw [current]; decide), if_neg (by rw [plain]; decide),
    if_neg (by rw [identity]; decide), if_neg some', if_pos known]
  rfl

/-- Behind it the first size is expected. -/
theorem headersDone_chunked (plain : p.flags.skipbody = false) (current : p.upgrade = false)
    (chunked : p.flags.chunked = true) :
    headersDone settings p noMarks LF =
      .goes { p with nread := 0, state := .chunkSizeStart } noMarks [] 0 := by
  rw [headersDone, if_neg (not_not.mpr rfl)]
  dsimp only
  rw [if_neg (by rw [current]; decide), if_neg (by rw [plain]; decide), if_pos chunked]
  rfl

/-- A body in chunks, and the lines behind it but for the last byte. -/
theorem chunked_front (chunks : List Chunk) (trailers : Trailers) (chunked : p.flags.chunked = true)
    (room : (trailers.fields.flatMap Field.bytes).length + 1 ≤ HTTP_MAX_HEADER_SIZE) :
    ∃ h i, Scans settings { p with state := .chunkSizeStart, nread := 0 } noMarks
      (chunks.flatMap Chunk.bytes ++
        (trailers.line.bytes ++ (trailers.fields.flatMap Field.bytes ++ [CR])))
      (Body.chunked chunks trailers).calls
      { { p with headerState := h, index := i }.reading
          (trailers.fields.foldl Framing.note ⟨{ p.flags with trailing := true }, 0⟩)
          .headersAlmostDone with
        nread := (trailers.fields.flatMap Field.bytes).length + 1 } noMarks := by
  let trailing : Framing := ⟨{ p.flags with trailing := true }, 0⟩
  obtain ⟨left, pieces⟩ := chunks_scans settings chunks p chunked
  have line := sizeLine_scans settings { p with contentLength := left } trailers.line chunked
    trailers.fits
  rw [if_pos trailers.last] at line
  obtain ⟨h, i, s, start, lines⟩ := fields_heads settings trailers.fields p trailing
    .headerFieldStart (Or.inl rfl)
  have fields := lines 0 (by omega)
  rw [Nat.zero_add] at fields
  let last : Parser :=
    { p with headerState := h, index := i }.reading (trailers.fields.foldl Framing.note trailing) s
  have blank := headers_cr settings last start (trailers.fields.flatMap Field.bytes).length room
  refine ⟨h, i, ?_⟩
  have whole := pieces.append (line.append (fields.append blank))
  rw [List.append_nil] at whole
  exact whole

/-- A body in chunks, and the lines behind it. -/
theorem chunked_scans (chunks : List Chunk) (trailers : Trailers) (chunked : p.flags.chunked = true)
    (room : trailers.lines.length ≤ HTTP_MAX_HEADER_SIZE) :
    ∃ q, Ended p (trailers.fields.foldl Framing.note ⟨{ p.flags with trailing := true }, 0⟩)
        trailers.lines.length q ∧
      Scans settings { p with state := .chunkSizeStart, nread := 0 } noMarks
        (Body.chunked chunks trailers).bytes
        ((Body.chunked chunks trailers).calls ++ [.messageComplete p.statusCode])
        (messageComplete settings q) noMarks := by
  let trailing : Framing := ⟨{ p.flags with trailing := true }, 0⟩
  have length : trailers.lines.length = (trailers.fields.flatMap Field.bytes).length + 2 :=
    List.length_append
  rw [length] at room ⊢
  obtain ⟨h, i, front⟩ := chunked_front settings p chunks trailers chunked (Nat.le_of_succ_le room)
  obtain ⟨trails, -, chunks'⟩ := notes_flags trailers.fields trailing
  let last : Parser :=
    { p with headerState := h, index := i }.reading (trailers.fields.foldl Framing.note trailing)
      .headersAlmostDone
  have ends := trailing_scans settings last trails
    ((trailers.fields.flatMap Field.bytes).length + 1) room
  refine ⟨{ last with nread := (trailers.fields.flatMap Field.bytes).length + 2 },
    ⟨rfl, rfl, rfl, rfl, ⟨rfl, rfl⟩, rfl, rfl, rfl, needsEof_chunked _ (chunks' chunked)⟩, ?_⟩
  have whole := front.append ends
  have bytes : chunks.flatMap Chunk.bytes ++ (trailers.line.bytes ++
      (trailers.fields.flatMap Field.bytes ++ [CR])) ++ [LF] = (Body.chunked chunks trailers).bytes := by
    rw [Body.bytes, Trailers.lines, crlf]
    simp only [List.append_assoc, List.cons_append, List.nil_append]
  rw [bytes] at whole
  exact whole

/-- The end of the blank line, and a body that the header lines announce. -/
theorem body_scans (willing : ∀ q, settings.onHeadersComplete q = 0) (settled : p.method ≠ .connect)
    {framing : Framing}
    (plain : framing.flags.trailing = false ∧ framing.flags.upgrade = false ∧
      framing.flags.skipbody = false) (body : Body) (framed : body.Framed p.bodiless framing) (n : Nat)
    (room : n + 1 ≤ HTTP_MAX_HEADER_SIZE) (room' : body.carried ≤ HTTP_MAX_HEADER_SIZE) :
    ∃ q, Ended p (body.ending framing) body.carried q ∧
      Scans settings { p.reading framing .headersAlmostDone with nread := n } noMarks
        ([LF] ++ body.bytes) (p.headersCall :: body.calls ++ [.messageComplete p.statusCode])
        (messageComplete settings q) noMarks := by
  obtain ⟨trailing, upgrade, skipbody⟩ := plain
  let done : Parser := { p.reading framing .headersDone with upgrade := false }
  have blank := fun p' calls => blank_scans settings (p.reading framing .headersDone) willing settled
    ⟨trailing, upgrade⟩ p' calls n room
  cases body with
  | none =>
      have here := blank _ _ (headersDone_none settings done skipbody rfl framed)
      refine ⟨{ done with nread := 0 }, ⟨rfl, rfl, rfl, rfl, ⟨rfl, rfl⟩, rfl, rfl, rfl, ?_⟩, ?_⟩
      · rcases framed.2 with zero | ⟨-, bodiless⟩
        · apply needsEof_length
          show framing.length ≠ ULLONG_MAX
          rw [zero]
          decide
        · exact needsEof_bodiless { done with nread := 0 } bodiless
      · rw [Body.bytes, List.append_nil]
        exact here
  | sized bytes =>
      obtain ⟨identity, filled, length, small⟩ := framed
      obtain ⟨ch, text, rfl⟩ := List.exists_cons_of_ne_nil filled
      obtain ⟨some', known, -⟩ := toRead_whole done ch text [] length small
      have here := blank _ _ (headersDone_sized settings done skipbody rfl identity some' known)
      refine ⟨{ done with nread := 0, contentLength := 0, state := .messageDone },
        ⟨rfl, rfl, rfl, rfl, ⟨rfl, rfl⟩, rfl, rfl, rfl, ?_⟩, ?_⟩
      · apply needsEof_length
        show (0 : UInt64) ≠ ULLONG_MAX
        decide
      · exact here.append (identity_scans settings
          { done with nread := 0, state := .bodyIdentity } (ch :: text) filled rfl length small)
  | chunked chunks trailers =>
      have here := blank _ _ (headersDone_chunked settings done skipbody rfl framed)
      obtain ⟨q, ended, body⟩ := chunked_scans settings done chunks trailers framed room'
      exact ⟨q, ⟨ended.type, ended.errno, ended.status, ended.method, ended.version, ended.flags,
        ended.nread, ended.owed, ended.whole⟩, here.append body⟩

/-- The first line, the header lines and the beginning of the blank one. -/
theorem head_scans {q : Parser} {first : Bytes} {calls : List HttpCallback}
    (begun : Heads settings p noMarks first calls
      (q.reading ⟨.none, ULLONG_MAX⟩ .headerFieldStart) noMarks) (content : Content) (n : Nat)
    (room : n + (first ++ content.head).length ≤ HTTP_MAX_HEADER_SIZE) :
    ∃ h i k, k + 1 ≤ HTTP_MAX_HEADER_SIZE ∧ Scans settings { p with nread := n } noMarks
      (first ++ (content.fields.flatMap Field.bytes ++ [CR]))
      (calls ++ content.fields.flatMap Field.calls)
      { { q with headerState := h, index := i }.reading content.framing .headersAlmostDone with
        nread := k } noMarks := by
  obtain ⟨h, i, s, start, lines⟩ := fields_heads settings content.fields q ⟨.none, ULLONG_MAX⟩
    .headerFieldStart (Or.inl rfl)
  have length : (first ++ content.head).length =
      first.length + (content.fields.flatMap Field.bytes).length + 2 := by
    rw [Content.head, List.length_append, List.length_append, ← Nat.add_assoc]
    rfl
  let last : Parser := { q with headerState := h, index := i }.reading content.framing s
  refine ⟨h, i, n + first.length + (content.fields.flatMap Field.bytes).length + 1, by omega, ?_⟩
  have blank := headers_cr settings last start
    (n + first.length + (content.fields.flatMap Field.bytes).length) (by
      show _ + 1 ≤ _
      omega)
  have whole := (begun n (by omega)).append
    ((lines (n + first.length) (by omega)).append blank)
  rw [List.append_nil] at whole
  exact whole

/-- A message behind its first line. -/
theorem message_scans (willing : ∀ q, settings.onHeadersComplete q = 0) {q : Parser} {first : Bytes}
    {calls : List HttpCallback}
    (begun : Heads settings p noMarks first calls
      (q.reading ⟨.none, ULLONG_MAX⟩ .headerFieldStart) noMarks)
    (settled : q.method ≠ .connect) (content : Content)
    (framed : content.body.Framed q.bodiless content.framing)
    (current : content.framing.flags.upgrade = false) (n : Nat)
    (room : n + (first ++ content.head).length ≤ HTTP_MAX_HEADER_SIZE)
    (room' : content.body.carried ≤ HTTP_MAX_HEADER_SIZE) :
    ∃ q', Ended q content.ending content.body.carried q' ∧
      Scans settings { p with nread := n } noMarks (first ++ content.bytes)
        (calls ++ (content.fields.flatMap Field.calls ++
          (q.headersCall :: content.body.calls ++ [.messageComplete q.statusCode])))
        (messageComplete settings q') noMarks := by
  obtain ⟨h, i, k, room'', front⟩ := head_scans settings p begun content n room
  obtain ⟨trailing, skipbody, -⟩ := notes_flags content.fields ⟨.none, ULLONG_MAX⟩
  obtain ⟨q', ended, rest⟩ := body_scans settings { q with headerState := h, index := i } willing
    settled ⟨trailing, current, skipbody⟩ content.body framed k room'' room'
  refine ⟨q', ⟨ended.type, ended.errno, ended.status, ended.method, ended.version, ended.flags,
    ended.nread, ended.owed, ended.whole⟩, ?_⟩
  have whole := front.append rest
  have bytes : first ++ (content.fields.flatMap Field.bytes ++ [CR]) ++ ([LF] ++ content.body.bytes) =
      first ++ content.bytes := by
    rw [Content.bytes, Content.head, crlf]
    simp only [List.append_assoc, List.cons_append, List.nil_append]
  rw [bytes, List.append_assoc] at whole
  exact whole

end Contents

section Runs

variable {settings : Settings}

/-- The parser reads a text to its end, which ends the segment too. -/
def Whole (settings : Settings) (p : Parser) (text : Bytes) (calls : List HttpCallback)
    (p' : Parser) : Prop :=
  executeFrom settings p noMarks 0 text = some ⟨p', calls, text.length⟩

theorem Scans.before {p p' p'' : Parser} {text text' : Bytes} {calls calls' : List HttpCallback}
    (first : Scans settings p noMarks text calls p' noMarks)
    (second : Whole settings p' text' calls' p'') :
    Whole settings p (text ++ text') (calls ++ calls') p'' := by
  rw [Whole, first, second, List.length_append, Nat.add_comm]
  rfl

theorem Scans.whole {p p' : Parser} {text : Bytes} {calls : List HttpCallback}
    (scans : Scans settings p noMarks text calls p' noMarks) : Whole settings p text calls p' := by
  have alone := scans.before (show Whole settings p' [] [] p' from rfl)
  rw [List.append_nil, List.append_nil] at alone
  exact alone

theorem Whole.execute {p p' : Parser} {text : Bytes} {calls : List HttpCallback}
    (whole : Whole settings p text calls p') (ok : p.httpErrno = .ok) (plain : p.state.marked = none)
    (filled : text ≠ []) : httpParserExecute settings p text = some ⟨p', calls, text.length⟩ := by
  rw [httpParserExecute, if_neg (not_not.mpr ok), if_neg filled, startMarks_none plain]
  exact whole

/-- However the text comes in segments, the callbacks bring what they bring for the text. -/
theorem Whole.run (good : settings.Sound) {p p' : Parser} {text : Bytes} {calls : List HttpCallback}
    (whole : Whole settings p text calls p') (ready : p.Ready)
    (ok : p.httpErrno = .ok) (ok' : p'.httpErrno = .ok) (plain : p.state.marked = none)
    (segments : List Bytes) (full : ∀ data ∈ segments, data ≠ []) (stream : segments.flatten = text) :
    ∃ calls', httpRun settings p segments = some (p', calls') ∧ joined calls' = joined calls := by
  cases segments with
  | nil =>
      cases stream
      cases whole
      exact ⟨[], rfl, rfl⟩
  | cons data rest =>
      have filled : text ≠ [] := by
        rw [← stream, List.flatten_cons]
        exact List.append_ne_nil_of_left_ne_nil (full data List.mem_cons_self) _
      have here := whole.execute ok plain filled
      rw [← stream] at here filled
      exact httpRun_whole good ready (data :: rest) filled full here ok' (by rw [stream])

end Runs

end Bscope.Http
