import Bscope.HttpTraffic

set_option autoImplicit false

/- Where the parser of the responses says that they end, in whatever segments they come. -/
namespace Bscope.Http

def HttpCallback.isComplete : HttpCallback → Bool
  | .messageComplete _ => true
  | _ => false

/-- How many messages these callbacks complete. -/
def completions (calls : List HttpCallback) : Nat := calls.countP HttpCallback.isComplete

section Completions

@[simp] theorem completions_append (first second : List HttpCallback) :
    completions (first ++ second) = completions first + completions second := List.countP_append

theorem completions_plain (calls : List HttpCallback) :
    completions (calls.filter isPlain) = completions calls := by
  unfold completions
  rw [List.countP_filter]
  apply List.countP_congr
  intro call _
  cases call <;> simp [HttpCallback.isComplete, isPlain]

/-- Data in pieces makes no difference. -/
theorem completions_joined (calls : List HttpCallback) : completions (joined calls) = completions calls := by
  rw [← completions_plain, plain_joined, completions_plain]

theorem completions_data {calls : List HttpCallback} (data : calls.filter isPlain = []) :
    completions calls = 0 := by
  rw [← completions_plain, data]
  rfl

theorem completions_answer (a : Answer) : completions a.calls = 1 := by
  rw [← completions_plain, answer_plain]
  rfl

theorem completions_answers (answers : List Answer) :
    completions (answers.flatMap Answer.calls) = answers.length := by
  induction answers with
  | nil => rfl
  | cons a answers ih =>
      rw [List.flatMap_cons, completions_append, ih, completions_answer, List.length_cons,
        Nat.add_comm]

end Completions

section Parts

variable {settings : Settings}

/-- A parser that has not failed had not failed before. -/
theorem after_ok (p : Parser) (front back : Bytes)
    (ok : (Transducer.after (byteStep settings) p (front ++ back)).httpErrno = .ok) :
    (Transducer.after (byteStep settings) p front).httpErrno = .ok := by
  by_contra failed
  rw [Transducer.after_append, (bytes_failed settings failed back).1] at ok
  exact failed ok

variable (good : settings.Sound)
include good

/-- What is read whole is read so byte by byte. -/
theorem Whole.bytes {p p' : Parser} {text : Bytes} {calls : List HttpCallback}
    (whole : Whole settings p text calls p') (ready : p.Ready) (ok : p.httpErrno = .ok)
    (ok' : p'.httpErrno = .ok) (plain : p.state.marked = none) :
    Unbroken settings p text ∧ Transducer.after (byteStep settings) p text = p' ∧
      completions (Transducer.emits (byteStep settings) p text) = completions calls := by
  by_cases filled : text = []
  · subst filled
    cases whole
    exact ⟨trivial, rfl, rfl⟩
  · have here := whole.execute ok plain filled
    have unbroken := (httpParserExecute_unbroken good ready filled here).mp (Or.inr rfl)
    obtain ⟨after, tail, left, same⟩ := httpParserExecute_bytes good ready filled here (Or.inr rfl)
    rw [left.2 ok', List.append_nil] at same
    have count := congrArg completions same
    rw [completions_joined, completions_joined] at count
    exact ⟨unbroken, after, count⟩

/-- A part of a text that is read whole, in whatever segments. -/
theorem Whole.part {p p' : Parser} {text part : Bytes} {calls : List HttpCallback}
    (whole : Whole settings p text calls p') (ready : p.Ready) (ok : p.httpErrno = .ok)
    (ok' : p'.httpErrno = .ok) (plain : p.state.marked = none) (inside : part <+: text)
    (segments : List Bytes) (full : ∀ data ∈ segments, data ≠ []) (stream : segments.flatten = part) :
    ∃ q calls', httpRun settings p segments = some (q, calls') ∧
      completions calls' = completions (Transducer.emits (byteStep settings) p part) := by
  obtain ⟨back, rfl⟩ := inside
  obtain ⟨unbroken, after, -⟩ := whole.bytes good ready ok ok' plain
  have sound := after_ok p part back (after.symm ▸ ok')
  obtain ⟨q, calls', run, ends, tail, left, same⟩ := httpRun_bytes good segments p ready full
    (by rw [stream]; exact (unbroken.append part back p).1)
  rw [stream] at ends same
  rw [ends] at sound
  rw [left.2 sound, List.append_nil] at same
  have total := congrArg completions same
  rw [completions_joined, completions_joined] at total
  exact ⟨q, calls', run, total.symm⟩

end Parts

/-- A response but for the end of its blank line and its body. -/
def Answer.lines (a : Answer) : Bytes :=
  a.line.bytes ++ (a.content.fields.flatMap Field.bytes ++ [CR])

/-- The parser where the header lines of a response are done. -/
structure Answer.Headed (a : Answer) (q : Parser) : Prop where
  ok : q.httpErrno = .ok
  type : q.type = .response
  status : q.statusCode = a.line.code.val
  flags : q.flags = a.content.framing.flags
  length : q.contentLength = a.content.framing.length
  upgrade : q.upgrade = false

section Heads

variable (a : Answer)

variable {a} in
theorem Answer.Headed.plain {q : Parser} (headed : a.Headed q) : q.flags.skipbody = false := by
  rw [headed.flags]
  exact (notes_flags a.content.fields ⟨.none, ULLONG_MAX⟩).2.1

theorem answer_bytes : a.bytes = a.lines ++ [LF] ++ a.content.body.bytes := by
  rw [Answer.bytes, Answer.lines, Content.bytes, Content.head, crlf]
  simp only [List.append_assoc, List.cons_append, List.nil_append]

variable (room : a.head.length ≤ HTTP_MAX_HEADER_SIZE) {owed : Bool} {p : Parser}
  (awaits : AwaitsResponse 0 owed p)
include room awaits

theorem lines_scans : ∃ h i k, k + 1 ≤ HTTP_MAX_HEADER_SIZE ∧
    Scans serverParserSettings p noMarks a.lines
      (.messageBegin :: a.content.fields.flatMap Field.calls)
      { { p.told a.line with headerState := h, index := i }.reading a.content.framing
          .headersAlmostDone with nread := k } noMarks := by
  have nread := awaits.nread
  have room' : p.nread + (a.line.bytes ++ a.content.head).length ≤ HTTP_MAX_HEADER_SIZE :=
    Nat.le_trans (Nat.add_le_add_right nread _) ((Nat.zero_add _).symm ▸ room)
  exact head_scans serverParserSettings p (status_heads awaits a.line) a.content p.nread room'

/-- Behind the header lines goes on what `headersDone` makes of them. -/
theorem heads_scans (current : a.content.framing.flags.upgrade = false) :
    ∃ q, a.Headed q ∧ ∀ p' calls,
      headersDone serverParserSettings q noMarks LF = .goes p' noMarks calls 0 →
        Scans serverParserSettings p noMarks (a.lines ++ [LF])
          (.messageBegin :: a.content.fields.flatMap Field.calls ++
            .headersComplete .delete a.line.version.major a.line.version.minor a.line.code.val ::
              calls) p' noMarks := by
  obtain ⟨h, i, k, more, lines⟩ := lines_scans a room awaits
  obtain ⟨trailing, -, -⟩ := notes_flags a.content.fields ⟨.none, ULLONG_MAX⟩
  let last : Parser :=
    { p.told a.line with headerState := h, index := i }.reading a.content.framing .headersDone
  have method : last.method = .delete := awaits.method
  refine ⟨{ last with upgrade := false }, ⟨awaits.errno, awaits.type, rfl, rfl, rfl, rfl⟩, ?_⟩
  intro p' calls done
  have blank := blank_scans serverParserSettings last (fun _ => rfl) (by rw [method]; decide)
    ⟨trailing, current⟩ p' calls k more done
  have call : last.headersCall =
      .headersComplete .delete a.line.version.major a.line.version.minor a.line.code.val := by
    rw [Parser.headersCall, method]
    rfl
  rw [call] at blank
  exact lines.append blank

end Heads

section Bodies

variable (settings : Settings) (p : Parser)

theorem headersDone_eof (plain : p.flags.skipbody = false) (current : p.upgrade = false)
    (identity : p.flags.chunked = false) (absent : p.contentLength = ULLONG_MAX)
    (response : p.type = .response)
    (body : ¬ (p.statusCode / 100 = 1 ∨ p.statusCode = 204 ∨ p.statusCode = 304)) :
    headersDone settings p noMarks LF =
      .goes { p with nread := 0, state := .bodyIdentityEof } noMarks [] 0 := by
  have needed : httpMessageNeedsEof { p with nread := 0 } = true := by
    have code : ¬ (p.statusCode / 100 = 1 ∨ p.statusCode = 204 ∨ p.statusCode = 304 ∨
        p.flags.skipbody = true) := by
      rw [plain]
      tauto
    unfold httpMessageNeedsEof
    dsimp only
    rw [response, if_neg (by decide), if_neg code, identity, absent]
    decide
  have waits : ¬ (p.type = .request ∨ (!httpMessageNeedsEof { p with nread := 0 }) = true) := by
    rw [needed, response]
    decide
  rw [headersDone, if_neg (not_not.mpr rfl)]
  dsimp only
  rw [if_neg (by rw [current]; decide), if_neg (by rw [plain]; decide),
    if_neg (by rw [identity]; decide), if_neg (by rw [absent]; decide),
    if_neg (not_not.mpr absent), if_neg waits]
  rfl

/-- Where the lines do not say that there is no body, the parser expects one. -/
theorem headersDone_expects {a : Answer} {q : Parser} (headed : a.Headed q)
    (more : ¬ Body.none.Framed a.bodiless a.content.framing) :
    ∃ s, headersDone settings q noMarks LF = .goes { q with nread := 0, state := s } noMarks [] 0 ∧
      (a.content.framing.flags.chunked = false → a.content.framing.length = ULLONG_MAX →
        s = .bodyIdentityEof) := by
  have plain := headed.plain
  by_cases chunked : a.content.framing.flags.chunked = true
  · refine ⟨.chunkSizeStart, headersDone_chunked settings q plain headed.upgrade
      (headed.flags ▸ chunked), ?_⟩
    intro identity
    exact absurd (identity.symm.trans chunked) Bool.false_ne_true
  · have identity : a.content.framing.flags.chunked = false := Bool.eq_false_iff.mpr chunked
    have some' : a.content.framing.length ≠ 0 := fun zero => more ⟨identity, Or.inl zero⟩
    by_cases absent : a.content.framing.length = ULLONG_MAX
    · have body : ¬ a.bodiless := fun without => more ⟨identity, Or.inr ⟨absent, without⟩⟩
      exact ⟨.bodyIdentityEof, headersDone_eof settings q plain headed.upgrade
        (headed.flags ▸ identity) (headed.length ▸ absent) headed.type (headed.status ▸ body),
        fun _ _ => rfl⟩
    · exact ⟨.bodyIdentity, headersDone_sized settings q plain headed.upgrade
        (headed.flags ▸ identity) (headed.length ▸ some') (headed.length ▸ absent),
        fun _ none => absurd none absent⟩

theorem finish_word (kind : DataKind) (held : Bytes) :
    finish p (word kind held) = some ⟨p, [.data kind held], 0⟩ := by
  cases kind <;> rfl

/-- A body of which all that there is was marked. -/
theorem marked_whole (ch : UInt8) (text : Bytes) (p' : Parser) (body : p.state.parsingHeader = false)
    (here : turn settings p noMarks ch text = some (.goes p' (word .body []) [] text.length)) :
    Whole settings p (ch :: text) [.data .body (ch :: text)] p' := by
  have read := executeFrom_skip settings p' text [] ((word .body []).advance ch)
  rw [List.append_nil, word_advance, advance_word] at read
  rw [Whole, executeFrom_cons settings p noMarks ch text (overflows_body p body),
    counted_body p body, here, Option.bind_some, resume, word_advance, read,
    executeFrom, finish_word]
  simp only [Option.map_some, Parsed.after, Parsed.behind, Nat.zero_add, List.length_cons]
  rfl

/-- Behind an end that is not known all data are the body's. -/
theorem eof_whole (state : p.state = .bodyIdentityEof) (text : Bytes) :
    ∃ calls, Whole settings p text calls p ∧ calls.filter isPlain = [] := by
  cases text with
  | nil => exact ⟨[], rfl, rfl⟩
  | cons ch text =>
      refine ⟨_, marked_whole settings p ch text p (by rw [state]; rfl) ?_, rfl⟩
      rw [turn, state]
      dsimp only
      rw [bodyIdentityEof, none_mark]

/-- The beginning of a body of known length. -/
theorem identity_whole (state : p.state = .bodyIdentity) (text : Bytes)
    (less : text.length < p.contentLength.toNat) (known : p.contentLength ≠ ULLONG_MAX) :
    ∃ p' calls, Whole settings p text calls p' ∧ p'.httpErrno = p.httpErrno ∧
      calls.filter isPlain = [] := by
  cases text with
  | nil => exact ⟨p, [], rfl, rfl, rfl⟩
  | cons ch text =>
      have read : toRead p text = text.length + 1 := Nat.min_eq_right (Nat.le_of_lt less)
      have some' : p.contentLength ≠ 0 := by
        intro zero
        rw [zero] at less
        exact absurd less (Nat.not_lt_zero _)
      have more : (readBody p text).contentLength ≠ 0 := by
        intro zero
        rw [readBody_empty, read] at zero
        rw [List.length_cons] at less
        omega
      refine ⟨readBody p text, _, marked_whole settings p ch text _ (by rw [state]; rfl) ?_, rfl, rfl⟩
      rw [turn, state]
      dsimp only
      rw [bodyIdentity, if_neg (not_or.mpr ⟨some', known⟩)]
      dsimp only
      rw [if_neg more, read, none_mark]
      rfl

end Bodies

/-- The body is the one that the header lines announce. Where they announce none, it may
last as long as the connection. -/
def Body.Announced (framing : Framing) : Body → Prop
  | .none => framing.flags.chunked = false ∧ (framing.length = 0 ∨ framing.length = ULLONG_MAX)
  | .sized bytes =>
      framing.flags.chunked = false ∧ bytes ≠ [] ∧
        (framing.length = ULLONG_MAX ∨ framing.length.toNat = bytes.length)
  | .chunked _ _ => framing.flags.chunked = true

/-- What answers such a request has no body, whatever its header lines say. -/
def Answer.silent (method : HttpMethod) (a : Answer) : Prop :=
  method = .head ∨ a.bodiless ∨ method = .connect ∧ a.line.code.val / 100 = 2

/-- A response as it may answer a request. -/
structure Answer.WellFormed (method : HttpMethod) (a : Answer) : Prop where
  silent : a.silent method → a.content.body = .none
  announced : ¬ a.silent method → a.content.body.Announced a.content.framing

/-- The end of the response can be told from it alone, and if it is not the final one it
neither ends the connection nor asks for another protocol. -/
def Answer.Telling (a : Answer) : Prop :=
  if a.content.framing.flags.upgrade then a.final = true ∧ a.content.body = .none
  else a.Framed ∧ (a.final = true ∨ a.keeps = true)

/-- The header lines and the lines behind the body fit where the parser counts them. -/
structure Answer.Small (a : Answer) : Prop where
  head : a.head.length ≤ HTTP_MAX_HEADER_SIZE
  carried : a.content.body.carried ≤ HTTP_MAX_HEADER_SIZE

section Answers

variable {a : Answer} {p : Parser}

theorem fields_incomplete (fields : List Field) (later : List HttpCallback) :
    completions (.messageBegin :: fields.flatMap Field.calls ++ later) = completions later := by
  have fields' : completions (fields.flatMap Field.calls) = 0 := completions_data (field_plain fields)
  rw [List.cons_append, ← List.singleton_append, completions_append, completions_append, fields',
    Nat.zero_add]
  exact Nat.zero_add _

theorem heads_incomplete (fields : List Field) (method : HttpMethod) (major minor code : Nat)
    (later : List HttpCallback) :
    completions (.messageBegin :: fields.flatMap Field.calls ++
      .headersComplete method major minor code :: later) = completions later := by
  rw [fields_incomplete, ← List.singleton_append, completions_append]
  exact Nat.zero_add _

/-- An interim response has no body. -/
theorem interim_carried {method : HttpMethod} (formed : a.WellFormed method)
    (interim : a.final = false) : a.content.body = .none := by
  apply formed.silent
  right
  left
  left
  by_contra final
  rw [Answer.final, decide_eq_true final] at interim
  cases interim

/-- An interim response that is told leaves the parser waiting for the next. -/
theorem interim_scans {method : HttpMethod} (formed : a.WellFormed method) (small : a.Small)
    (telling : a.Telling) (interim : a.final = false) (awaits : AwaitsResponse 0 true p) :
    ∃ p', AwaitsResponse 0 true p' ∧
      Scans serverParserSettings p noMarks a.bytes a.calls p' noMarks := by
  unfold Answer.Telling at telling
  by_cases upgrade : a.content.framing.flags.upgrade = true
  · rw [if_pos upgrade, interim] at telling
    exact absurd telling.1 Bool.false_ne_true
  · rw [if_neg upgrade, interim] at telling
    have kept := telling.2.resolve_left Bool.false_ne_true
    obtain ⟨p', behind, scans⟩ := answer_scans a telling.1 (Bool.eq_false_iff.mpr upgrade)
      ((Nat.zero_add _).symm ▸ small.head) small.carried awaits
    have awaits' := behind.keeps kept
    rw [interim_carried formed interim, interim] at awaits'
    exact ⟨p', awaits', scans⟩

/-- Where another protocol is asked for the parser returns behind the header lines. -/
theorem upgrade_leaves (upgrade : a.content.framing.flags.upgrade = true) (small : a.Small)
    {owed : Bool} (awaits : AwaitsResponse 0 owed p) :
    ∃ q, q.httpErrno = .ok ∧ q.statusCode = a.line.code.val ∧ q.needReport = owed ∧
      ∀ rest, executeFrom serverParserSettings p noMarks 0 (a.lines ++ LF :: rest) =
        some ⟨messageComplete serverParserSettings q,
          .messageBegin :: a.content.fields.flatMap Field.calls ++
            [.headersComplete .delete a.line.version.major a.line.version.minor a.line.code.val,
              .messageComplete a.line.code.val], a.lines.length + 1⟩ := by
  obtain ⟨h, i, k, more, lines⟩ := lines_scans a small.head awaits
  obtain ⟨trailing, -, -⟩ := notes_flags a.content.fields ⟨.none, ULLONG_MAX⟩
  let last : Parser :=
    { { p.told a.line with headerState := h, index := i }.reading a.content.framing
      .headersAlmostDone with nread := k + 1 }
  have method : last.method = .delete := awaits.method
  have turned := almostDone_turn serverParserSettings last (fun _ => rfl) rfl trailing
    (by rw [method]; decide)
  have call : last.headersCall =
      .headersComplete .delete a.line.version.major a.line.version.minor a.line.code.val := by
    rw [Parser.headersCall, method]
    rfl
  refine ⟨{ last with state := .headersDone, upgrade := true, nread := 0 }, awaits.errno, rfl,
    awaits.owed, ?_⟩
  intro rest
  have counts : ({ last with nread := k } : Parser).counted = last := if_pos rfl
  have fits : ¬ ({ last with nread := k } : Parser).counted.overflows := by
    rw [counts]
    intro full
    exact Nat.not_lt.mpr more full.2
  have leaves : headersDone serverParserSettings
      { last with state := .headersDone, upgrade := last.flags.upgrade } noMarks LF =
        .leaves (messageComplete serverParserSettings
          { last with state := .headersDone, upgrade := true, nread := 0 })
          [.messageComplete a.line.code.val] := by
    rw [show last.flags.upgrade = true from upgrade]
    rfl
  have behind := executeFrom_byte serverParserSettings { last with nread := k } noMarks LF rest fits
  rw [counts, turned, leaves, call] at behind
  have whole := lines (LF :: rest)
  rw [show executeFrom serverParserSettings _ noMarks 0 (LF :: rest) = _ from behind] at whole
  rw [whole]
  show some (Parsed.after _ _ ⟨_, _, 1⟩) = _
  rw [Parsed.after, Nat.add_comm]
  rfl

/-- A final response that is told leaves the parser as new, if a report is owed. -/
theorem final_whole (small : a.Small) (telling : a.Telling) (final : a.final = true)
    (awaits : AwaitsResponse 0 true p) :
    Whole serverParserSettings p a.bytes a.calls (httpParserInit .response) := by
  unfold Answer.Telling at telling
  by_cases upgrade : a.content.framing.flags.upgrade = true
  · rw [if_pos upgrade] at telling
    obtain ⟨q, -, status, owed, leaves⟩ := upgrade_leaves upgrade small awaits
    have here := leaves []
    have code : a.line.code.val / 100 ≠ 1 := by
      simpa only [Answer.final, decide_eq_true_eq] using final
    have complete : messageComplete serverParserSettings q = httpParserInit .response := by
      apply if_pos
      exact ⟨status.symm ▸ code, owed⟩
    have bytes : a.bytes = a.lines ++ [LF] := by
      rw [answer_bytes, telling.2]
      exact List.append_nil _
    have calls : a.calls = .messageBegin :: a.content.fields.flatMap Field.calls ++
        [.headersComplete .delete a.line.version.major a.line.version.minor a.line.code.val,
          .messageComplete a.line.code.val] := by
      rw [Answer.calls, telling.2]
      rfl
    rw [Whole, bytes, here, complete, calls, List.length_append]
    rfl
  · rw [if_neg upgrade] at telling
    obtain ⟨p', behind, scans⟩ := answer_scans a telling.1 (Bool.eq_false_iff.mpr upgrade)
      ((Nat.zero_add _).symm ▸ small.head) small.carried awaits
    rw [behind.fresh final rfl] at scans
    exact scans.whole

/-- The response is not complete before its last byte. -/
def Answer.Pends (a : Answer) (p : Parser) : Prop :=
  ∃ front last calls q, a.bytes = front ++ [last] ∧ Whole serverParserSettings p front calls q ∧
    q.httpErrno = .ok ∧ completions calls = 0

section Pending

variable (small : a.Small) (awaits : AwaitsResponse 0 true p)
include small awaits

theorem none_pends (none : a.content.body = .none) : a.Pends p := by
  obtain ⟨h, i, k, -, scans⟩ := lines_scans a small.head awaits
  refine ⟨a.lines, LF, _, _, ?_, scans.whole, awaits.errno, ?_⟩
  · rw [answer_bytes, none]
    exact List.append_nil _
  · have quiet := fields_incomplete a.content.fields []
    rw [List.append_nil] at quiet
    exact quiet

variable (current : a.content.framing.flags.upgrade = false) (framed : a.Framed)
include current framed

theorem sized_pends {text : Bytes} (body : a.content.body = .sized text) : a.Pends p := by
  obtain ⟨q, headed, heads⟩ := heads_scans a small.head awaits current
  unfold Answer.Framed at framed
  rw [body] at framed
  obtain ⟨identity, filled, length, small'⟩ := framed
  obtain ⟨ch, rest, rfl⟩ := List.exists_cons_of_ne_nil filled
  obtain ⟨some', known, -⟩ := toRead_whole q ch rest [] (headed.length.trans length) small'
  have done := headersDone_sized serverParserSettings q headed.plain headed.upgrade
    (headed.flags ▸ identity) some' known
  have size : q.contentLength.toNat = (ch :: rest).length := by
    have max : ULLONG_MAX.toNat = 2 ^ 64 - 1 := rfl
    rw [headed.length, length]
    exact UInt64.toNat_ofNat_of_lt' (by show _ < 2 ^ 64; omega)
  obtain ⟨p', calls, read, ok, data⟩ := identity_whole serverParserSettings
    { q with nread := 0, state := .bodyIdentity } rfl (ch :: rest).dropLast
    (by
      show _ < q.contentLength.toNat
      rw [size, List.length_dropLast, List.length_cons]
      omega)
    known
  refine ⟨a.lines ++ [LF] ++ (ch :: rest).dropLast, (ch :: rest).getLast filled, _, p', ?_,
    (heads _ _ done).before read, ok.trans headed.ok, ?_⟩
  · rw [answer_bytes, body, List.append_assoc _ _ [_], List.dropLast_concat_getLast]
    rfl
  · rw [completions_append, heads_incomplete, completions_data data]
    rfl

theorem chunked_pends {chunks : List Chunk} {trailers : Trailers}
    (body : a.content.body = .chunked chunks trailers) : a.Pends p := by
  obtain ⟨q, headed, heads⟩ := heads_scans a small.head awaits current
  unfold Answer.Framed at framed
  rw [body] at framed
  have chunked : q.flags.chunked = true := headed.flags.symm ▸ framed
  have carried := small.carried
  rw [body] at carried
  have room : (trailers.fields.flatMap Field.bytes).length + 1 ≤ HTTP_MAX_HEADER_SIZE := by
    have length : trailers.lines.length = (trailers.fields.flatMap Field.bytes).length + 2 :=
      List.length_append
    have room' : trailers.lines.length ≤ HTTP_MAX_HEADER_SIZE := carried
    omega
  have done := headersDone_chunked serverParserSettings q headed.plain headed.upgrade chunked
  obtain ⟨h, i, read⟩ := chunked_front serverParserSettings q chunks trailers chunked room
  refine ⟨_, LF, _, _, ?_, ((heads _ _ done).append read).whole, headed.ok, ?_⟩
  · rw [answer_bytes, body, Body.bytes, Trailers.lines, crlf]
    simp only [List.append_assoc, List.cons_append, List.nil_append]
  · rw [completions_append, heads_incomplete, completions_data (body_plain _)]
    rfl

end Pending

theorem telling_pends (small : a.Small) (telling : a.Telling) (awaits : AwaitsResponse 0 true p) :
    a.Pends p := by
  unfold Answer.Telling at telling
  by_cases upgrade : a.content.framing.flags.upgrade = true
  · rw [if_pos upgrade] at telling
    exact none_pends small awaits telling.2
  · rw [if_neg upgrade] at telling
    have current := Bool.eq_false_iff.mpr upgrade
    cases body : a.content.body with
    | none => exact none_pends small awaits body
    | sized text => exact sized_pends small awaits current telling.1 body
    | chunked chunks trailers => exact chunked_pends small awaits current telling.1 body

end Answers

/-- This text brings the first `k` of the responses whole, and of the next not all. -/
inductive Brings : List Answer → Bytes → Nat → Prop
  | done : Brings [] [] 0
  | part (a : Answer) (rest : List Answer) (part : Bytes) :
      part <+: a.bytes → part ≠ a.bytes → Brings (a :: rest) part 0
  | whole (a : Answer) {rest : List Answer} {text : Bytes} {k : Nat} :
      Brings rest text k → Brings (a :: rest) (a.bytes ++ text) (k + 1)

theorem Brings.inside {answers : List Answer} {text : Bytes} {k : Nat} (brings : Brings answers text k) :
    text <+: answers.flatMap Answer.bytes := by
  induction brings with
  | done => exact List.prefix_rfl
  | part a rest part inside _ => exact inside.trans (List.prefix_append _ _)
  | whole a _ ih =>
      rw [List.flatMap_cons]
      exact (List.prefix_append_right_inj _).mpr ih

section Sequences

variable {method : HttpMethod}

theorem awaits_plain {m : Nat} {owed : Bool} {p : Parser} (awaits : AwaitsResponse m owed p) :
    p.state.marked = none := by
  rw [awaits.state]
  rfl

theorem Whole.ready {settings : Settings} (good : settings.Sound) {p p' : Parser} {text : Bytes}
    {calls : List HttpCallback} (whole : Whole settings p text calls p') (ready : p.Ready)
    (ok : p.httpErrno = .ok) (plain : p.state.marked = none) : p'.Ready := by
  by_cases filled : text = []
  · subst filled
    cases whole
    exact ready
  · have here := whole.execute ok plain filled
    obtain ⟨done, run, ready', -, -⟩ := httpParserExecute_sound good ready text filled
    cases here.symm.trans run
    exact ready'

/-- Responses that are told, up to the final one. -/
theorem answers_whole (interim : List Answer) {final : Answer} (last : final.final = true) :
    ∀ p : Parser, AwaitsResponse 0 true p →
      (∀ a ∈ interim, a.final = false) →
      (∀ a ∈ interim ++ [final], a.WellFormed method ∧ a.Small ∧ a.Telling) →
      Whole serverParserSettings p ((interim ++ [final]).flatMap Answer.bytes)
        ((interim ++ [final]).flatMap Answer.calls) (httpParserInit .response) := by
  induction interim with
  | nil =>
      intro p awaits _ told
      obtain ⟨-, small, telling⟩ := told final (List.mem_singleton_self final)
      rw [List.nil_append, List.flatMap_singleton, List.flatMap_singleton]
      exact final_whole small telling last awaits
  | cons a interim ih =>
      intro p awaits passing told
      rw [List.forall_mem_cons] at passing
      rw [List.cons_append, List.forall_mem_cons] at told
      obtain ⟨⟨formed, small, telling⟩, told⟩ := told
      obtain ⟨p', awaits', first⟩ := interim_scans formed small telling passing.1 awaits
      rw [List.cons_append, List.flatMap_cons, List.flatMap_cons]
      exact first.before (ih p' awaits' passing.2 told)

/-- A text completes the responses that it brings whole. -/
theorem brings_count {answers : List Answer} {text : Bytes} {k : Nat} (brings : Brings answers text k) :
    ∀ p : Parser, AwaitsResponse 0 true p → p.Ready → (∀ a ∈ answers.dropLast, a.final = false) →
      (∀ a ∈ answers, a.WellFormed method ∧ a.Small ∧ a.Telling) →
      completions (Transducer.emits (byteStep serverParserSettings) p text) = k := by
  have good := serverParserSettings_sound
  induction brings with
  | done => exact fun p _ _ _ _ => rfl
  | part a rest part inside proper =>
      intro p awaits ready _ told
      obtain ⟨-, small, telling⟩ := told a List.mem_cons_self
      obtain ⟨front, last, calls, q, bytes, whole, ok, quiet⟩ := telling_pends small telling awaits
      rw [bytes] at inside proper
      have before : part <+: front := by
        rcases List.prefix_concat_iff.mp inside with same | before
        · exact absurd same proper
        · exact before
      obtain ⟨back, rfl⟩ := before
      obtain ⟨-, -, count⟩ := whole.bytes good ready awaits.errno ok (awaits_plain awaits)
      rw [Transducer.emits_append, completions_append, quiet] at count
      omega
  | @whole a rest text k later ih =>
      intro p awaits ready passing told
      rw [List.forall_mem_cons] at told
      obtain ⟨⟨formed, small, telling⟩, told⟩ := told
      have one := completions_answer a
      have plain := awaits_plain awaits
      cases rest with
      | nil =>
          cases later
          rw [List.append_nil]
          by_cases last : a.final = true
          · have whole := final_whole small telling last awaits
            rw [(whole.bytes good ready awaits.errno rfl plain).2.2, one]
          · obtain ⟨p', awaits', scans⟩ :=
              interim_scans formed small telling (Bool.eq_false_iff.mpr last) awaits
            rw [(scans.whole.bytes good ready awaits.errno awaits'.errno plain).2.2, one]
      | cons b rest =>
          rw [List.dropLast_cons_cons, List.forall_mem_cons] at passing
          obtain ⟨p', awaits', scans⟩ := interim_scans formed small telling passing.1 awaits
          obtain ⟨-, after, count⟩ :=
            scans.whole.bytes good ready awaits.errno awaits'.errno plain
          have ready' := scans.whole.ready good ready awaits.errno plain
          rw [Transducer.emits_append, completions_append, count, after, one,
            ih p' awaits' ready' passing.2 told, Nat.add_comm]

/-- In whatever segments the text comes. -/
theorem brings_run {interim : List Answer} {final : Answer} (last : final.final = true)
    (passing : ∀ a ∈ interim, a.final = false)
    (told : ∀ a ∈ interim ++ [final], a.WellFormed method ∧ a.Small ∧ a.Telling) {text : Bytes}
    {k : Nat} (brings : Brings (interim ++ [final]) text k) (segments : List Bytes)
    (full : ∀ data ∈ segments, data ≠ []) (stream : segments.flatten = text) :
    ∃ p calls, httpRun serverParserSettings (awaiting true) segments = some (p, calls) ∧
      completions calls = k := by
  have whole := answers_whole interim last _ (awaiting_awaits true) passing told
  obtain ⟨p, calls, run, count⟩ := whole.part serverParserSettings_sound (awaiting_ready true) rfl
    rfl rfl brings.inside segments full stream
  refine ⟨p, calls, run, count.trans ?_⟩
  exact brings_count brings _ (awaiting_awaits true) (awaiting_ready true)
    (by rw [List.dropLast_concat]; exact passing) told

theorem answer_filled (a : Answer) : a.bytes ≠ [] := List.cons_ne_nil 72 _

theorem brings_nil (answers : List Answer) : Brings answers [] 0 := by
  cases answers with
  | nil => exact .done
  | cons a rest =>
      exact .part a rest [] List.nil_prefix (answer_filled a).symm

theorem announced_filled {framing : Framing} {body : Body} (announced : body.Announced framing)
    (some' : body ≠ .none) : body.bytes ≠ [] := by
  cases body with
  | none => exact absurd rfl some'
  | sized bytes => exact announced.2.1
  | chunked chunks trailers =>
      apply List.append_ne_nil_of_right_ne_nil
      apply List.append_ne_nil_of_right_ne_nil
      exact List.append_ne_nil_of_right_ne_nil _ (List.cons_ne_nil CR [LF])

theorem Answer.WellFormed.spoken {a : Answer} (formed : a.WellFormed method)
    (some' : a.content.body ≠ .none) : ¬ a.silent method :=
  fun silent => some' (formed.silent silent)

section Astray

variable {a : Answer} (formed : a.WellFormed method) (small : a.Small) {p : Parser}
  (awaits : AwaitsResponse 0 true p)
include formed small awaits

/-- Where a response asks for another protocol, its body or what follows it is not read. -/
theorem upgrade_astray (upgrade : a.content.framing.flags.upgrade = true)
    (untold : ¬ (a.final = true ∧ a.content.body = .none)) (rest : List Answer)
    (more : a.final = false → rest ≠ []) :
    ∃ text k, Brings (a :: rest) text k ∧ text ≠ [] ∧ ∃ done,
      executeFrom serverParserSettings p noMarks 0 text = some done ∧ completions done.calls ≠ k := by
  obtain ⟨q, -, -, -, leaves⟩ := upgrade_leaves upgrade small awaits
  have one : completions (.messageBegin :: a.content.fields.flatMap Field.calls ++
      [.headersComplete .delete a.line.version.major a.line.version.minor a.line.code.val,
        .messageComplete a.line.code.val]) = 1 := heads_incomplete ..
  by_cases last : a.final = true
  · have body : a.content.body ≠ .none := fun none => untold ⟨last, none⟩
    have filled := announced_filled (formed.announced (formed.spoken body)) body
    refine ⟨a.lines ++ [LF], 0, .part a rest _ ?_ ?_, ?_, _, leaves [], ?_⟩
    · rw [answer_bytes]
      exact List.prefix_append _ _
    · rw [answer_bytes]
      exact fun same => filled (List.append_right_eq_self.mp same.symm)
    · exact List.append_ne_nil_of_right_ne_nil _ (List.cons_ne_nil LF [])
    · rw [one]
      decide
  · have interim := Bool.eq_false_iff.mpr last
    obtain ⟨b, rest, rfl⟩ := List.exists_cons_of_ne_nil (more interim)
    have bytes : a.bytes = a.lines ++ [LF] := by
      rw [answer_bytes, interim_carried formed interim]
      exact List.append_nil _
    have here := leaves (b.bytes ++ [])
    rw [← List.singleton_append, ← List.append_assoc, ← bytes] at here
    refine ⟨_, 2, .whole a (.whole b (brings_nil rest)), ?_, _, here, ?_⟩
    · exact List.append_ne_nil_of_left_ne_nil (answer_filled a) _
    · rw [one]
      decide

/-- Where the lines do not tell the body there is, the response is not complete. -/
theorem unframed_astray (current : a.content.framing.flags.upgrade = false) (unframed : ¬ a.Framed) :
    ∃ p' calls, Whole serverParserSettings p a.bytes calls p' ∧ completions calls = 0 := by
  obtain ⟨q, headed, heads⟩ := heads_scans a small.head awaits current
  unfold Answer.Framed at unframed
  rw [answer_bytes]
  cases body : a.content.body with
  | none =>
      rw [body] at unframed
      obtain ⟨s, done, -⟩ := headersDone_expects serverParserSettings headed unframed
      refine ⟨_, _, (heads _ _ done).before (show Whole serverParserSettings _ [] [] _ from rfl), ?_⟩
      rw [completions_append, heads_incomplete]
      rfl
  | sized text =>
      rw [body] at unframed
      have spoken := formed.spoken (by rw [body]; exact nofun)
      have announced := formed.announced spoken
      rw [body] at announced
      obtain ⟨identity, filled, length⟩ := announced
      have absent : a.content.framing.length = ULLONG_MAX := by
        by_contra known
        have size := length.resolve_left known
        have max : ULLONG_MAX.toNat = 2 ^ 64 - 1 := rfl
        have word : a.content.framing.length.toNat < 2 ^ 64 := UInt64.toNat_lt _
        have apart : a.content.framing.length.toNat ≠ ULLONG_MAX.toNat :=
          fun same => known (UInt64.toNat_inj.mp same)
        refine unframed ⟨identity, filled, ?_, by omega⟩
        rw [← size]
        exact (UInt64.ofNat_toNat).symm
      obtain ⟨s, done, eof⟩ := headersDone_expects serverParserSettings headed (by
        rintro ⟨-, zero | ⟨-, without⟩⟩
        · rw [absent] at zero
          exact absurd zero (by decide)
        · exact spoken (Or.inr (Or.inl without)))
      obtain ⟨calls, read, data⟩ := eof_whole serverParserSettings
        { q with nread := 0, state := s } (eof identity absent) text
      refine ⟨_, _, (heads _ _ done).before read, ?_⟩
      rw [completions_append, heads_incomplete, completions_data data]
      rfl
  | chunked chunks trailers =>
      rw [body] at unframed
      have spoken := formed.spoken (by rw [body]; exact nofun)
      have announced := formed.announced spoken
      rw [body] at announced
      exact absurd announced unframed

/-- Behind a response that ends the connection nothing is read. -/
theorem dead_astray (current : a.content.framing.flags.upgrade = false) (framed : a.Framed)
    (interim : a.final = false) (ends : a.keeps = false) (b : Answer) :
    ∃ done, executeFrom serverParserSettings p noMarks 0 (a.bytes ++ (b.bytes ++ [])) = some done ∧
      completions done.calls = 1 := by
  obtain ⟨p', behind, scans⟩ := answer_scans a framed current
    ((Nat.zero_add _).symm ▸ small.head) small.carried awaits
  obtain ⟨state, nread⟩ := behind.dead (by rw [interim]; rfl) ends
  rw [interim_carried formed interim] at nread
  have counts : p'.counted = { p' with state := .dead, nread := 1 } := by
    rw [Parser.counted, if_pos (by rw [state]; rfl), nread, ← state]
    rfl
  have fits : ¬ p'.counted.overflows := by
    rw [counts]
    intro full
    have beyond : 1 > HTTP_MAX_HEADER_SIZE := full.2
    exact absurd beyond (by decide)
  have closed : turn serverParserSettings p'.counted noMarks 72 [] =
      some (.error { p' with state := .dead, nread := 1 } .closedConnection) := by
    rw [counts]
    rfl
  obtain ⟨rest, bytes⟩ : ∃ rest, b.bytes ++ [] = 72 :: rest := ⟨_, rfl⟩
  have here := scans (72 :: rest)
  rw [executeFrom_byte serverParserSettings p' noMarks 72 rest fits, closed] at here
  rw [bytes, here]
  refine ⟨_, rfl, ?_⟩
  show completions (a.calls ++ []) = 1
  rw [List.append_nil, completions_answer]

end Astray

/-- A response that is not told leads the parser astray, in one segment with what follows
it or without the end of it. -/
theorem answer_astray {a : Answer} (formed : a.WellFormed method) (small : a.Small)
    (untold : ¬ a.Telling) (rest : List Answer) (more : a.final = false → rest ≠ []) {p : Parser}
    (awaits : AwaitsResponse 0 true p) :
    ∃ text k, Brings (a :: rest) text k ∧ text ≠ [] ∧ ∃ done,
      executeFrom serverParserSettings p noMarks 0 text = some done ∧ completions done.calls ≠ k := by
  unfold Answer.Telling at untold
  by_cases upgrade : a.content.framing.flags.upgrade = true
  · rw [if_pos upgrade] at untold
    exact upgrade_astray formed small awaits upgrade untold rest more
  · rw [if_neg upgrade] at untold
    have current := Bool.eq_false_iff.mpr upgrade
    by_cases framed : a.Framed
    · obtain ⟨last, ends⟩ := not_or.mp fun goes => untold ⟨framed, goes⟩
      have interim := Bool.eq_false_iff.mpr last
      obtain ⟨b, rest, rfl⟩ := List.exists_cons_of_ne_nil (more interim)
      obtain ⟨done, here, one⟩ := dead_astray formed small awaits current framed interim
        (Bool.eq_false_iff.mpr ends) b
      refine ⟨_, 2, .whole a (.whole b (brings_nil rest)), ?_, done, here, ?_⟩
      · exact List.append_ne_nil_of_left_ne_nil (answer_filled a) _
      · rw [one]
        decide
    · obtain ⟨p', calls, whole, none⟩ := unframed_astray formed small awaits current framed
      refine ⟨_, 1, .whole a (brings_nil rest), ?_, ⟨p', calls, a.bytes.length⟩, ?_, ?_⟩
      · exact List.append_ne_nil_of_left_ne_nil (answer_filled a) _
      · rw [List.append_nil]
        exact whole
      · rw [none]
        decide

/-- So do responses of which not all are told. -/
theorem answers_astray (interim : List Answer) {final : Answer} (last : final.final = true) :
    ∀ p : Parser, AwaitsResponse 0 true p → (∀ a ∈ interim, a.final = false) →
      (∀ a ∈ interim ++ [final], a.WellFormed method ∧ a.Small) →
      (¬ ∀ a ∈ interim ++ [final], a.Telling) →
      ∃ text k, Brings (interim ++ [final]) text k ∧ text ≠ [] ∧ ∃ done,
        executeFrom serverParserSettings p noMarks 0 text = some done ∧ completions done.calls ≠ k := by
  induction interim with
  | nil =>
      intro p awaits _ sound untold
      obtain ⟨formed, small⟩ := sound final (List.mem_singleton_self final)
      refine answer_astray formed small ?_ [] ?_ awaits
      · exact fun telling => untold (List.forall_mem_singleton.mpr telling)
      · intro interim
        exact absurd (interim.symm.trans last) Bool.false_ne_true
  | cons a interim ih =>
      intro p awaits passing sound untold
      rw [List.forall_mem_cons] at passing
      rw [List.cons_append, List.forall_mem_cons] at sound untold
      obtain ⟨⟨formed, small⟩, sound⟩ := sound
      by_cases telling : a.Telling
      · obtain ⟨p', awaits', first⟩ := interim_scans formed small telling passing.1 awaits
        obtain ⟨text, k, brings, -, done, here, apart⟩ :=
          ih p' awaits' passing.2 sound fun others => untold ⟨telling, others⟩
        have whole := first text
        rw [here] at whole
        refine ⟨_, _, .whole a brings, ?_, _, whole, ?_⟩
        · exact List.append_ne_nil_of_left_ne_nil (answer_filled a) _
        · show completions (a.calls ++ done.calls) ≠ k + 1
          rw [completions_append, completions_answer]
          omega
      · refine answer_astray formed small telling (interim ++ [final]) ?_ awaits
        exact fun _ => List.append_ne_nil_of_right_ne_nil interim (List.cons_ne_nil final [])

end Sequences

end Bscope.Http
