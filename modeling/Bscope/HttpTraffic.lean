import Bscope.HttpMessages

set_option autoImplicit false

/- What the parsers of a session make of requests and responses, in whatever segments these
come. -/
namespace Bscope.Http

theorem Body.Framed.weaken {here there : Prop} (weaker : here → there) {framing : Framing} {body : Body}
    (framed : body.Framed here framing) : body.Framed there framing := by
  cases body with
  | none =>
      obtain ⟨identity, zero | ⟨top, bodiless⟩⟩ := framed
      · exact ⟨identity, Or.inl zero⟩
      · exact ⟨identity, Or.inr ⟨top, weaker bodiless⟩⟩
  | sized bytes => exact framed
  | chunked chunks trailers => exact framed

/-- The first of several segments. -/
theorem httpRun_cons {settings : Settings} {p p' : Parser} {data : Bytes} {rest : List Bytes}
    {calls : List HttpCallback} (run : httpRun settings p (data :: rest) = some (p', calls)) :
    ∃ done later, httpParserExecute settings p data = some done ∧
      httpRun settings done.parser rest = some (p', later) ∧ calls = done.calls ++ later := by
  rw [httpRun] at run
  obtain ⟨done, here, run⟩ := Option.bind_eq_some_iff.mp run
  obtain ⟨⟨last, later⟩, there, run⟩ := Option.bind_eq_some_iff.mp run
  cases run
  exact ⟨done, later, here, there, rfl⟩

/-- A request that asks neither for a tunnel nor for another protocol. -/
structure RequestMessage where
  line : RequestLine
  content : Content
  settled : line.method ≠ .connect
  framed : content.body.Framed True content.framing
  current : content.framing.flags.upgrade = false

/-- The bytes that count as header lines. -/
def RequestMessage.head (r : RequestMessage) : Bytes := r.line.bytes ++ r.content.head

def RequestMessage.bytes (r : RequestMessage) : Bytes := r.line.bytes ++ r.content.bytes

def RequestMessage.calls (r : RequestMessage) : List HttpCallback :=
  [.messageBegin, .data .url r.line.url] ++ (r.content.fields.flatMap Field.calls ++
    (.headersComplete r.line.method r.line.version.major r.line.version.minor 0 ::
      r.content.body.calls ++ [.messageComplete 0]))

def RequestMessage.keeps (r : RequestMessage) : Bool :=
  Http.keeps r.line.version.major r.line.version.minor r.content.ending.flags

/-- A response as it is written. -/
structure Answer where
  line : StatusLine
  content : Content

def Answer.head (a : Answer) : Bytes := a.line.bytes ++ a.content.head

def Answer.bytes (a : Answer) : Bytes := a.line.bytes ++ a.content.bytes

def Answer.calls (a : Answer) : List HttpCallback :=
  [.messageBegin] ++ (a.content.fields.flatMap Field.calls ++
    (.headersComplete .delete a.line.version.major a.line.version.minor a.line.code.val ::
      a.content.body.calls ++ [.messageComplete a.line.code.val]))

def Answer.final (a : Answer) : Bool := decide (a.line.code.val / 100 ≠ 1)

def Answer.keeps (a : Answer) : Bool :=
  Http.keeps a.line.version.major a.line.version.minor a.content.ending.flags

/-- Its code says that there is no body, unless the header lines say otherwise. -/
def Answer.bodiless (a : Answer) : Prop :=
  a.line.code.val / 100 = 1 ∨ a.line.code.val = 204 ∨ a.line.code.val = 304

/-- Its lines tell where it ends. -/
def Answer.Framed (a : Answer) : Prop := a.content.body.Framed a.bodiless a.content.framing

/-- A response that ends before the stream does. -/
structure ResponseMessage extends Answer where
  framed : toAnswer.Framed
  current : content.framing.flags.upgrade = false

/-- The lines of messages that follow one another, behind `m` bytes that still count: the
header lines of each fit behind the trailers of the one before it, and its own trailers fit. -/
def Fits {α : Type} (head : α → Bytes) (body : α → Body) : Nat → List α → Prop
  | _, [] => True
  | m, x :: rest =>
      m + (head x).length ≤ HTTP_MAX_HEADER_SIZE ∧ (body x).carried ≤ HTTP_MAX_HEADER_SIZE ∧
        Fits head body (body x).carried rest

/-- A parser between two requests. -/
structure AwaitsRequest (m : Nat) (p : Parser) : Prop where
  type : p.type = .request
  state : p.state = .startReq
  errno : p.httpErrno = .ok
  status : p.statusCode = 0
  nread : p.nread ≤ m

/-- A parser between two responses, and whether the session owes a report. -/
structure AwaitsResponse (m : Nat) (owed : Bool) (p : Parser) : Prop where
  type : p.type = .response
  state : p.state = .startRes
  errno : p.httpErrno = .ok
  method : p.method = .delete
  nread : p.nread ≤ m
  owed : p.needReport = owed

/-- A new parser of responses, for a session that owes a report or none. -/
def awaiting (owed : Bool) : Parser := { httpParserInit .response with needReport := owed }

section Messages

variable {m : Nat}

theorem init_awaitsRequest : AwaitsRequest m (httpParserInit .request) :=
  ⟨rfl, rfl, rfl, rfl, Nat.zero_le m⟩

theorem awaiting_ready (owed : Bool) : (awaiting owed).Ready := by
  intro ok
  have sound := httpParserInit_ready .response rfl
  exact ⟨sound.ok, sound.code, sound.fits, sound.held, sound.set⟩

theorem awaiting_awaits (owed : Bool) : AwaitsResponse m owed (awaiting owed) :=
  ⟨rfl, rfl, rfl, rfl, Nat.zero_le m, rfl⟩

theorem request_scans (r : RequestMessage) (room : m + r.head.length ≤ HTTP_MAX_HEADER_SIZE)
    (small : r.content.body.carried ≤ HTTP_MAX_HEADER_SIZE) {p : Parser}
    (awaits : AwaitsRequest m p) :
    ∃ p', p'.httpErrno = .ok ∧ (r.keeps = true → AwaitsRequest r.content.body.carried p') ∧
      Scans clientParserSettings p noMarks r.bytes r.calls p' noMarks := by
  let q : Parser :=
    { p with
      method := r.line.method, index := (httpMethodStr r.line.method).bytes.length + 1
      httpMajor := r.line.version.major, httpMinor := r.line.version.minor }
  have begun : Heads clientParserSettings p noMarks r.line.bytes [.messageBegin, .data .url r.line.url]
      (q.reading ⟨.none, ULLONG_MAX⟩ .headerFieldStart) noMarks := by
    have line := requestLine_heads clientParserSettings p r.line r.settled
    rw [← awaits.state] at line
    exact line
  have room' : p.nread + (r.line.bytes ++ r.content.head).length ≤ HTTP_MAX_HEADER_SIZE :=
    Nat.le_trans (Nat.add_le_add_right awaits.nread _) room
  obtain ⟨q', ended, scans⟩ := message_scans clientParserSettings p (fun _ => rfl) begun r.settled r.content
    (r.framed.weaken fun _ => Or.inl awaits.type) r.current p.nread room' small
  have state := newMessage_keeps q' ended.whole
  rw [ended.version.1, ended.version.2, ended.flags] at state
  refine ⟨messageComplete clientParserSettings q', ended.errno.trans awaits.errno, ?_, ?_⟩
  · intro kept
    have type : q'.type = .request := ended.type.trans awaits.type
    have kept' : Http.keeps q.httpMajor q.httpMinor r.content.ending.flags = true := kept
    rw [kept', if_pos rfl, Parser.startState, if_pos type] at state
    exact ⟨type, state, ended.errno.trans awaits.errno, ended.status.trans awaits.status,
      Nat.le_of_eq ended.nread⟩
  · have calls : [.messageBegin, .data .url r.line.url] ++ (r.content.fields.flatMap Field.calls ++
        (q.headersCall :: r.content.body.calls ++ [.messageComplete q.statusCode])) = r.calls := by
      have status : q.statusCode = 0 := awaits.status
      rw [Parser.headersCall, status]
      rfl
    rw [calls] at scans
    exact scans

/-- The parser behind a response. If this is final and a report is owed, then it is as new. -/
structure Answer.Behind (a : Answer) (owed : Bool) (p : Parser) : Prop where
  ok : p.httpErrno = .ok
  owes : p.needReport = (owed && !a.final)
  fresh : a.final = true → owed = true → p = httpParserInit .response
  keeps : a.keeps = true → AwaitsResponse a.content.body.carried (owed && !a.final) p
  dead : (a.final && owed) = false → a.keeps = false →
    p.state = .dead ∧ p.nread = a.content.body.carried

/-- The parser of the responses behind a status line. -/
def Parser.told (p : Parser) (line : StatusLine) : Parser :=
  { p with
    httpMajor := line.version.major, httpMinor := line.version.minor
    statusCode := line.code.val }

theorem status_heads {owed : Bool} {p : Parser} (awaits : AwaitsResponse m owed p)
    (line : StatusLine) :
    Heads serverParserSettings p noMarks line.bytes [.messageBegin]
      ((p.told line).reading ⟨.none, ULLONG_MAX⟩ .headerFieldStart) noMarks := by
  have begun := statusLine_heads serverParserSettings p line
  rw [← awaits.state] at begun
  exact begun

theorem answer_scans (a : Answer) (framed : a.Framed) (current : a.content.framing.flags.upgrade = false)
    (room : m + a.head.length ≤ HTTP_MAX_HEADER_SIZE)
    (small : a.content.body.carried ≤ HTTP_MAX_HEADER_SIZE) {owed : Bool} {p : Parser}
    (awaits : AwaitsResponse m owed p) :
    ∃ p', a.Behind owed p' ∧ Scans serverParserSettings p noMarks a.bytes a.calls p' noMarks := by
  have room' : p.nread + (a.line.bytes ++ a.content.head).length ≤ HTTP_MAX_HEADER_SIZE :=
    Nat.le_trans (Nat.add_le_add_right awaits.nread _) room
  have method : (p.told a.line).method = .delete := awaits.method
  obtain ⟨q, ended, scans⟩ := message_scans serverParserSettings p (fun _ => rfl)
    (status_heads awaits a.line) (by rw [method]; decide) a.content (framed.weaken Or.inr) current
    p.nread room' small
  have status : q.statusCode = a.line.code.val := ended.status
  have owes : q.needReport = owed := ended.owed.trans awaits.owed
  have state := newMessage_keeps q ended.whole
  rw [ended.version.1, ended.version.2, ended.flags] at state
  have state' : q.newMessage = if a.keeps then q.startState else .dead := state
  have calls : [.messageBegin] ++ (a.content.fields.flatMap Field.calls ++
      ((p.told a.line).headersCall :: a.content.body.calls ++
        [.messageComplete (p.told a.line).statusCode])) = a.calls := by
    rw [Parser.headersCall, method]
    rfl
  rw [calls] at scans
  have complete : messageComplete serverParserSettings q =
      if a.final = true ∧ owed = true then httpParserInit .response
      else { q with state := q.newMessage } := by
    show (if q.statusCode / 100 ≠ 1 ∧ q.needReport = true then _ else _) = _
    rw [status, owes]
    simp only [Answer.final, decide_eq_true_eq]
  by_cases pays : a.final = true ∧ owed = true
  · rw [complete, if_pos pays] at scans
    refine ⟨httpParserInit .response, ⟨rfl, ?_, fun _ _ => rfl, ?_, ?_⟩, scans⟩
    · rw [pays.1, pays.2]
      rfl
    · intro _
      rw [pays.1, pays.2]
      exact awaiting_awaits false
    · intro none
      rw [pays.1, pays.2] at none
      exact absurd none.symm Bool.false_ne_true
  · rw [complete, if_neg pays] at scans
    have still : (owed && !a.final) = owed := by
      cases owed with
      | false => rfl
      | true => simpa using pays
    refine ⟨{ q with state := q.newMessage }, ⟨ended.errno.trans awaits.errno, owes.trans still.symm,
      fun final owed => absurd ⟨final, owed⟩ pays, ?_, ?_⟩, scans⟩
    · intro kept
      have type : q.type = .response := ended.type.trans awaits.type
      rw [kept, if_pos rfl, Parser.startState, type, if_neg (by decide)] at state'
      rw [still]
      exact ⟨type, state', ended.errno.trans awaits.errno, ended.method.trans method,
        Nat.le_of_eq ended.nread, owes⟩
    · intro _ ends
      rw [ends, if_neg Bool.false_ne_true] at state'
      exact ⟨state', ended.nread⟩

end Messages

section Texts

/-- Requests on one connection, of which all but the last keep it. -/
theorem requests_scans (requests : List RequestMessage) : ∀ (m : Nat) (p : Parser),
    AwaitsRequest m p → Fits RequestMessage.head (fun r => r.content.body) m requests →
      (∀ r ∈ requests.dropLast, r.keeps = true) →
      ∃ p', p'.httpErrno = .ok ∧ Scans clientParserSettings p noMarks
        (requests.flatMap RequestMessage.bytes) (requests.flatMap RequestMessage.calls) p' noMarks := by
  induction requests with
  | nil => exact fun m p awaits _ _ => ⟨p, awaits.errno, .nil p noMarks⟩
  | cons r rest ih =>
      intro m p awaits fits kept
      obtain ⟨room, small, fits⟩ := fits
      obtain ⟨p', ok, keeps, first⟩ := request_scans r room small awaits
      cases rest with
      | nil =>
          rw [List.flatMap_singleton, List.flatMap_singleton]
          exact ⟨p', ok, first⟩
      | cons r' rest =>
          rw [List.dropLast_cons_cons, List.forall_mem_cons] at kept
          obtain ⟨p'', ok', later⟩ := ih _ p' (keeps kept.1) fits kept.2
          exact ⟨p'', ok', first.append later⟩

/-- Each response but the last keeps the connection, or pays what is owed. -/
def Continuing : Bool → List ResponseMessage → Prop
  | _, [] => True
  | _, [_] => True
  | owed, r :: r' :: rest =>
      (r.keeps = true ∨ r.final = true ∧ owed = true) ∧
        Continuing (owed && !r.final) (r' :: rest)

/-- Such responses. Behind a final one that pays the parser is as new. -/
theorem responses_scans (responses : List ResponseMessage) : ∀ (m : Nat) (owed : Bool) (p : Parser),
    AwaitsResponse m owed p → Fits (fun r => r.head) (fun r => r.content.body) m responses →
      Continuing owed responses →
      ∃ p', p'.httpErrno = .ok ∧ p'.needReport = (owed && !responses.any (·.final)) ∧
        (∀ front r, responses = front ++ [r] → r.final = true →
          (owed && !front.any (·.final)) = true → p' = httpParserInit .response) ∧
        Scans serverParserSettings p noMarks (responses.flatMap (·.bytes))
          (responses.flatMap (·.calls)) p' noMarks := by
  induction responses with
  | nil =>
      intro m owed p awaits _ _
      refine ⟨p, awaits.errno, awaits.owed.trans (Bool.and_true owed).symm, ?_, .nil p noMarks⟩
      intro front r split
      exact absurd split.symm (List.append_ne_nil_of_right_ne_nil front (List.cons_ne_nil r []))
  | cons r rest ih =>
      intro m owed p awaits fits goes
      obtain ⟨room, small, fits⟩ := fits
      obtain ⟨p', behind, first⟩ := answer_scans r.toAnswer r.framed r.current room small awaits
      cases rest with
      | nil =>
          rw [List.flatMap_singleton, List.flatMap_singleton, List.any_cons, List.any_nil,
            Bool.or_false]
          refine ⟨p', behind.ok, behind.owes, ?_, first⟩
          intro front last split final owed'
          cases front with
          | nil =>
              cases split
              exact behind.fresh final ((Bool.and_true owed).symm.trans owed')
          | cons head front =>
              have none := (List.cons.inj split).2
              exact absurd none.symm (List.append_ne_nil_of_right_ne_nil front (List.cons_ne_nil last []))
      | cons r' rest =>
          have awaits' : AwaitsResponse r.content.body.carried (owed && !r.final) p' := by
            rcases goes.1 with kept | ⟨final, owed'⟩
            · exact behind.keeps kept
            · rw [behind.fresh final owed', final, owed']
              exact awaiting_awaits false
          obtain ⟨p'', ok', owes', pays', later⟩ := ih _ (owed && !r.final) p' awaits' fits goes.2
          refine ⟨p'', ok', ?_, ?_, first.append later⟩
          · have all : (r :: r' :: rest).any (·.final) = (r.final || (r' :: rest).any (·.final)) := rfl
            rw [owes', all, Bool.not_or, ← Bool.and_assoc]
          · intro front last split final owed'
            cases front with
            | nil => cases split
            | cons head front =>
                obtain ⟨rfl, split'⟩ := List.cons.inj split
                rw [List.any_cons, Bool.not_or, ← Bool.and_assoc] at owed'
                exact pays' front last split' final owed'

/-- Requests on one connection, of which all but the last keep it, bring in whatever
segments exactly the callbacks of each, in order. -/
theorem httpRun_requests (requests : List RequestMessage)
    (fits : Fits RequestMessage.head (fun r => r.content.body) 0 requests)
    (kept : ∀ r ∈ requests.dropLast, r.keeps = true) (segments : List Bytes)
    (full : ∀ data ∈ segments, data ≠ [])
    (stream : segments.flatten = requests.flatMap RequestMessage.bytes) :
    ∃ p calls, httpRun clientParserSettings (httpParserInit .request) segments = some (p, calls) ∧
      p.httpErrno = .ok ∧ joined calls = joined (requests.flatMap RequestMessage.calls) := by
  obtain ⟨p, ok, scans⟩ := requests_scans requests 0 _ init_awaitsRequest fits kept
  obtain ⟨calls, run, same⟩ := scans.whole.run clientParserSettings_sound (httpParserInit_ready .request)
    rfl ok rfl segments full stream
  exact ⟨p, calls, run, ok, same⟩

/-- `Host: b`. -/
def hostField : Field where
  name := asc "Host"
  gap := [SP]
  value := asc "b"
  named := by decide
  token := by decide +kernel
  blank := by decide +kernel
  first := by decide +kernel
  plain := by decide +kernel
  length := by decide +kernel

/-- `Content-Length: 2`. -/
def lengthField : Field where
  name := asc "Content-Length"
  gap := [SP]
  value := asc "2"
  named := by decide
  token := by decide +kernel
  blank := by decide +kernel
  first := by decide +kernel
  plain := by decide +kernel
  length := by decide +kernel

/-- `Transfer-Encoding: chunked`. -/
def chunkedField : Field where
  name := asc "Transfer-Encoding"
  gap := [SP]
  value := asc "chunked"
  named := by decide
  token := by decide +kernel
  blank := by decide +kernel
  first := by decide +kernel
  plain := by decide +kernel
  length := by decide +kernel

/-- A request without a body. -/
def plainRequest : RequestMessage where
  line := ⟨.get, asc "/a", ⟨1, 1⟩, by decide, by decide +kernel, by decide⟩
  content := ⟨[hostField], .none⟩
  settled := by decide
  framed := ⟨by decide +kernel, Or.inr ⟨by decide +kernel, trivial⟩⟩
  current := by decide +kernel

/-- One with two bytes. -/
def sizedRequest : RequestMessage where
  line := ⟨.post, asc "/", ⟨1, 1⟩, by decide, by decide +kernel, by decide⟩
  content := ⟨[hostField, lengthField], .sized (asc "hi")⟩
  settled := by decide
  framed := ⟨by decide +kernel, by decide, by decide +kernel, by decide +kernel⟩
  current := by decide +kernel

/-- Both, cut within the first name and within the second body. -/
theorem httpRun_requests_cut : ∃ p calls,
    httpRun clientParserSettings (httpParserInit .request)
      [plainRequest.bytes.take 17, plainRequest.bytes.drop 17 ++ sizedRequest.bytes.dropLast, asc "i"] =
        some (p, calls) ∧
      p.httpErrno = .ok ∧ joined calls = joined (plainRequest.calls ++ sizedRequest.calls) := by
  have both := httpRun_requests [plainRequest, sizedRequest]
    ⟨by decide +kernel, by decide, by decide +kernel, by decide, trivial⟩
    (by
      intro r inside
      cases List.mem_singleton.mp inside
      decide +kernel)
    [plainRequest.bytes.take 17, plainRequest.bytes.drop 17 ++ sizedRequest.bytes.dropLast, asc "i"]
    (by decide +kernel) (by decide +kernel)
  exact both

/-- Responses on one connection, each of which but the last keeps it or is the final one for
which a report is owed, bring in whatever segments exactly the callbacks of each, in order.
Behind that final one the parser is as new. -/
theorem httpRun_responses (owed : Bool) (responses : List ResponseMessage)
    (fits : Fits (fun r => r.head) (fun r => r.content.body) 0 responses)
    (goes : Continuing owed responses) (segments : List Bytes)
    (full : ∀ data ∈ segments, data ≠ [])
    (stream : segments.flatten = responses.flatMap (·.bytes)) :
    ∃ p calls, httpRun serverParserSettings (awaiting owed) segments = some (p, calls) ∧
      p.httpErrno = .ok ∧ p.needReport = (owed && !responses.any (·.final)) ∧
      (∀ front r, responses = front ++ [r] → r.final = true →
        (owed && !front.any (·.final)) = true → p = httpParserInit .response) ∧
      joined calls = joined (responses.flatMap (·.calls)) := by
  obtain ⟨p, ok, owes, fresh, scans⟩ :=
    responses_scans responses 0 owed _ (awaiting_awaits owed) fits goes
  obtain ⟨calls, run, same⟩ := scans.whole.run serverParserSettings_sound (awaiting_ready owed)
    rfl ok rfl segments full stream
  exact ⟨p, calls, run, ok, owes, fresh, same⟩

/-- `HTTP/1.1 100`, and no more. -/
def interimResponse : ResponseMessage where
  line := ⟨⟨1, 1⟩, 100, none, by
    intro text none'
    cases none'⟩
  content := ⟨[], .none⟩
  framed := ⟨rfl, Or.inr ⟨rfl, Or.inl rfl⟩⟩
  current := rfl

/-- A final response in one chunk. -/
def chunkedResponse : ResponseMessage where
  line := ⟨⟨1, 1⟩, 200, some (asc "OK"), by decide +kernel⟩
  content := ⟨[chunkedField], .chunked
    [⟨⟨asc "3", some (asc "x"), by decide, by decide +kernel, by decide, by decide +kernel⟩, asc "abc",
      by decide, by decide +kernel, by decide +kernel⟩]
    ⟨⟨asc "0", none, by decide, by decide +kernel, by decide, by decide⟩, [], by decide,
      by decide +kernel⟩⟩
  framed := by
    show ([chunkedField].foldl Framing.note ⟨.none, ULLONG_MAX⟩).flags.chunked = true
    decide +kernel
  current := by decide +kernel

/-- Both, cut within the version of the second and within its chunk. -/
theorem httpRun_responses_cut : ∃ p calls,
    httpRun serverParserSettings (awaiting true)
      [interimResponse.bytes ++ asc "HT", (chunkedResponse.bytes.drop 2).dropLast, [LF]] =
        some (p, calls) ∧
      p = httpParserInit .response ∧
      joined calls = joined (interimResponse.calls ++ chunkedResponse.calls) := by
  obtain ⟨p, calls, run, -, -, fresh, same⟩ := httpRun_responses true [interimResponse, chunkedResponse]
    ⟨by decide +kernel, by decide, by decide +kernel, by decide +kernel, trivial⟩
    ⟨Or.inl (by decide +kernel), trivial⟩
    [interimResponse.bytes ++ asc "HT", (chunkedResponse.bytes.drop 2).dropLast, [LF]]
    (by decide +kernel) (by decide +kernel)
  exact ⟨p, calls, run, fresh [interimResponse] chunkedResponse rfl rfl rfl, same⟩

end Texts

section Plain

/-- A callback that brings no data. -/
def isPlain : HttpCallback → Bool
  | .data _ _ => false
  | _ => true

theorem plain_joined (calls : List HttpCallback) :
    (joined calls).filter isPlain = calls.filter isPlain := by
  apply Joining.filter_join
  all_goals
    intro x y z merged
    obtain ⟨kind, first, second, rfl, rfl, rfl⟩ := mergeCalls_some merged
    rfl

theorem field_plain (fields : List Field) : (fields.flatMap Field.calls).filter isPlain = [] := by
  induction fields with
  | nil => rfl
  | cons f fields ih =>
      rw [List.flatMap_cons, List.filter_append, ih]
      rfl

theorem body_plain (body : Body) : body.calls.filter isPlain = [] := by
  cases body with
  | none => rfl
  | sized bytes => rfl
  | chunked chunks trailers =>
      rw [Body.calls, List.filter_append, field_plain, List.append_nil, List.filter_eq_nil_iff]
      intro call member
      obtain ⟨chunk, -, rfl⟩ := List.mem_map.mp member
      exact Bool.false_ne_true

/-- What it brings before its last callback, but for data. -/
def Answer.opening (a : Answer) : List HttpCallback :=
  [.messageBegin,
    .headersComplete .delete a.line.version.major a.line.version.minor a.line.code.val]

theorem answer_plain (a : Answer) :
    a.calls.filter isPlain = a.opening ++ [.messageComplete a.line.code.val] := by
  rw [Answer.calls, List.filter_append, List.filter_append, field_plain, List.nil_append]
  show HttpCallback.messageBegin :: .headersComplete _ _ _ _ ::
    (a.content.body.calls ++ [HttpCallback.messageComplete _]).filter isPlain = _
  rw [List.filter_append, body_plain]
  rfl

end Plain

end Bscope.Http
