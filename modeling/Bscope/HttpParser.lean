import Bscope.Session
import Mathlib.Logic.Function.Basic

set_option autoImplicit false

/- The HTTP parser, in its strict build. A pointer into the segment and one behind it
are the bytes between them. A failed assertion, or a read behind the end of a word, is
`none`. -/
namespace Bscope.Http

inductive State where
  | dead | startReqOrRes | resOrRespH
  | startRes | resH | resHT | resHTT | resHTTP
  | resFirstHttpMajor | resHttpMajor | resFirstHttpMinor | resHttpMinor
  | resFirstStatusCode | resStatusCode | resStatus | resLineAlmostDone
  | startReq | reqMethod | reqSpacesBeforeUrl
  | reqSchema | reqSchemaSlash | reqSchemaSlashSlash | reqServerStart | reqServer
  | reqServerWithAt | reqPath | reqQueryStringStart | reqQueryString
  | reqFragmentStart | reqFragment
  | reqHttpStart | reqHttpH | reqHttpHT | reqHttpHTT | reqHttpHTTP
  | reqFirstHttpMajor | reqHttpMajor | reqFirstHttpMinor | reqHttpMinor | reqLineAlmostDone
  | headerFieldStart | headerField | headerValueStart | headerValue | headerValueLws
  | headerAlmostDone
  | chunkSizeStart | chunkSize | chunkParameters | chunkSizeAlmostDone
  | headersAlmostDone | headersDone
  | chunkData | chunkDataAlmostDone | chunkDataDone
  | bodyIdentity | bodyIdentityEof | messageDone
deriving DecidableEq

/-- `PARSING_HEADER`: every state up to `s_headers_done`. -/
def State.parsingHeader : State → Bool
  | .chunkData | .chunkDataAlmostDone | .chunkDataDone => false
  | .bodyIdentity | .bodyIdentityEof | .messageDone => false
  | _ => true

inductive HeaderState where
  | general | c | co | con
  | matchingConnection | matchingProxyConnection | matchingContentLength
  | matchingTransferEncoding | matchingUpgrade
  | connection | contentLength | transferEncoding | upgrade
  | matchingTransferEncodingChunked | matchingConnectionKeepAlive | matchingConnectionClose
  | transferEncodingChunked | connectionKeepAlive | connectionClose
deriving DecidableEq

inductive ParserType where
  | request | response | both
deriving DecidableEq

/-- The errors that the parser itself finds, and the one for a callback's answer. -/
inductive HttpErrno where
  | ok | cbHeadersComplete | invalidEofState | headerOverflow | closedConnection
  | invalidVersion | invalidStatus | invalidMethod | invalidUrl | lfExpected
  | invalidHeaderToken | invalidContentLength | invalidChunkSize | invalidConstant | strict
  | unknown
deriving DecidableEq

structure Flags where
  chunked : Bool
  connectionKeepAlive : Bool
  connectionClose : Bool
  trailing : Bool
  upgrade : Bool
  skipbody : Bool
deriving DecidableEq

def Flags.none : Flags := ⟨false, false, false, false, false, false⟩

/-- `needReport` is what a callback finds behind `data`: `need_report` of the session. -/
structure Parser where
  type : ParserType
  flags : Flags
  state : State
  headerState : HeaderState
  index : Nat
  nread : Nat
  contentLength : UInt64
  httpMajor : Nat
  httpMinor : Nat
  statusCode : Nat
  method : HttpMethod
  httpErrno : HttpErrno
  upgrade : Bool
  needReport : Bool
deriving DecidableEq

def ULLONG_MAX : UInt64 := 18446744073709551615

def HTTP_MAX_HEADER_SIZE : Nat := 80 * 1024

inductive DataKind where
  | headerField | headerValue | url | body
deriving DecidableEq

/-- A callback, with what the parser hands it or leaves in its record for it. -/
inductive HttpCallback where
  | messageBegin
  | data (kind : DataKind) (bytes : Bytes)
  | headersComplete (method : HttpMethod) (httpMajor httpMinor statusCode : Nat)
  | messageComplete (statusCode : Nat)
deriving DecidableEq

/-- What the callbacks do to the parser. All of them return 0, but for what
`on_headers_complete` may answer. -/
structure Settings where
  onHeadersComplete : Parser → Nat
  onMessageComplete : Parser → Parser

/-- The marks: of each that is set, the bytes from it up to the pointer. -/
abbrev Marks := DataKind → Option Bytes

def Marks.mark (marks : Marks) (kind : DataKind) : Marks :=
  Function.update marks kind ((marks kind).or (some []))

/-- The pointer goes past a byte. -/
def Marks.advance (marks : Marks) (ch : UInt8) : Marks :=
  fun kind => (marks kind).map (· ++ [ch])

/-- `CALLBACK_DATA` clears the mark. -/
def Marks.clear (marks : Marks) (kind : DataKind) : Marks := Function.update marks kind none

def Marks.calls (marks : Marks) (kind : DataKind) : List HttpCallback :=
  match marks kind with
  | some bytes => [.data kind bytes]
  | none => []

/-- What the code for one byte does: it goes on behind `skip` bytes more, or goes to the
label `error`, or returns, this byte taken. -/
inductive Turn where
  | goes (p : Parser) (marks : Marks) (calls : List HttpCallback) (skip : Nat)
  | fails (p : Parser) (calls : List HttpCallback)
  | leaves (p : Parser) (calls : List HttpCallback)

def Turn.next (p : Parser) (marks : Marks) : Turn := .goes p marks [] 0

def Turn.error (p : Parser) (e : HttpErrno) : Turn := .fails { p with httpErrno := e } []

/-- Callbacks made before the code went on to another state with the same byte. -/
def Turn.behind (calls : List HttpCallback) : Turn → Turn
  | .goes p marks later skip => .goes p marks (calls ++ later) skip
  | .fails p later => .fails p (calls ++ later)
  | .leaves p later => .leaves p (calls ++ later)

/-- The pointer is moved first. -/
def Turn.skipping (n : Nat) : Turn → Turn
  | .goes p marks calls _ => .goes p marks calls n
  | turn => turn

def CR : UInt8 := 13

def LF : UInt8 := 10

def SP : UInt8 := 32

def HT : UInt8 := 9

def lower (c : UInt8) : UInt8 := c ||| 32

def isAlpha (c : UInt8) : Bool := 97 ≤ lower c && lower c ≤ 122

def isNum (c : UInt8) : Bool := 48 ≤ c && c ≤ 57

def isMark (c : UInt8) : Bool := c ∈ asc "-_.!~*'()"

def isUserinfoChar (c : UInt8) : Bool :=
  isAlpha c || isNum c || isMark c || c ∈ asc "%;:&=+$,"

/-- The table of the same name: a token character in lower case, or 0. -/
def tokens (c : UInt8) : UInt8 :=
  if 65 ≤ c ∧ c ≤ 90 then c + 32
  else if 97 ≤ c ∧ c ≤ 122 ∨ 48 ≤ c ∧ c ≤ 57 ∨ c ∈ asc "!#$%&'*+-.^_|~" ∨ c = 96 then c
  else 0

/-- The table has no row behind 127, where it is filled with 0 and not with -1. -/
def unhex (c : UInt8) : Option Nat :=
  if 48 ≤ c ∧ c ≤ 57 then some (c.toNat - 48)
  else if 65 ≤ c ∧ c ≤ 70 then some (c.toNat - 55)
  else if 97 ≤ c ∧ c ≤ 102 then some (c.toNat - 87)
  else if 128 ≤ c then some 0
  else none

def isUrlChar (c : UInt8) : Bool := 33 ≤ c && c ≤ 126 && c ≠ 35 && c ≠ 63

def digit (c : UInt8) : Nat := c.toNat - 48

def httpMessageNeedsEof (p : Parser) : Bool :=
  if p.type = .request then false
  else if p.statusCode / 100 = 1 ∨ p.statusCode = 204 ∨ p.statusCode = 304 ∨ p.flags.skipbody then
    false
  else if p.flags.chunked ∨ p.contentLength ≠ ULLONG_MAX then false
  else true

def httpShouldKeepAlive (p : Parser) : Bool :=
  if p.httpMajor > 0 ∧ p.httpMinor > 0 then
    if p.flags.connectionClose then false else !httpMessageNeedsEof p
  else if !p.flags.connectionKeepAlive then false
  else !httpMessageNeedsEof p

def Parser.startState (p : Parser) : State := if p.type = .request then .startReq else .startRes

/-- `NEW_MESSAGE`. -/
def Parser.newMessage (p : Parser) : State := if httpShouldKeepAlive p then p.startState else .dead

/-- What `http_parser_init` leaves. It is called for sessions that owe no report. -/
def httpParserInit (t : ParserType) : Parser where
  type := t
  flags := .none
  state :=
    match t with
    | .request => .startReq
    | .response => .startRes
    | .both => .startReqOrRes
  headerState := .general
  index := 0
  nread := 0
  contentLength := 0
  httpMajor := 0
  httpMinor := 0
  statusCode := 0
  method := .delete
  httpErrno := .ok
  upgrade := false
  needReport := false

def parseUrlChar (s : State) (ch : UInt8) : State :=
  if ch = SP ∨ ch = CR ∨ ch = LF ∨ ch = HT ∨ ch = 12 then .dead
  else
    match s with
    | .reqSpacesBeforeUrl =>
        if ch = 47 ∨ ch = 42 then .reqPath else if isAlpha ch then .reqSchema else .dead
    | .reqSchema => if isAlpha ch then s else if ch = 58 then .reqSchemaSlash else .dead
    | .reqSchemaSlash => if ch = 47 then .reqSchemaSlashSlash else .dead
    | .reqSchemaSlashSlash => if ch = 47 then .reqServerStart else .dead
    | .reqServerWithAt | .reqServerStart | .reqServer =>
        if s = .reqServerWithAt ∧ ch = 64 then .dead
        else if ch = 47 then .reqPath
        else if ch = 63 then .reqQueryStringStart
        else if ch = 64 then .reqServerWithAt
        else if isUserinfoChar ch ∨ ch = 91 ∨ ch = 93 then .reqServer
        else .dead
    | .reqPath =>
        if isUrlChar ch then s
        else if ch = 63 then .reqQueryStringStart
        else if ch = 35 then .reqFragmentStart
        else .dead
    | .reqQueryStringStart | .reqQueryString =>
        if isUrlChar ch ∨ ch = 63 then .reqQueryString
        else if ch = 35 then .reqFragmentStart
        else .dead
    | .reqFragmentStart =>
        if isUrlChar ch ∨ ch = 63 then .reqFragment else if ch = 35 then s else .dead
    | .reqFragment => if isUrlChar ch ∨ ch = 63 ∨ ch = 35 then s else .dead
    | _ => .dead

/-- `STRICT_CHECK` on the one byte that may come. -/
def strictly (want : UInt8) (next : State) (p : Parser) (marks : Marks) (ch : UInt8) : Turn :=
  if ch ≠ want then .error p .strict else .next { p with state := next } marks

/-- The first digit of a version's major part, from `least` on. -/
def firstMajor (least : UInt8) (next : State) (p : Parser) (marks : Marks) (ch : UInt8) : Turn :=
  if ch < least ∨ ch > 57 then .error p .invalidVersion
  else .next { p with httpMajor := digit ch, state := next } marks

def moreMajor (next : State) (p : Parser) (marks : Marks) (ch : UInt8) : Turn :=
  if ch = 46 then .next { p with state := next } marks
  else if !isNum ch then .error p .invalidVersion
  else
    let p := { p with httpMajor := p.httpMajor * 10 + digit ch }
    if p.httpMajor > 999 then .error p .invalidVersion else .next p marks

def firstMinor (next : State) (p : Parser) (marks : Marks) (ch : UInt8) : Turn :=
  if !isNum ch then .error p .invalidVersion
  else .next { p with httpMinor := digit ch, state := next } marks

/-- The digits behind, up to a byte of `stops`. -/
def moreMinor (stops : UInt8 → Option State) (p : Parser) (marks : Marks) (ch : UInt8) : Turn :=
  match stops ch with
  | some next => .next { p with state := next } marks
  | none =>
      if !isNum ch then .error p .invalidVersion
      else
        let p := { p with httpMinor := p.httpMinor * 10 + digit ch }
        if p.httpMinor > 999 then .error p .invalidVersion else .next p marks

/-- The end of a line, with both bytes or with the second alone. -/
def lineEnd (almost whole : State) (ch : UInt8) : Option State :=
  if ch = CR then some almost else if ch = LF then some whole else none

def startRes (p : Parser) (marks : Marks) (ch : UInt8) : Turn :=
  let p := { p with flags := .none, contentLength := ULLONG_MAX }
  if ch = 72 then .goes { p with state := .resH } marks [.messageBegin] 0
  else if ch = CR ∨ ch = LF then .goes p marks [.messageBegin] 0
  else .error p .invalidConstant

def resFirstStatusCode (p : Parser) (marks : Marks) (ch : UInt8) : Turn :=
  if !isNum ch then if ch = SP then .next p marks else .error p .invalidStatus
  else .next { p with statusCode := digit ch, state := .resStatusCode } marks

def resStatusCode (p : Parser) (marks : Marks) (ch : UInt8) : Turn :=
  if !isNum ch then
    if ch = SP then .next { p with state := .resStatus } marks
    else
      match lineEnd .resLineAlmostDone .headerFieldStart ch with
      | some next => .next { p with state := next } marks
      | none => .error p .invalidStatus
  else
    let p := { p with statusCode := p.statusCode * 10 + digit ch }
    if p.statusCode > 999 then .error p .invalidStatus else .next p marks

/-- The reason of a status is passed over. -/
def resStatus (p : Parser) (marks : Marks) (ch : UInt8) : Turn :=
  match lineEnd .resLineAlmostDone .headerFieldStart ch with
  | some next => .next { p with state := next } marks
  | none => .next p marks

/-- The first method with this letter. -/
def firstMethod (ch : UInt8) : Option HttpMethod :=
  if ch = 67 then some .connect
  else if ch = 68 then some .delete
  else if ch = 71 then some .get
  else if ch = 72 then some .head
  else if ch = 76 then some .lock
  else if ch = 77 then some .mkcol
  else if ch = 78 then some .notify
  else if ch = 79 then some .options
  else if ch = 80 then some .post
  else if ch = 82 then some .report
  else if ch = 83 then some .subscribe
  else if ch = 84 then some .trace
  else if ch = 85 then some .unlock
  else none

def startReq (p : Parser) (marks : Marks) (ch : UInt8) : Turn :=
  if ch = CR ∨ ch = LF then .next p marks
  else
    let p := { p with flags := .none, contentLength := ULLONG_MAX }
    if !isAlpha ch then .error p .invalidMethod
    else
      match firstMethod ch with
      | none => .error { p with method := .delete, index := 1 } .invalidMethod
      | some method =>
          .goes { p with method := method, index := 1, state := .reqMethod } marks [.messageBegin] 0

def startReqOrRes (p : Parser) (marks : Marks) (ch : UInt8) : Turn :=
  if ch = CR ∨ ch = LF then .next p marks
  else
    let p := { p with flags := .none, contentLength := ULLONG_MAX }
    if ch = 72 then .goes { p with state := .resOrRespH } marks [.messageBegin] 0
    else startReq { p with type := .request, state := .startReq } marks ch

def resOrRespH (p : Parser) (marks : Marks) (ch : UInt8) : Turn :=
  if ch = 84 then .next { p with type := .response, state := .resHT } marks
  else if ch ≠ 69 then .error p .invalidConstant
  else .next { p with type := .request, method := .head, index := 2, state := .reqMethod } marks

/-- A letter that the method so far does not have at this place. At the third place any
letter will do. -/
def otherMethod (method : HttpMethod) (index : Nat) (ch : UInt8) : Except HttpErrno HttpMethod :=
  if method = .connect then
    if index = 1 ∧ ch = 72 then .ok .checkout
    else if index = 2 ∧ ch = 80 then .ok .copy
    else .error .unknown
  else if method = .mkcol then
    if index = 1 ∧ ch = 79 then .ok .move
    else if index = 1 ∧ ch = 69 then .ok .merge
    else if index = 1 ∧ ch = 45 then .ok .msearch
    else if index = 2 ∧ ch = 65 then .ok .mkactivity
    else .error .unknown
  else if method = .subscribe then
    if index = 1 ∧ ch = 69 then .ok .search else .error .unknown
  else if index = 1 ∧ method = .post then
    if ch = 82 then .ok .propfind
    else if ch = 85 then .ok .put
    else if ch = 65 then .ok .patch
    else .error .unknown
  else if index = 2 then
    if method = .put then .ok (if ch = 82 then .purge else .put)
    else if method = .unlock then .ok (if ch = 83 then .unsubscribe else .unlock)
    else .ok method
  else if index = 4 ∧ method = .propfind ∧ ch = 80 then .ok .proppatch
  else .error .invalidMethod

def reqMethod (p : Parser) (marks : Marks) (ch : UInt8) : Option Turn :=
  if ch = 0 then some (.error p .invalidMethod)
  else
    let matcher := (httpMethodStr p.method).bytes
    if p.index > matcher.length then none
    else if ch = SP ∧ matcher.getD p.index 0 = 0 then
      some (.next { p with state := .reqSpacesBeforeUrl, index := p.index + 1 } marks)
    else if ch = matcher.getD p.index 0 then some (.next { p with index := p.index + 1 } marks)
    else
      match otherMethod p.method p.index ch with
      | .ok method => some (.next { p with method := method, index := p.index + 1 } marks)
      | .error e => some (.error p e)

def urlChar (p : Parser) (marks : Marks) (ch : UInt8) : Turn :=
  let p := { p with state := parseUrlChar p.state ch }
  if p.state = .dead then .error p .invalidUrl else .next p marks

def reqSpacesBeforeUrl (p : Parser) (marks : Marks) (ch : UInt8) : Turn :=
  if ch = SP then .next p marks
  else
    urlChar (if p.method = .connect then { p with state := .reqServerStart } else p)
      (marks.mark .url) ch

/-- The parts of a URL that cannot be its last. -/
def urlFront (p : Parser) (marks : Marks) (ch : UInt8) : Turn :=
  if ch = SP ∨ ch = CR ∨ ch = LF then .error p .invalidUrl else urlChar p marks ch

def urlBack (p : Parser) (marks : Marks) (ch : UInt8) : Turn :=
  if ch = SP then
    .goes { p with state := .reqHttpStart } (marks.clear .url) (marks.calls .url) 0
  else
    match lineEnd .reqLineAlmostDone .headerFieldStart ch with
    | some next =>
        .goes { p with httpMajor := 0, httpMinor := 9, state := next } (marks.clear .url)
          (marks.calls .url) 0
    | none => urlChar p marks ch

def reqHttpStart (p : Parser) (marks : Marks) (ch : UInt8) : Turn :=
  if ch = 72 then .next { p with state := .reqHttpH } marks
  else if ch = SP then .next p marks
  else .error p .invalidConstant

def reqLineAlmostDone (p : Parser) (marks : Marks) (ch : UInt8) : Turn :=
  if ch ≠ LF then .error p .lfExpected else .next { p with state := .headerFieldStart } marks

/-- `message_complete`, in the state for the next message. -/
def messageComplete (settings : Settings) (p : Parser) : Parser :=
  settings.onMessageComplete { p with state := p.newMessage }

def completed (settings : Settings) (p : Parser) (marks : Marks) : Turn :=
  .goes (messageComplete settings p) marks [.messageComplete p.statusCode] 0

def headersDone (settings : Settings) (p : Parser) (marks : Marks) (ch : UInt8) : Turn :=
  if ch ≠ LF then .error p .strict
  else
    let p := { p with nread := 0 }
    if p.upgrade then .leaves (messageComplete settings p) [.messageComplete p.statusCode]
    else if p.flags.skipbody then completed settings p marks
    else if p.flags.chunked then .next { p with state := .chunkSizeStart } marks
    else if p.contentLength = 0 then completed settings p marks
    else if p.contentLength ≠ ULLONG_MAX then .next { p with state := .bodyIdentity } marks
    else if p.type = .request ∨ !httpMessageNeedsEof p then completed settings p marks
    else .next { p with state := .bodyIdentityEof } marks

def headersAlmostDone (settings : Settings) (p : Parser) (marks : Marks) (ch : UInt8) : Turn :=
  if ch ≠ LF then .error p .strict
  else if p.flags.trailing then completed settings p marks
  else
    let p := { p with
      state := .headersDone, upgrade := p.flags.upgrade || p.method = .connect }
    let calls := [HttpCallback.headersComplete p.method p.httpMajor p.httpMinor p.statusCode]
    if settings.onHeadersComplete p = 0 then (headersDone settings p marks ch).behind calls
    else if settings.onHeadersComplete p = 1 then
      (headersDone settings { p with flags := { p.flags with skipbody := true } } marks ch).behind
        calls
    else .fails { p with httpErrno := .cbHeadersComplete } calls

def headerFieldStart (settings : Settings) (p : Parser) (marks : Marks) (ch : UInt8) : Turn :=
  if ch = CR then .next { p with state := .headersAlmostDone } marks
  else if ch = LF then headersAlmostDone settings { p with state := .headersAlmostDone } marks ch
  else
    let c := tokens ch
    if c = 0 then .error p .invalidHeaderToken
    else
      .next
        { p with
          index := 0
          state := .headerField
          headerState :=
            if c = 99 then .c
            else if c = 112 then .matchingProxyConnection
            else if c = 116 then .matchingTransferEncoding
            else if c = 117 then .matchingUpgrade
            else .general }
        (marks.mark .headerField)

/-- The next letter of a word, or another. -/
def matchLetter (word : Bytes) (whole : HeaderState) (p : Parser) (c : UInt8) : Parser :=
  let p := { p with index := p.index + 1 }
  if p.index > word.length ∨ c ≠ word.getD p.index 0 then { p with headerState := .general }
  else if p.index = word.length - 1 then { p with headerState := whole }
  else p

/-- One of the letters that tell `connection` from `content-length`. -/
def stepLetter (next : HeaderState) (p : Parser) : Parser :=
  { p with index := p.index + 1, headerState := next }

def fieldLetter (p : Parser) (ch c : UInt8) : Option Parser :=
  match p.headerState with
  | .general => some p
  | .c => some (stepLetter (if c = 111 then .co else .general) p)
  | .co => some (stepLetter (if c = 110 then .con else .general) p)
  | .con =>
      some (stepLetter (if c = 110 then .matchingConnection
        else if c = 116 then .matchingContentLength else .general) p)
  | .matchingConnection => some (matchLetter (asc "connection") .connection p c)
  | .matchingProxyConnection => some (matchLetter (asc "proxy-connection") .connection p c)
  | .matchingContentLength => some (matchLetter (asc "content-length") .contentLength p c)
  | .matchingTransferEncoding =>
      some (matchLetter (asc "transfer-encoding") .transferEncoding p c)
  | .matchingUpgrade => some (matchLetter (asc "upgrade") .upgrade p c)
  | .connection | .contentLength | .transferEncoding | .upgrade =>
      some (if ch ≠ SP then { p with headerState := .general } else p)
  | _ => none

def headerField (p : Parser) (marks : Marks) (ch : UInt8) : Option Turn :=
  if tokens ch ≠ 0 then (fieldLetter p ch (tokens ch)).map fun p => .next p marks
  else
    let ends := fun next : State => Turn.goes { p with state := next } (marks.clear .headerField)
      (marks.calls .headerField) 0
    if ch = 58 then some (ends .headerValueStart)
    else if ch = CR then some (ends .headerAlmostDone)
    else if ch = LF then some (ends .headerFieldStart)
    else some (.error p .invalidHeaderToken)

/-- The first letter of a value, but for that of a length. -/
def valueStart (p : Parser) (c : UInt8) : Parser :=
  match p.headerState with
  | .upgrade => { p with flags := { p.flags with upgrade := true }, headerState := .general }
  | .transferEncoding =>
      { p with headerState := if c = 99 then .matchingTransferEncodingChunked else .general }
  | .connection =>
      { p with
        headerState :=
          if c = 107 then .matchingConnectionKeepAlive
          else if c = 99 then .matchingConnectionClose
          else .general }
  | _ => { p with headerState := .general }

def headerValueStart (p : Parser) (marks : Marks) (ch : UInt8) : Turn :=
  if ch = SP ∨ ch = HT then .next p marks
  else
    let marks := marks.mark .headerValue
    let p := { p with state := .headerValue, index := 0 }
    if ch = CR then
      .goes { p with headerState := .general, state := .headerAlmostDone }
        (marks.clear .headerValue) (marks.calls .headerValue) 0
    else if ch = LF then
      .goes { p with state := .headerFieldStart } (marks.clear .headerValue)
        (marks.calls .headerValue) 0
    else if p.headerState = .contentLength then
      if !isNum ch then .error p .invalidContentLength
      else .next { p with contentLength := (digit ch).toUInt64 } marks
    else .next (valueStart p (lower ch)) marks

/-- A digit more of a length. What is too large for the word goes round, unless it goes
round to less than before. -/
def moreLength (p : Parser) (base value : Nat) : Except Parser Parser :=
  let t := p.contentLength * base.toUInt64 + value.toUInt64
  if t < p.contentLength ∨ t = ULLONG_MAX then .error { p with httpErrno := .invalidContentLength }
  else .ok { p with contentLength := t }

def valueLetter (p : Parser) (ch c : UInt8) : Option (Except Parser Parser) :=
  match p.headerState with
  | .general => some (.ok p)
  | .connection | .transferEncoding => none
  | .contentLength =>
      if ch = SP then some (.ok p)
      else if !isNum ch then some (.error { p with httpErrno := .invalidContentLength })
      else some (moreLength p 10 (digit ch))
  | .matchingTransferEncodingChunked =>
      some (.ok (matchLetter (asc "chunked") .transferEncodingChunked p c))
  | .matchingConnectionKeepAlive =>
      some (.ok (matchLetter (asc "keep-alive") .connectionKeepAlive p c))
  | .matchingConnectionClose => some (.ok (matchLetter (asc "close") .connectionClose p c))
  | .transferEncodingChunked | .connectionKeepAlive | .connectionClose =>
      some (.ok (if ch ≠ SP then { p with headerState := .general } else p))
  | _ => some (.ok { p with state := .headerValue, headerState := .general })

def headerAlmostDone (p : Parser) (marks : Marks) (ch : UInt8) : Turn :=
  if ch ≠ LF then .error p .strict
  else
    let p := { p with state := .headerValueLws }
    match p.headerState with
    | .connectionKeepAlive =>
        .next { p with flags := { p.flags with connectionKeepAlive := true } } marks
    | .connectionClose => .next { p with flags := { p.flags with connectionClose := true } } marks
    | .transferEncodingChunked => .next { p with flags := { p.flags with chunked := true } } marks
    | _ => .next p marks

def headerValue (p : Parser) (marks : Marks) (ch : UInt8) : Option Turn :=
  if ch = CR then
    some (.goes { p with state := .headerAlmostDone } (marks.clear .headerValue)
      (marks.calls .headerValue) 0)
  else if ch = LF then
    some ((headerAlmostDone { p with state := .headerAlmostDone } (marks.clear .headerValue)
      ch).behind (marks.calls .headerValue))
  else
    (valueLetter p ch (lower ch)).map fun done =>
      match done with
      | .ok p => .next p marks
      | .error p => .fails p []

def headerValueLws (settings : Settings) (p : Parser) (marks : Marks) (ch : UInt8) : Turn :=
  if ch = SP ∨ ch = HT then .next { p with state := .headerValueStart } marks
  else headerFieldStart settings { p with state := .headerFieldStart } marks ch

/-- How much of a body is read at once: all of it, or all that there is. -/
def toRead (p : Parser) (rest : Bytes) : Nat := min p.contentLength.toNat (rest.length + 1)

/-- The body is marked, and what is read of it taken from what is left. -/
def readBody (p : Parser) (rest : Bytes) : Parser :=
  { p with contentLength := p.contentLength - (toRead p rest).toUInt64 }

def messageDone (settings : Settings) (p : Parser) (marks : Marks) : Turn :=
  completed settings p marks

def bodyIdentity (settings : Settings) (p : Parser) (marks : Marks) (ch : UInt8) (rest : Bytes) :
    Option Turn :=
  if p.contentLength = 0 ∨ p.contentLength = ULLONG_MAX then none
  else
    let marks := marks.mark .body
    let n := toRead p rest
    let p := readBody p rest
    if p.contentLength = 0 then
      -- The callback counts the byte under the pointer, which is the last of the body.
      let whole := ((marks .body).getD []) ++ (ch :: rest).take n
      let done := messageDone settings { p with state := .messageDone } (marks.clear .body)
      some ((done.behind [.data .body whole]).skipping (n - 1))
    else some (.goes p marks [] (n - 1))

def bodyIdentityEof (p : Parser) (marks : Marks) (rest : Bytes) : Turn :=
  .goes p (marks.mark .body) [] rest.length

def chunkSizeStart (p : Parser) (marks : Marks) (ch : UInt8) : Option Turn :=
  if p.nread ≠ 1 ∨ !p.flags.chunked then none
  else
    match unhex ch with
    | none => some (.error p .invalidChunkSize)
    | some value => some (.next { p with contentLength := value.toUInt64, state := .chunkSize } marks)

def chunkSize (p : Parser) (marks : Marks) (ch : UInt8) : Option Turn :=
  if !p.flags.chunked then none
  else if ch = CR then some (.next { p with state := .chunkSizeAlmostDone } marks)
  else
    match unhex ch with
    | none =>
        if ch = 59 ∨ ch = SP then some (.next { p with state := .chunkParameters } marks)
        else some (.error p .invalidChunkSize)
    | some value =>
        match moreLength p 16 value with
        | .ok p => some (.next p marks)
        | .error p => some (.fails p [])

def chunkParameters (p : Parser) (marks : Marks) (ch : UInt8) : Option Turn :=
  if !p.flags.chunked then none
  else if ch = CR then some (.next { p with state := .chunkSizeAlmostDone } marks)
  else some (.next p marks)

def chunkSizeAlmostDone (p : Parser) (marks : Marks) (ch : UInt8) : Option Turn :=
  if !p.flags.chunked then none
  else if ch ≠ LF then some (.error p .strict)
  else
    let p := { p with nread := 0 }
    if p.contentLength = 0 then
      some (.next { p with flags := { p.flags with trailing := true }, state := .headerFieldStart }
        marks)
    else some (.next { p with state := .chunkData } marks)

def chunkData (p : Parser) (marks : Marks) (rest : Bytes) : Option Turn :=
  if !p.flags.chunked ∨ p.contentLength = 0 ∨ p.contentLength = ULLONG_MAX then none
  else
    let n := toRead p rest
    let p := readBody p rest
    let p := if p.contentLength = 0 then { p with state := .chunkDataAlmostDone } else p
    some (.goes p (marks.mark .body) [] (n - 1))

def chunkDataAlmostDone (p : Parser) (marks : Marks) (ch : UInt8) : Option Turn :=
  if !p.flags.chunked ∨ p.contentLength ≠ 0 then none
  else if ch ≠ CR then some (.error p .strict)
  else
    some (.goes { p with state := .chunkDataDone } (marks.clear .body) (marks.calls .body) 0)

def chunkDataDone (p : Parser) (marks : Marks) (ch : UInt8) : Option Turn :=
  if !p.flags.chunked then none
  else if ch ≠ LF then some (.error p .strict)
  else some (.next { p with nread := 0, state := .chunkSizeStart } marks)

def deadByte (p : Parser) (marks : Marks) (ch : UInt8) : Turn :=
  if ch = CR ∨ ch = LF then .next p marks else .error p .closedConnection

/-- The switch, on a byte and those behind it. -/
def turn (settings : Settings) (p : Parser) (marks : Marks) (ch : UInt8) (rest : Bytes) :
    Option Turn :=
  match p.state with
  | .dead => some (deadByte p marks ch)
  | .startReqOrRes => some (startReqOrRes p marks ch)
  | .resOrRespH => some (resOrRespH p marks ch)
  | .startRes => some (startRes p marks ch)
  | .resH => some (strictly 84 .resHT p marks ch)
  | .resHT => some (strictly 84 .resHTT p marks ch)
  | .resHTT => some (strictly 80 .resHTTP p marks ch)
  | .resHTTP => some (strictly 47 .resFirstHttpMajor p marks ch)
  | .resFirstHttpMajor => some (firstMajor 48 .resHttpMajor p marks ch)
  | .resHttpMajor => some (moreMajor .resFirstHttpMinor p marks ch)
  | .resFirstHttpMinor => some (firstMinor .resHttpMinor p marks ch)
  | .resHttpMinor =>
      some (moreMinor (fun ch => if ch = SP then some .resFirstStatusCode else none) p marks ch)
  | .resFirstStatusCode => some (resFirstStatusCode p marks ch)
  | .resStatusCode => some (resStatusCode p marks ch)
  | .resStatus => some (resStatus p marks ch)
  | .resLineAlmostDone => some (strictly LF .headerFieldStart p marks ch)
  | .startReq => some (startReq p marks ch)
  | .reqMethod => reqMethod p marks ch
  | .reqSpacesBeforeUrl => some (reqSpacesBeforeUrl p marks ch)
  | .reqSchema | .reqSchemaSlash | .reqSchemaSlashSlash | .reqServerStart =>
      some (urlFront p marks ch)
  | .reqServer | .reqServerWithAt | .reqPath | .reqQueryStringStart | .reqQueryString
  | .reqFragmentStart | .reqFragment => some (urlBack p marks ch)
  | .reqHttpStart => some (reqHttpStart p marks ch)
  | .reqHttpH => some (strictly 84 .reqHttpHT p marks ch)
  | .reqHttpHT => some (strictly 84 .reqHttpHTT p marks ch)
  | .reqHttpHTT => some (strictly 80 .reqHttpHTTP p marks ch)
  | .reqHttpHTTP => some (strictly 47 .reqFirstHttpMajor p marks ch)
  | .reqFirstHttpMajor => some (firstMajor 49 .reqHttpMajor p marks ch)
  | .reqHttpMajor => some (moreMajor .reqFirstHttpMinor p marks ch)
  | .reqFirstHttpMinor => some (firstMinor .reqHttpMinor p marks ch)
  | .reqHttpMinor => some (moreMinor (lineEnd .reqLineAlmostDone .headerFieldStart) p marks ch)
  | .reqLineAlmostDone => some (reqLineAlmostDone p marks ch)
  | .headerFieldStart => some (headerFieldStart settings p marks ch)
  | .headerField => headerField p marks ch
  | .headerValueStart => some (headerValueStart p marks ch)
  | .headerValue => headerValue p marks ch
  | .headerValueLws => some (headerValueLws settings p marks ch)
  | .headerAlmostDone => some (headerAlmostDone p marks ch)
  | .headersAlmostDone => some (headersAlmostDone settings p marks ch)
  | .headersDone => some (headersDone settings p marks ch)
  | .chunkSizeStart => chunkSizeStart p marks ch
  | .chunkSize => chunkSize p marks ch
  | .chunkParameters => chunkParameters p marks ch
  | .chunkSizeAlmostDone => chunkSizeAlmostDone p marks ch
  | .chunkData => chunkData p marks rest
  | .chunkDataAlmostDone => chunkDataAlmostDone p marks ch
  | .chunkDataDone => chunkDataDone p marks ch
  | .bodyIdentity => bodyIdentity settings p marks ch rest
  | .bodyIdentityEof => some (bodyIdentityEof p marks rest)
  | .messageDone => some (messageDone settings p marks)

/-- The parser behind a segment, the callbacks, and what `http_parser_execute` returns. -/
structure Parsed where
  parser : Parser
  calls : List HttpCallback
  nparsed : Nat
deriving DecidableEq

/-- The callbacks of a byte, and the byte itself. -/
def Parsed.behind (calls : List HttpCallback) (done : Parsed) : Parsed :=
  { done with calls := calls ++ done.calls, nparsed := done.nparsed + 1 }

/-- The marks that are left over: at most one. -/
def finish (p : Parser) (marks : Marks) : Option Parsed :=
  let kinds : List DataKind := [.headerField, .headerValue, .url, .body]
  if (kinds.filter fun kind => (marks kind).isSome).length ≤ 1 then
    some ⟨p, kinds.flatMap marks.calls, 0⟩
  else none

/-- A byte of the header lines counts. -/
def Parser.counted (p : Parser) : Parser :=
  if p.state.parsingHeader then { p with nread := p.nread + 1 } else p

def Parser.overflows (p : Parser) : Prop := p.state.parsingHeader = true ∧ p.nread > HTTP_MAX_HEADER_SIZE

instance (p : Parser) : Decidable p.overflows := inferInstanceAs (Decidable (_ ∧ _))

/-- The loop over a segment, where `skip` bytes are behind the pointer already. -/
def executeFrom (settings : Settings) : Parser → Marks → Nat → Bytes → Option Parsed
  | p, marks, _, [] => finish p marks
  | p, marks, skip + 1, ch :: rest =>
      (executeFrom settings p (marks.advance ch) skip rest).map (Parsed.behind [])
  | p, marks, 0, ch :: rest =>
      if p.counted.overflows then some ⟨{ p.counted with httpErrno := .headerOverflow }, [], 0⟩
      else
        (turn settings p.counted marks ch rest).bind fun done =>
          match done with
          | .goes p marks calls skip =>
              (executeFrom settings p (marks.advance ch) skip rest).map (Parsed.behind calls)
          | .fails p calls => some ⟨p, calls, 0⟩
          | .leaves p calls => some ⟨p, calls, 1⟩

/-- The mark that a state has at the start of a segment. -/
def State.marked : State → Option DataKind
  | .headerField => some .headerField
  | .headerValue => some .headerValue
  | .reqPath | .reqSchema | .reqSchemaSlash | .reqSchemaSlashSlash => some .url
  | .reqServerStart | .reqServer | .reqServerWithAt => some .url
  | .reqQueryStringStart | .reqQueryString | .reqFragmentStart | .reqFragment => some .url
  | _ => none

def startMarks (s : State) : Marks := fun kind => if s.marked = some kind then some [] else none

/-- No bytes at all mean the end of the stream. -/
def executeEof (settings : Settings) (p : Parser) : Parsed :=
  match p.state with
  | .bodyIdentityEof => ⟨settings.onMessageComplete p, [.messageComplete p.statusCode], 0⟩
  | .dead | .startReqOrRes | .startRes | .startReq => ⟨p, [], 0⟩
  | _ => ⟨{ p with httpErrno := .invalidEofState }, [], 1⟩

def httpParserExecute (settings : Settings) (p : Parser) (data : Bytes) : Option Parsed :=
  if p.httpErrno ≠ .ok then some ⟨p, [], 0⟩
  else if data = [] then some (executeEof settings p)
  else executeFrom settings p (startMarks p.state) 0 data

/-- What `session_global_init` sets, as far as the parsers are concerned: the callbacks
for a request leave its parser as it is, and `session_report` starts both anew at a final
response complete, unless no report is owed. -/
def clientParserSettings : Settings := ⟨fun _ => 0, id⟩

def serverParserSettings : Settings where
  onHeadersComplete _ := 0
  onMessageComplete p :=
    if p.statusCode / 100 ≠ 1 ∧ p.needReport = true then httpParserInit .response else p

/-- One segment after another. -/
def httpRun (settings : Settings) (p : Parser) : List Bytes → Option (Parser × List HttpCallback)
  | [] => some (p, [])
  | data :: rest => do
      let done ← httpParserExecute settings p data
      let (p, later) ← httpRun settings done.parser rest
      return (p, done.calls ++ later)

end Bscope.Http
