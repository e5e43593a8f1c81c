import Bscope.Report
import Bscope.Runs

set_option autoImplicit false

namespace Bscope

/-- The callbacks of the two parsers of a connection, with what the parser hands
them or leaves in its own record for them. -/
inductive Event where
  | requestBegin
  | requestUrl (data : Bytes)
  | requestHeaderField (data : Bytes)
  | requestHeaderValue (data : Bytes)
  | requestHeadersComplete (method : HttpMethod) (httpMajor httpMinor : Nat)
  | requestBody (data : Bytes)
  | requestComplete
  | responseBegin
  | reponseHeaderField (data : Bytes)
  | reponseHeaderValue (data : Bytes)
  | responseHeadersComplete (statusCode : StatusCode)
  | responseBody (data : Bytes)
  | responseComplete (statusCode : StatusCode)
deriving DecidableEq

/-- A response complete with a code of another hundred than the first. -/
def Event.isFinal : Event → Bool
  | .responseComplete statusCode => statusCode.val / 100 ≠ 1
  | _ => false

def Event.isBegin : Event → Bool
  | .requestBegin => true
  | _ => false

/-- One connection and the segment its callbacks write to. -/
structure Conn where
  s : Session
  stat : Status

/-- `response_complete`: an interim response only passes by. -/
def responseComplete (ctx : Context) (c : Conn) (statusCode : StatusCode) (now : Moment) :
    Conn × Option MsgReport :=
  if statusCode.val / 100 ≠ 1 then
    let (s, stat, sent) :=
      sessionReport ctx (sessionTimeMark c.s (some .repTime) now.tv) c.stat .success now
    (⟨s, stat⟩, sent)
  else (c, none)

def step (ctx : Context) (c : Conn) : Moment × Event → Conn × Option MsgReport
  | (now, .requestBegin) => (⟨requestBegin c.s now, countRequest c.stat now⟩, none)
  | (_, .requestUrl data) => ({ c with s := requestUrl ctx.cfg c.s data }, none)
  | (_, .requestHeaderField data) => ({ c with s := requestHeaderField ctx.cfg c.s data }, none)
  | (_, .requestHeaderValue data) => ({ c with s := requestHeaderValue ctx.cfg c.s data }, none)
  | (_, .requestHeadersComplete method httpMajor httpMinor) =>
      ({ c with s := requestHeadersComplete c.s method httpMajor httpMinor }, none)
  | (_, .requestBody data) => ({ c with s := requestBody ctx.cfg c.s data }, none)
  | (now, .requestComplete) => ({ c with s := requestComplete ctx.cfg c.s now }, none)
  | (now, .responseBegin) => ({ c with s := responseBegin c.s now }, none)
  | (_, .reponseHeaderField data) => ({ c with s := reponseHeaderField ctx.cfg c.s data }, none)
  | (_, .reponseHeaderValue data) => ({ c with s := reponseHeaderValue c.s data }, none)
  | (_, .responseHeadersComplete statusCode) =>
      ({ c with s := responseHeadersComplete ctx.cfg c.s statusCode }, none)
  | (_, .responseBody data) => ({ c with s := responseBody c.s data }, none)
  | (now, .responseComplete statusCode) => responseComplete ctx c statusCode now

/-- Only a final response complete is ever answered. -/
theorem step_not_final (ctx : Context) (c : Conn) (now : Moment) (e : Event)
    (quiet : e.isFinal = false) : (step ctx c (now, e)).2 = none := by
  cases e with
  | responseComplete statusCode =>
      have passes : ¬ statusCode.val / 100 ≠ 1 := by simpa [Event.isFinal] using quiet
      change (responseComplete ctx c statusCode now).2 = none
      rw [responseComplete, if_neg passes]
  | _ => rfl

/-- The report made when the connection ends; the record is freed after it. -/
def sessionClose (ctx : Context) (c : Conn) (type : CloseType) (now : Moment) : Option MsgReport :=
  (sessionReport ctx c.s c.stat type now).2.2

/-- A connection as `tcp_callback` sets it up. -/
def connStart (stat : Status) : Conn := ⟨sessionInit, stat⟩

abbrev after (ctx : Context) : Conn → List (Moment × Event) → Conn := Runs.after (step ctx)

abbrev trace (ctx : Context) : Conn → List (Moment × Event) → List (Option MsgReport) :=
  Runs.trace (step ctx)

abbrev reports (ctx : Context) : Conn → List (Moment × Event) → List MsgReport :=
  Runs.outputs (step ctx)

/-- The reports of a whole connection, the one made when it ends included. -/
def allReports (ctx : Context) (c : Conn) (run : List (Moment × Event)) (type : CloseType)
    (now : Moment) : List MsgReport :=
  reports ctx c run ++ (sessionClose ctx (after ctx c run) type now).toList

end Bscope
