import Bscope.Frames
import Bscope.ReportPairs

set_option autoImplicit false

namespace Bscope

/-- What a report tells about the exchange it is for. -/
structure Entry where
  path : Option Packed
  method : Option Packed
  code : Option Packed
  status : Option Packed
deriving DecidableEq

def MsgReport.entry (rp : MsgReport) : Entry where
  path := rp.value (lit "path")
  method := rp.value (lit "method")
  code := rp.value (lit "code")
  status := rp.value (lit "status")

/-- The purpose of the session record, without what is captured: whether a report
is owed, and for which request line and which code. -/
structure Ledger where
  owes : Bool
  path : Option CStr
  method : HttpMethod
  code : StatusCode

namespace Ledger

def blank : Ledger := ⟨false, none, .delete, 0⟩

def entry (l : Ledger) (type : CloseType) : Entry where
  path := some (packOpt l.path)
  method := some (packStr (httpMethodStr l.method))
  code := some (.int (toInt l.code.val))
  status := some (packStr (closeStatus type))

/-- A debt is paid by a report and wipes the ledger. -/
def settle (l : Ledger) (type : CloseType) : Ledger × Option Entry :=
  if l.owes then (blank, some (l.entry type)) else (l, none)

def step (l : Ledger) : Event → Ledger × Option Entry
  | .requestBegin => ({ l with owes := true }, none)
  | .requestUrl data => ({ l with path := some (strndup data data.length) }, none)
  | .requestHeadersComplete method _ _ => ({ l with method := method }, none)
  | .responseHeadersComplete statusCode => ({ l with code := statusCode }, none)
  | .responseComplete statusCode =>
      if statusCode.val / 100 ≠ 1 then l.settle .success else (l, none)
  | _ => (l, none)

end Ledger

def Session.ledger (s : Session) : Ledger := ⟨s.needReport, s.path, s.method, s.statusCode⟩

def Conn.ledger (c : Conn) : Ledger := c.s.ledger

theorem entry_buildReport (ctx : Context) (s : Session) (type : CloseType) (now : Moment) :
    (buildReport ctx s type now).entry = s.ledger.entry type := by
  unfold MsgReport.entry
  rw [buildReport_path, buildReport_method, buildReport_code, buildReport_status]
  rfl

theorem sessionTimeMark_ledger (s : Session) (r : Option Phase) (now : Timeval) :
    (sessionTimeMark s r now).ledger = s.ledger := by
  rcases r with _ | _ | _ | _ <;> rfl

theorem sessionReport_ledger (ctx : Context) (s : Session) (stat : Status) (type : CloseType)
    (now : Moment) :
    s.ledger.settle type =
      ((sessionReport ctx s stat type now).1.ledger,
        (sessionReport ctx s stat type now).2.2.map MsgReport.entry) := by
  unfold Ledger.settle sessionReport
  by_cases owes : s.needReport = true
  · rw [if_pos owes, if_pos (by exact owes)]
    simp only [Option.map_some, entry_buildReport]
    rfl
  · rw [if_neg owes, if_neg (by exact owes)]
    rfl

theorem ledger_other (l : Ledger) (e : Event) (later : e.isBegin = false)
    (quiet : e.isFinal = false) : (l.step e).2 = none ∧ (l.step e).1.owes = l.owes := by
  cases e with
  | responseComplete statusCode =>
      have passes : statusCode.val / 100 = 1 := by simpa [Event.isFinal] using quiet
      simp [Ledger.step, passes]
  | requestBegin => cases later
  | _ => exact ⟨rfl, rfl⟩

theorem ledger_final (l : Ledger) (e : Event) (final : e.isFinal = true) :
    l.step e = l.settle .success := by
  cases e with
  | responseComplete statusCode =>
      have passes : statusCode.val / 100 ≠ 1 := by simpa [Event.isFinal] using final
      exact if_pos passes
  | _ => cases final

theorem settle_length (l : Ledger) (type : CloseType) :
    (l.settle type).2.toList.length = l.owes.toNat := by
  unfold Ledger.settle
  cases l.owes <;> rfl

theorem settle_owes (l : Ledger) (type : CloseType) : (l.settle type).1.owes = false := by
  unfold Ledger.settle
  split
  · rfl
  · rename_i paid
    simpa using paid

/-- The connection keeps the ledger, and reports what the ledger says. -/
theorem ledger_simulates (ctx : Context) :
    Runs.Simulates Conn.ledger Prod.snd MsgReport.entry (step ctx) Ledger.step := by
  rintro c ⟨now, e⟩
  cases e with
  | requestBegin => rfl
  | requestUrl data =>
      obtain ⟨_, framed⟩ := requestUrl_frame ctx.cfg c.s data
      change _ = ((requestUrl ctx.cfg c.s data).ledger, none)
      rw [framed]
      rfl
  | requestHeaderField data =>
      obtain ⟨_, _, framed⟩ := requestHeaderField_frame ctx.cfg c.s data
      change _ = ((requestHeaderField ctx.cfg c.s data).ledger, none)
      rw [framed]
      rfl
  | requestHeaderValue data =>
      obtain ⟨_, _, _, _, _, _, framed⟩ := requestHeaderValue_frame ctx.cfg c.s data
      change _ = ((requestHeaderValue ctx.cfg c.s data).ledger, none)
      rw [framed]
      rfl
  | requestHeadersComplete method httpMajor httpMinor => rfl
  | requestBody data =>
      obtain ⟨_, _, framed⟩ := requestBody_frame ctx.cfg c.s data
      change _ = ((requestBody ctx.cfg c.s data).ledger, none)
      rw [framed]
      rfl
  | requestComplete =>
      obtain ⟨_, _, framed⟩ := requestComplete_frame ctx.cfg c.s now
      change _ = ((requestComplete ctx.cfg c.s now).ledger, none)
      rw [framed]
      rfl
  | responseBegin => rfl
  | reponseHeaderField data =>
      obtain ⟨_, framed⟩ := reponseHeaderField_frame ctx.cfg c.s data
      change _ = ((reponseHeaderField ctx.cfg c.s data).ledger, none)
      rw [framed]
      rfl
  | reponseHeaderValue data =>
      obtain ⟨_, _, framed⟩ := reponseHeaderValue_frame c.s data
      change _ = ((reponseHeaderValue c.s data).ledger, none)
      rw [framed]
      rfl
  | responseHeadersComplete statusCode => rfl
  | responseBody data =>
      obtain ⟨_, _, framed⟩ := responseBody_frame c.s data
      change _ = ((responseBody c.s data).ledger, none)
      rw [framed]
      rfl
  | responseComplete statusCode =>
      have settled := sessionReport_ledger ctx (sessionTimeMark c.s (some .repTime) now.tv) c.stat
        .success now
      rw [sessionTimeMark_ledger] at settled
      change (if statusCode.val / 100 ≠ 1 then c.ledger.settle .success else (c.ledger, none)) =
        ((responseComplete ctx c statusCode now).1.ledger,
          (responseComplete ctx c statusCode now).2.map MsgReport.entry)
      unfold responseComplete
      by_cases final : statusCode.val / 100 ≠ 1
      · rw [if_pos final, if_pos final]
        exact settled
      · rw [if_neg final, if_neg final]
        rfl

theorem sessionClose_ledger (ctx : Context) (c : Conn) (type : CloseType) (now : Moment) :
    (sessionClose ctx c type now).map MsgReport.entry = (c.ledger.settle type).2 :=
  (congrArg Prod.snd (sessionReport_ledger ctx c.s c.stat type now)).symm

end Bscope
