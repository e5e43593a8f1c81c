import Bscope.HttpReports
import Bscope.Ledger

set_option autoImplicit false

/- A session and its two parsers: what `session_handle_data` makes of the data of a stream. -/
namespace Bscope

open Http

/-- What `tcp_callback` keeps for a stream. -/
structure HttpSession where
  client : Parser
  server : Parser
  s : Session

/-- What `session_start` leaves. -/
def HttpSession.start : HttpSession :=
  ⟨httpParserInit .request, httpParserInit .response, sessionInit⟩

/-- The parser of the responses, with the session as its callbacks find it. -/
def HttpSession.owing (h : HttpSession) : Parser := { h.server with needReport := h.s.needReport }

/-- The callbacks that `client_parser_settings` names. -/
def requestEvent : HttpCallback → Event
  | .messageBegin => .requestBegin
  | .data .url bytes => .requestUrl bytes
  | .data .headerField bytes => .requestHeaderField bytes
  | .data .headerValue bytes => .requestHeaderValue bytes
  | .data .body bytes => .requestBody bytes
  | .headersComplete method httpMajor httpMinor _ =>
      .requestHeadersComplete method httpMajor httpMinor
  | .messageComplete _ => .requestComplete

/-- An index of `config.catch_code`, nothing where it lies outside. -/
def codeIndex (statusCode : Nat) : Option StatusCode :=
  if inside : statusCode < 1000 then some ⟨statusCode, inside⟩ else none

/-- The callbacks that `server_parser_settings` names: there is none for a URL. -/
def responseEvents : HttpCallback → Option (List Event)
  | .messageBegin => some [.responseBegin]
  | .data .url _ => some []
  | .data .headerField bytes => some [.reponseHeaderField bytes]
  | .data .headerValue bytes => some [.reponseHeaderValue bytes]
  | .data .body bytes => some [.responseBody bytes]
  | .headersComplete _ _ _ statusCode =>
      (codeIndex statusCode).map fun code => [.responseHeadersComplete code]
  | .messageComplete statusCode => (codeIndex statusCode).map fun code => [.responseComplete code]

def responseCalls (calls : List HttpCallback) : Option (List Event) :=
  (calls.mapM responseEvents).map List.flatten

/-- The new data of one direction, with the time at each callback they bring. -/
structure Block where
  toServer : Bool
  data : Bytes
  clock : Nat → Moment

def Block.stamp (b : Block) (events : List Event) : List (Moment × Event) :=
  events.mapIdx fun i e => (b.clock i, e)

/-- What came of a block: the session, the segment it writes to, its callbacks with their
times, and the reports that were sent. -/
structure HandledData where
  session : HttpSession
  stat : Status
  run : List (Moment × Event)
  sent : List MsgReport

/-- The callbacks of a block. Behind a report `session_start` begins anew with the parser of
the requests too, whatever that one has read of a request. -/
def HttpSession.hear (ctx : Context) (h : HttpSession) (stat : Status)
    (run : List (Moment × Event)) : HandledData :=
  let c := after ctx ⟨h.s, stat⟩ run
  let sent := reports ctx ⟨h.s, stat⟩ run
  ⟨⟨if sent.isEmpty then h.client else httpParserInit .request, h.server, c.s⟩, c.stat, run, sent⟩

def sessionHandleData (ctx : Context) (h : HttpSession) (stat : Status) (b : Block) :
    Option HandledData :=
  if b.toServer then do
    let done ← httpParserExecute clientParserSettings h.client b.data
    return { h with client := done.parser }.hear ctx stat (b.stamp (done.calls.map requestEvent))
  else do
    let done ← httpParserExecute serverParserSettings h.owing b.data
    let events ← responseCalls done.calls
    return { h with server := done.parser }.hear ctx stat (b.stamp events)

/-- One block after another. -/
def handleRun (ctx : Context) : HttpSession → Status → List Block → Option HandledData
  | h, stat, [] => some ⟨h, stat, [], []⟩
  | h, stat, b :: rest => do
      let done ← sessionHandleData ctx h stat b
      let later ← handleRun ctx done.session done.stat rest
      return ⟨later.session, later.stat, done.run ++ later.run, done.sent ++ later.sent⟩

section Events

theorem stamp_events (b : Block) (events : List Event) :
    (b.stamp events).map Prod.snd = events := by
  apply List.ext_getElem
  · simp [Block.stamp]
  · intro i _ _
    simp [Block.stamp]

theorem codeIndex_coded {statusCode : Nat} (coded : statusCode ≤ 999) :
    ∃ code, codeIndex statusCode = some code :=
  ⟨⟨statusCode, by omega⟩, dif_pos (by omega)⟩

theorem codeIndex_val {statusCode : Nat} {code : StatusCode}
    (inside : codeIndex statusCode = some code) : code.val = statusCode := by
  unfold codeIndex at inside
  split at inside
  · cases inside
    rfl
  · cases inside

theorem responseEvents_coded {call : HttpCallback} (coded : call.Coded) :
    ∃ events, responseEvents call = some events := by
  cases call with
  | messageBegin => exact ⟨_, rfl⟩
  | data kind bytes => cases kind <;> exact ⟨_, rfl⟩
  | headersComplete method httpMajor httpMinor statusCode =>
      obtain ⟨code, inside⟩ := codeIndex_coded coded
      rw [responseEvents, inside]
      exact ⟨_, rfl⟩
  | messageComplete statusCode =>
      obtain ⟨code, inside⟩ := codeIndex_coded coded
      rw [responseEvents, inside]
      exact ⟨_, rfl⟩

theorem responseCalls_cons {call : HttpCallback} {rest : List HttpCallback} {events : List Event}
    (told : responseCalls (call :: rest) = some events) :
    ∃ first later, responseEvents call = some first ∧ responseCalls rest = some later ∧
      events = first ++ later := by
  unfold responseCalls at told ⊢
  obtain ⟨all, each, rfl⟩ := Option.map_eq_some_iff.mp told
  rw [List.mapM_cons] at each
  obtain ⟨first, here, each⟩ := Option.bind_eq_some_iff.mp each
  obtain ⟨later, there, each⟩ := Option.bind_eq_some_iff.mp each
  cases each
  exact ⟨first, later.flatten, here, by rw [there]; rfl, rfl⟩

theorem responseCalls_coded (calls : List HttpCallback) (coded : ∀ call ∈ calls, call.Coded) :
    ∃ events, responseCalls calls = some events := by
  have each : ∃ all, calls.mapM responseEvents = some all := by
    induction calls with
    | nil => exact ⟨[], rfl⟩
    | cons call rest ih =>
        obtain ⟨events, here⟩ := responseEvents_coded (coded call List.mem_cons_self)
        obtain ⟨all, later⟩ := ih fun other inside => coded other (List.mem_cons_of_mem call inside)
        refine ⟨events :: all, ?_⟩
        simp only [List.mapM_cons, here, later, Option.bind_eq_bind, Option.bind_some]
        rfl
  obtain ⟨all, here⟩ := each
  rw [responseCalls, here]
  exact ⟨all.flatten, rfl⟩

theorem responseCalls_append (first second : List HttpCallback) :
    responseCalls (first ++ second) = (responseCalls first).bind fun events =>
      (responseCalls second).map (events ++ ·) := by
  unfold responseCalls
  rw [List.mapM_append]
  cases first.mapM responseEvents with
  | none => rfl
  | some all =>
      cases second.mapM responseEvents with
      | none => rfl
      | some all' =>
          simp only [Option.bind_eq_bind, Option.bind_some, Option.map_some, Option.pure_def,
            List.flatten_append]

end Events

section Handle

structure HttpSession.Ready (h : HttpSession) : Prop where
  client : h.client.Ready
  server : h.server.Ready

theorem start_ready : HttpSession.start.Ready :=
  ⟨httpParserInit_ready .request, httpParserInit_ready .response⟩

theorem owing_ready {h : HttpSession} (ready : h.Ready) : h.owing.Ready := by
  intro ok
  have sound := ready.server ok
  exact ⟨sound.ok, sound.code, sound.fits, sound.held, sound.set⟩

variable (ctx : Context) {h : HttpSession} (stat : Status) {b : Block} {done : Http.Parsed}

theorem sessionHandleData_client (toServer : b.toServer = true)
    (read : httpParserExecute clientParserSettings h.client b.data = some done) :
    sessionHandleData ctx h stat b = some ({ h with client := done.parser }.hear ctx stat
      (b.stamp (done.calls.map requestEvent))) := by
  rw [sessionHandleData, if_pos toServer, read]
  rfl

theorem sessionHandleData_server (toClient : b.toServer = false)
    (read : httpParserExecute serverParserSettings h.owing b.data = some done) {events : List Event}
    (told : responseCalls done.calls = some events) :
    sessionHandleData ctx h stat b =
      some ({ h with server := done.parser }.hear ctx stat (b.stamp events)) := by
  rw [sessionHandleData, toClient, if_neg Bool.false_ne_true]
  simp only [read, told, Option.bind_eq_bind, Option.bind_some, Option.pure_def]

theorem hear_ready {h : HttpSession} (ready : h.Ready)
    (run : List (Moment × Event)) : (h.hear ctx stat run).session.Ready := by
  refine ⟨?_, ready.server⟩
  show (if (reports ctx ⟨h.s, stat⟩ run).isEmpty then h.client else httpParserInit .request).Ready
  split
  · exact ready.client
  · exact httpParserInit_ready .request

/-- No block makes either parser fail, and no callback reads a code outside the table. -/
theorem sessionHandleData_ready (ready : h.Ready) (filled : b.data ≠ []) :
    ∃ done, sessionHandleData ctx h stat b = some done ∧ done.session.Ready := by
  cases way : b.toServer with
  | true =>
      obtain ⟨done, read, ready', -, -⟩ :=
        httpParserExecute_sound clientParserSettings_sound ready.client b.data filled
      have client : ({ h with client := done.parser } : HttpSession).Ready := ⟨ready', ready.server⟩
      exact ⟨_, sessionHandleData_client ctx stat way read, hear_ready ctx stat client _⟩
  | false =>
      obtain ⟨done, read, ready', -, coded⟩ :=
        httpParserExecute_sound serverParserSettings_sound (owing_ready ready) b.data filled
      obtain ⟨events, told⟩ := responseCalls_coded done.calls coded
      have server : ({ h with server := done.parser } : HttpSession).Ready := ⟨ready.client, ready'⟩
      exact ⟨_, sessionHandleData_server ctx stat way read told, hear_ready ctx stat server _⟩

end Handle

section Owed

theorem responseEvents_quiet {call : HttpCallback} {events : List Event}
    (told : responseEvents call = some events) : ∀ e ∈ events, e.isBegin = false := by
  intro e member
  cases call with
  | messageBegin =>
      cases told
      rw [List.mem_singleton.mp member]
      rfl
  | data kind bytes =>
      cases kind with
      | url =>
          cases told
          exact absurd member List.not_mem_nil
      | _ =>
          cases told
          rw [List.mem_singleton.mp member]
          rfl
  | headersComplete method httpMajor httpMinor statusCode =>
      obtain ⟨code, -, rfl⟩ := Option.map_eq_some_iff.mp told
      rw [List.mem_singleton.mp member]
      rfl
  | messageComplete statusCode =>
      obtain ⟨code, -, rfl⟩ := Option.map_eq_some_iff.mp told
      rw [List.mem_singleton.mp member]
      rfl

/-- No callback of a response begins a request. -/
theorem responseCalls_quiet {calls : List HttpCallback} : ∀ {events : List Event},
    responseCalls calls = some events → ∀ e ∈ events, e.isBegin = false := by
  induction calls with
  | nil =>
      intro events told e member
      cases told
      exact absurd member List.not_mem_nil
  | cons call rest ih =>
      intro events told e member
      obtain ⟨first, later, here, there, rfl⟩ := responseCalls_cons told
      rcases List.mem_append.mp member with inside | inside
      · exact responseEvents_quiet here e inside
      · exact ih there e inside

/-- Both parsers go by the same callbacks: a report is owed until a final response. -/
theorem owedBehind_final {calls : List HttpCallback} : ∀ {events : List Event} (owed : Bool),
    responseCalls calls = some events →
      owedBehind owed calls = (owed && !events.any Event.isFinal) := by
  induction calls with
  | nil =>
      intro events owed told
      cases told
      exact (Bool.and_true owed).symm
  | cons call rest ih =>
      intro events owed told
      obtain ⟨first, later, here, there, rfl⟩ := responseCalls_cons told
      have next := fun owed => ih owed there
      rw [List.any_append]
      cases call with
      | messageBegin =>
          cases here
          exact next owed
      | data kind bytes => cases kind <;> cases here <;> exact next owed
      | headersComplete method httpMajor httpMinor statusCode =>
          obtain ⟨code, -, rfl⟩ := Option.map_eq_some_iff.mp here
          exact next owed
      | messageComplete statusCode =>
          obtain ⟨code, inside, rfl⟩ := Option.map_eq_some_iff.mp here
          rw [← codeIndex_val inside]
          refine (next (owed && decide (code.val / 100 = 1))).trans ?_
          have final : [Event.responseComplete code].any Event.isFinal =
              !decide (code.val / 100 = 1) := by
            simp [Event.isFinal]
          rw [final]
          cases owed <;> cases decide (code.val / 100 = 1) <;> simp

/-- A final response pays what is owed, once. -/
theorem ledger_responses (events : List Event) : ∀ l : Ledger,
    (∀ e ∈ events, e.isBegin = false) →
      (Runs.after Ledger.step l events).owes = (l.owes && !events.any Event.isFinal) ∧
        (Runs.outputs Ledger.step l events).length =
          (l.owes && events.any Event.isFinal).toNat := by
  induction events with
  | nil =>
      intro l _
      simp [Runs.outputs]
  | cons e events ih =>
      intro l quiet
      obtain ⟨after, length⟩ := ih (l.step e).1 fun e' member =>
        quiet e' (List.mem_cons_of_mem e member)
      rw [Runs.after_cons, Runs.outputs_cons, List.length_append, after, length, List.any_cons]
      cases final : e.isFinal with
      | true =>
          rw [ledger_final l e final, settle_length, settle_owes]
          simp
      | false =>
          obtain ⟨silent, owes⟩ := ledger_other l e (quiet e List.mem_cons_self) final
          rw [silent, owes]
          simp

variable {ctx : Context} {h : HttpSession} {stat : Status} {b : Block}

/-- A block of responses brings at most one report, and the report is no longer owed. -/
theorem hear_responses {calls : List HttpCallback} {events : List Event}
    (told : responseCalls calls = some events) :
    (h.hear ctx stat (b.stamp events)).session.s.needReport = owedBehind h.s.needReport calls ∧
      (h.hear ctx stat (b.stamp events)).sent.length =
        (h.s.needReport && events.any Event.isFinal).toNat := by
  obtain ⟨after, length⟩ := ledger_responses events (Conn.ledger ⟨h.s, stat⟩) (responseCalls_quiet told)
  have stands := (ledger_simulates ctx).after ⟨h.s, stat⟩ (b.stamp events)
  have given := (ledger_simulates ctx).outputs ⟨h.s, stat⟩ (b.stamp events)
  rw [stamp_events] at stands given
  rw [stands] at after
  rw [given, List.length_map] at length
  rw [owedBehind_final h.s.needReport told]
  exact ⟨after, length⟩

/-- Behind a block of responses the parser of these knows what the session owes. -/
theorem server_owing {done : HandledData} (ready : h.Ready) (filled : b.data ≠ [])
    (toClient : b.toServer = false) (read : sessionHandleData ctx h stat b = some done) :
    done.session.server.needReport = done.session.s.needReport := by
  obtain ⟨parsed, run, -, -, coded⟩ :=
    httpParserExecute_sound serverParserSettings_sound (owing_ready ready) b.data filled
  obtain ⟨events, told⟩ := responseCalls_coded parsed.calls coded
  have owes := httpParserExecute_owes serverParserSettings_reports filled run
  rw [sessionHandleData_server ctx stat toClient run told] at read
  cases read
  exact owes.trans (hear_responses (h := { h with server := parsed.parser }) told).1.symm

end Owed

section Blocks

variable {ctx : Context}

/-- The reports of a block are those of its callbacks. -/
theorem sessionHandleData_reports {h : HttpSession} {stat : Status} {b : Block} {done : HandledData}
    (here : sessionHandleData ctx h stat b = some done) :
    after ctx ⟨h.s, stat⟩ done.run = ⟨done.session.s, done.stat⟩ ∧
      reports ctx ⟨h.s, stat⟩ done.run = done.sent := by
  rw [sessionHandleData] at here
  split at here
  · obtain ⟨parsed, -, here⟩ := Option.bind_eq_some_iff.mp here
    cases here
    exact ⟨rfl, rfl⟩
  · obtain ⟨parsed, -, here⟩ := Option.bind_eq_some_iff.mp here
    obtain ⟨events, -, here⟩ := Option.bind_eq_some_iff.mp here
    cases here
    exact ⟨rfl, rfl⟩

/-- The reports of a run of blocks are those of its callbacks. -/
theorem handleRun_reports (blocks : List Block) : ∀ (h : HttpSession) (stat : Status)
    (done : HandledData), handleRun ctx h stat blocks = some done →
      after ctx ⟨h.s, stat⟩ done.run = ⟨done.session.s, done.stat⟩ ∧
        reports ctx ⟨h.s, stat⟩ done.run = done.sent := by
  induction blocks with
  | nil =>
      intro h stat done run
      cases run
      exact ⟨rfl, rfl⟩
  | cons b rest ih =>
      intro h stat done run
      rw [handleRun] at run
      obtain ⟨first, here, run⟩ := Option.bind_eq_some_iff.mp run
      obtain ⟨later, there, run⟩ := Option.bind_eq_some_iff.mp run
      cases run
      have one := sessionHandleData_reports here
      obtain ⟨ends, sent⟩ := ih first.session first.stat later there
      constructor
      · show Runs.after (step ctx) _ (first.run ++ later.run) = _
        rw [Runs.after_append]
        exact (congrArg (fun c => after ctx c later.run) one.1).trans ends
      · show Runs.outputs (step ctx) _ (first.run ++ later.run) = first.sent ++ later.sent
        rw [Runs.outputs_append, ← one.2, ← sent]
        exact congrArg (fun c => reports ctx ⟨h.s, stat⟩ first.run ++ reports ctx c later.run) one.1

variable (ctx) in
theorem handleRun_ready (blocks : List Block) : ∀ (h : HttpSession) (stat : Status), h.Ready →
    (∀ b ∈ blocks, b.data ≠ []) →
      ∃ done, handleRun ctx h stat blocks = some done ∧ done.session.Ready := by
  induction blocks with
  | nil => exact fun h stat ready _ => ⟨_, rfl, ready⟩
  | cons b rest ih =>
      intro h stat ready filled
      obtain ⟨first, here, ready'⟩ := sessionHandleData_ready ctx stat ready
        (filled b List.mem_cons_self)
      obtain ⟨later, there, ready''⟩ := ih first.session first.stat ready'
        fun other inside => filled other (List.mem_cons_of_mem b inside)
      refine ⟨⟨later.session, later.stat, first.run ++ later.run, first.sent ++ later.sent⟩, ?_,
        ready''⟩
      rw [handleRun, here]
      show (handleRun ctx first.session first.stat rest).bind _ = _
      rw [there]
      rfl

theorem handleRun_append (second first : List Block) : ∀ (h : HttpSession) (stat : Status),
    handleRun ctx h stat (first ++ second) = (handleRun ctx h stat first).bind fun done =>
      (handleRun ctx done.session done.stat second).map fun later =>
        ⟨later.session, later.stat, done.run ++ later.run, done.sent ++ later.sent⟩ := by
  induction first with
  | nil =>
      intro h stat
      rw [List.nil_append, handleRun, Option.bind_some]
      simp
  | cons b first ih =>
      intro h stat
      simp only [List.cons_append, handleRun, ih, Option.bind_eq_bind, Option.pure_def]
      cases sessionHandleData ctx h stat b with
      | none => rfl
      | some done =>
          simp only [Option.bind_some]
          cases handleRun ctx done.session done.stat first with
          | none => rfl
          | some between =>
              simp only [Option.bind_some]
              cases handleRun ctx between.session between.stat second with
              | none => rfl
              | some later => simp [List.append_assoc]

end Blocks

end Bscope
