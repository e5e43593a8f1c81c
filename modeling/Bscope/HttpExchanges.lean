import Bscope.HandleData
import Bscope.HttpTraffic
import Bscope.KeepAlive

set_option autoImplicit false

/- What a session makes of requests and of what answers them, in whatever blocks their bytes
come. -/
namespace Bscope

open Http

theorem blocks_filled {blocks : List Block} {way : Bool}
    (all : ∀ b ∈ blocks, b.toServer = way ∧ b.data ≠ []) : ∀ data ∈ blocks.map Block.data, data ≠ [] := by
  intro data inside
  obtain ⟨b, member, rfl⟩ := List.mem_map.mp inside
  exact (all b member).2

section Directions

variable (ctx : Context)

theorem request_quiet (calls : List HttpCallback) :
    ∀ e ∈ calls.map requestEvent, e.isFinal = false := by
  intro e member
  obtain ⟨call, -, rfl⟩ := List.mem_map.mp member
  cases call with
  | data kind bytes => cases kind <;> rfl
  | _ => rfl

theorem reports_quiet (c : Conn) (run : List (Moment × Event))
    (quiet : ∀ e ∈ run.map Prod.snd, e.isFinal = false) : reports ctx c run = [] := by
  have silent := trace_quiet ctx c run quiet
  unfold reports Runs.outputs
  rw [show Runs.trace (step ctx) c run = _ from silent]
  exact List.filterMap_eq_nil_iff.mpr fun answer member => List.eq_of_mem_replicate member

/-- Blocks of requests bring what their parser makes of their data, and no report. -/
theorem handleRun_client (blocks : List Block) : ∀ (h : HttpSession) (stat : Status) (p : Parser)
    (calls : List HttpCallback), (∀ b ∈ blocks, b.toServer = true) →
      httpRun clientParserSettings h.client (blocks.map Block.data) = some (p, calls) →
      ∃ done, handleRun ctx h stat blocks = some done ∧
        done.run.map Prod.snd = calls.map requestEvent ∧
        done.session.client = p ∧ done.session.server = h.server ∧ done.sent = [] := by
  induction blocks with
  | nil =>
      intro h stat p calls _ run
      cases run
      exact ⟨_, rfl, rfl, rfl, rfl, rfl⟩
  | cons b rest ih =>
      intro h stat p calls toServer run
      obtain ⟨parsed, later, here, there, rfl⟩ := httpRun_cons run
      have first := sessionHandleData_client ctx stat
        (toServer b List.mem_cons_self) here
      have quiet : reports ctx ⟨h.s, stat⟩ (b.stamp (parsed.calls.map requestEvent)) = [] := by
        apply reports_quiet
        rw [stamp_events]
        exact request_quiet parsed.calls
      let next := ({ h with client := parsed.parser } : HttpSession).hear ctx stat
        (b.stamp (parsed.calls.map requestEvent))
      have client : next.session.client = parsed.parser := by
        show (if (reports ctx ⟨h.s, stat⟩ _).isEmpty then parsed.parser else _) = _
        rw [quiet]
        rfl
      obtain ⟨last, run', events, client', server, sent⟩ := ih next.session next.stat p later
        (fun other inside => toServer other (List.mem_cons_of_mem b inside))
        (by rw [client]; exact there)
      refine ⟨⟨last.session, last.stat, next.run ++ last.run, next.sent ++ last.sent⟩, ?_, ?_,
        client', server, ?_⟩
      · rw [handleRun, first]
        show (handleRun ctx next.session next.stat rest).bind _ = _
        rw [run']
        rfl
      · rw [List.map_append, List.map_append, events]
        exact congrArg (· ++ _) (stamp_events b _)
      · rw [sent, List.append_nil]
        exact quiet

/-- Blocks of responses bring what their parser makes of their data. With the first report
the parser of the requests begins anew. -/
theorem handleRun_server (blocks : List Block) : ∀ (h : HttpSession) (stat : Status) (p : Parser)
    (calls : List HttpCallback) (events : List Event), h.Ready →
      (∀ b ∈ blocks, b.toServer = false ∧ b.data ≠ []) →
      httpRun serverParserSettings h.owing (blocks.map Block.data) = some (p, calls) →
      responseCalls calls = some events →
      ∃ done, handleRun ctx h stat blocks = some done ∧ done.run.map Prod.snd = events ∧
        done.session.owing = p ∧ (blocks ≠ [] → done.session.server = p) ∧
        done.session.client = if done.sent.isEmpty then h.client else httpParserInit .request := by
  induction blocks with
  | nil =>
      intro h stat p calls events _ _ run told
      cases run
      cases told
      exact ⟨_, rfl, rfl, rfl, fun none => absurd rfl none, rfl⟩
  | cons b rest ih =>
      intro h stat p calls events ready toClient run told
      obtain ⟨parsed, later, here, there, rfl⟩ := httpRun_cons run
      rw [responseCalls_append] at told
      obtain ⟨events', begun, told⟩ := Option.bind_eq_some_iff.mp told
      obtain ⟨later', ended, rfl⟩ := Option.map_eq_some_iff.mp told
      obtain ⟨way, filled⟩ := toClient b List.mem_cons_self
      have first := sessionHandleData_server ctx stat way here begun
      let next := ({ h with server := parsed.parser } : HttpSession).hear ctx stat (b.stamp events')
      obtain ⟨done, first', ready'⟩ := sessionHandleData_ready ctx stat ready filled
      cases first.symm.trans first'
      have owing : next.session.owing = parsed.parser := by
        have same := server_owing ready filled way first
        show { next.session.server with needReport := next.session.s.needReport } = _
        rw [← same]
        rfl
      obtain ⟨last, run', told', owing', server, client⟩ := ih next.session next.stat p later later'
        ready' (fun other inside => toClient other (List.mem_cons_of_mem b inside))
        (by rw [owing]; exact there) ended
      refine ⟨⟨last.session, last.stat, next.run ++ last.run, next.sent ++ last.sent⟩, ?_, ?_,
        owing', ?_, ?_⟩
      · rw [handleRun, first]
        show (handleRun ctx next.session next.stat rest).bind _ = _
        rw [run']
        rfl
      · rw [List.map_append, told']
        exact congrArg (· ++ _) (stamp_events b events')
      · intro _
        cases rest with
        | nil =>
            cases run'
            cases there
            rfl
        | cons b' rest => exact server (List.cons_ne_nil b' rest)
      · rw [client]
        show (if last.sent.isEmpty then if next.sent.isEmpty then h.client else _ else _) = _
        cases next.sent <;> cases last.sent <;> rfl

end Directions

section Owing

/-- Data changes nothing of what is owed. -/
theorem ledger_plain {calls : List HttpCallback} : ∀ {events : List Event},
    responseCalls calls = some events → ∃ plain, responseCalls (calls.filter isPlain) = some plain ∧
      ∀ l, Runs.after Ledger.step l events = Runs.after Ledger.step l plain := by
  induction calls with
  | nil =>
      intro events told
      cases told
      exact ⟨[], rfl, fun l => rfl⟩
  | cons call rest ih =>
      intro events told
      obtain ⟨first, later, here, there, rfl⟩ := responseCalls_cons told
      obtain ⟨plain, rest', same⟩ := ih there
      have kept : isPlain call = true → ∃ plain, responseCalls ((call :: rest).filter isPlain) =
          some plain ∧ ∀ l, Runs.after Ledger.step l (first ++ later) =
            Runs.after Ledger.step l plain := by
        intro member
        have one : responseCalls [call] = some first := by
          rw [responseCalls, List.mapM_cons, List.mapM_nil, here]
          show some (first ++ []) = some first
          rw [List.append_nil]
        refine ⟨first ++ plain, ?_, ?_⟩
        · rw [List.filter_cons_of_pos member, ← List.singleton_append, responseCalls_append, one,
            rest']
          rfl
        · intro l
          rw [Runs.after_append, Runs.after_append, same]
      cases call with
      | data kind bytes =>
          refine ⟨plain, rest', ?_⟩
          intro l
          rw [Runs.after_append, same]
          cases kind <;> cases here <;> rfl
      | messageBegin => exact kept rfl
      | headersComplete method httpMajor httpMinor statusCode => exact kept rfl
      | messageComplete statusCode => exact kept rfl

theorem responseCalls_mem {calls : List HttpCallback} : ∀ {events : List Event},
    responseCalls calls = some events → ∀ e ∈ events,
      ∃ call ∈ calls, ∃ here, responseEvents call = some here ∧ e ∈ here := by
  induction calls with
  | nil =>
      intro events told e member
      cases told
      exact absurd member List.not_mem_nil
  | cons call rest ih =>
      intro events told e member
      obtain ⟨first, later, here, there, rfl⟩ := responseCalls_cons told
      rcases List.mem_append.mp member with inside | inside
      · exact ⟨call, List.mem_cons_self, first, here, inside⟩
      · obtain ⟨other, member', found⟩ := ih there e inside
        exact ⟨other, List.mem_cons_of_mem call member', found⟩

theorem codeIndex_self (code : StatusCode) : codeIndex code.val = some code :=
  dif_pos code.isLt

/-- Interim responses only pass by. -/
theorem interim_ledger (interim : List Answer) (passing : ∀ a ∈ interim, a.final = false) :
    ∃ events, responseCalls ((interim.flatMap Answer.calls).filter isPlain) = some events ∧
      ∀ l, ∃ code, Runs.after Ledger.step l events = { l with code := code } := by
  induction interim with
  | nil => exact ⟨[], rfl, fun l => ⟨l.code, rfl⟩⟩
  | cons a rest ih =>
      obtain ⟨events, told, passes⟩ := ih fun other inside => passing other (List.mem_cons_of_mem a inside)
      have here : a.final = false := passing a List.mem_cons_self
      have one : responseCalls (a.opening ++ [.messageComplete a.line.code.val]) =
          some [.responseBegin, .responseHeadersComplete a.line.code,
            .responseComplete a.line.code] := by
        simp only [Answer.opening, responseCalls, List.cons_append, List.nil_append, List.mapM_cons,
          List.mapM_nil, responseEvents, codeIndex_self]
        rfl
      refine ⟨[.responseBegin, .responseHeadersComplete a.line.code,
        .responseComplete a.line.code] ++ events, ?_, ?_⟩
      · rw [List.flatMap_cons, List.filter_append, answer_plain, responseCalls_append, one,
          Option.bind_some, told]
        rfl
      · intro l
        have interim' : ¬ a.line.code.val / 100 ≠ 1 := by
          simpa only [Answer.final, decide_eq_false_iff_not] using here
        obtain ⟨code, passes'⟩ := passes { l with code := a.line.code }
        refine ⟨code, ?_⟩
        rw [Runs.after_append]
        show Runs.after Ledger.step
          (Ledger.step { l with code := a.line.code } (.responseComplete a.line.code)).1 events = _
        rw [Ledger.step, if_neg interim']
        exact passes'

variable {interim : List Answer} {final : Answer} {front : List HttpCallback} {events : List Event}

/-- Responses in pieces: the last callback tells that the final one is complete. -/
theorem answers_last {calls : List HttpCallback}
    (same : Http.joined calls = Http.joined ((interim ++ [final]).flatMap Answer.calls)) :
    ∃ front, calls = front ++ [.messageComplete final.line.code.val] ∧
      front.filter isPlain = (interim.flatMap Answer.calls).filter isPlain ++ final.opening := by
  have plain := congrArg (List.filter isPlain) same
  rw [plain_joined, plain_joined, List.flatMap_append, List.flatMap_singleton, List.filter_append,
    answer_plain, ← List.append_assoc] at plain
  have last : (Http.joined calls).getLast? = some (.messageComplete final.line.code.val) := by
    have ends : (interim ++ [final]).flatMap Answer.calls =
        (interim.flatMap Answer.calls ++ ([.messageBegin] ++ (final.content.fields.flatMap Field.calls ++
          (.headersComplete .delete final.line.version.major final.line.version.minor
            final.line.code.val :: final.content.body.calls)))) ++
          [.messageComplete final.line.code.val] := by
      rw [List.flatMap_append, List.flatMap_singleton, Answer.calls]
      simp only [List.append_assoc, List.cons_append]
    rw [same, ends, Http.joined, Joining.join_concat, List.getLast?_concat]
    intro y
    cases y <;> rfl
  have made : ∀ y z, mergeCalls y z ≠ some (.messageComplete final.line.code.val) := by
    intro y z merged
    obtain ⟨kind, first, second, -, -, made⟩ := mergeCalls_some merged
    cases made
  obtain ⟨front, rfl⟩ := List.getLast?_eq_some_iff.mp (Joining.getLast_join mergeCalls made calls last)
  refine ⟨front, rfl, ?_⟩
  rw [List.filter_append] at plain
  exact List.append_cancel_right plain

/-- The last callback brings the last event. -/
theorem completed_last {code : StatusCode} {all : List Event}
    (whole : responseCalls (front ++ [.messageComplete code.val]) = some all) :
    ∃ events, responseCalls front = some events ∧ all = events ++ [.responseComplete code] := by
  have one : responseCalls [.messageComplete code.val] = some [.responseComplete code] := by
    simp only [responseCalls, List.mapM_cons, List.mapM_nil, responseEvents, codeIndex_self]
    rfl
  rw [responseCalls_append, one] at whole
  obtain ⟨events, told, rest⟩ := Option.bind_eq_some_iff.mp whole
  exact ⟨events, told, (Option.some.inj rest).symm⟩

variable (passing : ∀ a ∈ interim, a.final = false)
  (plain : front.filter isPlain = (interim.flatMap Answer.calls).filter isPlain ++ final.opening)
  (told : responseCalls front = some events)
include passing plain told

/-- Before it only the code of the final response was noted. -/
theorem front_ledger (l : Ledger) :
    Runs.after Ledger.step l events = { l with code := final.line.code } := by
  obtain ⟨plain', told', same⟩ := ledger_plain told
  obtain ⟨events', passed, passes⟩ := interim_ledger interim passing
  have begun : responseCalls final.opening =
      some [.responseBegin, .responseHeadersComplete final.line.code] := by
    simp only [Answer.opening, responseCalls, List.mapM_cons, List.mapM_nil, responseEvents,
      codeIndex_self]
    rfl
  rw [plain, responseCalls_append, passed, begun, Option.bind_some] at told'
  cases told'
  obtain ⟨code, passed'⟩ := passes l
  rw [same, Runs.after_append, passed']
  rfl

theorem front_quiet : ∀ e ∈ events, e.isFinal = false := by
  intro e member
  obtain ⟨call, inside, here, brings, member'⟩ := responseCalls_mem told e member
  cases call with
  | data kind bytes =>
      cases kind with
      | url =>
          cases brings
          exact absurd member' List.not_mem_nil
      | _ =>
          cases brings
          rw [List.mem_singleton.mp member']
          rfl
  | messageBegin =>
      cases brings
      rw [List.mem_singleton.mp member']
      rfl
  | headersComplete method httpMajor httpMinor statusCode =>
      obtain ⟨code, -, rfl⟩ := Option.map_eq_some_iff.mp brings
      rw [List.mem_singleton.mp member']
      rfl
  | messageComplete statusCode =>
      obtain ⟨code, found, rfl⟩ := Option.map_eq_some_iff.mp brings
      rw [List.mem_singleton.mp member']
      have kept : .messageComplete statusCode ∈ front.filter isPlain :=
        List.mem_filter.mpr ⟨inside, rfl⟩
      rw [plain, List.mem_append] at kept
      rcases kept with before | opened
      · obtain ⟨a, within, completes⟩ := List.mem_flatMap.mp (List.mem_filter.mp before).1
        have kept' : .messageComplete statusCode ∈ a.calls.filter isPlain :=
          List.mem_filter.mpr ⟨completes, rfl⟩
        rw [answer_plain, Answer.opening] at kept'
        have same : statusCode = a.line.code.val := by simpa using kept'
        have code' := codeIndex_val found
        have interim' := passing a within
        rw [Answer.final, ← same, ← code'] at interim'
        exact interim'
      · simp [Answer.opening] at opened

end Owing

/-- What is sent for these callbacks: they alone bring this report, on whatever connection
they come first, and it has this code. -/
structure OwnReport (ctx : Context) (code : StatusCode) (run : List (Moment × Event))
    (rp : MsgReport) : Prop where
  own : ∀ stat, reports ctx (connStart stat) run = [rp]
  code : rp.value (lit "code") = some (.int (toInt code.val))
  status : rp.value (lit "status") = some (packStr (lit "success"))

section Reports

variable (ctx : Context)

/-- Callbacks up to a final response, where a report is owed. -/
theorem final_reported {opening : List (Moment × Event)} {code : StatusCode} (now : Moment)
    (quiet : ∀ e ∈ opening.map Prod.snd, e.isFinal = false) (final : code.val / 100 ≠ 1)
    (owes : (Runs.after Ledger.step .blank (opening.map Prod.snd)).owes = true)
    (noted : (Runs.after Ledger.step .blank (opening.map Prod.snd)).code = code) :
    ∃ rp, OwnReport ctx code (opening ++ [(now, .responseComplete code)]) rp ∧
      ∀ stat, ∃ stat', after ctx (connStart stat) (opening ++ [(now, .responseComplete code)]) =
        connStart stat' := by
  have stands : ∀ stat, (after ctx (connStart stat) opening).ledger =
      Runs.after Ledger.step .blank (opening.map Prod.snd) := fun stat =>
    ((ledger_simulates ctx).after (connStart stat) opening).symm
  let s : Session := (after ctx (connStart statusInit) opening).s
  let rp := buildReport ctx
    { sessionTimeMark s (some .repTime) now.tv with needReport := false } .success now
  have complete : ∀ stat, ∃ stat', step ctx (after ctx (connStart stat) opening)
      (now, .responseComplete code) = (connStart stat', some rp) := by
    intro stat
    have owes' : (after ctx (connStart stat) opening).s.needReport = true :=
      (congrArg Ledger.owes (stands stat)).trans owes
    obtain ⟨stat', completed⟩ := responseComplete_owed ctx _ code now final owes'
    rw [after_stat ctx (connStart stat) (connStart statusInit) opening rfl] at completed
    exact ⟨stat', completed⟩
  have sent : ∀ stat, reports ctx (connStart stat) (opening ++ [(now, .responseComplete code)]) =
      [rp] := by
    intro stat
    obtain ⟨stat', completed⟩ := complete stat
    have none := reports_quiet ctx (connStart stat) opening quiet
    unfold reports at none ⊢
    unfold after at completed
    rw [Runs.outputs_snoc, none, completed]
    rfl
  have entry : rp.entry = (Runs.after Ledger.step .blank (opening.map Prod.snd)).entry .success := by
    rw [← stands statusInit]
    have marked := sessionTimeMark_ledger s (some .repTime) now.tv
    have same : Ledger.entry _ .success = Ledger.entry _ .success :=
      congrArg (Ledger.entry · .success) marked
    exact (entry_buildReport ctx _ .success now).trans same
  refine ⟨rp, ⟨sent, ?_, congrArg Entry.status entry⟩, ?_⟩
  · have code' := congrArg Entry.code entry
    rw [Ledger.entry, noted] at code'
    exact code'
  · intro stat
    obtain ⟨stat', completed⟩ := complete stat
    refine ⟨stat', ?_⟩
    unfold after at completed ⊢
    rw [Runs.after_snoc, completed]

/-- A request that begins leaves a report to be made. -/
theorem ledger_requests (calls : List HttpCallback) : ∀ l : Ledger,
    l.owes = true ∨ .messageBegin ∈ calls →
      (Runs.after Ledger.step l (calls.map requestEvent)).owes = true := by
  induction calls with
  | nil => exact fun l begun => begun.resolve_right List.not_mem_nil
  | cons call rest ih =>
      intro l begun
      rw [List.map_cons, Runs.after_cons]
      apply ih
      cases call with
      | messageBegin => exact Or.inl rfl
      | data kind bytes =>
          have behind : l.owes = true ∨ .messageBegin ∈ rest := by simpa using begun
          cases kind <;> exact behind
      | _ =>
          have behind : l.owes = true ∨ .messageBegin ∈ rest := by simpa using begun
          exact behind

section Asked

variable {asked : List Block} {p : Parser} {calls : List HttpCallback}
  (toServer : ∀ b ∈ asked, b.toServer = true ∧ b.data ≠ [])
  (asks : httpRun clientParserSettings (httpParserInit .request) (asked.map Block.data) =
    some (p, calls))
  (begins : .messageBegin ∈ calls) (stat : Status)
include toServer asks begins

/-- Behind a request that begins a report is owed. -/
theorem asked_handled : ∃ first, handleRun ctx HttpSession.start stat asked = some first ∧
    first.run.map Prod.snd = calls.map requestEvent ∧ first.sent = [] ∧ first.session.Ready ∧
      first.session.owing = awaiting true := by
  obtain ⟨first, run, told, client, server, none⟩ := handleRun_client ctx asked
    HttpSession.start stat p calls (fun b inside => (toServer b inside).1) asks
  obtain ⟨first', run', ready⟩ := handleRun_ready ctx asked HttpSession.start stat
    start_ready fun b inside => (toServer b inside).2
  cases run.symm.trans run'
  obtain ⟨stands, -⟩ := handleRun_reports asked HttpSession.start stat first run
  have owes : first.session.s.needReport = true := by
    have ledger := (ledger_simulates ctx).after (connStart stat) first.run
    rw [told] at ledger
    have behind := ledger_requests calls (connStart stat).ledger (Or.inr begins)
    rw [ledger] at behind
    exact (congrArg (fun c : Conn => c.s.needReport) stands).symm.trans behind
  refine ⟨first, run, told, none, ready, ?_⟩
  rw [HttpSession.owing, server, owes]
  rfl

/-- What answers it is read from there on, and the first report of it lets the parser of the
requests begin anew. -/
theorem exchanged_events {answered : List Block} {p' : Parser} {calls' : List HttpCallback}
    (toClient : ∀ b ∈ answered, b.toServer = false ∧ b.data ≠ [])
    (answers : httpRun serverParserSettings (awaiting true) (answered.map Block.data) =
      some (p', calls')) :
    ∃ done events, handleRun ctx HttpSession.start stat (asked ++ answered) = some done ∧
      responseCalls calls' = some events ∧
      done.run.map Prod.snd = calls.map requestEvent ++ events ∧
      (answered ≠ [] → done.session.server = p') ∧
      (done.sent ≠ [] → done.session.client = httpParserInit .request) := by
  obtain ⟨first, run, told, none, ready, owing⟩ := asked_handled ctx toServer asks begins stat
  obtain ⟨q, made, sound, -, coded⟩ := httpRun_sound serverParserSettings_sound
    (answered.map Block.data) (awaiting true) (awaiting_ready true)
    (blocks_filled toClient)
  cases sound.symm.trans answers
  obtain ⟨events, told'⟩ := responseCalls_coded calls' coded
  obtain ⟨second, run', told'', -, server, client⟩ := handleRun_server ctx answered first.session
    first.stat p' calls' events ready toClient (by rw [owing]; exact answers) told'
  refine ⟨⟨second.session, second.stat, first.run ++ second.run, first.sent ++ second.sent⟩, events,
    ?_, told', ?_, server, ?_⟩
  · rw [handleRun_append, run, Option.bind_some, run']
    rfl
  · rw [List.map_append, told, told'']
  · intro sent
    rw [none, List.nil_append, ← List.isEmpty_eq_false_iff] at sent
    show second.session.client = _
    rw [client, sent]
    rfl

end Asked

/-- A request that begins, and responses to it up to the final one, in whatever blocks: the
session sends one report, which is theirs, and is as new behind them. -/
theorem dialogue_handled {asked answered : List Block} {p : Parser}
    {calls calls' : List HttpCallback} {interim : List Answer} {final : Answer}
    (toServer : ∀ b ∈ asked, b.toServer = true ∧ b.data ≠ [])
    (toClient : ∀ b ∈ answered, b.toServer = false ∧ b.data ≠ [])
    (asks : httpRun clientParserSettings (httpParserInit .request) (asked.map Block.data) =
      some (p, calls))
    (begins : .messageBegin ∈ calls)
    (answers : httpRun serverParserSettings (awaiting true) (answered.map Block.data) =
      some (httpParserInit .response, calls'))
    (same : Http.joined calls' = Http.joined ((interim ++ [final]).flatMap Answer.calls))
    (passing : ∀ a ∈ interim, a.final = false) (last : final.final = true) (stat : Status) :
    ∃ done events rp, handleRun ctx HttpSession.start stat (asked ++ answered) = some done ∧
      done.session = HttpSession.start ∧ responseCalls calls' = some events ∧
      done.run.map Prod.snd = calls.map requestEvent ++ events ∧ done.sent = [rp] ∧
      OwnReport ctx final.line.code done.run rp := by
  obtain ⟨done, all, total, whole, said, server, client⟩ :=
    exchanged_events ctx toServer asks begins stat toClient answers
  obtain ⟨ends, sent⟩ := handleRun_reports _ _ _ _ total
  obtain ⟨front, rfl, plain⟩ := answers_last same
  obtain ⟨events, told, rfl⟩ := completed_last whole
  rw [← List.append_assoc] at said
  obtain ⟨opening, closing, split, opens, closes⟩ := List.map_eq_append_iff.mp said
  obtain ⟨⟨now, e⟩, rfl, rfl⟩ := List.map_eq_singleton_iff.mp closes
  have debt := ledger_requests calls .blank (Or.inr begins)
  have noted := front_ledger passing plain told
    (Runs.after Ledger.step .blank (calls.map requestEvent))
  obtain ⟨rp, own, anew⟩ := final_reported ctx now
    (by
      rw [opens]
      intro e member
      rcases List.mem_append.mp member with inside | inside
      · exact request_quiet calls e inside
      · exact front_quiet passing plain told e inside)
    (by simpa only [Answer.final, decide_eq_true_eq] using last)
    (by
      rw [opens, Runs.after_append, noted]
      exact debt)
    (by rw [opens, Runs.after_append, noted])
  rw [← split] at own anew
  have one : done.sent = [rp] := sent.symm.trans (own.own stat)
  obtain ⟨stat', new⟩ := anew stat
  have s : done.session.s = sessionInit := congrArg Conn.s (ends.symm.trans new)
  have filled : answered ≠ [] := by
    rintro rfl
    cases answers
  refine ⟨done, _, rp, total, ?_, whole, ?_, one, own⟩
  · have parts : done.session = ⟨done.session.client, done.session.server, done.session.s⟩ := rfl
    rw [parts, client (by rw [one]; exact List.cons_ne_nil rp []), server filled, s]
    rfl
  · rw [said, List.append_assoc]

end Reports

/-- The callbacks of one exchange, and the report they make. -/
abbrev Spoken := List (Moment × Event) × MsgReport

section Sequences

variable (ctx : Context)

/-- Blocks of which each part leaves the session as new are heard part for part. -/
theorem handled_each {α : Type} (Cut : α → List Block → Prop) (Heard : α → Spoken → Prop)
    (each : ∀ x blocks, Cut x blocks → ∀ stat, ∃ done rp,
      handleRun ctx HttpSession.start stat blocks = some done ∧ done.session = HttpSession.start ∧
        done.sent = [rp] ∧ Heard x (done.run, rp)) {xs : List α} {traffic : List (List Block)}
    (cut : List.Forall₂ Cut xs traffic) : ∀ stat : Status, ∃ done heard,
      handleRun ctx HttpSession.start stat traffic.flatten = some done ∧
        done.session = HttpSession.start ∧ List.Forall₂ Heard xs heard ∧
        done.run = heard.flatMap Prod.fst ∧ done.sent = heard.map Prod.snd := by
  induction cut with
  | nil => exact fun stat => ⟨_, [], rfl, rfl, .nil, rfl, rfl⟩
  | cons here _ ih =>
      intro stat
      obtain ⟨first, rp, run, new, sent, tells⟩ := each _ _ here stat
      obtain ⟨later, heard, run', new', all, told, sent'⟩ := ih first.stat
      refine ⟨⟨later.session, later.stat, first.run ++ later.run, first.sent ++ later.sent⟩,
        (first.run, rp) :: heard, ?_, new', .cons tells all, ?_, ?_⟩
      · rw [List.flatten_cons, handleRun_append, run, Option.bind_some, new, run']
        rfl
      · rw [List.flatMap_cons, told]
      · rw [sent, sent']
        rfl

end Sequences

/-- A request comes in these blocks, and behind it what answers it. -/
def Exchanged (request responses : Bytes) (blocks : List Block) : Prop :=
  ∃ asked answered : List Block, blocks = asked ++ answered ∧
    (∀ b ∈ asked, b.toServer = true ∧ b.data ≠ []) ∧
    (∀ b ∈ answered, b.toServer = false ∧ b.data ≠ []) ∧
    asked.flatMap Block.data = request ∧ answered.flatMap Block.data = responses

/-- A request and what answers it: interim responses, and the final one. -/
structure HttpExchange where
  request : RequestMessage
  interim : List ResponseMessage
  reply : ResponseMessage
  passing : ∀ r ∈ interim, r.final = false ∧ r.keeps = true
  last : reply.final = true

namespace HttpExchange

def responses (x : HttpExchange) : List ResponseMessage := x.interim ++ [x.reply]

/-- The lines of the request fit, and so do those of the responses. -/
def Fits (x : HttpExchange) : Prop :=
  Http.Fits RequestMessage.head (fun r => r.content.body) 0 [x.request] ∧
    Http.Fits (fun r => r.head) (fun r => r.content.body) 0 x.responses

/-- The exchange comes in these blocks. -/
def Cut (x : HttpExchange) (blocks : List Block) : Prop :=
  Exchanged x.request.bytes (x.responses.flatMap (·.bytes)) blocks

/-- These callbacks tell the exchange, but for the pieces in which they bring its data, and
the report is theirs. -/
structure Heard (ctx : Context) (x : HttpExchange) (h : Spoken) : Prop where
  told : ∃ asked answered answers, h.1.map Prod.snd = asked.map requestEvent ++ answers ∧
    responseCalls answered = some answers ∧ Http.joined asked = Http.joined x.request.calls ∧
    Http.joined answered = Http.joined (x.responses.flatMap (·.calls))
  report : OwnReport ctx x.reply.line.code h.1 h.2

end HttpExchange

section Exchanges

variable (ctx : Context)

theorem continuing_interim (interim : List ResponseMessage) (reply : ResponseMessage)
    (kept : ∀ r ∈ interim, r.keeps = true) :
    ∀ owed, Continuing owed (interim ++ [reply]) := by
  induction interim with
  | nil => exact fun owed => trivial
  | cons r rest ih =>
      intro owed
      obtain ⟨here, there⟩ := List.forall_mem_cons.mp kept
      have later := ih there (owed && !r.final)
      cases rest with
      | nil => exact ⟨Or.inl here, later⟩
      | cons r' rest => exact ⟨Or.inl here, later⟩

/-- An exchange leaves the session as new, and one report. -/
theorem exchange_handled (x : HttpExchange) (fits : x.Fits) (blocks : List Block)
    (cut : x.Cut blocks) (stat : Status) :
    ∃ done rp, handleRun ctx HttpSession.start stat blocks = some done ∧
      done.session = HttpSession.start ∧ done.sent = [rp] ∧ x.Heard ctx (done.run, rp) := by
  obtain ⟨asked, answered, rfl, toServer, toClient, request, responses⟩ := cut
  obtain ⟨p, ok, asks⟩ := requests_scans [x.request] 0 _ init_awaitsRequest fits.1
    (fun r inside => absurd inside List.not_mem_nil)
  obtain ⟨p', ok', -, fresh, replies⟩ := responses_scans x.responses 0 true _
    (awaiting_awaits true) fits.2
    (continuing_interim x.interim x.reply (fun r inside => (x.passing r inside).2) true)
  have quiet : (x.interim.any fun r => r.final) = false :=
    List.any_eq_false.mpr fun r inside => by rw [(x.passing r inside).1]; exact Bool.false_ne_true
  rw [fresh x.interim x.reply rfl x.last (by rw [quiet]; rfl)] at replies
  obtain ⟨calls, run, same⟩ := asks.whole.run clientParserSettings_sound
    (httpParserInit_ready .request) rfl ok rfl (asked.map Block.data) (blocks_filled toServer)
    (by rw [List.flatMap_singleton, ← request]; rfl)
  obtain ⟨calls', run', same'⟩ := replies.whole.run serverParserSettings_sound (awaiting_ready true)
    rfl rfl rfl (answered.map Block.data) (blocks_filled toClient) responses
  rw [List.flatMap_singleton] at same
  have begins : .messageBegin ∈ calls := by
    have plain := congrArg (List.filter isPlain) same
    rw [plain_joined, plain_joined] at plain
    have told : .messageBegin ∈ x.request.calls.filter isPlain := by
      rw [RequestMessage.calls, List.cons_append, List.filter_cons_of_pos rfl]
      exact List.mem_cons_self
    rw [← plain] at told
    exact (List.mem_filter.mp told).1
  have answers : (x.interim.map (·.toAnswer) ++ [x.reply.toAnswer]).flatMap Answer.calls =
      x.responses.flatMap (·.calls) := by
    rw [HttpExchange.responses, List.flatMap_append, List.flatMap_append, List.flatMap_map]
    rfl
  obtain ⟨done, events, rp, handled, new, told, said, sent, own⟩ := dialogue_handled ctx
    toServer toClient run begins run' (same'.trans (congrArg Http.joined answers.symm))
    (by
      intro a inside
      obtain ⟨r, member, rfl⟩ := List.mem_map.mp inside
      exact (x.passing r member).1)
    x.last stat
  exact ⟨done, rp, handled, new, sent, ⟨calls, calls', events, said, told, same, same'⟩, own⟩

end Exchanges

end Bscope
