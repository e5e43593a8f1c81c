import Bscope.HandleData
import Bscope.Interleaves

set_option autoImplicit false

namespace Bscope

/-- What the ledger keeps of the request. -/
def Ledger.asked (l : Ledger) : Bool × Option CStr × HttpMethod := (l.owes, l.path, l.method)

theorem ledger_same (l l' : Ledger) (e : Event) (same : l.asked = l'.asked)
    (quiet : e.isFinal = false) : (l.step e).1.asked = (l'.step e).1.asked := by
  obtain ⟨owes, path, method, code⟩ := l
  obtain ⟨owes', path', method', code'⟩ := l'
  cases same
  cases e with
  | responseComplete statusCode =>
      have passes : statusCode.val / 100 = 1 := by simpa [Event.isFinal] using quiet
      simp [Ledger.step, passes, Ledger.asked]
  | _ => rfl

theorem ledger_server (l : Ledger) (e : Event) (response : e.isRequest = false)
    (quiet : e.isFinal = false) : (l.step e).1.asked = l.asked := by
  cases e with
  | responseComplete statusCode =>
      have passes : statusCode.val / 100 = 1 := by simpa [Event.isFinal] using quiet
      simp [Ledger.step, passes]
  | responseBegin => rfl
  | reponseHeaderField data => rfl
  | reponseHeaderValue data => rfl
  | responseHeadersComplete statusCode => rfl
  | responseBody data => rfl
  | _ => cases response

/-- Between two final responses only the client writes what is kept of a request. -/
theorem ledger_client (l l' : Ledger) (events : List Event) (same : l.asked = l'.asked)
    (quiet : finals events = 0) :
    (Runs.after Ledger.step l events).asked =
      (Runs.after Ledger.step l' (events.filter Event.isRequest)).asked := by
  induction events generalizing l l' with
  | nil => exact same
  | cons e events ih =>
      rw [finals, List.countP_eq_zero] at quiet
      have now : e.isFinal = false := by simpa using quiet e List.mem_cons_self
      have later : finals events = 0 :=
        List.countP_eq_zero.mpr fun e' member => quiet e' (List.mem_cons_of_mem e member)
      cases mine : e.isRequest
      · rw [List.filter_cons_of_neg (by simp [mine]), Runs.after_cons]
        exact ih _ _ ((ledger_server l e mine now).trans same) later
      · rw [List.filter_cons_of_pos mine, Runs.after_cons, Runs.after_cons]
        exact ih _ _ (ledger_same l l' e same now) later

theorem ledger_part (l : Ledger) (r : Request) (more : List Event) (inside : more <+: r.body) :
    (Runs.after Ledger.step l (r.head ++ more)).asked =
      (true, some (strndup r.url r.url.length), r.method) := by
  rw [Runs.after_append, ledger_head, ledger_idle]
  · rfl
  · intro e member
    have member := inside.subset member
    simp only [Request.body, List.mem_append, List.mem_map, List.mem_singleton] at member
    rcases member with ⟨data, -, rfl⟩ | rfl <;> exact fun l => rfl

theorem begins_at (front back : List Event) :
    begins (front ++ .requestBegin :: back) = begins front + begins back + 1 := by
  rw [begins, List.countP_append, List.countP_cons]
  rfl

theorem last_begin_unique (front front' mid mid' : List Event)
    (same : front ++ .requestBegin :: mid = front' ++ .requestBegin :: mid')
    (last : begins mid = 0) (last' : begins mid' = 0) : mid = mid' := by
  have apart : ∀ between mid mid' : List Event, begins mid = 0 →
      Event.requestBegin :: mid = between ++ .requestBegin :: mid' → mid = mid' := by
    intro between mid mid' last same
    cases between with
    | nil => exact (List.cons.inj same).2
    | cons e between =>
        have inner : mid = between ++ .requestBegin :: mid' := (List.cons.inj same).2
        rw [inner, begins_at] at last
        omega
  rcases List.append_eq_append_iff.mp same with ⟨between, -, rest⟩ | ⟨between, -, rest⟩
  · exact apart between mid mid' last rest
  · exact (apart between mid' mid last' rest).symm

/-- While the last begun request is unanswered and its headers are complete, the
ledger holds its request line. -/
theorem ledger_current (xs : List Exchange) (front mid : List Event)
    (woven : Interleaves xs (front ++ .requestBegin :: mid)) (last : begins mid = 0)
    (unanswered : finals mid = 0)
    (complete : heads (front ++ .requestBegin :: mid) = begins (front ++ .requestBegin :: mid)) :
    ∃ x, xs[begins front]? = some x ∧
      (Runs.after Ledger.step .blank (front ++ .requestBegin :: mid)).asked =
        (true, some (strndup x.request.url x.request.url.length), x.request.method) := by
  have count := begins_at front mid
  rcases client_stand xs _ woven with
    ⟨begun, -⟩ | ⟨done, x, rest, part, split, stand, within, some_part, begun, headed⟩
  · omega
  · obtain ⟨one, -, whole⟩ := part_counts x.request part within some_part
    obtain ⟨more, rfl, inside⟩ := whole (by omega)
    obtain ⟨middle, head, -⟩ := request_split x.request
    have tail : mid.filter Event.isRequest =
        middle ++ [.requestHeadersComplete x.request.method x.request.httpMajor
          x.request.httpMinor] ++ more := by
      rw [List.filter_append, List.filter_cons_of_pos rfl, head] at stand
      refine last_begin_unique _ _ _ _ stand ?_ ?_
      · rw [begins, ← countP_client Event.isBegin begin_client]
        exact last
      · rw [head] at one
        have first := begins_at [] (middle ++ [.requestHeadersComplete x.request.method
          x.request.httpMajor x.request.httpMinor] ++ more)
        have total : 0 + _ + 1 = 1 := first.symm.trans one
        omega
    refine ⟨x, ?_, ?_⟩
    · have position : begins front = done.length := by omega
      rw [split, position, List.getElem?_append_right (Nat.le_refl _), Nat.sub_self]
      rfl
    · rw [Runs.after_append, ledger_client _ _ (.requestBegin :: mid) rfl unanswered,
        List.filter_cons_of_pos rfl, tail]
      have entered := ledger_part (Runs.after Ledger.step .blank front) x.request more inside
      rw [head] at entered
      exact entered

/-- What a report says about its request. -/
def MsgReport.line (rp : MsgReport) : Option Packed × Option Packed :=
  (rp.value (lit "path"), rp.value (lit "method"))

def Exchange.line (x : Exchange) : Option Packed × Option Packed :=
  (some (packStr (strndup x.request.url x.request.url.length)),
    some (packStr (httpMethodStr x.request.method)))

def Entry.line (entry : Entry) : Option Packed × Option Packed := (entry.path, entry.method)

theorem settle_line (l : Ledger) (x : Exchange) (type : CloseType)
    (holds : l.asked =
      (true, some (strndup x.request.url x.request.url.length), x.request.method)) :
    ∃ entry : Entry, (l.settle type).2 = some entry ∧ entry.line = x.line := by
  obtain ⟨owes, path, method, code⟩ := l
  cases holds
  exact ⟨_, rfl, rfl⟩

/-- Where the ledger stands after an unpipelined run: as many entries as final
responses, each with its own line, and one more report owed if a request is open. -/
structure Answered (xs : List Exchange) (events : List Event) : Prop where
  lines : (Runs.outputs Ledger.step .blank events).map Entry.line =
    (xs.take (finals events)).map Exchange.line
  turn : (begins events = finals events ∧ (Runs.after Ledger.step .blank events).owes = false) ∨
    (begins events = finals events + 1 ∧ (Runs.after Ledger.step .blank events).owes = true ∧
      ∃ front mid, events = front ++ .requestBegin :: mid ∧ begins mid = 0 ∧ finals mid = 0)

theorem finals_snoc (events : List Event) (e : Event) :
    finals (events ++ [e]) = finals events + if e.isFinal then 1 else 0 := by
  rw [finals, List.countP_append, List.countP_singleton]
  rfl

theorem begins_snoc (events : List Event) (e : Event) :
    begins (events ++ [e]) = begins events + if e.isBegin then 1 else 0 := by
  rw [begins, List.countP_append, List.countP_singleton]
  rfl

theorem answered_begin (xs : List Exchange) (events : List Event) (so_far : Answered xs events)
    (turn : begins events = finals events) : Answered xs (events ++ [.requestBegin]) where
  lines := by
    rw [Runs.outputs_snoc, finals_snoc]
    simpa [Ledger.step, Event.isFinal] using so_far.lines
  turn := by
    rw [begins_snoc, finals_snoc, Runs.after_snoc]
    exact Or.inr ⟨congrArg (· + 1) turn, rfl, events, [], rfl, rfl, rfl⟩

theorem answered_final (xs : List Exchange) (events : List Event) (e : Event)
    (woven : Interleaves xs (events ++ [e])) (so_far : Answered xs events)
    (final : e.isFinal = true) : Answered xs (events ++ [e]) := by
  have before := interleaves_front xs events [e] woven
  have asked := woven.answers events e [] rfl (final_server e final)
  have few := heads_le_begins xs events before
  rcases so_far.turn with ⟨even, -⟩ | ⟨odd, -, front, mid, split, last, unanswered⟩
  · omega
  · have not_begin : e.isBegin = false := by
      cases e <;> first | rfl | cases final
    subst split
    obtain ⟨x, position, holds⟩ :=
      ledger_current xs front mid before last unanswered (by omega)
    have count := begins_at front mid
    obtain ⟨entry, settled, line⟩ := settle_line _ x .success holds
    constructor
    · rw [Runs.outputs_snoc, ledger_final _ e final, settled, List.map_append, so_far.lines,
        finals_snoc, if_pos final, List.take_add_one, List.map_append]
      have same : finals (front ++ .requestBegin :: mid) = begins front := by omega
      rw [same, position]
      exact congrArg (_ ++ [·]) line
    · left
      rw [begins_snoc, finals_snoc, Runs.after_snoc, ledger_final _ e final, if_pos final,
        not_begin]
      exact ⟨odd, settle_owes _ _⟩

theorem answered_other (xs : List Exchange) (events : List Event) (e : Event)
    (so_far : Answered xs events) (later : e.isBegin = false) (quiet : e.isFinal = false) :
    Answered xs (events ++ [e]) := by
  obtain ⟨silent, owes⟩ := ledger_other (Runs.after Ledger.step .blank events) e later quiet
  constructor
  · rw [Runs.outputs_snoc, silent, finals_snoc, quiet]
    simpa using so_far.lines
  · rw [begins_snoc, finals_snoc, Runs.after_snoc, owes, later, quiet]
    rcases so_far.turn with even | ⟨odd, open_one, front, mid, split, last, unanswered⟩
    · exact Or.inl even
    · refine Or.inr ⟨odd, open_one, front, mid ++ [e], by rw [split]; simp, ?_, ?_⟩
      · rw [begins_snoc, last, later]
        rfl
      · rw [finals_snoc, unanswered, quiet]
        rfl

theorem unpipelined_answered (xs : List Exchange) (events : List Event)
    (woven : Interleaves xs events) (single : Unpipelined events) : Answered xs events := by
  induction events using List.reverseRecOn with
  | nil => exact ⟨rfl, Or.inl ⟨rfl, rfl⟩⟩
  | append_singleton events e ih =>
      have so_far := ih (interleaves_front xs events [e] woven)
        (fun front back split => single front (back ++ [e]) (by rw [split]; simp))
      by_cases first : e = .requestBegin
      · subst first
        exact answered_begin xs events so_far (single events [] rfl).symm
      · have later : e.isBegin = false := by
          cases e <;> first | rfl | exact absurd rfl first
        cases final : e.isFinal
        · exact answered_other xs events e so_far later final
        · exact answered_final xs events e woven so_far final

/-- No run makes more entries than requests were begun. -/
theorem owed_le (l : Ledger) (events : List Event) :
    (Runs.outputs Ledger.step l events).length + (Runs.after Ledger.step l events).owes.toNat ≤
      l.owes.toNat + begins events := by
  induction events generalizing l with
  | nil => exact (Nat.zero_add _).le
  | cons e events ih =>
      have later := ih (l.step e).1
      rw [Runs.outputs_cons, Runs.after_cons, List.length_append, begins, List.countP_cons]
      change _ ≤ _ + (begins events + _)
      have once : (l.step e).2.toList.length + (l.step e).1.owes.toNat ≤
          l.owes.toNat + if e.isBegin = true then 1 else 0 := by
        cases final : e.isFinal
        · cases first : e.isBegin
          · obtain ⟨silent, owes⟩ := ledger_other l e first final
            rw [silent, owes]
            exact (Nat.zero_add _).le
          · obtain rfl := begin_eq e first
            exact Nat.le_add_left 1 _
        · rw [ledger_final l e final, settle_length, settle_owes]
          exact Nat.le_add_right _ _
      omega

theorem outputs_le_finals (l : Ledger) (events : List Event) :
    (Runs.outputs Ledger.step l events).length ≤ finals events := by
  induction events using List.reverseRecOn with
  | nil => exact Nat.le_refl 0
  | append_singleton events e ih =>
      rw [Runs.outputs_snoc, List.length_append, finals_snoc]
      cases final : e.isFinal
      · cases first : e.isBegin
        · rw [(ledger_other _ e first final).1]
          exact ih
        · obtain rfl := begin_eq e first
          exact ih
      · rw [ledger_final _ e final, settle_length]
        have one := Bool.toNat_le (Runs.after Ledger.step l events).owes
        exact Nat.add_le_add ih one

/-- A request that begins before the last one is answered costs a report. -/
theorem pipelined_fewer (xs : List Exchange) (events : List Event) (woven : Interleaves xs events)
    (pipelined : ¬ Unpipelined events) :
    (Runs.outputs Ledger.step .blank events).length +
      (Runs.after Ledger.step .blank events).owes.toNat < begins events := by
  unfold Unpipelined at pipelined
  push Not at pipelined
  obtain ⟨front, back, rfl, overlap⟩ := pipelined
  have before := interleaves_front xs front _ woven
  have answered := finals_le_heads xs front before
  have headed := heads_le_begins xs front before
  have given := outputs_le_finals .blank front
  have later := owed_le ((Runs.after Ledger.step .blank front).step .requestBegin).1 back
  rw [Runs.outputs_append, Runs.outputs_cons, Runs.after_append, Runs.after_cons,
    List.length_append, List.length_append, begins_at]
  change _ ≤ 1 + begins back at later
  change _ + (0 + _) + _ < _
  omega

theorem allReports_ledger (ctx : Context) (stat : Status) (run : List (Moment × Event))
    (type : CloseType) (now : Moment) :
    (allReports ctx (connStart stat) run type now).map MsgReport.entry =
      Runs.outputs Ledger.step .blank (run.map Prod.snd) ++
        ((Runs.after Ledger.step .blank (run.map Prod.snd)).settle type).2.toList := by
  have given := (ledger_simulates ctx).outputs (connStart stat) run
  have stands := (ledger_simulates ctx).after (connStart stat) run
  change _ = (after ctx (connStart stat) run).ledger at stands
  have closed := sessionClose_ledger ctx (after ctx (connStart stat) run) type now
  rw [← stands] at closed
  change Runs.outputs Ledger.step .blank _ = (reports ctx (connStart stat) run).map _ at given
  change _ = ((Runs.after Ledger.step .blank _).settle type).2 at closed
  rw [allReports, List.map_append, given, ← closed]
  cases sessionClose ctx (after ctx (connStart stat) run) type now <;> rfl

/-- Every begun request has its one report, and the reports tell, in order, the
request lines that came in. -/
def Reported (xs : List Exchange) (events : List Event) (all : List MsgReport) : Prop :=
  all.length = begins events ∧ ∀ k x, k < heads events → xs[k]? = some x →
    all[k]?.map MsgReport.line = some x.line

theorem answered_settled (xs : List Exchange) (events : List Event) (type : CloseType)
    (woven : Interleaves xs events) (stands : Answered xs events) :
    let entries := Runs.outputs Ledger.step .blank events ++
      ((Runs.after Ledger.step .blank events).settle type).2.toList
    entries.length = begins events ∧ ∀ k x, k < heads events → xs[k]? = some x →
      (entries.map Entry.line)[k]? = some x.line := by
  have headed := heads_le_begins xs events woven
  have answered := finals_le_heads xs events woven
  have known : finals events ≤ xs.length := by
    rcases client_stand xs events woven with ⟨-, headless⟩ | ⟨done, x, rest, -, rfl, -, -, -, begun, -⟩
    · omega
    · rw [List.length_append, List.length_cons]
      omega
  have count : (Runs.outputs Ledger.step .blank events).length = finals events := by
    have lengths := congrArg List.length stands.lines
    rw [List.length_map, List.length_map, List.length_take] at lengths
    omega
  have early : ∀ k x, k < finals events → xs[k]? = some x →
      ((Runs.outputs Ledger.step .blank events).map Entry.line)[k]? = some x.line := by
    intro k x earlier place
    rw [stands.lines, List.getElem?_map, List.getElem?_take_of_lt earlier, place]
    rfl
  intro entries
  refine ⟨?_, ?_⟩
  · rw [List.length_append, settle_length, count]
    rcases stands.turn with ⟨even, owes⟩ | ⟨odd, owes, -⟩
    · rw [owes, even]
      rfl
    · rw [owes, odd]
      rfl
  · intro k x inside place
    rw [List.map_append]
    by_cases earlier : k < finals events
    · rw [List.getElem?_append_left (by rw [List.length_map, count]; exact earlier)]
      exact early k x earlier place
    · rcases stands.turn with ⟨even, -⟩ | ⟨odd, -, front, mid, split, last, unanswered⟩
      · omega
      · subst split
        obtain ⟨y, position, holds⟩ := ledger_current xs front mid woven last unanswered (by omega)
        obtain ⟨entry, settled, line⟩ := settle_line _ y type holds
        have count_begins := begins_at front mid
        have here : begins front = k := by omega
        rw [List.getElem?_append_right (by rw [List.length_map, count]; omega), settled,
          List.length_map, count, show k - finals _ = 0 by omega]
        rw [here, place] at position
        obtain rfl := Option.some.inj position
        exact congrArg some line

/-- No request is lost or merged exactly when the client waits for each response
before its next request. -/
theorem interleaved_reported (ctx : Context) (stat : Status) (xs : List Exchange)
    (run : List (Moment × Event)) (type : CloseType) (now : Moment)
    (woven : Interleaves xs (run.map Prod.snd)) :
    Reported xs (run.map Prod.snd) (allReports ctx (connStart stat) run type now) ↔
      Unpipelined (run.map Prod.snd) := by
  have entries := allReports_ledger ctx stat run type now
  have lengths := congrArg List.length entries
  rw [List.length_map] at lengths
  constructor
  · rintro ⟨count, -⟩
    by_contra pipelined
    have fewer := pipelined_fewer xs _ woven pipelined
    rw [List.length_append, settle_length] at lengths
    omega
  · intro single
    obtain ⟨count, lines⟩ :=
      answered_settled xs _ type woven (unpipelined_answered xs _ woven single)
    refine ⟨lengths.trans count, fun k x inside place => ?_⟩
    have told := lines k x inside place
    rw [← entries, List.map_map, List.getElem?_map] at told
    exact told

theorem split_getElem {α : Type} (events front back : List α) (e : α)
    (split : events = front ++ e :: back) :
    ∃ k : Fin events.length, events[k] = e ∧ events.take k = front := by
  subst split
  refine ⟨⟨front.length, by simp⟩, ?_, ?_⟩
  · simp
  · simp

theorem answers_of_take (events : List Event)
    (each : ∀ k : Fin events.length, events[k].isRequest = false →
      finals (events.take k) < heads (events.take k)) :
    ∀ front e back, events = front ++ e :: back → e.isRequest = false →
      finals front < heads front := by
  intro front e back split response
  obtain ⟨k, rfl, rfl⟩ := split_getElem events front back e split
  exact each k response

theorem between_of_take (events : List Event)
    (each : ∀ k : Fin events.length, events[k].isFinal = true →
      endings (events.take k) = begins (events.take k)) :
    ∀ front e back, events = front ++ e :: back → e.isFinal = true →
      endings front = begins front := by
  intro front e back split final
  obtain ⟨k, rfl, rfl⟩ := split_getElem events front back e split
  exact each k final

theorem unpipelined_of_take (events : List Event)
    (each : ∀ k : Fin events.length, events[k] = .requestBegin →
      finals (events.take k) = begins (events.take k)) : Unpipelined events := by
  intro front back split
  obtain ⟨k, here, rfl⟩ := split_getElem events front back _ split
  exact each k here

/-- A request for `url` and the plain answer to it. -/
def plainExchange (method : HttpMethod) (url : Bytes) (chunks : List Bytes) : Exchange where
  request := ⟨url, [], method, 1, 1, chunks⟩
  reply := ⟨[], ⟨[], 200, []⟩, nofun, by unfold Response.Interim; decide⟩

def twoExchanges : List Exchange :=
  [plainExchange .post (asc "/a") [asc "k=v"], plainExchange .get (asc "/b") []]

/-- The answer to the first request begins before its body came in. -/
def earlyRun : List (Moment × Event) :=
  ([.requestBegin, .requestUrl (asc "/a"), .requestHeadersComplete .post 1 1,
    .responseBegin, .responseHeadersComplete 200,
    .requestBody (asc "k=v"), .requestComplete, .responseComplete 200,
    .requestBegin, .requestUrl (asc "/b"), .requestHeadersComplete .get 1 1, .requestComplete,
    .responseBegin, .responseHeadersComplete 200, .responseComplete 200] : List Event).map
    (default, ·)

theorem earlyRun_interleaves : Interleaves twoExchanges (earlyRun.map Prod.snd) :=
  ⟨by decide, by decide, answers_of_take _ (by decide), between_of_take _ (by decide)⟩

theorem interleaved_reported_early : Reported twoExchanges (earlyRun.map Prod.snd)
    (allReports localContext (connStart statusInit) earlyRun .close default) :=
  (interleaved_reported localContext statusInit twoExchanges earlyRun .close default
    earlyRun_interleaves).mpr (unpipelined_of_take _ (by decide))

/-- The second request begins before the first is answered. -/
def pipelinedRun : List (Moment × Event) :=
  ([.requestBegin, .requestUrl (asc "/a"), .requestHeadersComplete .post 1 1,
    .requestBody (asc "k=v"), .requestComplete,
    .requestBegin, .requestUrl (asc "/b"), .requestHeadersComplete .get 1 1, .requestComplete,
    .responseBegin, .responseHeadersComplete 200, .responseComplete 200,
    .responseBegin, .responseHeadersComplete 200, .responseComplete 200] : List Event).map
    (default, ·)

/-- A request whose body comes behind its final response, and another one, answered too. -/
def earlyBlocks : List Block :=
  [⟨true, asc "POST /a HTTP/1.1\r\nContent-Length: 3\r\n\r\n", fun _ => default⟩,
    ⟨false, asc "HTTP/1.1 200 OK\r\nContent-Length: 0\r\n\r\n", fun _ => default⟩,
    ⟨true, asc "k=v", fun _ => default⟩,
    ⟨true, asc "GET /b HTTP/1.1\r\n\r\n", fun _ => default⟩,
    ⟨false, asc "HTTP/1.1 200 OK\r\nContent-Length: 0\r\n\r\n", fun _ => default⟩]

/-- Of two pipelined requests one report is made, and it tells the line of the second. Of
two others, the first of which is answered before its body came in, the second is lost: the
parser, which begins anew at the answer, takes the body for a request. -/
theorem requests_merged :
    (Interleaves twoExchanges (pipelinedRun.map Prod.snd) ∧
      begins (pipelinedRun.map Prod.snd) = 2 ∧
      (allReports localContext (connStart statusInit) pipelinedRun .close default).map MsgReport.line =
        [(some (packStr (lit "/b")), some (packStr (lit "GET")))] ∧
      ¬ Reported twoExchanges (pipelinedRun.map Prod.snd)
        (allReports localContext (connStart statusInit) pipelinedRun .close default)) ∧
      ∃ done, handleRun localContext HttpSession.start statusInit earlyBlocks = some done ∧
        done.sent.map MsgReport.line =
          [(some (packStr (lit "/a")), some (packStr (lit "POST")))] ∧
        sessionClose localContext ⟨done.session.s, done.stat⟩ .close default = none := by
  constructor
  · refine ⟨⟨by decide, by decide, answers_of_take _ (by decide), between_of_take _ (by decide)⟩,
      by decide, ?_⟩
    have entries := allReports_ledger localContext statusInit pipelinedRun .close default
    have lines := congrArg (List.map Entry.line) entries
    rw [List.map_map] at lines
    have one := lines.trans (by decide :
      _ = [(some (packStr (lit "/b")), some (packStr (lit "GET")))])
    refine ⟨one, fun reported => ?_⟩
    have count := (congrArg List.length one).symm.trans (List.length_map _) |>.trans reported.1
    exact absurd count (by decide)
  · have told : (handleRun localContext HttpSession.start statusInit earlyBlocks).map
        (fun done => done.run.map Prod.snd) = some
          [.requestBegin, .requestUrl (asc "/a"), .requestHeaderField (asc "Content-Length"),
            .requestHeaderValue (asc "3"), .requestHeadersComplete .post 1 1, .responseBegin,
            .reponseHeaderField (asc "Content-Length"), .reponseHeaderValue (asc "0"),
            .responseHeadersComplete 200, .responseComplete 200, .responseBegin,
            .reponseHeaderField (asc "Content-Length"), .reponseHeaderValue (asc "0"),
            .responseHeadersComplete 200, .responseComplete 200] := by
      decide +kernel
    obtain ⟨done, run, events⟩ := Option.map_eq_some_iff.mp told
    obtain ⟨stands, sent⟩ := handleRun_reports earlyBlocks HttpSession.start statusInit done run
    have entries := (ledger_simulates localContext).outputs (connStart statusInit) done.run
    have ledger := (ledger_simulates localContext).after (connStart statusInit) done.run
    have closed := sessionClose_ledger localContext ⟨done.session.s, done.stat⟩ .close default
    rw [events] at entries ledger
    have sent' : Runs.outputs (step localContext) (connStart statusInit) done.run = done.sent := sent
    have stands' : Runs.after (step localContext) (connStart statusInit) done.run =
        ⟨done.session.s, done.stat⟩ := stands
    rw [sent'] at entries
    rw [stands'] at ledger
    refine ⟨done, run, ?_, ?_⟩
    · have lines := congrArg (List.map Entry.line) entries
      rw [List.map_map] at lines
      exact lines.symm.trans (by decide)
    · rw [← ledger] at closed
      exact Option.map_eq_none_iff.mp (closed.trans (by decide))

end Bscope
