import Bscope.Exchange

set_option autoImplicit false

namespace Bscope

/-- An exchange with the time of each of its callbacks, the last one apart. -/
structure TimedExchange where
  exchange : Exchange
  opening : List (Moment × Event)
  now : Moment
  ordered : opening.map Prod.snd = exchange.request.events ++ exchange.reply.opening

namespace TimedExchange

def run (x : TimedExchange) : List (Moment × Event) :=
  x.opening ++ [(x.now, .responseComplete x.exchange.reply.final.statusCode)]

/-- The session that the events of this exchange alone, on a new connection, hand
to its report. -/
def session (ctx : Context) (x : TimedExchange) : Session :=
  { sessionTimeMark (after ctx (connStart statusInit) x.opening).s (some .repTime) x.now.tv with
    needReport := false }

def report (ctx : Context) (x : TimedExchange) : MsgReport :=
  buildReport ctx (x.session ctx) .success x.now

/-- The report is about this exchange, and all it packs comes from its events. -/
structure Own (ctx : Context) (x : TimedExchange) : Prop where
  path : (x.report ctx).value (lit "path") =
    some (packStr (strndup x.exchange.request.url x.exchange.request.url.length))
  method : (x.report ctx).value (lit "method") =
    some (packStr (httpMethodStr x.exchange.request.method))
  code : (x.report ctx).value (lit "code") =
    some (.int (toInt x.exchange.reply.final.statusCode.val))
  status : (x.report ctx).value (lit "status") = some (packStr (lit "success"))
  entries : ∀ kv ∈ (x.session ctx).proplist, ∃ front now e back,
    x.run = front ++ (now, e) :: back ∧
      kv ∈ captures ctx.cfg (after ctx (connStart statusInit) front).s e
  fragments : ∀ b ∈ (x.session ctx).responseBody, ∃ now, (now, .responseBody b.data) ∈ x.run

end TimedExchange

/-- The shared segment has no influence on the session or on what is reported. -/
theorem step_stat (ctx : Context) (s : Session) (stat stat' : Status) (e : Moment × Event) :
    (step ctx ⟨s, stat⟩ e).1.s = (step ctx ⟨s, stat'⟩ e).1.s ∧
      (step ctx ⟨s, stat⟩ e).2 = (step ctx ⟨s, stat'⟩ e).2 := by
  obtain ⟨now, e⟩ := e
  cases e with
  | responseComplete statusCode =>
      change (responseComplete ctx ⟨s, stat⟩ statusCode now).1.s =
          (responseComplete ctx ⟨s, stat'⟩ statusCode now).1.s ∧
        (responseComplete ctx ⟨s, stat⟩ statusCode now).2 =
          (responseComplete ctx ⟨s, stat'⟩ statusCode now).2
      unfold responseComplete sessionReport
      dsimp only
      split_ifs <;> exact ⟨rfl, rfl⟩
  | _ => exact ⟨rfl, rfl⟩

theorem after_stat (ctx : Context) (c c' : Conn) (run : List (Moment × Event)) (same : c.s = c'.s) :
    (after ctx c run).s = (after ctx c' run).s := by
  induction run generalizing c c' with
  | nil => exact same
  | cons e run ih =>
      refine ih _ _ ?_
      obtain ⟨s, stat⟩ := c
      obtain ⟨s', stat'⟩ := c'
      obtain rfl : s = s' := same
      exact (step_stat ctx s stat stat' e).1

theorem reports_stat (ctx : Context) (run : List (Moment × Event)) : ∀ (s : Session) (stat stat' : Status),
    reports ctx ⟨s, stat⟩ run = reports ctx ⟨s, stat'⟩ run := by
  unfold reports
  induction run with
  | nil => exact fun _ _ _ => rfl
  | cons e run ih =>
      intro s stat stat'
      obtain ⟨session, sent⟩ := step_stat ctx s stat stat' e
      rw [Runs.outputs_cons, Runs.outputs_cons, sent]
      have rest := ih (step ctx ⟨s, stat⟩ e).1.s (step ctx ⟨s, stat⟩ e).1.stat
        (step ctx ⟨s, stat'⟩ e).1.stat
      exact congrArg (_ ++ ·) (rest.trans (by rw [session]))

/-- No event before the last one of an exchange is answered. -/
theorem trace_quiet (ctx : Context) (c : Conn) (run : List (Moment × Event))
    (quiet : ∀ e ∈ run.map Prod.snd, e.isFinal = false) :
    trace ctx c run = List.replicate run.length none := by
  induction run generalizing c with
  | nil => rfl
  | cons e run ih =>
      have first := step_not_final ctx c e.1 e.2 (quiet e.2 List.mem_cons_self)
      have rest := ih (step ctx c e).1 (fun e' member => quiet e' (List.mem_cons_of_mem _ member))
      unfold trace at rest ⊢
      rw [Runs.trace_cons, rest, List.length_cons, List.replicate_succ]
      exact congrArg (· :: _) first

theorem opening_quiet (x : TimedExchange) : ∀ e ∈ x.opening.map Prod.snd, e.isFinal = false := by
  intro e member
  rw [x.ordered, List.mem_append] at member
  rcases member with asked | answered
  · exact request_not_final _ e asked
  · exact reply_not_final _ e answered

theorem opening_ledger (ctx : Context) (c : Conn) (x : TimedExchange) :
    (after ctx c x.opening).ledger =
      ⟨true, some (strndup x.exchange.request.url x.exchange.request.url.length),
        x.exchange.request.method, x.exchange.reply.final.statusCode⟩ := by
  have entered := ledger_exchange c.ledger x.exchange
  rw [← x.ordered, (ledger_simulates ctx).after] at entered
  exact entered

/-- A final response complete with a report owed sends it and starts afresh. -/
theorem responseComplete_owed (ctx : Context) (c : Conn) (statusCode : StatusCode) (now : Moment)
    (final : statusCode.val / 100 ≠ 1) (owes : c.s.needReport = true) :
    ∃ stat, responseComplete ctx c statusCode now =
      (connStart stat, some (buildReport ctx
        { sessionTimeMark c.s (some .repTime) now.tv with needReport := false } .success now)) := by
  unfold responseComplete sessionReport
  rw [if_pos final, if_pos (by exact owes)]
  exact ⟨_, rfl⟩

theorem exchange_completes (ctx : Context) (stat : Status) (x : TimedExchange) :
    ∃ stat', step ctx (after ctx (connStart stat) x.opening)
        (x.now, .responseComplete x.exchange.reply.final.statusCode) =
      (connStart stat', some (x.report ctx)) := by
  have owes := congrArg Ledger.owes (opening_ledger ctx (connStart stat) x)
  have same := after_stat ctx (connStart stat) (connStart statusInit) x.opening rfl
  obtain ⟨stat', completed⟩ := responseComplete_owed ctx (after ctx (connStart stat) x.opening)
    x.exchange.reply.final.statusCode x.now x.exchange.reply.final_code owes
  rw [same] at completed
  exact ⟨stat', completed⟩

theorem exchange_run (ctx : Context) (stat : Status) (x : TimedExchange) :
    trace ctx (connStart stat) x.run =
        List.replicate x.opening.length none ++ [some (x.report ctx)] ∧
      ∃ stat', after ctx (connStart stat) x.run = connStart stat' := by
  obtain ⟨stat', completed⟩ := exchange_completes ctx stat x
  have quiet := trace_quiet ctx (connStart stat) x.opening (opening_quiet x)
  unfold TimedExchange.run trace after at *
  rw [Runs.trace_append, Runs.after_snoc, quiet, Runs.trace_cons, completed]
  exact ⟨rfl, stat', rfl⟩

theorem exchanges_run (ctx : Context) (stat : Status) (xs : List TimedExchange) :
    trace ctx (connStart stat) (xs.flatMap TimedExchange.run) =
        xs.flatMap (fun x => List.replicate x.opening.length none ++ [some (x.report ctx)]) ∧
      ∃ stat', after ctx (connStart stat) (xs.flatMap TimedExchange.run) = connStart stat' := by
  induction xs generalizing stat with
  | nil => exact ⟨rfl, stat, rfl⟩
  | cons x xs ih =>
      obtain ⟨answers, stat', fresh⟩ := exchange_run ctx stat x
      obtain ⟨rest, last⟩ := ih stat'
      unfold trace after at *
      rw [List.flatMap_cons, List.flatMap_cons, Runs.trace_append, Runs.after_append, answers, fresh]
      exact ⟨congrArg _ rest, last⟩

theorem quiet_front (run : List (Moment × Event)) (e : Moment × Event)
    (quiet : ∀ e' ∈ (run ++ [e]).map Prod.snd, e'.isFinal = false) :
    (∀ e' ∈ run.map Prod.snd, e'.isFinal = false) ∧ e.2.isFinal = false := by
  rw [List.map_append] at quiet
  constructor
  · intro e' member
    exact quiet e' (List.mem_append_left _ member)
  · exact quiet e.2 (List.mem_append_right _ (List.mem_singleton_self _))

/-- Whatever is in the property list was captured by an event of the run. -/
theorem proplist_captured (ctx : Context) (stat : Status) (run : List (Moment × Event))
    (quiet : ∀ e ∈ run.map Prod.snd, e.isFinal = false) :
    ∀ kv ∈ (after ctx (connStart stat) run).s.proplist, ∃ front now e back,
      run = front ++ (now, e) :: back ∧
        kv ∈ captures ctx.cfg (after ctx (connStart stat) front).s e := by
  induction run using List.reverseRecOn with
  | nil => exact nofun
  | append_singleton run e ih =>
      obtain ⟨now, e⟩ := e
      obtain ⟨before, silent⟩ := quiet_front run (now, e) quiet
      have so_far := ih before
      have unanswered := step_not_final ctx (after ctx (connStart stat) run) now e silent
      have added := step_proplist ctx _ now e (room_after ctx _ run (room_start stat)) unanswered
      intro kv member
      unfold after at member
      rw [Runs.after_snoc, added, List.mem_append] at member
      rcases member with new | old
      · exact ⟨run, now, e, [], rfl, new⟩
      · obtain ⟨front, now', e', back, split, found⟩ := so_far kv old
        exact ⟨front, now', e', back ++ [(now, e)], by rw [split]; simp, found⟩

theorem responseBody_fragments (s : Session) (data : Bytes) :
    ∀ b ∈ (responseBody s data).responseBody, b ∈ s.responseBody ∨ b.data = data := by
  intro b member
  unfold responseBody at member
  split_ifs at member
  · rw [List.mem_append, List.mem_singleton] at member
    rcases member with old | rfl
    · exact Or.inl old
    · exact Or.inr rfl
  · exact Or.inl member
  · exact Or.inl member

theorem step_fragments (ctx : Context) (c : Conn) (now : Moment) (e : Event)
    (quiet : e.isFinal = false) :
    ∀ b ∈ (step ctx c (now, e)).1.s.responseBody,
      b ∈ c.s.responseBody ∨ e = .responseBody b.data := by
  intro b member
  by_cases body : ∃ data, e = .responseBody data
  · obtain ⟨data, rfl⟩ := body
    rcases responseBody_fragments c.s data b member with old | rfl
    · exact Or.inl old
    · exact Or.inr rfl
  · have kept := ((step_kept ctx c now e (step_not_final ctx c now e quiet)).body
      fun data same => body ⟨data, same⟩).1
    exact Or.inl (kept ▸ member)

theorem fragments_received (ctx : Context) (stat : Status) (run : List (Moment × Event))
    (quiet : ∀ e ∈ run.map Prod.snd, e.isFinal = false) :
    ∀ b ∈ (after ctx (connStart stat) run).s.responseBody,
      ∃ now, (now, .responseBody b.data) ∈ run := by
  induction run using List.reverseRecOn with
  | nil => exact nofun
  | append_singleton run e ih =>
      obtain ⟨now, e⟩ := e
      obtain ⟨before, silent⟩ := quiet_front run (now, e) quiet
      have so_far := ih before
      intro b member
      unfold after at member
      rw [Runs.after_snoc] at member
      rcases step_fragments ctx _ now e silent b member with old | rfl
      · obtain ⟨now', inside⟩ := so_far b old
        exact ⟨now', List.mem_append_left _ inside⟩
      · exact ⟨now, by simp⟩

theorem report_own (ctx : Context) (x : TimedExchange) : x.Own ctx := by
  have ledger : (x.session ctx).ledger =
      ⟨false, some (strndup x.exchange.request.url x.exchange.request.url.length),
        x.exchange.request.method, x.exchange.reply.final.statusCode⟩ := by
    have entered := opening_ledger ctx (connStart statusInit) x
    have marked := sessionTimeMark_ledger (after ctx (connStart statusInit) x.opening).s
      (some .repTime) x.now.tv
    rw [show (after ctx (connStart statusInit) x.opening).s.ledger = _ from entered] at marked
    exact congrArg (fun l : Ledger => { l with owes := false }) marked
  have path := congrArg Ledger.path ledger
  have method := congrArg Ledger.method ledger
  have code := congrArg Ledger.code ledger
  refine ⟨?_, ?_, ?_, buildReport_status _ _ _ _, ?_, ?_⟩
  · rw [TimedExchange.report, buildReport_path, show (x.session ctx).path = _ from path]
    rfl
  · rw [TimedExchange.report, buildReport_method, show (x.session ctx).method = _ from method]
  · rw [TimedExchange.report, buildReport_code, show (x.session ctx).statusCode = _ from code]
  · intro kv member
    obtain ⟨front, now, e, back, split, found⟩ :=
      proplist_captured ctx statusInit x.opening (opening_quiet x) kv
        ((sessionTimeMark_proplist _ _ _).subst member)
    exact ⟨front, now, e, back ++ [_], by rw [TimedExchange.run, split]; simp; rfl, found⟩
  · intro b member
    obtain ⟨now, inside⟩ := fragments_received ctx statusInit x.opening (opening_quiet x) b member
    exact ⟨now, List.mem_append_left _ inside⟩

/-- Exchanges that follow one another are reported one for one, each at its final
response complete and from its own events only; closing then reports nothing. -/
theorem exchanges_reported (ctx : Context) (stat : Status) (xs : List TimedExchange)
    (type : CloseType) (now : Moment) :
    trace ctx (connStart stat) (xs.flatMap TimedExchange.run) =
        xs.flatMap (fun x => List.replicate x.opening.length none ++ [some (x.report ctx)]) ∧
      reports ctx (connStart stat) (xs.flatMap TimedExchange.run) =
        xs.map (TimedExchange.report ctx) ∧
      sessionClose ctx (after ctx (connStart stat) (xs.flatMap TimedExchange.run)) type now = none ∧
      ∀ x ∈ xs, x.Own ctx := by
  obtain ⟨answers, stat', fresh⟩ := exchanges_run ctx stat xs
  refine ⟨answers, ?_, by rw [fresh]; rfl, fun x _ => report_own ctx x⟩
  unfold reports Runs.outputs
  rw [show Runs.trace (step ctx) (connStart stat) _ = _ from answers]
  simp [List.filterMap_flatMap, List.map_eq_flatMap]

end Bscope
