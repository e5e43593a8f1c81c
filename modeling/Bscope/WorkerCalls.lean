import Bscope.Sniffing

set_option autoImplicit false

/- `tcp_callback` does at once what the worker does in parts, between which it can be killed:
both come to the same sessions and the same segment. -/
namespace Bscope

/-- The session records, without the parsers. -/
def Sessions.records (sessions : Sessions) : List (TcpStream × Session) :=
  sessions.map fun user => (user.1, user.2.s)

/-- What the parts of a call are told: its parent, the callbacks its parser made, the time. -/
def TimedCall.occasion (told : TimedCall) (done : Captured) : Occasion :=
  ⟨told.ppid, done.run.map Prod.snd, told.clock 0⟩

/-- The calls of a run, as their parts are told of them. -/
def occasions (ctx : Context) (config : Service) :
    Sessions → Status → List TimedCall → List (NidsCall × Occasion)
  | _, _, [] => []
  | sessions, stat, told :: rest =>
      match tcpCallback ctx config sessions stat told with
      | some done =>
          (told.call, told.occasion done) :: occasions ctx config done.sessions done.stat rest
      | none => []

/-- A worker between two calls, with these sessions and this segment. -/
structure Stands (sessions : Sessions) (stat : Status) (scope : Scope) (w : Worker) : Prop where
  worker : scope.worker = some w
  idle : w.place = .idle
  records : w.sessions = sessions.records
  stat : scope.stat = stat

section Records

variable (tcp : TcpStream) (sessions : Sessions)

theorem records_lookup : sessions.records.lookup tcp = (sessions.lookup tcp).map HttpSession.s := by
  induction sessions with
  | nil => rfl
  | cons user rest ih =>
      show List.lookup tcp ((user.1, user.2.s) :: Sessions.records rest) = _
      rw [List.lookup_cons, List.lookup_cons, ih]
      cases tcp == user.1 <;> rfl

theorem records_settle (h : HttpSession) : (sessions.settle tcp h).records =
    sessions.records.map fun user => if user.1 = tcp then (tcp, h.s) else user := by
  unfold Sessions.settle Sessions.records
  rw [List.map_map, List.map_map]
  apply List.map_congr_left
  intro user _
  rw [Function.comp_apply, Function.comp_apply]
  split <;> rfl

theorem records_left : Sessions.records (sessions.filter fun user => user.1 ≠ tcp) =
    sessions.records.filter fun user => user.1 ≠ tcp := by
  unfold Sessions.records
  rw [List.filter_map]
  rfl

end Records

section Parts

variable {ctx : Context} {config : Service} {maxStream : Nat} {sessions : Sessions} {stat : Status}
  {scope scope' : Scope} {w : Worker} (stands : Stands sessions stat scope w)
include stands

theorem justEst_parts {tcp : TcpStream} {ppid : Nat} {clock : Nat → Moment} {done : Captured}
    (parent : 5 ≤ ppid)
    (here : tcpCallback ctx config sessions stat ⟨.justEst tcp, ppid, clock⟩ = some done)
    (parts : Paths.run (scopeStep ctx config maxStream) scope
      (NidsCall.acts config (TimedCall.occasion ⟨.justEst tcp, ppid, clock⟩ done) (.justEst tcp)) =
        some scope') : ∃ w', Stands done.sessions done.stat scope' w' := by
  rw [tcpCallback] at here
  rw [NidsCall.acts] at parts
  dsimp only at here
  by_cases serves : testInService config tcp.addr = true
  · rw [if_pos serves, if_neg (Nat.not_lt.mpr parent)] at here
    rw [if_pos serves, Paths.run_cons] at parts
    cases here
    obtain ⟨mid, first, second⟩ := Option.bind_eq_some_iff.mp parts
    rw [scopeStep, stands.worker, Option.bind_some, workerStep, justEst, if_pos serves] at first
    split at first
    · cases first
      simp only [Paths.run_cons, Paths.run_nil, scopeStep, Option.bind_some, workerStep,
        startSession, TimedCall.occasion, if_neg (Nat.not_lt.mpr parent)] at second
      cases second
      refine ⟨_, rfl, rfl, ?_, by rw [stands.stat]⟩
      exact congrArg ((tcp, sessionInit) :: ·) stands.records
    · cases first
  · rw [if_neg serves] at here parts
    cases here
    cases parts
    exact ⟨w, stands⟩

theorem data_parts {tcp : TcpStream} {toServer : Bool} {bytes : Bytes} {ppid : Nat}
    {clock : Nat → Moment} {done : Captured}
    (here : tcpCallback ctx config sessions stat ⟨.data tcp toServer bytes, ppid, clock⟩ = some done)
    (parts : Paths.run (scopeStep ctx config maxStream) scope (NidsCall.acts config
      (TimedCall.occasion ⟨.data tcp toServer bytes, ppid, clock⟩ done) (.data tcp toServer bytes)) =
        some scope') : ∃ w', Stands done.sessions done.stat scope' w' := by
  rw [tcpCallback] at here
  dsimp only at here
  rw [NidsCall.acts, Paths.run_cons] at parts
  obtain ⟨mid, first, second⟩ := Option.bind_eq_some_iff.mp parts
  cases second
  rw [scopeStep, stands.worker, Option.bind_some, workerStep, nidsData, stands.records,
    records_lookup] at first
  split at first
  case isFalse => cases first
  case isTrue =>
    by_cases serves : testInService config tcp.addr = true
    · rw [if_pos serves] at here
      obtain ⟨h, user, here⟩ := Option.bind_eq_some_iff.mp here
      obtain ⟨read, told, here⟩ := Option.bind_eq_some_iff.mp here
      cases here
      have run : (read.run.map (tcp, ·)).map Prod.snd = read.run := by
        rw [List.map_map]
        exact List.map_id _
      obtain ⟨ends, -⟩ := sessionHandleData_reports told
      rw [if_pos serves, user, Option.map_some] at first
      simp only [TimedCall.occasion, run, stands.stat, ends] at first
      cases first
      exact ⟨_, rfl, stands.idle, (records_settle tcp sessions read.session).symm, rfl⟩
    · rw [if_neg serves] at here first
      cases here
      cases first
      exact ⟨w, rfl, stands.idle, stands.records, stands.stat⟩

theorem ended_parts {tcp : TcpStream} {type : CloseType} {ppid : Nat} {clock : Nat → Moment}
    {done : Captured}
    (here : tcpCallback ctx config sessions stat ⟨.ended tcp type, ppid, clock⟩ = some done)
    (parts : Paths.run (scopeStep ctx config maxStream) scope (NidsCall.acts config
      (TimedCall.occasion ⟨.ended tcp type, ppid, clock⟩ done) (.ended tcp type)) = some scope') :
    ∃ w', Stands done.sessions done.stat scope' w' := by
  rw [tcpCallback] at here
  dsimp only at here
  rw [NidsCall.acts, Paths.run_cons] at parts
  obtain ⟨mid, first, second⟩ := Option.bind_eq_some_iff.mp parts
  rw [scopeStep, stands.worker, Option.bind_some, workerStep, nidsEnd, stands.stat] at first
  split at first
  case isFalse => cases first
  case isTrue =>
    by_cases serves : testInService config tcp.addr = true
    · rw [if_pos serves] at here first
      obtain ⟨h, user, here⟩ := Option.bind_eq_some_iff.mp here
      obtain rfl := Option.some.inj here
      obtain rfl := Option.some.inj first
      rw [Paths.run_cons, scopeStep, Option.bind_some, workerStep] at second
      simp only [closeSession, stands.records, records_lookup, user, Option.map_some,
        Option.bind_some, Paths.run_nil] at second
      obtain rfl := Option.some.inj second
      exact ⟨_, rfl, rfl, (records_left tcp sessions).symm, rfl⟩
    · rw [if_neg serves] at here first
      cases here
      cases first
      rw [Paths.run_cons, scopeStep, Option.bind_some, workerStep] at second
      rw [show (w.drop tcp).place = .idle from stands.idle] at second
      cases second

theorem tcpCallback_parts {told : TimedCall} {done : Captured} (parent : 5 ≤ told.ppid)
    (here : tcpCallback ctx config sessions stat told = some done)
    (parts : Paths.run (scopeStep ctx config maxStream) scope
      (told.call.acts config (told.occasion done)) = some scope') :
    ∃ w', Stands done.sessions done.stat scope' w' := by
  obtain ⟨call, ppid, clock⟩ := told
  cases call with
  | justEst tcp => exact justEst_parts stands parent here parts
  | data tcp toServer bytes => exact data_parts stands here parts
  | ended tcp type => exact ended_parts stands here parts

end Parts

section Runs

variable {ctx : Context} {config : Service} {maxStream : Nat}

theorem occasions_calls (told : List TimedCall) : ∀ (sessions : Sessions) (stat : Status)
    (done : Captured), (∀ call ∈ told, 5 ≤ call.ppid) →
      callbackRun ctx config sessions stat told = some done →
        (occasions ctx config sessions stat told).map Prod.fst = told.map TimedCall.call ∧
          ∀ call ∈ occasions ctx config sessions stat told, 5 ≤ call.2.ppid := by
  induction told with
  | nil =>
      intro sessions stat done _ _
      exact ⟨rfl, fun _ member => absurd member List.not_mem_nil⟩
  | cons told rest ih =>
      intro sessions stat done parents run
      have parent := parents told List.mem_cons_self
      obtain ⟨first, later, here, there, -⟩ := callbackRun_cons parent run
      have others : ∀ call ∈ rest, 5 ≤ call.ppid :=
        fun call member => parents call (List.mem_cons_of_mem told member)
      obtain ⟨calls, lives⟩ := ih first.sessions first.stat later others there
      rw [occasions, here]
      constructor
      · rw [List.map_cons, List.map_cons, calls]
      · intro call member
        rcases List.mem_cons.mp member with rfl | member
        · exact parent
        · exact lives call member

theorem callbackRun_parts (told : List TimedCall) : ∀ (sessions : Sessions) (stat : Status)
    (scope : Scope) (w : Worker) (done : Captured) (scope' : Scope),
      Stands sessions stat scope w → (∀ call ∈ told, 5 ≤ call.ppid) →
      callbackRun ctx config sessions stat told = some done →
      Paths.run (scopeStep ctx config maxStream) scope
        ((occasions ctx config sessions stat told).flatMap fun call => call.1.acts config call.2) =
          some scope' →
      ∃ w', Stands done.sessions done.stat scope' w' := by
  induction told with
  | nil =>
      intro sessions stat scope w done scope' stands _ run parts
      cases run
      cases parts
      exact ⟨w, stands⟩
  | cons told rest ih =>
      intro sessions stat scope w done scope' stands parents run parts
      have parent := parents told List.mem_cons_self
      obtain ⟨first, later, here, there, rfl⟩ := callbackRun_cons parent run
      rw [occasions, here] at parts
      dsimp only at parts
      rw [List.flatMap_cons, Paths.run_append] at parts
      obtain ⟨mid, now, parts⟩ := Option.bind_eq_some_iff.mp parts
      obtain ⟨w', stands'⟩ := tcpCallback_parts stands parent here now
      exact ih first.sessions first.stat mid w' later scope' stands'
        (fun call member => parents call (List.mem_cons_of_mem told member)) there parts

/-- Whatever packets arrive, `tcp_callback` as it runs through and the worker that goes by its
parts keep the same sessions and write the same segment. -/
theorem worker_agrees (ctx : Context) (config : Service) (maxStream : Nat)
    (int : maxStream < 2 ^ 31) (inputs : List NidsInput) (small : ∀ input ∈ inputs, input.Small) :
    ∃ m calls,
      nidsRun (testInService config) maxStream (tcpInit maxStream) inputs = some (m, calls) ∧
      ∀ told : List TimedCall, told.map TimedCall.call = calls → (∀ call ∈ told, 5 ≤ call.ppid) →
        ∃ done scope w, callbackRun ctx config [] statusInit told = some done ∧
          Paths.run (scopeStep ctx config maxStream) scopeStart
            ((occasions ctx config [] statusInit told).flatMap
              fun call => call.1.acts config call.2) = some scope ∧
          Stands done.sessions done.stat scope w := by
  have initial := tcpInit_valid (testInService config) maxStream
  obtain ⟨m, calls, run, moves⟩ := nidsRun_moves inputs (tcpInit maxStream) initial small
  refine ⟨m, calls, run, ?_⟩
  intro told same parents
  obtain ⟨done, called, -⟩ := moves_callback ctx initial moves [] statusInit told
    ⟨.refl _, fun _ member => absurd member List.not_mem_nil⟩ same
  obtain ⟨mapped, lives⟩ := occasions_calls told [] statusInit done parents called
  obtain ⟨scope, -, parts, -⟩ := mirrors_run ctx initial int moves scopeStart
    Worker.start (tcpInit_mirrors config maxStream) (occasions ctx config [] statusInit told) lives
    (mapped.trans same)
  obtain ⟨w, stands⟩ := callbackRun_parts told [] statusInit scopeStart Worker.start done scope
    ⟨rfl, rfl, rfl, rfl⟩ parents called parts
  exact ⟨done, scope, w, called, parts, stands⟩

end Runs

end Bscope
