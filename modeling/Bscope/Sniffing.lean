import Bscope.Announcements
import Bscope.HandleData

set_option autoImplicit false

/- From the packets to the reports: the sessions that `tcp_callback` keeps for the streams. -/
namespace Bscope

open Http

/-- The streams with a session behind their `user`. -/
abbrev Sessions := List (TcpStream × HttpSession)

def Sessions.settle (sessions : Sessions) (tcp : TcpStream) (h : HttpSession) : Sessions :=
  sessions.map fun user => if user.1 = tcp then (tcp, h) else user

/-- A call of libnids, with the parent and the clock as the worker finds them. -/
structure TimedCall where
  call : NidsCall
  ppid : Nat
  clock : Nat → Moment

/-- What the worker makes of its calls: the callbacks of its parsers and the reports, each
with its stream. -/
structure Captured where
  sessions : Sessions
  stat : Status
  exited : Bool
  run : List (TcpStream × (Moment × Event))
  sent : List (TcpStream × MsgReport)

/-- `tcp_callback`, nothing where it would follow a `user` that is not there. An orphan
exits, behind its write to the gauge. -/
def tcpCallback (ctx : Context) (config : Service) (sessions : Sessions) (stat : Status)
    (told : TimedCall) : Option Captured :=
  match told.call with
  | .justEst tcp =>
      if testInService config tcp.addr then
        if told.ppid < 5 then some ⟨sessions, stat.connUp, true, [], []⟩
        else some ⟨(tcp, HttpSession.start) :: sessions, stat.connUp, false, [], []⟩
      else some ⟨sessions, stat, false, [], []⟩
  | .data tcp toServer bytes =>
      if testInService config tcp.addr then do
        let h ← sessions.lookup tcp
        let done ← sessionHandleData { ctx with addr := tcp.addr } h stat
          ⟨toServer, bytes, told.clock⟩
        return ⟨sessions.settle tcp done.session, done.stat, false, done.run.map (tcp, ·),
          done.sent.map (tcp, ·)⟩
      else some ⟨sessions, stat, false, [], []⟩
  | .ended tcp type =>
      if testInService config tcp.addr then do
        let h ← sessions.lookup tcp
        let (_, stat, sent) :=
          sessionReport { ctx with addr := tcp.addr } h.s stat.connDown type (told.clock 0)
        return ⟨sessions.filter fun user => user.1 ≠ tcp, stat, false, [], sent.toList.map (tcp, ·)⟩
      else some ⟨sessions, stat, false, [], []⟩

def Captured.before (done later : Captured) : Captured :=
  ⟨later.sessions, later.stat, later.exited, done.run ++ later.run, done.sent ++ later.sent⟩

/-- One call after another, as long as the worker is there. -/
def callbackRun (ctx : Context) (config : Service) :
    Sessions → Status → List TimedCall → Option Captured
  | sessions, stat, [] => some ⟨sessions, stat, false, [], []⟩
  | sessions, stat, told :: rest => do
      let done ← tcpCallback ctx config sessions stat told
      if done.exited then return done
      let later ← callbackRun ctx config done.sessions done.stat rest
      return done.before later

/-- The sessions are those of the streams that are announced and not ended. -/
structure Serving (m : Nids) (sessions : Sessions) : Prop where
  users : (sessions.map Prod.fst).Perm m.heard
  ready : ∀ user ∈ sessions, user.2.Ready

section Sessions

variable {sessions : Sessions} {tcp : TcpStream}

theorem lookup_user (member : tcp ∈ sessions.map Prod.fst) :
    ∃ h, sessions.lookup tcp = some h ∧ (tcp, h) ∈ sessions := by
  induction sessions with
  | nil => exact absurd member List.not_mem_nil
  | cons user rest ih =>
      obtain ⟨other, h⟩ := user
      by_cases same : tcp = other
      · rw [same, List.lookup_cons_self]
        exact ⟨h, rfl, List.mem_cons_self⟩
      · obtain ⟨h', found, inside⟩ := ih ((List.mem_cons.mp member).resolve_left same)
        refine ⟨h', ?_, List.mem_cons_of_mem _ inside⟩
        rw [List.lookup_cons, beq_eq_false_iff_ne.mpr same]
        exact found

theorem settle_users (h : HttpSession) :
    (sessions.settle tcp h).map Prod.fst = sessions.map Prod.fst := by
  rw [Sessions.settle, List.map_map]
  apply List.map_congr_left
  intro user _
  rw [Function.comp_apply]
  split
  case isTrue same => exact same.symm
  case isFalse => rfl

theorem settle_ready {h : HttpSession} (ready : h.Ready) (all : ∀ user ∈ sessions, user.2.Ready) :
    ∀ user ∈ sessions.settle tcp h, user.2.Ready := by
  intro user member
  obtain ⟨old, inside, rfl⟩ := List.mem_map.mp member
  split
  · exact ready
  · exact all old inside

end Sessions

section Calls

variable {ctx : Context} {config : Service} {maxStream : Nat} {m : Nids} {sessions : Sessions}

theorem callbackRun_one {stat : Status} {told : TimedCall} {done : Captured}
    (here : tcpCallback ctx config sessions stat told = some done) :
    callbackRun ctx config sessions stat [told] = some done := by
  rw [callbackRun, here, Option.bind_eq_bind, Option.bind_some]
  split
  case isTrue => rfl
  case isFalse goes =>
    rw [callbackRun, Option.bind_some, Captured.before, List.append_nil, List.append_nil,
      ← Bool.eq_false_iff.mpr goes]
    rfl

theorem callbackRun_append (second first : List TimedCall) : ∀ (sessions : Sessions) (stat : Status),
    callbackRun ctx config sessions stat (first ++ second) =
      (callbackRun ctx config sessions stat first).bind fun done =>
        if done.exited then some done
        else (callbackRun ctx config done.sessions done.stat second).map done.before := by
  induction first with
  | nil =>
      intro sessions stat
      rw [List.nil_append, callbackRun, Option.bind_some, if_neg Bool.false_ne_true]
      show _ = Option.map id _
      rw [Option.map_id]
      rfl
  | cons told first ih =>
      intro sessions stat
      simp only [List.cons_append, callbackRun, Option.bind_eq_bind, Option.pure_def]
      cases tcpCallback ctx config sessions stat told with
      | none => rfl
      | some done =>
          simp only [Option.bind_some]
          by_cases left : done.exited = true
          · rw [if_pos left, if_pos left, Option.bind_some, if_pos left]
          · rw [if_neg left, if_neg left, ih]
            cases callbackRun ctx config done.sessions done.stat first with
            | none => rfl
            | some between =>
                by_cases exits : between.exited = true
                · simp [exits, Captured.before]
                · simp only [Option.bind_some, if_neg exits, Captured.before]
                  cases callbackRun ctx config between.sessions between.stat second with
                  | none => rfl
                  | some later => simp [Captured.before, List.append_assoc]

theorem tcpCallback_stays {stat : Status} {told : TimedCall} (parent : 5 ≤ told.ppid)
    {done : Captured} (here : tcpCallback ctx config sessions stat told = some done) :
    done.exited = false := by
  rw [tcpCallback] at here
  split at here
  · rw [if_neg (Nat.not_lt.mpr parent)] at here
    split at here <;> (cases here; rfl)
  · split at here
    · obtain ⟨h, -, here⟩ := Option.bind_eq_some_iff.mp here
      obtain ⟨read, -, here⟩ := Option.bind_eq_some_iff.mp here
      cases here
      rfl
    · cases here
      rfl
  · split at here
    · obtain ⟨h, -, here⟩ := Option.bind_eq_some_iff.mp here
      cases here
      rfl
    · cases here
      rfl

/-- With its parent, the worker goes on behind its first call. -/
theorem callbackRun_cons {stat : Status} {told : TimedCall}
    {rest : List TimedCall} {done : Captured} (parent : 5 ≤ told.ppid)
    (run : callbackRun ctx config sessions stat (told :: rest) = some done) :
    ∃ first later, tcpCallback ctx config sessions stat told = some first ∧
      callbackRun ctx config first.sessions first.stat rest = some later ∧
      done = first.before later := by
  rw [callbackRun] at run
  obtain ⟨first, here, run⟩ := Option.bind_eq_some_iff.mp run
  rw [if_neg (by rw [tcpCallback_stays parent here]; exact Bool.false_ne_true)] at run
  obtain ⟨later, there, run⟩ := Option.bind_eq_some_iff.mp run
  exact ⟨first, later, here, there, (Option.some.inj run).symm⟩

/-- Only an orphan exits. -/
theorem callbackRun_stays (told : List TimedCall) : ∀ (sessions : Sessions) (stat : Status)
    (done : Captured), (∀ call ∈ told, 5 ≤ call.ppid) →
      callbackRun ctx config sessions stat told = some done → done.exited = false := by
  induction told with
  | nil =>
      intro sessions stat done _ run
      cases run
      rfl
  | cons call rest ih =>
      intro sessions stat done parents run
      obtain ⟨first, later, -, there, rfl⟩ := callbackRun_cons (parents call List.mem_cons_self) run
      exact ih first.sessions first.stat later
        (fun other inside => parents other (List.mem_cons_of_mem call inside)) there

/-- A run that goes on where the one before it did not exit. -/
theorem callbackRun_serves {m' : Nids} {stat : Status} {first second : List TimedCall}
    {done : Captured} (here : callbackRun ctx config sessions stat first = some done)
    (next : done.exited = false → ∃ later,
      callbackRun ctx config done.sessions done.stat second = some later ∧
        (later.exited = false → Serving m' later.sessions)) :
    ∃ whole, callbackRun ctx config sessions stat (first ++ second) = some whole ∧
      (whole.exited = false → Serving m' whole.sessions) := by
  rw [callbackRun_append, here, Option.bind_some]
  cases left : done.exited with
  | true => exact ⟨done, rfl, fun goes => absurd (left.symm.trans goes) (by decide)⟩
  | false =>
      obtain ⟨later, run, serving⟩ := next left
      rw [if_neg Bool.false_ne_true, run]
      exact ⟨done.before later, rfl, serving⟩

variable (ctx) in
/-- Blocks of data for a stream with a session. -/
theorem blocks_callback {tcp : TcpStream} (serves : testInService config tcp.addr = true)
    (toServer : Bool) (blocks : List Bytes) (filled : ∀ bytes ∈ blocks, bytes ≠ []) :
    ∀ (sessions : Sessions) (stat : Status) (told : List TimedCall),
      told.map TimedCall.call = blocks.map (NidsCall.data tcp toServer) →
      tcp ∈ sessions.map Prod.fst → (∀ user ∈ sessions, user.2.Ready) →
      ∃ done, callbackRun ctx config sessions stat told = some done ∧ done.exited = false ∧
        done.sessions.map Prod.fst = sessions.map Prod.fst ∧
        ∀ user ∈ done.sessions, user.2.Ready := by
  induction blocks with
  | nil =>
      intro sessions stat told same _ ready
      rw [List.map_eq_nil_iff.mp same]
      exact ⟨_, rfl, rfl, rfl, ready⟩
  | cons bytes blocks ih =>
      intro sessions stat told same member ready
      obtain ⟨⟨call, ppid, clock⟩, rest, rfl, here, later⟩ := List.map_eq_cons_iff.mp same
      cases here
      obtain ⟨h, found, inside⟩ := lookup_user member
      obtain ⟨done, read, ready'⟩ := sessionHandleData_ready { ctx with addr := tcp.addr } stat
        (ready _ inside) (show (⟨toServer, bytes, clock⟩ : Block).data ≠ [] from filled bytes List.mem_cons_self)
      have kept : (sessions.settle tcp done.session).map Prod.fst = sessions.map Prod.fst :=
        settle_users done.session
      have first : tcpCallback ctx config sessions stat ⟨.data tcp toServer bytes, ppid, clock⟩ =
          some ⟨sessions.settle tcp done.session, done.stat, false, done.run.map (tcp, ·),
            done.sent.map (tcp, ·)⟩ := by
        simp only [tcpCallback, if_pos serves, found, read, Option.bind_eq_bind, Option.bind_some]
        rfl
      obtain ⟨last, run, goes, users, all⟩ := ih
        (fun other inside => filled other (List.mem_cons_of_mem bytes inside))
        (sessions.settle tcp done.session) done.stat rest later (kept ▸ member)
        (settle_ready ready' ready)
      refine ⟨Captured.before ⟨sessions.settle tcp done.session, done.stat, false,
        done.run.map (tcp, ·), done.sent.map (tcp, ·)⟩ last, ?_, goes, users.trans kept, all⟩
      rw [← List.singleton_append, callbackRun_append, callbackRun_one first, Option.bind_some,
        if_neg Bool.false_ne_true, run]
      rfl

variable (valid : m.Valid (testInService config) maxStream) (serving : Serving m sessions)
include valid serving

theorem ended_callback {t : Tracked} (member : t ∈ m.streams)
    (opened : t.Open (testInService config)) (type : CloseType) (stat : Status) {told : TimedCall}
    (call : told.call = .ended t.tcp type) :
    ∃ done, callbackRun ctx config sessions stat [told] = some done ∧
      (done.exited = false → Serving (nidsFreeTcpStream m t) done.sessions) := by
  have split := heard_free valid member
  rw [opened.listening, if_pos rfl] at split
  have users := serving.users.trans split
  have user : t.tcp ∈ sessions.map Prod.fst := users.mem_iff.mpr List.mem_cons_self
  obtain ⟨h, found, -⟩ := lookup_user user
  have once : t.tcp ∉ (nidsFreeTcpStream m t).heard :=
    (List.nodup_cons.mp (split.nodup_iff.mp (heard_nodup valid))).1
  have others : Serving (nidsFreeTcpStream m t) (sessions.filter fun user => user.1 ≠ t.tcp) := by
    constructor
    · have others := users.filter (· ≠ t.tcp)
      rw [List.filter_map] at others
      refine others.trans ?_
      rw [List.singleton_append, List.filter_cons, if_neg (by simp), List.filter_eq_self.mpr]
      intro tcp inside
      rw [decide_eq_true_iff]
      intro same
      exact once (same ▸ inside)
    · exact fun user inside => serving.ready user (List.mem_of_mem_filter inside)
  have here : ∃ stat' sent, tcpCallback ctx config sessions stat told =
      some ⟨sessions.filter fun user => user.1 ≠ t.tcp, stat', false, [], sent⟩ := by
    rw [tcpCallback, call]
    simp only [if_pos opened.service, found, Option.bind_eq_bind, Option.bind_some]
    exact ⟨_, _, rfl⟩
  obtain ⟨stat', sent, here⟩ := here
  exact ⟨_, callbackRun_one here, fun _ => others⟩

theorem goesOn_callback {t t' : Tracked} (member : t ∈ m.streams)
    (opened : t.Open (testInService config)) (opened' : t'.Open (testInService config))
    (tcp : t'.tcp = t.tcp) (toServer : Bool) {blocks : List Bytes}
    (filled : ∀ bytes ∈ blocks, bytes ≠ []) (stat : Status) {told : List TimedCall}
    (calls : told.map TimedCall.call = blocks.map (NidsCall.data t.tcp toServer)) :
    ∃ done, callbackRun ctx config sessions stat told = some done ∧
      (done.exited = false → Serving (m.settle t (some t')) done.sessions) := by
  have split := heard_free valid member
  have split' := heard_settle valid member t'
  rw [opened.listening, if_pos rfl] at split
  rw [opened'.listening, if_pos rfl, tcp] at split'
  have user : t.tcp ∈ sessions.map Prod.fst :=
    (serving.users.trans split).mem_iff.mpr List.mem_cons_self
  obtain ⟨done, run, -, same, ready⟩ :=
    blocks_callback ctx opened.service toServer blocks filled sessions stat told calls user
      serving.ready
  refine ⟨done, run, fun _ => ⟨?_, ready⟩⟩
  rw [same]
  exact (serving.users.trans split).trans split'.symm

theorem announced_callback {t t' : Tracked} (member : t ∈ m.streams) (opening : t.Opening)
    (opened' : t'.Open (testInService config)) (tcp : t'.tcp = t.tcp) (toServer : Bool)
    {blocks : List Bytes} (filled : ∀ bytes ∈ blocks, bytes ≠ []) (stat : Status)
    {told : List TimedCall} (calls : told.map TimedCall.call =
      .justEst t.tcp :: blocks.map (NidsCall.data t.tcp toServer)) :
    ∃ done, callbackRun ctx config sessions stat told = some done ∧
      (done.exited = false → Serving (m.settle t (some t')) done.sessions) := by
  have split := heard_free valid member
  have split' := heard_settle valid member t'
  have serves := opened'.service
  rw [opening.listening] at split
  rw [opened'.listening, if_pos rfl, tcp] at split'
  rw [tcp] at serves
  obtain ⟨⟨call, ppid, clock⟩, rest, rfl, here, later⟩ := List.map_eq_cons_iff.mp calls
  cases here
  have first : tcpCallback ctx config sessions stat ⟨.justEst t.tcp, ppid, clock⟩ =
      if ppid < 5 then some ⟨sessions, stat.connUp, true, [], []⟩
      else some ⟨(t.tcp, HttpSession.start) :: sessions, stat.connUp, false, [], []⟩ := if_pos serves
  by_cases orphan : ppid < 5
  · rw [if_pos orphan] at first
    show ∃ done, callbackRun ctx config sessions stat ([_] ++ rest) = some done ∧ _
    exact callbackRun_serves (callbackRun_one first) fun goes => absurd goes.symm Bool.false_ne_true
  · rw [if_neg orphan] at first
    show ∃ done, callbackRun ctx config sessions stat ([_] ++ rest) = some done ∧ _
    exact callbackRun_serves (callbackRun_one first) (by
        intro _
        obtain ⟨done, run, -, same, ready⟩ := blocks_callback ctx serves toServer blocks
          filled ((t.tcp, HttpSession.start) :: sessions) stat.connUp rest later List.mem_cons_self
          (by
            intro user inside
            rcases List.mem_cons.mp inside with new | old
            · rw [new]
              exact start_ready
            · exact serving.ready user old)
        refine ⟨done, run, fun _ => ⟨?_, ready⟩⟩
        rw [same]
        exact ((serving.users.trans split).cons t.tcp).trans split'.symm)

variable (ctx) in
/-- Whatever happens to the table, the sessions are there for the calls that come of it. -/
theorem move_callback {m' : Nids} {calls : List NidsCall}
    (move : Move (testInService config) m m' calls) (stat : Status) {told : List TimedCall}
    (same : told.map TimedCall.call = calls) :
    ∃ done, callbackRun ctx config sessions stat told = some done ∧
      (done.exited = false → Serving m' done.sessions) := by
  have dropped : ∀ t ∈ m.streams, t.Opening → Serving (nidsFreeTcpStream m t) sessions := by
    intro t member opening
    have split := heard_free valid member
    rw [opening.listening] at split
    exact ⟨serving.users.trans split, serving.ready⟩
  have silent : Serving m' sessions → calls = [] → ∃ done,
      callbackRun ctx config sessions stat told = some done ∧
        (done.exited = false → Serving m' done.sessions) := by
    intro serving' none
    rw [none, List.map_eq_nil_iff] at same
    rw [same]
    exact ⟨_, rfl, fun _ => serving'⟩
  cases move with
  | freed t type member ending =>
      rcases valid.each t member with opening | opened
      · have none : t.endCall type = [] := by
          rw [Tracked.endCall, opening.listening]
          rfl
        exact silent (dropped t member opening) none
      · rw [Tracked.endCall, opened.listening] at same
        obtain ⟨here, rest, rfl, call, none⟩ := List.map_eq_cons_iff.mp same
        rw [List.map_eq_nil_iff.mp none]
        exact ended_callback valid serving member opened type stat call
  | entered t rest opening _ _ _ =>
      refine silent ⟨serving.users.trans ?_, serving.ready⟩ rfl
      show m.heard.Perm (((t :: m.streams).filter fun t => t.listening).map Tracked.tcp)
      rw [List.filter_cons, opening.listening]
      exact .refl _
  | settled t fromClient left _ member outcome =>
      cases outcome with
      | waits t' opening opening' =>
          have split := heard_free valid member
          have split' := heard_settle valid member t'
          rw [opening.listening] at split
          rw [opening'.listening] at split'
          exact silent ⟨(serving.users.trans split).trans split'.symm, serving.ready⟩ rfl
      | refused opening => exact silent (dropped t member opening) rfl
      | passedOver opening foreign =>
          obtain ⟨⟨call, ppid, clock⟩, rest, rfl, here, none⟩ := List.map_eq_cons_iff.mp same
          cases here
          rw [List.map_eq_nil_iff.mp none]
          have passes : tcpCallback ctx config sessions stat ⟨.justEst t.tcp, ppid, clock⟩ =
              some ⟨sessions, stat, false, [], []⟩ := if_neg (by rw [foreign]; exact Bool.false_ne_true)
          exact ⟨_, callbackRun_one passes, fun _ => dropped t member opening⟩
      | announced t' blocks opening opened' slot tcp filled =>
          exact announced_callback valid serving member opening opened' tcp fromClient filled stat same
      | goesOn t' blocks opened opened' slot tcp filled =>
          exact goesOn_callback valid serving member opened opened' tcp fromClient filled stat same
      | ends type opened _ =>
          obtain ⟨here, rest, rfl, call, none⟩ := List.map_eq_cons_iff.mp same
          rw [List.map_eq_nil_iff.mp none]
          exact ended_callback valid serving member opened type stat call

variable (ctx) in
omit serving in
theorem moves_callback {m' : Nids} {calls : List NidsCall}
    (moves : Moves (testInService config) m m' calls) :
    ∀ (sessions : Sessions) (stat : Status) (told : List TimedCall), Serving m sessions →
      told.map TimedCall.call = calls →
        ∃ done, callbackRun ctx config sessions stat told = some done ∧
          (done.exited = false → Serving m' done.sessions) := by
  induction moves with
  | rest =>
      intro sessions stat told serving same
      rw [List.map_eq_nil_iff.mp same]
      exact ⟨_, rfl, fun _ => serving⟩
  | step m mid m' calls later move _ ih =>
      intro sessions stat told serving same
      obtain ⟨first, second, rfl, here, there⟩ := List.map_eq_append_iff.mp same
      obtain ⟨done, run, serving'⟩ := move_callback ctx valid serving move stat here
      exact callbackRun_serves run fun goes =>
        ih (move.valid valid) done.sessions done.stat second (serving' goes) there

end Calls

/-- Whatever packets arrive, every call for a stream of the service finds its session, no
assertion of either HTTP parser fails and neither reads behind the end of a word, no status
indexes outside `catch_code`, and while the worker is there each session lasts as long as
its stream. -/
theorem sniff_safe (ctx : Context) (config : Service) (stat : Status) (maxStream : Nat)
    (inputs : List NidsInput) (small : ∀ input ∈ inputs, input.Small) :
    ∃ m calls,
      nidsRun (testInService config) maxStream (tcpInit maxStream) inputs = some (m, calls) ∧
      ∀ told : List TimedCall, told.map TimedCall.call = calls →
        ∃ done, callbackRun ctx config [] stat told = some done ∧
          ((∀ call ∈ told, 5 ≤ call.ppid) → done.exited = false) ∧
          (done.exited = false → (done.sessions.map Prod.fst).Perm m.heard) := by
  have initial := tcpInit_valid (testInService config) maxStream
  obtain ⟨m, calls, run, moves⟩ := nidsRun_moves inputs (tcpInit maxStream) initial small
  refine ⟨m, calls, run, ?_⟩
  intro told same
  obtain ⟨done, called, serving⟩ := moves_callback ctx initial moves [] stat told
    ⟨.refl _, fun _ member => absurd member List.not_mem_nil⟩ same
  exact ⟨done, called, fun parents => callbackRun_stays told [] stat done parents called,
    fun goes => (serving goes).users⟩

/-- A connection from its handshake to its end: its session is there as long. -/
theorem sniff_safe_local : ∃ m calls,
    nidsRun (testInService webService) 779 (tcpInit 779) localExchange = some (m, calls) ∧
      calls.length = 5 ∧ ∃ done, callbackRun localContext webService [] statusInit
        (calls.map fun call => ⟨call, 5, fun _ => ⟨1, ⟨1, 0⟩, 0, 0⟩⟩) = some done ∧
        done.sessions = [] := by
  obtain ⟨m, calls, run, called⟩ := sniff_safe localContext webService statusInit 779 localExchange
    (by decide +kernel)
  have five : (nidsRun (testInService webService) 779 (tcpInit 779) localExchange).map
      (fun found => (found.1.heard, found.2.length)) = some ([], 5) := by
    decide +kernel
  rw [run, Option.map_some, Option.some.injEq, Prod.mk.injEq] at five
  obtain ⟨done, told, stays, users⟩ := called
    (calls.map fun call => ⟨call, 5, fun _ => ⟨1, ⟨1, 0⟩, 0, 0⟩⟩) (by
      rw [List.map_map]
      exact List.map_id calls)
  have parents : ∀ call ∈ calls.map fun call => (⟨call, 5, fun _ => ⟨1, ⟨1, 0⟩, 0, 0⟩⟩ : TimedCall),
      5 ≤ call.ppid := by
    intro call member
    obtain ⟨other, -, rfl⟩ := List.mem_map.mp member
    exact Nat.le_refl 5
  have none := users (stays parents)
  rw [five.1] at none
  exact ⟨m, calls, run, five.2, done, told, List.map_eq_nil_iff.mp none.eq_nil⟩

end Bscope
