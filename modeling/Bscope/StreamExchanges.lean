import Bscope.HttpExchanges
import Bscope.Sniffing
import Mathlib.Data.List.Forall2

set_option autoImplicit false

/- What comes of the data of one stream, whatever is called for others between them. -/
namespace Bscope

open Http

/-- The data of one stream, as its session gets them. -/
def ownBlock (tcp : TcpStream) (told : TimedCall) : Option Block :=
  match told.call with
  | .data other toServer bytes => if other = tcp then some ⟨toServer, bytes, told.clock⟩ else none
  | _ => none

/-- What belongs to one stream. -/
def ownOf {α : Type} (tcp : TcpStream) (items : List (TcpStream × α)) : List α :=
  items.filterMap fun item => if item.1 = tcp then some item.2 else none

/-- Another call than the announcement or the end of this stream. -/
def Continues (tcp : TcpStream) : NidsCall → Prop
  | .justEst other => other ≠ tcp
  | .ended other _ => other ≠ tcp
  | .data _ _ _ => True

instance (tcp : TcpStream) : (call : NidsCall) → Decidable (Continues tcp call)
  | .justEst other => inferInstanceAs (Decidable (other ≠ tcp))
  | .ended other _ => inferInstanceAs (Decidable (other ≠ tcp))
  | .data _ _ _ => inferInstanceAs (Decidable True)

section Own

variable {α : Type} (tcp : TcpStream)

theorem ownOf_append (first second : List (TcpStream × α)) :
    ownOf tcp (first ++ second) = ownOf tcp first ++ ownOf tcp second :=
  List.filterMap_append

theorem ownOf_self (items : List α) : ownOf tcp (items.map (tcp, ·)) = items := by
  induction items with
  | nil => rfl
  | cons item items ih =>
      rw [List.map_cons, ownOf, List.filterMap_cons]
      simp only [if_true]
      exact congrArg (item :: ·) ih

theorem ownOf_other {other : TcpStream} (apart : other ≠ tcp) (items : List α) :
    ownOf tcp (items.map (other, ·)) = [] := by
  induction items with
  | nil => rfl
  | cons item items ih =>
      rw [List.map_cons, ownOf, List.filterMap_cons]
      simp only [if_neg apart]
      exact ih

theorem lookup_settled {sessions : Sessions} {h : HttpSession} (user : sessions.lookup tcp = some h)
    (h' : HttpSession) : (sessions.settle tcp h').lookup tcp = some h' := by
  induction sessions with
  | nil => cases user
  | cons head rest ih =>
      obtain ⟨other, held⟩ := head
      rw [Sessions.settle, List.map_cons]
      by_cases same : other = tcp
      · rw [if_pos same, List.lookup_cons_self]
      · have apart : (tcp == other) = false := beq_eq_false_iff_ne.mpr (Ne.symm same)
        rw [List.lookup_cons, apart] at user
        rw [if_neg same, List.lookup_cons, apart]
        exact ih user

theorem lookup_others {other : TcpStream} (apart : other ≠ tcp) (sessions : Sessions)
    (h' : HttpSession) : (sessions.settle other h').lookup tcp = sessions.lookup tcp := by
  induction sessions with
  | nil => rfl
  | cons head rest ih =>
      obtain ⟨third, held⟩ := head
      rw [Sessions.settle, List.map_cons]
      by_cases same : third = other
      · have apart' : (tcp == third) = false := by
          rw [same]
          exact beq_eq_false_iff_ne.mpr (Ne.symm apart)
        rw [if_pos same, List.lookup_cons, List.lookup_cons, apart', ← same, apart']
        rw [← same] at ih
        exact ih
      · rw [if_neg same, List.lookup_cons, List.lookup_cons]
        cases tcp == third with
        | true => rfl
        | false => exact ih

theorem lookup_left {other : TcpStream} (apart : other ≠ tcp) (sessions : Sessions) :
    (sessions.filter fun user => user.1 ≠ other).lookup tcp = sessions.lookup tcp := by
  induction sessions with
  | nil => rfl
  | cons head rest ih =>
      obtain ⟨third, held⟩ := head
      by_cases same : third = other
      · have apart' : (tcp == third) = false := by
          rw [same]
          exact beq_eq_false_iff_ne.mpr (Ne.symm apart)
        rw [List.filter_cons_of_neg (by simpa using same), List.lookup_cons, apart']
        exact ih
      · rw [List.filter_cons_of_pos (by simpa using same), List.lookup_cons, List.lookup_cons, ih]

end Own

section Streams

variable {ctx : Context} {config : Service} (tcp : TcpStream)

/-- What a session makes of a block does not depend on the segment it writes to. -/
theorem sessionHandleData_stat {h : HttpSession} {stat : Status} {b : Block} {done : HandledData}
    (read : sessionHandleData ctx h stat b = some done) (stat' : Status) :
    ∃ done', sessionHandleData ctx h stat' b = some done' ∧ done'.session = done.session ∧
      done'.run = done.run ∧ done'.sent = done.sent := by
  have hears : ∀ (h : HttpSession) (run : List (Moment × Event)),
      (h.hear ctx stat' run).session = (h.hear ctx stat run).session ∧
        (h.hear ctx stat' run).sent = (h.hear ctx stat run).sent := by
    intro h run
    have sent := reports_stat ctx run h.s stat' stat
    have session := after_stat ctx ⟨h.s, stat'⟩ ⟨h.s, stat⟩ run rfl
    refine ⟨?_, sent⟩
    rw [HttpSession.hear, HttpSession.hear, sent, session]
  rw [sessionHandleData] at read ⊢
  by_cases way : b.toServer = true
  · rw [if_pos way] at read ⊢
    obtain ⟨parsed, here, read⟩ := Option.bind_eq_some_iff.mp read
    cases read
    rw [here]
    exact ⟨_, rfl, (hears _ _).1, rfl, (hears _ _).2⟩
  · rw [if_neg way] at read ⊢
    obtain ⟨parsed, here, read⟩ := Option.bind_eq_some_iff.mp read
    obtain ⟨events, told, read⟩ := Option.bind_eq_some_iff.mp read
    cases read
    simp only [here, told, Option.bind_eq_bind, Option.bind_some, Option.pure_def]
    exact ⟨_, rfl, (hears _ _).1, rfl, (hears _ _).2⟩

section Calls

variable {sessions : Sessions} {stat : Status} {h : HttpSession} {done : Captured} {ppid : Nat}
  {clock : Nat → Moment} (user : sessions.lookup tcp = some h)
include user

/-- The data of the stream itself. -/
theorem data_own (served : testInService config tcp.addr = true) {toServer : Bool} {bytes : Bytes}
    (here : tcpCallback ctx config sessions stat ⟨.data tcp toServer bytes, ppid, clock⟩ = some done)
    (stat' : Status) :
    ∃ own, handleRun { ctx with addr := tcp.addr } h stat' [⟨toServer, bytes, clock⟩] = some own ∧
      done.sessions.lookup tcp = some own.session ∧ ownOf tcp done.run = own.run ∧
      ownOf tcp done.sent = own.sent := by
  rw [tcpCallback] at here
  dsimp only at here
  rw [if_pos served, user] at here
  obtain ⟨held, found, here⟩ := Option.bind_eq_some_iff.mp here
  cases found
  obtain ⟨first, read, here⟩ := Option.bind_eq_some_iff.mp here
  cases here
  obtain ⟨own, read', session, run, sent⟩ := sessionHandleData_stat read stat'
  refine ⟨⟨own.session, own.stat, own.run ++ [], own.sent ++ []⟩, ?_, ?_, ?_, ?_⟩
  · rw [handleRun, read']
    rfl
  · rw [session]
    exact lookup_settled tcp user first.session
  · show ownOf tcp (first.run.map (tcp, ·)) = own.run ++ []
    rw [List.append_nil, run, ownOf_self]
  · show ownOf tcp (first.sent.map (tcp, ·)) = own.sent ++ []
    rw [List.append_nil, sent, ownOf_self]

/-- A call for another stream leaves the session as it is, and tells nothing of it. -/
theorem call_others {call : NidsCall} (goes : Continues tcp call)
    (none : ownBlock tcp ⟨call, ppid, clock⟩ = none)
    (here : tcpCallback ctx config sessions stat ⟨call, ppid, clock⟩ = some done) :
    done.sessions.lookup tcp = some h ∧ ownOf tcp done.run = [] ∧ ownOf tcp done.sent = [] := by
  rw [tcpCallback] at here
  cases call with
  | justEst other =>
      have apart : (tcp == other) = false := beq_eq_false_iff_ne.mpr (Ne.symm goes)
      dsimp only at here
      split_ifs at here <;> cases here
      · exact ⟨user, rfl, rfl⟩
      · rw [List.lookup_cons, apart]
        exact ⟨user, rfl, rfl⟩
      · exact ⟨user, rfl, rfl⟩
  | ended other type =>
      dsimp only at here
      split at here
      case isTrue =>
        obtain ⟨held, -, here⟩ := Option.bind_eq_some_iff.mp here
        cases here
        exact ⟨(lookup_left tcp goes sessions).trans user, rfl, ownOf_other tcp goes _⟩
      case isFalse =>
        cases here
        exact ⟨user, rfl, rfl⟩
  | data other toServer bytes =>
      have apart : other ≠ tcp := by
        rintro rfl
        rw [ownBlock] at none
        dsimp only at none
        rw [if_pos rfl] at none
        cases none
      dsimp only at here
      split at here
      case isTrue =>
        obtain ⟨held, -, here⟩ := Option.bind_eq_some_iff.mp here
        obtain ⟨first, -, here⟩ := Option.bind_eq_some_iff.mp here
        cases here
        exact ⟨(lookup_others tcp apart sessions first.session).trans user,
          ownOf_other tcp apart first.run, ownOf_other tcp apart first.sent⟩
      case isFalse =>
        cases here
        exact ⟨user, rfl, rfl⟩

end Calls

/-- What one call does for the session of a stream. -/
theorem tcpCallback_own (served : testInService config tcp.addr = true) {told : TimedCall}
    (goes : Continues tcp told.call) {sessions : Sessions} {stat : Status} {h : HttpSession}
    {done : Captured} (user : sessions.lookup tcp = some h)
    (here : tcpCallback ctx config sessions stat told = some done) (stat' : Status) :
    ∃ own, handleRun { ctx with addr := tcp.addr } h stat' (ownBlock tcp told).toList = some own ∧
      done.sessions.lookup tcp = some own.session ∧ ownOf tcp done.run = own.run ∧
      ownOf tcp done.sent = own.sent := by
  obtain ⟨call, ppid, clock⟩ := told
  cases block : ownBlock tcp ⟨call, ppid, clock⟩ with
  | none => exact ⟨_, rfl, call_others tcp user goes block here⟩
  | some b =>
      cases call with
      | justEst other => cases block
      | ended other type => cases block
      | data other toServer bytes =>
          rw [ownBlock] at block
          dsimp only at block
          split at block
          case isTrue same =>
            cases same
            cases block
            exact data_own tcp user served here stat'
          case isFalse => cases block

/-- Whatever is called for other streams between them, the session of a stream makes of its
own data what it would make of them alone. -/
theorem callbackRun_own (served : testInService config tcp.addr = true) (calls : List TimedCall) :
    ∀ (sessions : Sessions) (stat stat' : Status) (h : HttpSession) (done : Captured),
      (∀ told ∈ calls, Continues tcp told.call ∧ 5 ≤ told.ppid) →
      sessions.lookup tcp = some h → callbackRun ctx config sessions stat calls = some done →
        ∃ own, handleRun { ctx with addr := tcp.addr } h stat' (calls.filterMap (ownBlock tcp)) =
            some own ∧ done.sessions.lookup tcp = some own.session ∧ ownOf tcp done.run = own.run ∧
          ownOf tcp done.sent = own.sent := by
  induction calls with
  | nil =>
      intro sessions stat stat' h done _ user run
      cases run
      exact ⟨_, rfl, user, rfl, rfl⟩
  | cons told rest ih =>
      intro sessions stat stat' h done goes user run
      obtain ⟨now, parent⟩ := goes told List.mem_cons_self
      obtain ⟨first, later, here, there, rfl⟩ := callbackRun_cons parent run
      obtain ⟨own, one, user', said, sent⟩ := tcpCallback_own tcp served now user here stat'
      obtain ⟨own', more, user'', said', sent'⟩ := ih first.sessions first.stat own.stat own.session
        later (fun other inside => goes other (List.mem_cons_of_mem told inside)) user' there
      have split : (told :: rest).filterMap (ownBlock tcp) =
          (ownBlock tcp told).toList ++ rest.filterMap (ownBlock tcp) := by
        rw [List.filterMap_cons]
        cases ownBlock tcp told <;> rfl
      refine ⟨⟨own'.session, own'.stat, own.run ++ own'.run, own.sent ++ own'.sent⟩, ?_, user'', ?_, ?_⟩
      · rw [split, handleRun_append, one, Option.bind_some, more]
        rfl
      · rw [← said, ← said']
        exact ownOf_append tcp first.run later.run
      · rw [← sent, ← sent']
        exact ownOf_append tcp first.sent later.sent

/-- From the announcement of a stream of the service on, whatever else is on the wire: when
its data bring one exchange after another, in whatever segments, the callbacks of its parsers
tell exactly these, in order, each brings one report, which is its own, and the session is
as new. -/
theorem stream_exchanges (stat : Status) (maxStream : Nat) (inputs : List NidsInput)
    (small : ∀ input ∈ inputs, input.Small) {m : Nids} {calls : List NidsCall}
    (heard : nidsRun (testInService config) maxStream (tcpInit maxStream) inputs = some (m, calls))
    {front mid : List TimedCall} {announced : TimedCall}
    (same : (front ++ announced :: mid).map TimedCall.call = calls)
    (parents : ∀ told ∈ front ++ announced :: mid, 5 ≤ told.ppid)
    (announces : announced.call = .justEst tcp) (served : testInService config tcp.addr = true)
    (goes : ∀ told ∈ mid, Continues tcp told.call) {xs : List HttpExchange}
    {traffic : List (List Block)} (cut : List.Forall₂ HttpExchange.Cut xs traffic)
    (fits : ∀ x ∈ xs, x.Fits) (data : mid.filterMap (ownBlock tcp) = traffic.flatten) :
    ∃ before later spoken, callbackRun ctx config [] stat front = some before ∧
      callbackRun ctx config before.sessions before.stat (announced :: mid) = some later ∧
      List.Forall₂ (HttpExchange.Heard { ctx with addr := tcp.addr }) xs spoken ∧
      ownOf tcp later.run = spoken.flatMap Prod.fst ∧
      ownOf tcp later.sent = spoken.map Prod.snd ∧
      later.sessions.lookup tcp = some HttpSession.start := by
  have initial := tcpInit_valid (testInService config) maxStream
  obtain ⟨m', calls', run, moves⟩ := nidsRun_moves inputs (tcpInit maxStream) initial small
  cases heard.symm.trans run
  obtain ⟨whole, called, -⟩ := moves_callback ctx initial moves [] stat _
    ⟨.refl _, fun _ member => absurd member List.not_mem_nil⟩ same
  rw [callbackRun_append] at called
  obtain ⟨before, first, called⟩ := Option.bind_eq_some_iff.mp called
  have stays := callbackRun_stays front [] stat before
    (fun told inside => parents told (List.mem_append_left _ inside)) first
  rw [stays, if_neg Bool.false_ne_true] at called
  obtain ⟨later, there, -⟩ := Option.map_eq_some_iff.mp called
  obtain ⟨call, ppid, clock⟩ := announced
  cases announces
  have parent : 5 ≤ ppid := parents _ (List.mem_append_right front List.mem_cons_self)
  have opens : tcpCallback ctx config before.sessions before.stat ⟨.justEst tcp, ppid, clock⟩ =
      some ⟨(tcp, HttpSession.start) :: before.sessions, before.stat.connUp, false, [], []⟩ := by
    rw [tcpCallback]
    dsimp only
    rw [if_pos served, if_neg (Nat.not_lt.mpr parent)]
  have next := there
  rw [callbackRun, opens, Option.bind_eq_bind, Option.bind_some, if_neg Bool.false_ne_true] at next
  obtain ⟨last, run', whole'⟩ := Option.bind_eq_some_iff.mp next
  cases whole'
  obtain ⟨own, handled, user, said, sent⟩ := callbackRun_own tcp served mid _ _ statusInit
    HttpSession.start last
    (fun told inside =>
      ⟨goes told inside, parents told (List.mem_append_right front (List.mem_cons_of_mem _ inside))⟩)
    List.lookup_cons_self run'
  obtain ⟨done, spoken, handled', new, tells, said', sent'⟩ :=
    handled_each { ctx with addr := tcp.addr } (fun x blocks => x.Fits ∧ x.Cut blocks)
      (HttpExchange.Heard { ctx with addr := tcp.addr })
      (fun x blocks cut stat => exchange_handled _ x cut.1 blocks cut.2 stat)
      ((List.forall₂_and_left _ _).mpr ⟨fits, cut⟩) statusInit
  rw [data] at handled
  cases handled.symm.trans handled'
  exact ⟨before, _, spoken, first, there, tells, said.trans said', sent.trans sent',
    user.trans (congrArg some new)⟩

end Streams

/-- A request with a body, and what answers it. -/
def webExchange : HttpExchange where
  request := sizedRequest
  interim := [interimResponse]
  reply := chunkedResponse
  passing := by
    intro r inside
    cases List.mem_singleton.mp inside
    decide +kernel
  last := by decide +kernel

/-- The same packet on a connection from another port. -/
def elsewhere : NidsInput → NidsInput
  | .tcp p =>
      let hdr := p.segment.hdr
      let hdr := if hdr.sport = 80 then { hdr with dport := 40001 } else { hdr with sport := 40001 }
      .tcp { p with segment := { p.segment with hdr := hdr } }
  | .icmp e => .icmp e

/-- The exchange, cut within the method, within a version and within the chunk, with the
handshake of another connection between. -/
def webInputs : List NidsInput :=
  localHandshake ++ [localPacket true 4294967294 1000 false false true (sizedRequest.bytes.take 2)] ++
    localHandshake.map elsewhere ++
    [localPacket true 0 1000 false false true (sizedRequest.bytes.drop 2),
      localPacket false 1000 47 false false true (interimResponse.bytes ++ asc "HT"),
      localPacket false 1018 47 false false true (chunkedResponse.bytes.drop 2)]

def webStream : TcpStream := ⟨0, localTransfer.addr⟩

def webCalls : List NidsCall :=
  [.data webStream true (sizedRequest.bytes.take 2),
    .justEst ⟨1, { localTransfer.addr with source := 40001 }⟩,
    .data webStream true (sizedRequest.bytes.drop 2),
    .data webStream false (interimResponse.bytes ++ asc "HT"),
    .data webStream false (chunkedResponse.bytes.drop 2)]

def timed (call : NidsCall) : TimedCall := ⟨call, 5, fun _ => ⟨1, ⟨1, 0⟩, 0, 0⟩⟩

theorem stream_exchanges_web : ∃ later run rp,
    callbackRun localContext webService [] statusInit (timed (.justEst webStream) :: webCalls.map timed) =
        some later ∧
      webExchange.Heard { localContext with addr := localTransfer.addr } (run, rp) ∧
      ownOf webStream later.run = run ∧ ownOf webStream later.sent = [rp] ∧
      later.sessions.lookup webStream = some HttpSession.start := by
  have goes : (nidsRun (testInService webService) 779 (tcpInit 779) webInputs).map Prod.snd =
      some (.justEst webStream :: webCalls) := by
    decide +kernel
  obtain ⟨⟨m, calls⟩, heard, same⟩ := Option.map_eq_some_iff.mp goes
  have cut : webExchange.Cut ((webCalls.map timed).filterMap (ownBlock webStream)) := by
    refine ⟨[⟨true, sizedRequest.bytes.take 2, fun _ => ⟨1, ⟨1, 0⟩, 0, 0⟩⟩,
        ⟨true, sizedRequest.bytes.drop 2, fun _ => ⟨1, ⟨1, 0⟩, 0, 0⟩⟩],
      [⟨false, interimResponse.bytes ++ asc "HT", fun _ => ⟨1, ⟨1, 0⟩, 0, 0⟩⟩,
        ⟨false, chunkedResponse.bytes.drop 2, fun _ => ⟨1, ⟨1, 0⟩, 0, 0⟩⟩], rfl, ?_, ?_, ?_, ?_⟩
    · decide +kernel
    · decide +kernel
    · decide +kernel
    · decide +kernel
  obtain ⟨before, later, spoken, first, run, tells, said, sent, new⟩ :=
    @stream_exchanges localContext webService webStream statusInit 779 webInputs
      (by decide +kernel) m calls heard [] (webCalls.map timed) (timed (.justEst webStream))
      (by
        have told : (webCalls.map timed).map TimedCall.call = webCalls := by
          rw [List.map_map]
          exact List.map_id webCalls
        exact (congrArg (NidsCall.justEst webStream :: ·) told).trans same.symm)
      (by decide +kernel) rfl (by decide +kernel) (by decide +kernel) [webExchange] _ (.cons cut .nil)
      (by
        intro x inside
        cases List.mem_singleton.mp inside
        exact ⟨⟨by decide +kernel, by decide, trivial⟩,
          by decide +kernel, by decide, by decide +kernel, by decide +kernel, trivial⟩)
      (by rw [List.flatten_singleton])
  cases first
  cases tells with
  | cons here rest =>
      cases rest
      rw [List.flatMap_singleton] at said
      exact ⟨later, _, _, run, here, said, sent, new⟩

end Bscope
