import Bscope.Connection
import Bscope.Paths

set_option autoImplicit false

/- The worker, its streams and the gauge of open connections, across workers that
are killed and started again. -/
namespace Bscope

/-- What `test_in_service` reads of the settings: addresses with their masks, and ports. -/
structure Service where
  hostip : List (UInt32 × UInt32)
  hostport : List UInt16

/-- As on a machine that keeps the low byte first. -/
def ntohl (v : UInt32) : UInt32 :=
  v <<< 24 ||| (v &&& (65280 : UInt32)) <<< 8 ||| (v >>> 8 &&& (65280 : UInt32)) ||| v >>> 24

def testInService (config : Service) (addr : Tuple4) : Bool :=
  config.hostip.any fun host =>
    (ntohl addr.daddr &&& host.2) = host.1 && config.hostport.any fun port => port = addr.dest

/-- A connection, as libnids tells it from every other one. -/
structure TcpStream where
  id : Nat
  addr : Tuple4
deriving DecidableEq

/-- Where the worker is: between two callbacks, or in one of the two that write the
gauge, behind that write. -/
inductive Place where
  | idle
  | opening (tcp : TcpStream)
  | closing (tcp : TcpStream) (type : CloseType)
deriving DecidableEq

/-- A worker process: the streams its libnids tracks, the session behind the `user`
of each stream that has one, and its place in the code. -/
structure Worker where
  live : List TcpStream
  sessions : List (TcpStream × Session)
  place : Place

def Worker.start : Worker := ⟨[], [], .idle⟩

/-- The shared segment, the streams ever announced, and the worker that runs. -/
structure Scope where
  stat : Status
  seen : List TcpStream
  worker : Option Worker

def scopeStart : Scope := ⟨statusInit, [], some Worker.start⟩

/-- `stat->conn++` and `stat->conn--`, on an unsigned int. -/
def Status.connUp (stat : Status) : Status := { stat with conn := (stat.conn + 1) % 2 ^ 32 }

def Status.connDown (stat : Status) : Status :=
  { stat with conn := (stat.conn + (2 ^ 32 - 1)) % 2 ^ 32 }

/-- A callback of libnids runs in parts, and a worker can be killed between any two
of them: NIDS_JUST_EST up to `getppid`, and the rest of it; NIDS_DATA, as far as the
parser got; one of the three ends up to `session_close`, and the rest of it. -/
inductive Act where
  | justEst (tcp : TcpStream)
  | start (ppid : Nat)
  | data (tcp : TcpStream) (calls : List (Moment × Event))
  | ended (tcp : TcpStream) (type : CloseType)
  | close (now : Moment)
  | kill

/-- `tcp_callback` on NIDS_JUST_EST, up to its write to the gauge. -/
def justEst (config : Service) (tcp : TcpStream) (stat : Status) (w : Worker) : Status × Worker :=
  if testInService config tcp.addr then (stat.connUp, { w with place := .opening tcp })
  else (stat, w)

/-- The rest of it: an orphan exits. -/
def startSession (ppid : Nat) (tcp : TcpStream) (w : Worker) : Option Worker :=
  if ppid < 5 then none
  else some { w with sessions := (tcp, sessionInit) :: w.sessions, place := .idle }

/-- `tcp_callback` on NIDS_DATA, with the callbacks its parser makes. -/
def nidsData (ctx : Context) (config : Service) (tcp : TcpStream) (calls : List (Moment × Event))
    (stat : Status) (w : Worker) : Status × Worker :=
  if testInService config tcp.addr then
    match w.sessions.lookup tcp with
    | some s =>
        let c := after { ctx with addr := tcp.addr } ⟨s, stat⟩ calls
        (c.stat, { w with
          sessions := w.sessions.map fun user => if user.1 = tcp then (tcp, c.s) else user })
    | none => (stat, w)
  else (stat, w)

/-- libnids frees the stream when its callback returns. -/
def Worker.drop (w : Worker) (tcp : TcpStream) : Worker :=
  { w with live := w.live.filter (· ≠ tcp) }

/-- `tcp_callback` on the end of a stream, up to its write to the gauge. -/
def nidsEnd (config : Service) (tcp : TcpStream) (type : CloseType) (stat : Status) (w : Worker) :
    Status × Worker :=
  if testInService config tcp.addr then (stat.connDown, { w with place := .closing tcp type })
  else (stat, w.drop tcp)

/-- The rest of it. -/
def closeSession (ctx : Context) (tcp : TcpStream) (type : CloseType) (now : Moment)
    (stat : Status) (w : Worker) : Status × Worker :=
  match w.sessions.lookup tcp with
  | some s =>
      ((sessionReport { ctx with addr := tcp.addr } s stat type now).2.1,
        { w.drop tcp with
          sessions := w.sessions.filter fun user => user.1 ≠ tcp, place := .idle })
  | none => (stat, { w.drop tcp with place := .idle })

/-- libnids announces a stream once, and only while its pool of `maxStream + 1` has
room for it; data and at most one end follow. A worker that a signal killed is
followed by one that tracks no stream, on the same segment. -/
def workerStep (ctx : Context) (config : Service) (maxStream : Nat) (m : Scope) (w : Worker) :
    Act → Option Scope
  | .justEst tcp =>
      if w.place = .idle ∧ tcp ∉ m.seen ∧ w.live.length ≤ maxStream then
        let (stat, w) := justEst config tcp m.stat { w with live := tcp :: w.live }
        some ⟨stat, tcp :: m.seen, some w⟩
      else none
  | .start ppid =>
      match w.place with
      | .opening tcp => some { m with worker := startSession ppid tcp w }
      | _ => none
  | .data tcp calls =>
      if w.place = .idle ∧ tcp ∈ w.live then
        let (stat, w) := nidsData ctx config tcp calls m.stat w
        some { m with stat := stat, worker := some w }
      else none
  | .ended tcp type =>
      if w.place = .idle ∧ tcp ∈ w.live ∧ type ≠ .success then
        let (stat, w) := nidsEnd config tcp type m.stat w
        some { m with stat := stat, worker := some w }
      else none
  | .close now =>
      match w.place with
      | .closing tcp type =>
          let (stat, w) := closeSession ctx tcp type now m.stat w
          some { m with stat := stat, worker := some w }
      | _ => none
  | .kill => some { m with worker := some Worker.start }

/-- Where no worker is left, nothing happens any more. -/
def scopeStep (ctx : Context) (config : Service) (maxStream : Nat) (m : Scope) (a : Act) :
    Option Scope :=
  m.worker.bind fun w => workerStep ctx config maxStream m w a

end Bscope
