import Bscope.HalfStream
import Bscope.Worker

set_option autoImplicit false

/- The connections libnids tracks: from the packets of an interface to the calls of
`tcp_callback`. -/
namespace Bscope

open Serial

/-- `nids_state`, as far as a stream that is tracked has it. -/
inductive NidsState where
  | opening | justEst | data
deriving DecidableEq

/-- A stream of the pool. Its listener is `tcp_callback`, where that asked for data. The
number in `tcp` counts the streams, and tells one from the next in its place. -/
structure Tracked where
  slot : Nat
  tcp : TcpStream
  nidsState : NidsState
  listening : Bool
  client : HalfStream
  server : HalfStream
deriving DecidableEq

/-- The streams from `tcp_latest` to `tcp_oldest`; a chain of the hash table holds those
of one hash in the same order. `freeStreams` are the places left in the pool. -/
structure Nids where
  streams : List Tracked
  tcpNum : Nat
  freeStreams : List Nat
  created : Nat
deriving DecidableEq

/-- `tcp_init`, with a pool of `maxStream + 1` places. -/
def tcpInit (maxStream : Nat) : Nids := ⟨[], 0, List.range (maxStream + 1), 0⟩

/-- A call of `tcp_callback`. Data goes with the half it came for. -/
inductive NidsCall where
  | justEst (tcp : TcpStream)
  | data (tcp : TcpStream) (toServer : Bool) (bytes : Bytes)
  | ended (tcp : TcpStream) (type : CloseType)
deriving DecidableEq

/-- A TCP packet whose header and checksum are right. -/
structure Packet where
  saddr : UInt32
  daddr : UInt32
  segment : Segment
deriving DecidableEq

def Packet.addr (p : Packet) : Tuple4 :=
  ⟨p.segment.hdr.sport, p.segment.hdr.dport, p.saddr, p.daddr⟩

def Tuple4.reversed (addr : Tuple4) : Tuple4 := ⟨addr.dest, addr.source, addr.daddr, addr.saddr⟩

def nidsFindTcpStream (m : Nids) (addr : Tuple4) : Option Tracked :=
  m.streams.find? fun t => t.tcp.addr = addr

/-- `find_stream`, and whether the packet is the client's. -/
def findStream (m : Nids) (addr : Tuple4) : Option (Tracked × Bool) :=
  match nidsFindTcpStream m addr with
  | some t => some (t, true)
  | none => (nidsFindTcpStream m addr.reversed).map fun t => (t, false)

def nidsFreeTcpStream (m : Nids) (t : Tracked) : Nids :=
  { m with
    streams := m.streams.filter fun other => other.slot ≠ t.slot
    tcpNum := m.tcpNum - 1
    freeStreams := t.slot :: m.freeStreams }

/-- The call at the end of a stream, if anyone listens. -/
def Tracked.endCall (t : Tracked) (type : CloseType) : List NidsCall :=
  if t.listening then [.ended t.tcp type] else []

def clientStart (hdr : TcpHdr) : HalfStream :=
  { HalfStream.zero .synSent with
    seq := hdr.seq + 1
    firstDataSeq := hdr.seq + 1
    window := hdr.win
    tsOn := (getTs hdr).isSome
    currTs := (getTs hdr).getD 0
    wscaleOn := (getWscale hdr).isSome
    wscale := (getWscale hdr).getD 1 }

/-- A full table gives up its oldest stream. -/
def giveUpOldest (maxStream : Nat) (m : Nids) : Option (Nids × List NidsCall) :=
  if m.tcpNum > maxStream then
    m.streams.getLast?.map fun oldest => (nidsFreeTcpStream m oldest, oldest.endCall .timedOut)
  else some (m, [])

/-- Nothing comes of an empty pool. -/
def takeFree (m : Nids) (p : Packet) : Option Nids :=
  match m.freeStreams with
  | [] => none
  | slot :: rest =>
      let t : Tracked :=
        ⟨slot, ⟨m.created, p.addr⟩, .opening, false, clientStart p.segment.hdr, .zero .close⟩
      some ⟨t :: m.streams, m.tcpNum + 1, rest, m.created + 1⟩

def addNewTcp (maxStream : Nat) (m : Nids) (p : Packet) : Option (Nids × List NidsCall) := do
  let (m, calls) ← giveUpOldest maxStream m
  let m ← takeFree m p
  return (m, calls)

/-- The half that sent a packet, and the one that receives it. -/
def Tracked.snd (t : Tracked) (fromClient : Bool) : HalfStream :=
  if fromClient then t.client else t.server

def Tracked.rcv (t : Tracked) (fromClient : Bool) : HalfStream :=
  if fromClient then t.server else t.client

def Tracked.set (t : Tracked) (fromClient : Bool) (snd rcv : HalfStream) : Tracked :=
  if fromClient then { t with client := snd, server := rcv }
  else { t with server := snd, client := rcv }

/-- The answer to the first packet of a stream; any other packet with a SYN is passed over. -/
def synReceived (t : Tracked) (fromClient : Bool) (hdr : TcpHdr) : Tracked :=
  if fromClient ∨ t.client.state ≠ .synSent ∨ t.server.state ≠ .close ∨ ¬ hdr.ack then t
  else if t.client.seq ≠ hdr.ackSeq then t
  else
    let ts := getTs hdr
    let wscale := getWscale hdr
    { t with
      client := { t.client with
        tsOn := t.client.tsOn && ts.isSome
        wscaleOn := t.client.wscaleOn && wscale.isSome
        wscale := if t.client.wscaleOn ∧ wscale.isNone then 1 else t.client.wscale }
      server := { t.server with
        state := .synRecv
        seq := hdr.seq + 1
        firstDataSeq := hdr.seq + 1
        ackSeq := hdr.ackSeq
        window := hdr.win
        tsOn := t.client.tsOn && ts.isSome
        currTs := if t.client.tsOn then ts.getD t.server.currTs else t.server.currTs
        wscaleOn := t.client.wscaleOn && wscale.isSome
        wscale := if t.client.wscaleOn then wscale.getD 1 else 1 } }

/-- The packet is outside the window of the half that receives it. -/
def outside (rcv : HalfStream) (s : Segment) : Prop :=
  ¬ (s.data = [] ∧ s.hdr.seq = rcv.ackSeq) ∧
    (¬ seqBefore s.hdr.seq (rcv.ackSeq + rcv.window.toUInt32 * rcv.wscale) ∨
      seqBefore (s.hdr.seq + UInt32.ofNat s.data.length) rcv.ackSeq)

instance (rcv : HalfStream) (s : Segment) : Decidable (outside rcv s) :=
  inferInstanceAs (Decidable (_ ∧ _))

/-- The packet is older than one that came before it, by its timestamp. -/
def outdated (snd rcv : HalfStream) (hdr : TcpHdr) : Prop :=
  rcv.tsOn ∧ ∃ ts ∈ getTs hdr, seqBefore ts snd.currTs

instance (snd rcv : HalfStream) (hdr : TcpHdr) : Decidable (outdated snd rcv hdr) :=
  inferInstanceAs (Decidable (_ ∧ _))

/-- `tcp_callback` asks for the data of both halves of a stream in service. -/
def Tracked.announce (t : Tracked) (inService : Bool) (ackSeq : UInt32) : Tracked :=
  { t with
    nidsState := .data
    listening := inService
    client := { t.client with
      state := .established, ackSeq := ackSeq, collect := t.client.collect || inService }
    server := { t.server with state := .established, collect := t.server.collect || inService } }

/-- The third packet of the handshake. -/
def Tracked.Completes (t : Tracked) (fromClient : Bool) (hdr : TcpHdr) : Prop :=
  hdr.ack ∧ fromClient ∧ t.client.state = .synSent ∧ t.server.state = .synRecv ∧
    hdr.ackSeq = t.server.seq

instance (t : Tracked) (fromClient : Bool) (hdr : TcpHdr) :
    Decidable (t.Completes fromClient hdr) := inferInstanceAs (Decidable (_ ∧ _))

/-- What an acknowledgement changes. -/
def acknowledge (t : Tracked) (fromClient : Bool) (hdr : TcpHdr) : Tracked :=
  if hdr.ack then
    let rcv := t.rcv fromClient
    t.set fromClient (handleAck (t.snd fromClient) hdr.ackSeq)
      (if rcv.state = .finSent then { rcv with state := .finConfirmed } else rcv)
  else t

def Tracked.Closed (t : Tracked) (hdr : TcpHdr) : Prop :=
  hdr.ack ∧ t.client.state = .finConfirmed ∧ t.server.state = .finConfirmed

instance (t : Tracked) (hdr : TcpHdr) : Decidable (t.Closed hdr) :=
  inferInstanceAs (Decidable (_ ∧ _))

/-- A packet with neither data nor a FIN does not reach the queue. -/
def queueData (snd rcv : HalfStream) (s : Segment) :
    Option (HalfStream × HalfStream × List Bytes) :=
  if s.data.length + s.hdr.fin.toNat > 0 then tcpQueue snd rcv s else some (snd, rcv, [])

def limitQueue (rcv : HalfStream) : HalfStream :=
  if rcv.rmemAlloc > 65535 then pruneQueue rcv else rcv

/-- The data of a packet, the new window, and the bound on what is queued. A stream that
no one listens to is given up. -/
def receive (t : Tracked) (fromClient : Bool) (s : Segment) :
    Option (Option Tracked × List NidsCall) := do
  let (snd, rcv, out) ← queueData (t.snd fromClient) (t.rcv fromClient) s
  let t' := t.set fromClient { snd with window := s.hdr.win } (limitQueue rcv)
  return (if t.listening then some t' else none, out.map (NidsCall.data t.tcp fromClient))

/-- What a packet does to the stream it belongs to, which is no longer tracked where
nothing is left of it. -/
def streamPacket (inService : Tuple4 → Bool) (t : Tracked) (fromClient : Bool) (s : Segment) :
    Option (Option Tracked × List NidsCall) :=
  if s.hdr.syn then some (some (synReceived t fromClient s.hdr), [])
  else if outside (t.rcv fromClient) s then some (some t, [])
  else if s.hdr.rst then some (none, if t.nidsState = .data then t.endCall .reset else [])
  else if outdated (t.snd fromClient) (t.rcv fromClient) s.hdr then some (some t, [])
  else
    let completes := decide (t.Completes fromClient s.hdr)
    let opened := if completes then [NidsCall.justEst t.tcp] else []
    let t := if completes then t.announce (inService t.tcp.addr) s.hdr.ackSeq else t
    if completes ∧ ¬ t.listening then some (none, opened)
    else
      let t := acknowledge t fromClient s.hdr
      if t.Closed s.hdr then some (none, opened ++ t.endCall .close)
      else (receive t fromClient s).map fun done => (done.1, opened ++ done.2)

/-- The stream `t` after what a packet did to it. -/
def Nids.settle (m : Nids) (t : Tracked) : Option Tracked → Nids
  | some t' => { m with streams := m.streams.map fun other => if other.slot = t.slot then t' else other }
  | none => nidsFreeTcpStream m t

/-- `process_tcp`, behind its checks of the packet itself. -/
def processTcp (inService : Tuple4 → Bool) (maxStream : Nat) (m : Nids) (p : Packet) :
    Option (Nids × List NidsCall) :=
  match findStream m p.addr with
  | none =>
      let hdr := p.segment.hdr
      if hdr.syn ∧ ¬ hdr.ack ∧ ¬ hdr.rst then addNewTcp maxStream m p else some (m, [])
  | some (t, fromClient) =>
      (streamPacket inService t fromClient p.segment).map fun done => (m.settle t done.1, done.2)

/-- What `process_icmp` reads of a message that a destination is unreachable, and of the
packet it is about. -/
structure Unreachable where
  code : UInt8
  src : UInt32
  dst : UInt32
  orig : Tuple4
deriving DecidableEq

def ICMP_PROT_UNREACH : UInt8 := 2

def ICMP_PORT_UNREACH : UInt8 := 3

def NR_ICMP_UNREACH : UInt8 := 15

/-- `process_icmp`, behind its checks of lengths, checksum and protocol. It compares the
port of a stream with an address. -/
def processIcmp (m : Nids) (e : Unreachable) : Nids × List NidsCall :=
  let matchAddr := e.code &&& 15 = ICMP_PROT_UNREACH ∨ e.code &&& 15 = ICMP_PORT_UNREACH
  if e.code > NR_ICMP_UNREACH ∨ (matchAddr ∧ e.src ≠ e.orig.daddr) then (m, [])
  else
    match findStream m e.orig with
    | none => (m, [])
    | some (t, _) =>
        let hlf := if t.tcp.addr.dest.toUInt32 = e.dst then t.server else t.client
        if hlf.state ≠ .synSent ∧ hlf.state ≠ .synRecv then (m, [])
        else (nidsFreeTcpStream m t, t.endCall .reset)

/-- What the interface brings. -/
inductive NidsInput where
  | tcp (p : Packet)
  | icmp (e : Unreachable)

def nidsStep (inService : Tuple4 → Bool) (maxStream : Nat) (m : Nids) :
    NidsInput → Option (Nids × List NidsCall)
  | .tcp p => processTcp inService maxStream m p
  | .icmp e => some (processIcmp m e)

/-- Any number of packets, and all the calls. -/
def nidsRun (inService : Tuple4 → Bool) (maxStream : Nat) (m : Nids) :
    List NidsInput → Option (Nids × List NidsCall)
  | [] => some (m, [])
  | input :: rest => do
      let (m, calls) ← nidsStep inService maxStream m input
      let (m, later) ← nidsRun inService maxStream m rest
      return (m, calls ++ later)

end Bscope
