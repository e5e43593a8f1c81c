import Bscope.CString
import Bscope.Serial

set_option autoImplicit false

/- One direction of a TCP connection, as libnids follows it: the segments it keeps,
and the buffer it hands to the callback. -/
namespace Bscope

open Serial

/-- The states of a half stream that the code sets. -/
inductive TcpState where
  | established | synSent | synRecv | close | closing | finSent | finConfirmed
deriving DecidableEq

/-- A segment that came too early, with its length that of `data`. -/
structure SkBuff where
  data : Bytes
  truesize : Nat
  urgPtr : UInt16
  fin : Bool
  urg : Bool
  seq : UInt32
deriving DecidableEq

/-- `offset`, `count`, `countNew`, `bufsize` and `urgCount` are ints in C: the numbers here are
those for a stream of less than `2 ^ 31` bytes, on which none of them wraps. The block behind
`data` has `bufsize` bytes, and there is none at first. -/
structure HalfStream where
  state : TcpState
  collect : Bool
  data : Option Bytes
  offset : Nat
  count : Nat
  countNew : Nat
  bufsize : Nat
  rmemAlloc : Int
  urgCount : Nat
  seq : UInt32
  ackSeq : UInt32
  firstDataSeq : UInt32
  urgdata : UInt8
  urgSeen : Bool
  urgPtr : UInt32
  window : UInt16
  tsOn : Bool
  wscaleOn : Bool
  currTs : UInt32
  wscale : UInt32
  list : List SkBuff
deriving DecidableEq

/-- As `memset` leaves it, but for the state. -/
def HalfStream.zero (state : TcpState) : HalfStream where
  state := state
  collect := false
  data := none
  offset := 0
  count := 0
  countNew := 0
  bufsize := 0
  rmemAlloc := 0
  urgCount := 0
  seq := 0
  ackSeq := 0
  firstDataSeq := 0
  urgdata := 0
  urgSeen := false
  urgPtr := 0
  window := 0
  tsOn := false
  wscaleOn := false
  currTs := 0
  wscale := 0
  list := []

/-- `before` and `after`. -/
def seqBefore (seq1 seq2 : UInt32) : Prop := Negative (seq1 - seq2)

def seqAfter (seq1 seq2 : UInt32) : Prop := Negative (seq2 - seq1)

instance (seq1 seq2 : UInt32) : Decidable (seqBefore seq1 seq2) := inferInstanceAs (Decidable (Negative _))

instance (seq1 seq2 : UInt32) : Decidable (seqAfter seq1 seq2) := inferInstanceAs (Decidable (Negative _))

/-- `EXP_SEQ`, for the half `rcv` of a stream whose other half is `snd`. -/
def expSeq (snd rcv : HalfStream) : UInt32 :=
  snd.firstDataSeq + UInt32.ofNat rcv.count + UInt32.ofNat rcv.urgCount

/-- `memcpy` into a block, nothing where it would write past the end. -/
def memcpy (block : Bytes) (i : Nat) (bytes : Bytes) : Option Bytes :=
  if i + bytes.length ≤ block.length then
    some (block.take i ++ bytes ++ block.drop (i + bytes.length))
  else none

/-- The `n` bytes from the offset `i` on, nothing where there are not as many. -/
def readBytes (bytes : Bytes) (i n : Nat) : Option Bytes :=
  if i + n ≤ bytes.length then some ((bytes.drop i).take n) else none

/-- The block that a buffer grows to. Of what `malloc` and `realloc` leave in the new
part nothing is read. -/
def grow (rcv : HalfStream) (datalen : Nat) : HalfStream :=
  if datalen + rcv.count - rcv.offset > rcv.bufsize then
    match rcv.data with
    | none =>
        let toalloc := if datalen < 2048 then 4096 else datalen * 2
        { rcv with data := some (List.replicate toalloc 0), bufsize := toalloc }
    | some data =>
        let toalloc := if datalen < rcv.bufsize then 2 * rcv.bufsize else rcv.bufsize + 2 * datalen
        { rcv with data := some (data ++ List.replicate (toalloc - data.length) 0), bufsize := toalloc }
  else rcv

def add2buf (rcv : HalfStream) (bytes : Bytes) : Option HalfStream := do
  let rcv := grow rcv bytes.length
  let block ← rcv.data
  let block ← memcpy block (rcv.count - rcv.offset) bytes
  return { rcv with data := some block, countNew := bytes.length, count := rcv.count + bytes.length }

/-- `notify`, and what the callback reads: it takes all that the buffer holds, since
`nids_discard` is never called. `one_loop_less` is 0, and the callback stays
registered. -/
def notify (rcv : HalfStream) : Option (HalfStream × List Bytes) := do
  if rcv.collect then
    let block ← rcv.data
    let new ← readBytes block 0 rcv.countNew
    let read := rcv.count - rcv.offset
    return ({ rcv with offset := rcv.offset + read, countNew := 0 }, [new])
  else return (rcv, [])

/-- Bytes that are due: into the buffer and to the callback, or only counted. -/
def pass (rcv : HalfStream) (data : Bytes) (i n : Nat) : Option (HalfStream × List Bytes) :=
  if rcv.collect then do
    let bytes ← readBytes data i n
    let rcv ← add2buf rcv bytes
    notify rcv
  else some ({ rcv with count := rcv.count + n, offset := rcv.count + n }, [])

/-- The urgent pointer of a segment, where it is a new one. -/
def noteUrg (snd rcv : HalfStream) (urg : Bool) (urgPtr : UInt32) : HalfStream :=
  if urg ∧ seqAfter urgPtr (expSeq snd rcv - 1) ∧ (¬ rcv.urgSeen ∨ seqAfter urgPtr rcv.urgPtr) then
    { rcv with urgPtr := urgPtr, urgSeen := true }
  else rcv

/-- The same behind a test of the number, which is an int. -/
def passSome (rcv : HalfStream) (data : Bytes) (i : Nat) (n : UInt32) :
    Option (HalfStream × List Bytes) :=
  if 0 < n.toInt32 then pass rcv data i n.toNat else some (rcv, [])

def takeUrg (rcv : HalfStream) (urgdata : UInt8) : HalfStream :=
  { rcv with urgdata := urgdata, urgSeen := false, urgCount := rcv.urgCount + 1 }

/-- New bytes with the urgent one among them. `tcp_callback` does not ask for urgent
bytes: it is taken out, and `notify` does not call for it. -/
def passAround (rcv : HalfStream) (data : Bytes) (thisSeq lost : UInt32) :
    Option (HalfStream × List Bytes) := do
  let toCopy := rcv.urgPtr - (thisSeq + lost)
  let (rcv, first) ← passSome rcv data lost.toNat toCopy
  let urgdata ← data[(rcv.urgPtr - thisSeq).toNat]?
  let rcv := takeUrg rcv urgdata
  let toCopy2 := thisSeq + UInt32.ofNat data.length - rcv.urgPtr - 1
  let (rcv, second) ← passSome rcv data (lost.toNat + toCopy.toNat + 1) toCopy2
  return (rcv, first ++ second)

/-- The difference in the last test is unsigned. -/
def passNew (rcv : HalfStream) (data : Bytes) (thisSeq lost : UInt32) :
    Option (HalfStream × List Bytes) :=
  let datalen := UInt32.ofNat data.length
  if rcv.urgSeen ∧ seqAfter (rcv.urgPtr + 1) (thisSeq + lost) ∧
      seqBefore rcv.urgPtr (thisSeq + datalen) then passAround rcv data thisSeq lost
  else if datalen - lost > 0 then pass rcv data lost.toNat (datalen - lost).toNat
  else some (rcv, [])

/-- Without `tcp_workarounds` a FIN starts no timeout. -/
def addFromSkb (snd rcv : HalfStream) (data : Bytes) (thisSeq : UInt32) (fin urg : Bool)
    (urgPtr : UInt32) : Option (HalfStream × HalfStream × List Bytes) := do
  let lost := expSeq snd rcv - thisSeq
  let (rcv, out) ← passNew (noteUrg snd rcv urg urgPtr) data thisSeq lost
  return (if fin then { snd with state := .finSent } else snd, rcv, out)

/-- A packet of the queue, if it has anything new. -/
def addVisible (snd rcv : HalfStream) (pakiet : SkBuff) :
    Option (HalfStream × HalfStream × List Bytes) :=
  let fin := if pakiet.fin then 1 else 0
  if seqAfter (pakiet.seq + UInt32.ofNat pakiet.data.length + fin) (expSeq snd rcv) then
    addFromSkb snd rcv pakiet.data pakiet.seq pakiet.fin pakiet.urg
      (pakiet.urgPtr.toUInt32 + pakiet.seq - 1)
  else some (snd, rcv, [])

/-- The old packets that a new one made visible, going forward from the first. -/
def forward (snd rcv : HalfStream) : List SkBuff → Option (HalfStream × HalfStream × List Bytes)
  | [] => some (snd, { rcv with list := [] }, [])
  | pakiet :: rest =>
      if seqAfter pakiet.seq (expSeq snd rcv) then
        some (snd, { rcv with list := pakiet :: rest }, [])
      else do
        let (snd, rcv, out) ← addVisible snd rcv pakiet
        let rcv := { rcv with rmemAlloc := rcv.rmemAlloc - pakiet.truesize, list := rest }
        let (snd, rcv, later) ← forward snd rcv rest
        return (snd, rcv, out ++ later)

/-- The place of a packet in the queue, looked for from the tail: the list is the queue
in the order of `prev`. -/
def insertFrom (pakiet : SkBuff) : List SkBuff → List SkBuff
  | [] => [pakiet]
  | p :: rest => if seqAfter p.seq pakiet.seq then p :: insertFrom pakiet rest else pakiet :: p :: rest

/-- What `process_tcp` reads of a TCP header: the fields in the order of the host, and
the options up to where the data starts. -/
structure TcpHdr where
  sport : UInt16
  dport : UInt16
  seq : UInt32
  ackSeq : UInt32
  fin : Bool
  syn : Bool
  rst : Bool
  ack : Bool
  urg : Bool
  win : UInt16
  urp : UInt16
  options : Bytes
deriving DecidableEq

/-- The four bytes of a word, the highest first. -/
def word32 (a b c d : UInt8) : UInt32 :=
  a.toUInt32 <<< 24 ||| b.toUInt32 <<< 16 ||| c.toUInt32 <<< 8 ||| d.toUInt32

/-- The loop of `get_ts` and of `get_wscale`, on the options that are left: it goes on
behind an option it has read, so that the last one counts. Every round takes a byte. -/
def optionLoop {β : Type} (kind : UInt8) (size : Nat) (value : Bytes → Option β) :
    Nat → Bytes → Option β → Option β
  | 0, _, ret => ret
  | fuel + 1, options, ret =>
      if options.length < size then ret
      else
        match options with
        | opt :: rest =>
            if opt = 0 then ret
            else if opt = 1 then optionLoop kind size value fuel rest ret
            else
              match rest with
              | len :: body =>
                  let ret := if opt = kind then value body <|> ret else ret
                  if len < 2 then ret
                  else optionLoop kind size value fuel (options.drop len.toNat) ret
              | [] => ret
        | [] => ret

/-- The value of a timestamp option. -/
def timestamp : Bytes → Option UInt32
  | a :: b :: c :: d :: _ => some (word32 a b c d)
  | _ => none

def getTs (hdr : TcpHdr) : Option UInt32 :=
  optionLoop 8 10 timestamp hdr.options.length hdr.options none

def windowScale : Bytes → Option UInt32
  | ws :: _ => some (1 <<< (if ws > 14 then 14 else ws.toUInt32))
  | [] => none

def getWscale (hdr : TcpHdr) : Option UInt32 :=
  optionLoop 3 3 windowScale hdr.options.length hdr.options none

/-- A segment, as IP delivers it: `skblen` is what the kernel would have allocated for it. -/
structure Segment where
  hdr : TcpHdr
  data : Bytes
  skblen : Nat
deriving DecidableEq

def Segment.skbuff (s : Segment) : SkBuff :=
  ⟨s.data, s.skblen, s.hdr.urp, s.hdr.fin, s.hdr.urg, s.hdr.seq⟩

/-- A segment that is behind a gap is kept. -/
def enqueue (snd rcv : HalfStream) (s : Segment) : HalfStream × HalfStream :=
  (if s.hdr.fin then { snd with state := .closing } else snd,
    { rcv with
      rmemAlloc := rcv.rmemAlloc + s.skblen
      list := (insertFrom s.skbuff rcv.list.reverse).reverse })

def tcpQueue (snd rcv : HalfStream) (s : Segment) :
    Option (HalfStream × HalfStream × List Bytes) :=
  let thisSeq := s.hdr.seq
  let fin := if s.hdr.fin then 1 else 0
  if ¬ seqAfter thisSeq (expSeq snd rcv) then
    if seqAfter (thisSeq + UInt32.ofNat s.data.length + fin) (expSeq snd rcv) then do
      let snd := { snd with currTs := (getTs s.hdr).getD snd.currTs }
      let (snd, rcv, out) ← addFromSkb snd rcv s.data thisSeq s.hdr.fin s.hdr.urg
        (s.hdr.urp.toUInt32 + thisSeq - 1)
      let (snd, rcv, later) ← forward snd rcv rcv.list
      return (snd, rcv, out ++ later)
    else some (snd, rcv, [])
  else
    let (snd, rcv) := enqueue snd rcv s
    some (snd, rcv, [])

def pruneQueue (rcv : HalfStream) : HalfStream := { rcv with list := [], rmemAlloc := 0 }

/-- `ackdiff` is an int. -/
def handleAck (snd : HalfStream) (acknum : UInt32) : HalfStream :=
  if 0 < (acknum - snd.ackSeq).toInt32 then { snd with ackSeq := acknum } else snd

end Bscope
