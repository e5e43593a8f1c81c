import Bscope.Callback

set_option autoImplicit false

namespace Bscope

def JOIN_BUFF_SIZE : Nat := 128

def ROUTING_KEY_BUF_SIZE : Nat := 512

/-- The bytes `join` writes from `join_buff` on: the copy of `left`, as much of
`right` as `strncat` appends, and the NUL. -/
def joinBuff (left right : CStr) : Bytes := left.bytes ++ right.bytes.take JOIN_BUFF_SIZE ++ [0]

def join (left right : CStr) : CStr := cstr (joinBuff left right)

def kvPrefix : KvType → CStr
  | .requestHeader => lit "req-"
  | .responseHeader => lit "header-"
  | .cookie => lit "cookie-"
  | .get => lit "get-"
  | .post => lit "post-"

def kvTypeString (type : KvType) (key : CStr) : CStr := join (kvPrefix type) key

/-- `NIDS_CLOSE`, `NIDS_RESET`, `NIDS_TIMED_OUT`, and 0 for a complete response. -/
inductive CloseType where
  | success | close | reset | timedOut
deriving DecidableEq

def closeStatus : CloseType → CStr
  | .success => lit "success"
  | .timedOut => lit "tcp_timeout"
  | .close => lit "tcp_closed"
  | .reset => lit "tcp_reset"

/-- One object handed to the packer; a raw object is the length given to
`msgpack_pack_raw` and the pieces given to `msgpack_pack_raw_body` after it. -/
inductive Packed where
  | nil
  | int (v : Int)
  | float (v : Int)
  | raw (len : Nat) (pieces : List Bytes)
deriving DecidableEq

/-- `count` is a signed short. -/
structure MsgReport where
  objects : List Packed
  count : Int
  routingKey : Bytes
deriving DecidableEq

def toShort (v : Int) : Int := v.bmod 65536

def toInt (v : Int) : Int := v.bmod 4294967296

def packStr (s : CStr) : Packed := .raw s.strlen [s.bytes]

def MsgReport.pack (rp : MsgReport) (object : Packed) : MsgReport :=
  { rp with objects := rp.objects ++ [object] }

def reportAddKey (rp : MsgReport) (key : CStr) : MsgReport :=
  { rp.pack (packStr key) with count := toShort (rp.count + 1) }

def reportAddPair (rp : MsgReport) (key : CStr) (value : Option CStr) : MsgReport :=
  match value with
  | some value => (reportAddKey rp key).pack (packStr value)
  | none => (reportAddKey rp key).pack .nil

def reportAddPairInt (rp : MsgReport) (key : CStr) (value : Int) : MsgReport :=
  (reportAddKey rp key).pack (.int (toInt value))

/-- The value parameter is an `int`: a number of seconds loses its fraction here. -/
def reportAddPairFloat (rp : MsgReport) (key : CStr) (value : Int) : MsgReport :=
  (reportAddKey rp key).pack (.float (toInt value))

/-- Addresses are in network byte order, as in the packet. -/
structure Tuple4 where
  source : UInt16
  dest : UInt16
  saddr : UInt32
  daddr : UInt32
deriving DecidableEq

def decimal (n : Nat) : Bytes := (Nat.toDigits 10 n).map fun c => c.toNat.toUInt8

def decimalInt (v : Int) : Bytes := if v < 0 then 45 :: decimal v.natAbs else decimal v.natAbs

def intNtoa (addr : UInt32) : CStr :=
  let a := addr.toNat
  cstr (decimal (a % 256) ++ [46] ++ decimal (a / 256 % 256) ++ [46] ++
    decimal (a / 65536 % 256) ++ [46] ++ decimal (a / 16777216))

/-- What a report reads besides the session: the settings, the addresses of the
connection, and the time zone's rendering of a second. -/
structure Context where
  cfg : Configuration
  addr : Tuple4
  timestr : Nat → CStr

/-- A connection to a local server, with every capture on. -/
def localContext : Context where
  cfg := catchAll
  addr := ⟨40000, 80, 16777343, 16777343⟩
  timestr := fun _ => lit "now"

/-- A `%s` argument; the C library prints a null pointer as `(null)`. -/
def formatStr (s : Option CStr) : Bytes :=
  match s with
  | some s => s.bytes
  | none => asc "(null)"

def snprintf (size : Nat) (text : Bytes) : CStr := cstr (text.take (size - 1))

def sessionLogLine (ctx : Context) (s : Session) (now : Moment) : CStr :=
  snprintf LOG_BUF_SIZE
    ((intNtoa ctx.addr.saddr).bytes ++ asc " " ++ (intNtoa ctx.addr.daddr).bytes ++ asc ":" ++
      decimal ctx.addr.dest.toNat ++ asc " " ++ formatStr s.host ++ asc " - [" ++
      (ctx.timestr s.startTime).bytes ++ asc "] \"" ++ (httpMethodStr s.method).bytes ++ asc " " ++
      formatStr s.path ++ asc " HTTP/" ++ decimal s.httpMajor ++ asc "." ++ decimal s.httpMinor ++
      asc "\" " ++ decimal s.statusCode.val ++ asc " " ++ decimalInt (toInt now.clientCount) ++
      asc " \"" ++ formatStr (some (s.referer.getD (lit ""))) ++ asc "\" \"" ++
      formatStr (some (s.ua.getD (lit ""))) ++ asc "\"")

def sessionLog (ctx : Context) (s : Session) (now : Moment) (stat : Status) : Status :=
  let logBuff := sessionLogLine ctx s now
  statusLogpush stat (logBuff.bytes ++ [0]) logBuff.strlen

/-- The part of the referer after `"//"`, cut at the next `'/'`. The cut is made
in the session's own string. -/
def refererHost (referer : CStr) : Option CStr :=
  (strstr referer.bytes (asc "//")).map fun found => cstr ((found.drop 2).takeWhile (· ≠ 47))

/-- The referer as the session holds it after the cut. -/
def refererCut (referer : CStr) : CStr :=
  match strstr referer.bytes (asc "//") with
  | none => referer
  | some found =>
      cstr (referer.bytes.take
        (referer.strlen - (found.length - 2) + ((found.drop 2).takeWhile (· ≠ 47)).length))

def addReferer (rp : MsgReport) (s : Session) : MsgReport :=
  match s.referer with
  | some referer =>
      let rp := reportAddPair rp (lit "referer") (some referer)
      match refererHost referer with
      | some host => reportAddPair rp (lit "referer-host") (some host)
      | none => rp
  | none => rp

def addProplist (rp : MsgReport) (proplist : List Kv) : MsgReport :=
  proplist.foldl
    (fun rp p => reportAddPair rp (kvTypeString p.type p.key) (some (urldecode p.value))) rp

def addBody (rp : MsgReport) (s : Session) : MsgReport :=
  if s.isCatchResponseBody ∧ s.responseBodySize < 65535 then
    let rp := reportAddPairInt rp (lit "body-captured-size") s.responseBodySize
    let rp := reportAddKey rp (lit "body-captured")
    rp.pack (.raw s.responseBodySize (s.responseBody.map fun b => b.data.take b.size))
  else rp

def reportRoutingKey (s : Session) : Bytes :=
  (snprintf ROUTING_KEY_BUF_SIZE
    (asc "http-scope." ++ formatStr s.host ++ asc "." ++ decimal (s.statusCode.val / 100) ++
      asc "xx." ++ decimal s.statusCode.val)).bytes

/-- The message `session_report` fills before it calls `send_report`. -/
def buildReport (ctx : Context) (s : Session) (type : CloseType) (now : Moment) : MsgReport :=
  let rp : MsgReport := { objects := [], count := 0, routingKey := [] }
  let rp := reportAddPair rp (lit "@class") (some (lit "http-scope"))
  let rp := reportAddPairInt rp (lit "@time") s.startTime
  let rp := reportAddPair rp (lit "method") (some (httpMethodStr s.method))
  let rp := reportAddPair rp (lit "host") s.host
  let rp := reportAddPair rp (lit "host") s.host
  let rp := reportAddPair rp (lit "path") s.path
  let rp := reportAddPair rp (lit "node") (some ctx.cfg.node)
  let rp := reportAddPairInt rp (lit "code") s.statusCode.val
  let rp := reportAddPair rp (lit "server") (some (intNtoa ctx.addr.daddr))
  let rp := reportAddPairInt rp (lit "server-port") ctx.addr.dest.toNat
  let rp := reportAddPair rp (lit "client") (some (intNtoa ctx.addr.saddr))
  let rp := reportAddPair rp (lit "status") (some (closeStatus type))
  let rp := reportAddPairInt rp (lit "req-bytes") now.serverCount
  let rp := reportAddPairInt rp (lit "rep-bytes") now.clientCount
  let rp := reportAddPairFloat rp (lit "net-req-time") (s.reqTime.tdiv 1000000)
  let rp := reportAddPairFloat rp (lit "server-time") (s.serverTime.tdiv 1000000)
  let rp := reportAddPairFloat rp (lit "net-rep-time") (s.repTime.tdiv 1000000)
  let rp := addReferer rp s
  let rp := addProplist rp s.proplist
  let rp := addBody rp s
  { rp with routingKey := reportRoutingKey s }

/-- The message sent, if the session owes a report; the log line is written
after the referer was cut, and the session starts afresh. -/
def sessionReport (ctx : Context) (s : Session) (stat : Status) (type : CloseType)
    (now : Moment) : Session × Status × Option MsgReport :=
  if s.needReport then
    let s := { s with needReport := false }
    let rp := buildReport ctx s type now
    let s := { s with referer := s.referer.map refererCut }
    (sessionStart (sessionClean s), sessionLog ctx s now stat, some rp)
  else (s, stat, none)

end Bscope
