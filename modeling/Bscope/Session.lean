import Bscope.Utils

set_option autoImplicit false

namespace Bscope

inductive HttpMethod where
  | delete | get | head | post | put | connect | options | trace | copy | lock | mkcol | move
  | propfind | proppatch | search | unlock | report | mkactivity | checkout | merge | msearch
  | notify | subscribe | unsubscribe | patch | purge
deriving DecidableEq

def httpMethodStr : HttpMethod → CStr
  | .delete => lit "DELETE"
  | .get => lit "GET"
  | .head => lit "HEAD"
  | .post => lit "POST"
  | .put => lit "PUT"
  | .connect => lit "CONNECT"
  | .options => lit "OPTIONS"
  | .trace => lit "TRACE"
  | .copy => lit "COPY"
  | .lock => lit "LOCK"
  | .mkcol => lit "MKCOL"
  | .move => lit "MOVE"
  | .propfind => lit "PROPFIND"
  | .proppatch => lit "PROPPATCH"
  | .search => lit "SEARCH"
  | .unlock => lit "UNLOCK"
  | .report => lit "REPORT"
  | .mkactivity => lit "MKACTIVITY"
  | .checkout => lit "CHECKOUT"
  | .merge => lit "MERGE"
  | .msearch => lit "M-SEARCH"
  | .notify => lit "NOTIFY"
  | .subscribe => lit "SUBSCRIBE"
  | .unsubscribe => lit "UNSUBSCRIBE"
  | .patch => lit "PATCH"
  | .purge => lit "PURGE"

/-- Status codes as the response parser lets them through: at most 999. -/
abbrev StatusCode := Fin 1000

instance statusCodesNeZero : @NeZero Nat Zero.ofOfNat0 1000 := ⟨by decide⟩

/-- The settings the callbacks and the report read; a list is an array together
with its `_len` counter. -/
structure Configuration where
  node : CStr
  catchCode : StatusCode → Bool
  catchReqHead : List CStr
  catchRspHead : List CStr
  catchCookie : List CStr
  catchGet : List CStr
  catchPost : List CStr

/-- Settings under which every header, cookie and parameter is captured. -/
def catchAll : Configuration where
  node := lit "node"
  catchCode := fun _ => true
  catchReqHead := [lit "*"]
  catchRspHead := [lit "*"]
  catchCookie := [lit "*"]
  catchGet := [lit "*"]
  catchPost := [lit "*"]

/-- `T_REQUEST_HEADER` .. `T_POST`. -/
inductive KvType where
  | requestHeader | responseHeader | cookie | get | post
deriving DecidableEq

structure Kv where
  key : CStr
  value : CStr
  type : KvType
deriving DecidableEq

structure BodyBuf where
  data : Bytes
  size : Nat
deriving DecidableEq

/-- `FIELD_HOST` .. `FIELD_CONTENT_TYPE`, and 0. -/
inductive Field where
  | none | host | referer | ua | cookie | contentType
deriving DecidableEq

structure Timeval where
  sec : Int
  usec : Int
deriving DecidableEq, Inhabited

def IS_MULTIPART : Nat := 2

def POST_BUF_LENGTH : Nat := 4096

/-- The part of the session record that `session_init` zeroes. `postBuf` is the
first `post_buf_len` bytes of `post_buf`, `responseBody` the list that
`response_body_first` heads, and `proplist` has its newest entry first. -/
structure Session where
  method : HttpMethod
  needReport : Bool
  catchedCookie : Nat
  isCatchResponseBody : Bool
  requestMultipart : Nat
  curField : Field
  statusCode : StatusCode
  httpMajor : Nat
  httpMinor : Nat
  responseBodySize : Nat
  path : Option CStr
  host : Option CStr
  referer : Option CStr
  ua : Option CStr
  lastRequestHeader : Option CStr
  lastResponseHeader : Option CStr
  postBuf : Bytes
  reqTime : Int
  serverTime : Int
  repTime : Int
  startTime : Nat
  proplist : List Kv
  statusTime : Timeval
  responseBody : List BodyBuf
deriving DecidableEq

/-- The all-zero record; code 0 is the method DELETE. -/
def sessionInit : Session where
  method := .delete
  needReport := false
  catchedCookie := 0
  isCatchResponseBody := false
  requestMultipart := 0
  curField := .none
  statusCode := 0
  httpMajor := 0
  httpMinor := 0
  responseBodySize := 0
  path := none
  host := none
  referer := none
  ua := none
  lastRequestHeader := none
  lastResponseHeader := none
  postBuf := []
  reqTime := 0
  serverTime := 0
  repTime := 0
  startTime := 0
  proplist := []
  statusTime := ⟨0, 0⟩
  responseBody := []

/-- Both parsers start over as well; what they carry reaches the session only
through the arguments of later callbacks. -/
def sessionStart (_ : Session) : Session := sessionInit

def sessionClean (s : Session) : Session :=
  { s with
    path := none, host := none, referer := none, ua := none, postBuf := [],
    lastRequestHeader := none, lastResponseHeader := none, proplist := [], responseBody := [] }

inductive Phase where
  | reqTime | serverTime | repTime
deriving DecidableEq

/-- With a phase the time since the last mark is added to it; the mark moves. -/
def sessionTimeMark (s : Session) (r : Option Phase) (now : Timeval) : Session :=
  let passed := (now.sec - s.statusTime.sec) * 1000000 + (now.usec - s.statusTime.usec)
  match r with
  | none => { s with statusTime := now }
  | some .reqTime => { s with reqTime := s.reqTime + passed, statusTime := now }
  | some .serverTime => { s with serverTime := s.serverTime + passed, statusTime := now }
  | some .repTime => { s with repTime := s.repTime + passed, statusTime := now }

@[simp] theorem sessionTimeMark_proplist (s : Session) (r : Option Phase) (now : Timeval) :
    (sessionTimeMark s r now).proplist = s.proplist := by
  rcases r with _ | _ | _ | _ <;> rfl

@[simp] theorem sessionTimeMark_postBuf (s : Session) (r : Option Phase) (now : Timeval) :
    (sessionTimeMark s r now).postBuf = s.postBuf := by
  rcases r with _ | _ | _ | _ <;> rfl

end Bscope
