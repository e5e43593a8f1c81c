import Bscope.ParseString
import Bscope.Status

set_option autoImplicit false

namespace Bscope

/-- The clock and the byte counters of the TCP stream while a callback runs. -/
structure Moment where
  time : Nat
  tv : Timeval
  clientCount : Nat
  serverCount : Nat
deriving Inhabited

def amp : UInt8 := 38

def semicolon : UInt8 := 59

/-- The query is scanned with the length of the whole URL; it lies in the block
of `path`, which ends with its NUL. -/
def requestUrl (cfg : Configuration) (s : Session) (data : Bytes) : Session :=
  let path := strndup data data.length
  let s := { s with path := some path }
  if 0 < cfg.catchGet.length then
    match strchr path.bytes 63 with
    | some p =>
        (parseString amp (p.tail ++ [0]) data.length .get cfg.catchGet s true).s
    | none => s
  else s

def requestHeaderField (cfg : Configuration) (s : Session) (data : Bytes) : Session :=
  let length := data.length
  let s := if isInList data length cfg.catchReqHead then
      { s with lastRequestHeader := some (strndup data length).strtolower }
    else s
  let s := if 0 < cfg.catchCookie.length ∧ s.catchedCookie = 0 ∧
        strncasecmp data (asc "cookie") length = 0 then
      { s with curField := .cookie }
    else s
  let s := if 0 < cfg.catchPost.length ∧ s.requestMultipart = 0 ∧
        strncasecmp data (asc "content-type") length = 0 then
      { s with curField := .contentType }
    else s
  if strncasecmp (asc "host") data length = 0 then { s with curField := .host }
  else if strncasecmp (asc "referer") data length = 0 then { s with curField := .referer }
  else if strncasecmp (asc "user-agent") data length = 0 then { s with curField := .ua }
  else s

def requestHeadersComplete (s : Session) (method : HttpMethod) (httpMajor httpMinor : Nat) :
    Session :=
  { s with method := method, httpMajor := httpMajor, httpMinor := httpMinor }

def requestHeaderValue (cfg : Configuration) (s : Session) (data : Bytes) : Session :=
  let length := data.length
  let s := match s.lastRequestHeader with
    | some header =>
        { s with
          proplist := ⟨header, strndup data length, .requestHeader⟩ :: s.proplist
          lastRequestHeader := none }
    | none => s
  let s := match s.curField with
    | .cookie => (parseString semicolon data length .cookie cfg.catchCookie s true).s
    | .contentType =>
        if strncasecmp data (asc "multipart") length ≥ 0 then
          { s with requestMultipart := IS_MULTIPART }
        else { s with requestMultipart := 3 }
    | .host => { s with host := some (strndup data length) }
    | .referer => { s with referer := some (strndup data length) }
    | .ua => { s with ua := some (strndup data length) }
    | .none => s
  { s with curField := .none }

/-- The copied length is cut so that one byte of the buffer always stays free. -/
def bufPush (s : Session) (p : Bytes) (len : Int) : Session :=
  let len := min len (POST_BUF_LENGTH - s.postBuf.length - 1)
  { s with postBuf := s.postBuf ++ p.take len.toNat }

/-- The first scan of `request_body`: the carried-over bytes with the chunk
behind them. A later key start empties the buffer and moves `at` there. -/
def requestBodyRescan (cfg : Configuration) (s : Session) (data : Bytes) : Session × Bytes :=
  let lastPostBufLen := s.postBuf.length
  let s := bufPush s data data.length
  let r := parseString amp s.postBuf s.postBuf.length .post cfg.catchPost s false
  match r.ret with
  | some p =>
      if p > 0 then
        let next : Int := p - lastPostBufLen
        ({ r.s with postBuf := [] }, data.drop next.toNat)
      else (r.s, data)
  | none => ({ r.s with postBuf := [] }, data)

/-- The second scan: the chunk alone, kept from its last key start on. -/
def requestBodyScan (cfg : Configuration) (s : Session) (data : Bytes) : Session :=
  let r := parseString amp data data.length .post cfg.catchPost s false
  match r.ret with
  | some p =>
      let more : Int := data.length - p
      if more < POST_BUF_LENGTH then bufPush r.s (data.drop p) more else r.s
  | none => r.s

def requestBody (cfg : Configuration) (s : Session) (data : Bytes) : Session :=
  if 0 < cfg.catchPost.length then
    if s.requestMultipart = IS_MULTIPART then s
    else
      let (s, data) := if 0 < s.postBuf.length then requestBodyRescan cfg s data else (s, data)
      if s.postBuf.length = 0 then requestBodyScan cfg s data else s
  else s

def reponseHeaderField (cfg : Configuration) (s : Session) (data : Bytes) : Session :=
  if isInList data data.length cfg.catchRspHead then
    { s with lastResponseHeader := some (strndup data data.length).strtolower }
  else s

def responseHeadersComplete (cfg : Configuration) (s : Session) (statusCode : StatusCode) :
    Session :=
  { s with statusCode := statusCode, isCatchResponseBody := cfg.catchCode statusCode }

def reponseHeaderValue (s : Session) (data : Bytes) : Session :=
  match s.lastResponseHeader with
  | some header =>
      { s with
        proplist := ⟨header, strndup data data.length, .responseHeader⟩ :: s.proplist
        lastResponseHeader := none }
  | none => s

def requestBegin (s : Session) (now : Moment) : Session :=
  { sessionTimeMark { s with needReport := true } none now.tv with startTime := now.time }

/-- What `request_begin` does to the shared segment: the bucket of the second
counts on, or starts again when it still holds an older second. -/
def countRequest (stat : Status) (now : Moment) : Status :=
  let i := now.time % RPS_N
  let bucket := stat.rps i
  let bucket := if bucket.time = now.time then ⟨bucket.time, (bucket.value + 1) % 2 ^ 32⟩
    else ⟨now.time, 1⟩
  { stat with rps := fun k => if k = i then bucket else stat.rps k }

def requestComplete (cfg : Configuration) (s : Session) (now : Moment) : Session :=
  let s := sessionTimeMark s (some .reqTime) now.tv
  if 0 < cfg.catchPost.length ∧ 0 < s.postBuf.length then
    (parseString amp s.postBuf s.postBuf.length .post cfg.catchPost s true).s
  else s

def responseBegin (s : Session) (now : Moment) : Session :=
  sessionTimeMark s (some .serverTime) now.tv

/-- The size is kept in an unsigned short, and so is the size of each fragment. -/
def responseBody (s : Session) (data : Bytes) : Session :=
  if s.isCatchResponseBody then
    if s.responseBodySize + data.length < 65535 then
      { s with
        responseBody := s.responseBody ++ [⟨data, data.length % 65536⟩]
        responseBodySize := (s.responseBodySize + data.length) % 65536 }
    else s
  else s

end Bscope
