import Bscope.Frames

set_option autoImplicit false

/- What the header callbacks keep in a session, and what sets it. -/
namespace Bscope

/-- All that the header callbacks read and write, but for the property list. -/
structure HeaderState where
  curField : Field
  lastRequestHeader : Option CStr
  lastResponseHeader : Option CStr
  requestMultipart : Nat
  catchedCookie : Nat
  host : Option CStr
  referer : Option CStr
  ua : Option CStr

def Session.headers (s : Session) : HeaderState where
  curField := s.curField
  lastRequestHeader := s.lastRequestHeader
  lastResponseHeader := s.lastResponseHeader
  requestMultipart := s.requestMultipart
  catchedCookie := s.catchedCookie
  host := s.host
  referer := s.referer
  ua := s.ua

def Event.isHeader : Event → Bool
  | .requestHeaderField _ => true
  | .requestHeaderValue _ => true
  | .reponseHeaderField _ => true
  | .reponseHeaderValue _ => true
  | _ => false

theorem sessionTimeMark_headers (s : Session) (r : Option Phase) (now : Timeval) :
    (sessionTimeMark s r now).headers = s.headers := by
  rcases r with _ | _ | _ | _ <;> rfl

/-- Another callback leaves it alone, unless it makes a report. -/
theorem step_headers (ctx : Context) (c : Conn) (now : Moment) (e : Event)
    (other : e.isHeader = false) (silent : (step ctx c (now, e)).2 = none) :
    (step ctx c (now, e)).1.s.headers = c.s.headers := by
  cases e with
  | requestUrl data =>
      obtain ⟨_, framed⟩ := requestUrl_frame ctx.cfg c.s data
      change (requestUrl ctx.cfg c.s data).headers = _
      rw [framed]
      rfl
  | requestBody data =>
      obtain ⟨_, _, framed⟩ := requestBody_frame ctx.cfg c.s data
      change (requestBody ctx.cfg c.s data).headers = _
      rw [framed]
      rfl
  | requestComplete =>
      obtain ⟨_, _, framed⟩ := requestComplete_frame ctx.cfg c.s now
      change (requestComplete ctx.cfg c.s now).headers = _
      rw [framed]
      rfl
  | responseBody data =>
      obtain ⟨_, _, framed⟩ := responseBody_frame c.s data
      change (responseBody c.s data).headers = _
      rw [framed]
      rfl
  | responseComplete statusCode =>
      change (responseComplete ctx c statusCode now).1.s.headers = _
      rcases responseComplete_silent ctx c statusCode now silent with same | marked
      · rw [same]
      · rw [marked]
        exact sessionTimeMark_headers _ _ _
  | requestHeaderField data => cases other
  | requestHeaderValue data => cases other
  | reponseHeaderField data => cases other
  | reponseHeaderValue data => cases other
  | requestBegin => rfl
  | responseBegin => rfl
  | requestHeadersComplete method httpMajor httpMinor => rfl
  | responseHeadersComplete statusCode => rfl

/-- The headers whose value has a place of its own in the session. -/
inductive KnownHeader where
  | host | referer | ua
deriving DecidableEq

namespace KnownHeader

def name : KnownHeader → Bytes
  | .host => asc "host"
  | .referer => asc "referer"
  | .ua => asc "user-agent"

def field : KnownHeader → Field
  | .host => .host
  | .referer => .referer
  | .ua => .ua

def read (k : KnownHeader) (s : Session) : Option CStr :=
  match k with
  | .host => s.host
  | .referer => s.referer
  | .ua => s.ua

def write (k : KnownHeader) (s : Session) (value : Option CStr) : Session :=
  match k with
  | .host => { s with host := value }
  | .referer => { s with referer := value }
  | .ua => { s with ua := value }

@[simp] theorem read_write (k : KnownHeader) (s : Session) (value : Option CStr) :
    k.read (k.write s value) = value := by
  cases k <;> rfl

theorem write_curField (k : KnownHeader) (s : Session) (value : Option CStr) :
    (k.write s value).curField = s.curField := by
  cases k <;> rfl

theorem read_headers (k : KnownHeader) (s t : Session) (same : s.headers = t.headers) :
    k.read s = k.read t := by
  cases k with
  | host => exact congrArg HeaderState.host same
  | referer => exact congrArg HeaderState.referer same
  | ua => exact congrArg HeaderState.ua same

/-- Spelled in any case. -/
def Named (k : KnownHeader) (name : Bytes) : Prop := name.map tolower = k.name

instance (k : KnownHeader) (name : Bytes) : Decidable (k.Named name) :=
  inferInstanceAs (Decidable (name.map tolower = k.name))

end KnownHeader

/-- A value callback sets the header that the field points at. -/
theorem requestHeaderValue_known (cfg : Configuration) (s : Session) (value : Bytes)
    (k : KnownHeader) :
    k.read (requestHeaderValue cfg s value) =
      if s.curField = k.field then some (cstr value) else k.read s := by
  rw [← strndup_length]
  unfold requestHeaderValue
  by_cases multipart : strncasecmp value (asc "multipart") value.length ≥ 0 <;>
    cases k <;> cases s.lastRequestHeader <;> cases pointed : s.curField <;>
      simp only [pointed, multipart, ↓reduceIte] <;> rfl

end Bscope
