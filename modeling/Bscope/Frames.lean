import Bscope.Connection
import Mathlib.Tactic.SplitIfs

set_option autoImplicit false

/- Which fields of the session each callback may write. -/
namespace Bscope

section Writes

variable (cfg : Configuration) (s : Session) (data : Bytes)

theorem requestUrl_frame : ∃ proplist, requestUrl cfg s data =
    { s with path := some (strndup data data.length), proplist := proplist } := by
  unfold requestUrl
  dsimp only
  split
  · split <;> exact ⟨_, rfl⟩
  · exact ⟨_, rfl⟩

/-- What a name, or a piece of one, leaves for the value. -/
theorem requestHeaderField_eq : requestHeaderField cfg s data =
    { s with
      lastRequestHeader :=
        if isInList data data.length cfg.catchReqHead then
          some (strndup data data.length).strtolower
        else s.lastRequestHeader
      curField :=
        if strncasecmp (asc "host") data data.length = 0 then .host
        else if strncasecmp (asc "referer") data data.length = 0 then .referer
        else if strncasecmp (asc "user-agent") data data.length = 0 then .ua
        else if 0 < cfg.catchPost.length ∧ s.requestMultipart = 0 ∧
            strncasecmp data (asc "content-type") data.length = 0 then .contentType
        else if 0 < cfg.catchCookie.length ∧ s.catchedCookie = 0 ∧
            strncasecmp data (asc "cookie") data.length = 0 then .cookie
        else s.curField } := by
  have header : ∀ (p : Prop) [Decidable p] (s : Session) (name : Option CStr),
      (if p then { s with lastRequestHeader := name } else s) =
        { s with lastRequestHeader := if p then name else s.lastRequestHeader } := by
    intro p _ s name
    split <;> rfl
  have alone : ∀ (p : Prop) [Decidable p] (s : Session) (field : Field),
      (if p then { s with curField := field } else s) =
        { s with curField := if p then field else s.curField } := by
    intro p _ s field
    split <;> rfl
  have either : ∀ (p : Prop) [Decidable p] (s : Session) (field other : Field),
      (if p then { s with curField := field } else { s with curField := other }) =
        { s with curField := if p then field else other } := by
    intro p _ s field other
    split <;> rfl
  -- one step of the function at a time: inlined they grow with every field of the record
  unfold requestHeaderField
  extract_lets length named cookie typed
  have first := header (isInList data length cfg.catchReqHead = true) s
    (some (strndup data length).strtolower)
  change named = _ at first
  have second := alone (0 < cfg.catchCookie.length ∧ named.catchedCookie = 0 ∧
    strncasecmp data (asc "cookie") length = 0) named .cookie
  change cookie = _ at second
  have third := alone (0 < cfg.catchPost.length ∧ cookie.requestMultipart = 0 ∧
    strncasecmp data (asc "content-type") length = 0) cookie .contentType
  change typed = _ at third
  clear_value named cookie typed
  rw [alone, either, either, third, second, first]

theorem requestHeaderField_frame : ∃ header field, requestHeaderField cfg s data =
    { s with lastRequestHeader := header, curField := field } := by
  rw [requestHeaderField_eq]
  exact ⟨_, _, rfl⟩

theorem requestHeaderValue_frame : ∃ proplist header multipart host referer ua,
    requestHeaderValue cfg s data =
      { s with
        proplist := proplist, lastRequestHeader := header, requestMultipart := multipart,
        host := host, referer := referer, ua := ua, curField := .none } := by
  unfold requestHeaderValue
  cases s.lastRequestHeader <;> cases field : s.curField <;> simp only [field] <;>
    (try split) <;> exact ⟨_, _, _, _, _, _, rfl⟩

theorem requestBody_frame : ∃ proplist postBuf, requestBody cfg s data =
    { s with proplist := proplist, postBuf := postBuf } := by
  have rescan : ∃ proplist postBuf,
      (requestBodyRescan cfg s data).1 = { s with proplist := proplist, postBuf := postBuf } := by
    unfold requestBodyRescan
    dsimp only
    split
    · split <;> exact ⟨_, _, rfl⟩
    · exact ⟨_, _, rfl⟩
  have scan : ∀ s data, ∃ proplist postBuf,
      requestBodyScan cfg s data = { s with proplist := proplist, postBuf := postBuf } := by
    intro s data
    unfold requestBodyScan
    dsimp only
    split
    · split <;> exact ⟨_, _, rfl⟩
    · exact ⟨_, _, rfl⟩
  unfold requestBody
  dsimp only
  split_ifs
  · exact ⟨_, _, rfl⟩
  · obtain ⟨proplist, postBuf, first⟩ := rescan
    obtain ⟨proplist', postBuf', second⟩ :=
      scan (requestBodyRescan cfg s data).1 (requestBodyRescan cfg s data).2
    rw [second, first]
    exact ⟨_, _, rfl⟩
  · exact rescan
  · exact scan s data
  · exact ⟨_, _, rfl⟩
  · exact ⟨_, _, rfl⟩

theorem requestComplete_frame (now : Moment) : ∃ proplist reqTime,
    requestComplete cfg s now =
      { s with proplist := proplist, reqTime := reqTime, statusTime := now.tv } := by
  unfold requestComplete
  dsimp only
  split <;> exact ⟨_, _, rfl⟩

theorem reponseHeaderField_frame : ∃ header, reponseHeaderField cfg s data =
    { s with lastResponseHeader := header } := by
  unfold reponseHeaderField
  split <;> exact ⟨_, rfl⟩

theorem reponseHeaderValue_frame : ∃ proplist header, reponseHeaderValue s data =
    { s with proplist := proplist, lastResponseHeader := header } := by
  unfold reponseHeaderValue
  split <;> exact ⟨_, _, rfl⟩

theorem responseBody_frame : ∃ body size, responseBody s data =
    { s with responseBody := body, responseBodySize := size } := by
  unfold responseBody
  split_ifs <;> exact ⟨_, _, rfl⟩

end Writes

/-- A callback that brings a piece of the message. -/
def Event.brings : Event → Bool
  | .requestUrl _ => true
  | .requestHeaderField _ => true
  | .requestHeaderValue _ => true
  | .requestBody _ => true
  | .reponseHeaderField _ => true
  | .reponseHeaderValue _ => true
  | .responseBody _ => true
  | _ => false

/-- The session with what is captured in another. -/
def Session.capturing (s t : Session) : Session :=
  { s with
    path := t.path, host := t.host, referer := t.referer, ua := t.ua
    lastRequestHeader := t.lastRequestHeader, lastResponseHeader := t.lastResponseHeader
    curField := t.curField, requestMultipart := t.requestMultipart
    postBuf := t.postBuf, proplist := t.proplist
    responseBody := t.responseBody, responseBodySize := t.responseBodySize }

/-- A piece changes nothing but what is captured. -/
theorem step_brings (ctx : Context) (c : Conn) (now : Moment) (e : Event)
    (brings : e.brings = true) :
    (step ctx c (now, e)).1.s = c.s.capturing (step ctx c (now, e)).1.s := by
  cases e with
  | requestUrl data =>
      obtain ⟨_, framed⟩ := requestUrl_frame ctx.cfg c.s data
      change requestUrl ctx.cfg c.s data = c.s.capturing (requestUrl ctx.cfg c.s data)
      rw [framed]
      rfl
  | requestHeaderField data =>
      obtain ⟨_, _, framed⟩ := requestHeaderField_frame ctx.cfg c.s data
      change requestHeaderField ctx.cfg c.s data =
        c.s.capturing (requestHeaderField ctx.cfg c.s data)
      rw [framed]
      rfl
  | requestHeaderValue data =>
      obtain ⟨_, _, _, _, _, _, framed⟩ := requestHeaderValue_frame ctx.cfg c.s data
      change requestHeaderValue ctx.cfg c.s data =
        c.s.capturing (requestHeaderValue ctx.cfg c.s data)
      rw [framed]
      rfl
  | requestBody data =>
      obtain ⟨_, _, framed⟩ := requestBody_frame ctx.cfg c.s data
      change requestBody ctx.cfg c.s data = c.s.capturing (requestBody ctx.cfg c.s data)
      rw [framed]
      rfl
  | reponseHeaderField data =>
      obtain ⟨_, framed⟩ := reponseHeaderField_frame ctx.cfg c.s data
      change reponseHeaderField ctx.cfg c.s data =
        c.s.capturing (reponseHeaderField ctx.cfg c.s data)
      rw [framed]
      rfl
  | reponseHeaderValue data =>
      obtain ⟨_, _, framed⟩ := reponseHeaderValue_frame c.s data
      change reponseHeaderValue c.s data = c.s.capturing (reponseHeaderValue c.s data)
      rw [framed]
      rfl
  | responseBody data =>
      obtain ⟨_, _, framed⟩ := responseBody_frame c.s data
      change responseBody c.s data = c.s.capturing (responseBody c.s data)
      rw [framed]
      rfl
  | _ => cases brings

/-- What a callback leaves as it is, by the only event that may change it. -/
structure Kept (e : Event) (s s' : Session) : Prop where
  path : (∀ data, e ≠ .requestUrl data) → s'.path = s.path
  heads : (∀ data, e ≠ .requestHeaderValue data) → s'.host = s.host ∧ s'.referer = s.referer
  postBuf : (∀ data, e ≠ .requestBody data) → s'.postBuf = s.postBuf
  body : (∀ data, e ≠ .responseBody data) →
    s'.responseBody = s.responseBody ∧ s'.responseBodySize = s.responseBodySize

theorem kept_fields (e : Event) (s s' : Session) (path : s'.path = s.path) (host : s'.host = s.host)
    (referer : s'.referer = s.referer) (postBuf : s'.postBuf = s.postBuf)
    (body : s'.responseBody = s.responseBody) (size : s'.responseBodySize = s.responseBodySize) :
    Kept e s s' :=
  ⟨fun _ => path, fun _ => ⟨host, referer⟩, fun _ => postBuf, fun _ => ⟨body, size⟩⟩

theorem kept_rfl (e : Event) (s : Session) : Kept e s s :=
  kept_fields e s s rfl rfl rfl rfl rfl rfl

theorem kept_mark (e : Event) (s : Session) (r : Option Phase) (now : Timeval) :
    Kept e s (sessionTimeMark s r now) := by
  rcases r with _ | _ | _ | _ <;> exact kept_fields _ _ _ rfl rfl rfl rfl rfl rfl

/-- A final response complete without a report only moves the time mark. -/
theorem responseComplete_silent (ctx : Context) (c : Conn) (statusCode : StatusCode) (now : Moment)
    (silent : (responseComplete ctx c statusCode now).2 = none) :
    (responseComplete ctx c statusCode now).1.s = c.s ∨
      (responseComplete ctx c statusCode now).1.s = sessionTimeMark c.s (some .repTime) now.tv := by
  unfold responseComplete sessionReport at silent ⊢
  dsimp only at silent ⊢
  split_ifs at silent ⊢
  · exact Or.inr rfl
  · exact Or.inl rfl

/-- A report leaves a new session behind. -/
theorem step_answered (ctx : Context) (c : Conn) (now : Moment) (e : Event)
    (answered : (step ctx c (now, e)).2 ≠ none) : (step ctx c (now, e)).1.s = sessionInit := by
  cases e with
  | responseComplete statusCode =>
      change (responseComplete ctx c statusCode now).2 ≠ none at answered
      change (responseComplete ctx c statusCode now).1.s = sessionInit
      unfold responseComplete sessionReport at answered ⊢
      dsimp only at answered ⊢
      split_ifs at answered ⊢
      · rfl
      · exact absurd rfl answered
      · exact absurd rfl answered
  | _ => exact absurd rfl answered

theorem step_kept (ctx : Context) (c : Conn) (now : Moment) (e : Event)
    (silent : (step ctx c (now, e)).2 = none) : Kept e c.s (step ctx c (now, e)).1.s := by
  cases e with
  | requestUrl data =>
      obtain ⟨_, framed⟩ := requestUrl_frame ctx.cfg c.s data
      change Kept _ _ (requestUrl ctx.cfg c.s data)
      rw [framed]
      exact ⟨fun other => absurd rfl (other data), fun _ => ⟨rfl, rfl⟩, fun _ => rfl,
        fun _ => ⟨rfl, rfl⟩⟩
  | requestHeaderField data =>
      obtain ⟨_, _, framed⟩ := requestHeaderField_frame ctx.cfg c.s data
      change Kept _ _ (requestHeaderField ctx.cfg c.s data)
      rw [framed]
      exact kept_fields _ _ _ rfl rfl rfl rfl rfl rfl
  | requestHeaderValue data =>
      obtain ⟨_, _, _, _, _, _, framed⟩ := requestHeaderValue_frame ctx.cfg c.s data
      change Kept _ _ (requestHeaderValue ctx.cfg c.s data)
      rw [framed]
      exact ⟨fun _ => rfl, fun other => absurd rfl (other data), fun _ => rfl,
        fun _ => ⟨rfl, rfl⟩⟩
  | requestBody data =>
      obtain ⟨_, _, framed⟩ := requestBody_frame ctx.cfg c.s data
      change Kept _ _ (requestBody ctx.cfg c.s data)
      rw [framed]
      exact ⟨fun _ => rfl, fun _ => ⟨rfl, rfl⟩, fun other => absurd rfl (other data),
        fun _ => ⟨rfl, rfl⟩⟩
  | requestComplete =>
      obtain ⟨_, _, framed⟩ := requestComplete_frame ctx.cfg c.s now
      change Kept _ _ (requestComplete ctx.cfg c.s now)
      rw [framed]
      exact kept_fields _ _ _ rfl rfl rfl rfl rfl rfl
  | reponseHeaderField data =>
      obtain ⟨_, framed⟩ := reponseHeaderField_frame ctx.cfg c.s data
      change Kept _ _ (reponseHeaderField ctx.cfg c.s data)
      rw [framed]
      exact kept_fields _ _ _ rfl rfl rfl rfl rfl rfl
  | reponseHeaderValue data =>
      obtain ⟨_, _, framed⟩ := reponseHeaderValue_frame c.s data
      change Kept _ _ (reponseHeaderValue c.s data)
      rw [framed]
      exact kept_fields _ _ _ rfl rfl rfl rfl rfl rfl
  | responseBody data =>
      obtain ⟨_, _, framed⟩ := responseBody_frame c.s data
      change Kept _ _ (responseBody c.s data)
      rw [framed]
      exact ⟨fun _ => rfl, fun _ => ⟨rfl, rfl⟩, fun _ => rfl, fun other => absurd rfl (other data)⟩
  | responseComplete statusCode =>
      change Kept _ _ (responseComplete ctx c statusCode now).1.s
      rcases responseComplete_silent ctx c statusCode now silent with same | marked
      · rw [same]
        exact kept_rfl _ _
      · rw [marked]
        exact kept_mark _ _ _ _
  | requestBegin =>
      exact kept_fields _ _ _ rfl rfl rfl rfl rfl rfl
  | responseBegin => exact kept_mark .responseBegin c.s (some .serverTime) now.tv
  | requestHeadersComplete method httpMajor httpMinor =>
      exact kept_fields _ _ _ rfl rfl rfl rfl rfl rfl
  | responseHeadersComplete statusCode =>
      exact kept_fields _ _ _ rfl rfl rfl rfl rfl rfl

end Bscope
