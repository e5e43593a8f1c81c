import Bscope.Frames
import Bscope.PostBody

set_option autoImplicit false

namespace Bscope

open Scanner

theorem semicolonPlain : ¬ semicolon.toInt8 > 65 ∧ semicolon ≠ 61 := by decide

def getGrammar (cfg : Configuration) : Grammar UInt8 := paramGrammar amp cfg.catchGet ampPlain

def cookieGrammar (cfg : Configuration) : Grammar UInt8 :=
  paramGrammar semicolon cfg.catchCookie semicolonPlain

/-- The wanted pairs of a URL's query. -/
def urlPairs (cfg : Configuration) (data : Bytes) : List (Bytes × Bytes) :=
  if 0 < cfg.catchGet.length then
    match strchr (strndup data data.length).bytes 63 with
    | some p => captured (getGrammar cfg) true (p.tail ++ [0])
    | none => []
  else []

/-- The wanted pairs that one chunk of a body completes, with those it repeats. -/
def chunkPairs (cfg : Configuration) (s : Session) (data : Bytes) : List (Bytes × Bytes) :=
  if cfg.catchPost.length = 0 ∨ s.requestMultipart = IS_MULTIPART then []
  else if s.postBuf = [] then captured (postGrammar cfg) false data
  else
    captured (postGrammar cfg) false (joined s.postBuf data) ++
      if 0 ∉ joined s.postBuf data ∧ keyStart (postGrammar cfg) (joined s.postBuf data) = some 0 then []
      else captured (postGrammar cfg) false (rescanned (postGrammar cfg) s.postBuf data)

def headerEntries (header : Option CStr) (type : KvType) (data : Bytes) : List Kv :=
  header.toList.map fun key => ⟨key, strndup data data.length, type⟩

/-- The entries an event adds to the property list, newest first. -/
def captures (cfg : Configuration) (s : Session) : Event → List Kv
  | .requestUrl data => recorded .get (urlPairs cfg data)
  | .requestHeaderValue data =>
      (if s.curField = .cookie then recorded .cookie (captured (cookieGrammar cfg) true data) else []) ++
        headerEntries s.lastRequestHeader .requestHeader data
  | .requestBody data => recorded .post (chunkPairs cfg s data)
  | .requestComplete =>
      if 0 < cfg.catchPost.length then recorded .post (captured (postGrammar cfg) true s.postBuf)
      else []
  | .reponseHeaderValue data => headerEntries s.lastResponseHeader .responseHeader data
  | _ => []

theorem strchr_suffix (s : Bytes) (c : UInt8) (p : Bytes) (found : strchr s c = some p) :
    p <:+ s ∧ p ≠ [] := by
  unfold strchr at found
  split at found
  · rename_i member
    obtain rfl := Option.some.inj found
    refine ⟨List.dropWhile_suffix _, ?_⟩
    intro none
    rw [List.dropWhile_eq_nil_iff] at none
    simpa using none c member
  · cases found

theorem requestUrl_eq (cfg : Configuration) (s : Session) (data : Bytes) :
    requestUrl cfg s data =
      ({ s with path := some (strndup data data.length) } : Session).record .get
        (urlPairs cfg data) := by
  unfold requestUrl urlPairs
  dsimp only
  split
  · cases query : strchr (strndup data data.length).bytes 63 with
    | none => rfl
    | some p =>
        obtain ⟨inside, nonempty⟩ := strchr_suffix _ _ _ query
        have size := inside.length_le.trans (strndup_strlen_le data data.length)
        have block : (p.tail ++ [0]).length ≤ data.length := by
          have positive := List.length_pos_of_ne_nil nonempty
          simp only [List.length_append, List.length_tail, List.length_singleton]
          omega
        have spec := parseString_spec amp cfg.catchGet ampPlain .get
          { s with path := some (strndup data data.length) } (p.tail ++ [0]) data.length true
          (Or.inr (by rw [List.take_of_length_le block]; simp))
        rw [List.take_of_length_le block] at spec
        exact spec.session
  · rfl

theorem requestBody_chunk (cfg : Configuration) (s : Session) (data : Bytes)
    (room : s.postBuf.length < POST_BUF_LENGTH) :
    (requestBody cfg s data).proplist = recorded .post (chunkPairs cfg s data) ++ s.proplist ∧
      (requestBody cfg s data).postBuf.length < POST_BUF_LENGTH := by
  unfold chunkPairs
  by_cases off : cfg.catchPost.length = 0 ∨ s.requestMultipart = IS_MULTIPART
  · have same : requestBody cfg s data = s := by
      unfold requestBody
      by_cases posts : 0 < cfg.catchPost.length
      · rw [if_pos posts, if_pos (off.resolve_left (by omega))]
      · rw [if_neg posts]
    rw [if_pos off, same]
    exact ⟨rfl, room⟩
  · rw [not_or] at off
    rw [if_neg (not_or.mpr off), requestBody_eq cfg s data (by omega) off.2 room]
    by_cases fresh : s.postBuf = []
    · rw [if_pos fresh, if_pos fresh]
      exact ⟨rfl, carry_length _ data⟩
    · rw [if_neg fresh, if_neg fresh]
      split
      · exact ⟨by rw [List.append_nil]; rfl, joined_length _ _ room⟩
      · exact ⟨rfl, carry_length _ _⟩

theorem requestHeaderValue_proplist (cfg : Configuration) (s : Session) (data : Bytes) :
    (requestHeaderValue cfg s data).proplist =
      captures cfg s (.requestHeaderValue data) ++ s.proplist := by
  have spec : ∀ s, ParseSpec (cookieGrammar cfg) .cookie s true data _ := fun s =>
    scan_block semicolon cfg.catchCookie semicolonPlain .cookie s true data
  unfold requestHeaderValue captures headerEntries
  cases header : s.lastRequestHeader <;> cases field : s.curField <;>
    simp only [field, (spec _).session, reduceCtorEq, ↓reduceIte] <;> (try split) <;>
    simp [recorded]

/-- An event without a report puts its captures in front of the property list. -/
theorem step_proplist (ctx : Context) (c : Conn) (now : Moment) (e : Event)
    (room : c.s.postBuf.length < POST_BUF_LENGTH) (quiet : (step ctx c (now, e)).2 = none) :
    (step ctx c (now, e)).1.s.proplist = captures ctx.cfg c.s e ++ c.s.proplist := by
  cases e with
  | requestUrl data =>
      change (requestUrl ctx.cfg c.s data).proplist = _
      rw [requestUrl_eq]
      rfl
  | requestHeaderField data =>
      obtain ⟨_, _, framed⟩ := requestHeaderField_frame ctx.cfg c.s data
      change (requestHeaderField ctx.cfg c.s data).proplist = _
      rw [framed]
      rfl
  | requestHeaderValue data => exact requestHeaderValue_proplist ctx.cfg c.s data
  | requestBody data => exact (requestBody_chunk ctx.cfg c.s data room).1
  | requestComplete =>
      change (requestComplete ctx.cfg c.s now).proplist = _
      by_cases posts : 0 < ctx.cfg.catchPost.length
      · rw [requestComplete_eq ctx.cfg c.s now posts, captures, if_pos posts]
        rfl
      · rw [captures, if_neg posts]
        simp [requestComplete, posts]
  | requestBegin => exact sessionTimeMark_proplist _ _ _
  | responseBegin => exact sessionTimeMark_proplist _ _ _
  | reponseHeaderField data =>
      obtain ⟨_, framed⟩ := reponseHeaderField_frame ctx.cfg c.s data
      change (reponseHeaderField ctx.cfg c.s data).proplist = _
      rw [framed]
      rfl
  | reponseHeaderValue data =>
      change (reponseHeaderValue c.s data).proplist = _
      unfold reponseHeaderValue captures headerEntries
      cases c.s.lastResponseHeader <;> rfl
  | responseBody data =>
      obtain ⟨_, _, framed⟩ := responseBody_frame c.s data
      change (responseBody c.s data).proplist = _
      rw [framed]
      rfl
  | requestHeadersComplete method httpMajor httpMinor => rfl
  | responseHeadersComplete statusCode => rfl
  | responseComplete statusCode =>
      change (responseComplete ctx c statusCode now).1.s.proplist = _
      rcases responseComplete_silent ctx c statusCode now quiet with same | marked
      · rw [same]
        rfl
      · rw [marked]
        exact sessionTimeMark_proplist _ _ _

/-- The carry-over buffer always has a byte free. -/
def Room (c : Conn) : Prop := c.s.postBuf.length < POST_BUF_LENGTH

theorem step_room (ctx : Context) (c : Conn) (now : Moment) (e : Event) (room : Room c) :
    Room (step ctx c (now, e)).1 := by
  by_cases silent : (step ctx c (now, e)).2 = none
  · by_cases body : ∃ data, e = .requestBody data
    · obtain ⟨data, rfl⟩ := body
      exact (requestBody_chunk ctx.cfg c.s data room).2
    · have kept := (step_kept ctx c now e silent).postBuf fun data same => body ⟨data, same⟩
      exact (congrArg List.length kept).trans_lt room
  · rw [Room, step_answered ctx c now e silent]
    exact Nat.zero_lt_succ _

theorem room_start (stat : Status) : Room (connStart stat) := Nat.zero_lt_succ _

theorem room_after (ctx : Context) (c : Conn) (run : List (Moment × Event)) (room : Room c) :
    Room (after ctx c run) :=
  Runs.after_induction (step ctx) Room c run room fun _ e _ _ kept => step_room ctx _ e.1 e.2 kept

end Bscope
