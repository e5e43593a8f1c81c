import Bscope.HeaderState
import Bscope.HeaderValues
import Bscope.Segmentation
import Bscope.SinceReport

set_option autoImplicit false

/- The header that a value is put down to. -/
namespace Bscope

namespace Side

/-- The name that a field callback of this side brings. -/
def named : Side → Event → Option Bytes
  | .request, .requestHeaderField data => some data
  | .response, .reponseHeaderField data => some data
  | _, _ => none

def valued : Side → Event → Option Bytes
  | .request, .requestHeaderValue data => some data
  | .response, .reponseHeaderValue data => some data
  | _, _ => none

/-- The key that the next value of this side gets. -/
def header (s : Session) : Side → Option CStr
  | .request => s.lastRequestHeader
  | .response => s.lastResponseHeader

end Side

/-- The name that came last on a side. -/
def lastName (side : Side) (events : List Event) : Option Bytes :=
  (events.filterMap side.named).getLast?

/-- The names that have come since the last value. -/
def waiting (side : Side) (part : List Event) : List Bytes :=
  part.foldl (fun names e => if (side.valued e).isSome then []
    else names ++ (side.named e).toList) []

/-- The last of the names that is on the list. -/
def lastListed (list : List CStr) (names : List Bytes) : Option Bytes :=
  (names.filter fun name => isInList name name.length list).getLast?

def headerKey (name : Bytes) : CStr := (strndup name name.length).strtolower

/-- Whatever was there before, the callback leaves this value. -/
def Sets (ctx : Context) (c : Conn) (call : Moment × Event) (k : KnownHeader) (value : CStr) :
    Prop :=
  ∀ old, k.read (step ctx { c with s := k.write c.s old } call).1.s = some value

/-- A value is put down to the name that came last before it. -/
structure Attributed (ctx : Context) (c : Conn) (before : List Event) (call : Moment × Event) :
    Prop where
  entries : ∀ added, (step ctx c call).1.s.proplist = added ++ c.s.proplist → ∀ kv ∈ added,
    ∀ side : Side, kv.type = side.kvType → ∃ name value, lastName side before = some name ∧
      side.valued call.2 = some value ∧ kv.key.bytes = name.map tolower ∧ kv.value = cstr value
  known : ∀ k value, Sets ctx c call k value → ∃ name data, lastName .request before = some name ∧
    call.2 = .requestHeaderValue data ∧ k.Named name ∧ value = cstr data

/-- When a value comes, the waiting name that is on the list is the last one, and
so is the one that is taken for `Host`, `Referer` or `User-Agent`. -/
structure Answers (cfg : Configuration) (typed : Bool) (part : List Event) (e : Event) : Prop where
  listed : ∀ side : Side, (side.valued e).isSome →
    ∀ listed ∈ lastListed (side.catches cfg) (waiting side part),
      ∀ name ∈ (waiting side part).getLast?, (headerKey listed).bytes = name.map tolower
  taken : (Side.request.valued e).isSome →
    ∀ k : KnownHeader, matchedField cfg typed (waiting .request part) = some k.field →
      ∀ name ∈ (waiting .request part).getLast?, k.Named name

section Names

variable (side : Side) (events : List Event) (e : Event)

theorem lastName_snoc :
    lastName side (events ++ [e]) = (side.named e).or (lastName side events) := by
  unfold lastName
  cases named : side.named e <;> simp [List.filterMap_append, named]

theorem waiting_snoc :
    waiting side (events ++ [e]) =
      if (side.valued e).isSome then [] else waiting side events ++ (side.named e).toList := by
  unfold waiting
  rw [List.foldl_append, List.foldl_cons, List.foldl_nil]

/-- A callback that is no header callback of this side. -/
theorem waiting_kept (unnamed : side.named e = none) (unvalued : side.valued e = none) :
    waiting side (events ++ [e]) = waiting side events := by
  rw [waiting_snoc, unvalued, unnamed, Option.toList_none, List.append_nil]
  rfl

theorem lastListed_snoc (list : List CStr) (names : List Bytes) (name : Bytes) :
    lastListed list (names ++ [name]) =
      if isInList name name.length list then some name else lastListed list names := by
  unfold lastListed
  cases accepted : isInList name name.length list <;> simp [List.filter_append, accepted]

/-- A name that waits is the last one that came. -/
theorem waiting_last (name : Bytes)
    (last : name ∈ (waiting side (sinceReport events)).getLast?) :
    lastName side events = some name := by
  induction events using List.reverseRecOn with
  | nil => cases last
  | append_singleton events e ih =>
      rw [sinceReport_snoc] at last
      split at last
      · cases last
      · rw [waiting_snoc] at last
        split at last
        · cases last
        · rw [lastName_snoc]
          cases named : side.named e with
          | none =>
              rw [named, Option.toList_none, List.append_nil] at last
              exact ih last
          | some name' =>
              rw [named, Option.toList_some, List.getLast?_concat] at last
              exact last

theorem lastListed_waits (list : List CStr) (names : List Bytes) (listed : Bytes)
    (found : listed ∈ lastListed list names) : ∃ name, name ∈ names.getLast? := by
  cases names with
  | nil => cases found
  | cons name names => exact ⟨_, List.getLast?_cons⟩

theorem matchedField_waits (cfg : Configuration) (typed : Bool) (names : List Bytes) (field : Field)
    (found : matchedField cfg typed names = some field) : ∃ name, name ∈ names.getLast? := by
  cases names with
  | nil => cases found
  | cons name names => exact ⟨_, List.getLast?_cons⟩

end Names

/-- What the waiting names leave in the session. -/
structure Pends (cfg : Configuration) (s : Session) (part : List Event) : Prop where
  header : ∀ side : Side,
    side.header s = (lastListed (side.catches cfg) (waiting side part)).map headerKey
  field : s.curField =
    (matchedField cfg (decide (s.requestMultipart ≠ 0)) (waiting .request part)).getD .none
  cookie : s.catchedCookie = 0

/-- A session is the one before the waiting names, with what they left. -/
theorem pending_self (s : Session) (name : Option Bytes) (field : Option Field)
    (header : s.lastRequestHeader = name.map headerKey) (pointed : s.curField = field.getD .none) :
    ({ s with lastRequestHeader := none, curField := .none } : Session).pending name field = s := by
  unfold Session.pending
  have key : s.lastRequestHeader =
      name.map fun piece => (strndup piece piece.length).strtolower := header
  rw [← key, ← pointed]

section Steps

variable {cfg : Configuration} {s : Session} {part : List Event}

theorem pends_start : Pends cfg sessionInit [] where
  header side := by cases side <;> rfl
  field := rfl
  cookie := rfl

theorem pends_requestField (pends : Pends cfg s part) (name : Bytes) :
    Pends cfg (requestHeaderField cfg s name) (part ++ [.requestHeaderField name]) := by
  -- without what is pending it is a session between two headers
  have idle : Idle (decide (s.requestMultipart ≠ 0))
      { s with lastRequestHeader := none, curField := .none } := ⟨rfl, rfl, pends.cookie, rfl⟩
  have next := requestHeaderField_pending cfg _ _ (acceptedName cfg (waiting .request part))
    (matchedField cfg (decide (s.requestMultipart ≠ 0)) (waiting .request part)) name idle
  rw [← acceptedName_snoc, ← matchedField_snoc] at next
  rw [pending_self s (acceptedName cfg (waiting .request part)) _ (pends.header .request)
    pends.field] at next
  have waits : waiting .request (part ++ [.requestHeaderField name]) =
      waiting .request part ++ [name] := waiting_snoc _ _ _
  have others : waiting .response (part ++ [.requestHeaderField name]) = waiting .response part :=
    waiting_kept _ _ _ rfl rfl
  rw [next]
  constructor
  · intro side
    cases side with
    | request =>
        rw [waits]
        rfl
    | response =>
        rw [others]
        exact pends.header .response
  · rw [waits]
    rfl
  · exact pends.cookie

theorem pends_requestValue (pends : Pends cfg s part) (value : Bytes) :
    Pends cfg (requestHeaderValue cfg s value) (part ++ [.requestHeaderValue value]) := by
  obtain ⟨header, field, cookie, -⟩ := requestHeaderValue_leaves cfg s value
  obtain ⟨_, _, _, _, _, _, framed⟩ := requestHeaderValue_frame cfg s value
  have waits : waiting .request (part ++ [.requestHeaderValue value]) = [] := waiting_snoc _ _ _
  have others : waiting .response (part ++ [.requestHeaderValue value]) = waiting .response part :=
    waiting_kept _ _ _ rfl rfl
  constructor
  · intro side
    cases side with
    | request =>
        rw [waits]
        exact header
    | response =>
        rw [others, framed]
        exact pends.header .response
  · rw [waits, field]
    rfl
  · rw [cookie]
    exact pends.cookie

theorem pends_responseField (pends : Pends cfg s part) (name : Bytes) :
    Pends cfg (reponseHeaderField cfg s name) (part ++ [.reponseHeaderField name]) := by
  have waits : waiting .response (part ++ [.reponseHeaderField name]) =
      waiting .response part ++ [name] := waiting_snoc _ _ _
  have others : waiting .request (part ++ [.reponseHeaderField name]) = waiting .request part :=
    waiting_kept _ _ _ rfl rfl
  obtain ⟨_, framed⟩ := reponseHeaderField_frame cfg s name
  constructor
  · intro side
    cases side with
    | request =>
        rw [others, framed]
        exact pends.header .request
    | response =>
        rw [waits, lastListed_snoc]
        unfold reponseHeaderField
        split
        · rename_i accepted
          rw [if_pos (by exact accepted)]
          rfl
        · rename_i unlisted
          rw [if_neg (by exact unlisted)]
          exact pends.header .response
  · rw [others, framed]
    exact pends.field
  · rw [framed]
    exact pends.cookie

theorem pends_responseValue (pends : Pends cfg s part) (value : Bytes) :
    Pends cfg (reponseHeaderValue s value) (part ++ [.reponseHeaderValue value]) := by
  have waits : waiting .response (part ++ [.reponseHeaderValue value]) = [] := waiting_snoc _ _ _
  have others : waiting .request (part ++ [.reponseHeaderValue value]) = waiting .request part :=
    waiting_kept _ _ _ rfl rfl
  obtain ⟨_, _, framed⟩ := reponseHeaderValue_frame s value
  constructor
  · intro side
    cases side with
    | request =>
        rw [others, framed]
        exact pends.header .request
    | response =>
        rw [waits]
        change (reponseHeaderValue s value).lastResponseHeader = none
        unfold reponseHeaderValue
        cases header : s.lastResponseHeader with
        | none => exact header
        | some key => rfl
  · rw [others, framed]
    exact pends.field
  · rw [framed]
    exact pends.cookie

theorem pends_other (pends : Pends cfg s part) (s' : Session) (e : Event)
    (other : e.isHeader = false) (same : s'.headers = s.headers) : Pends cfg s' (part ++ [e]) := by
  have waits : ∀ side, waiting side (part ++ [e]) = waiting side part := by
    intro side
    apply waiting_kept
    · cases e <;> cases side <;> first | rfl | cases other
    · cases e <;> cases side <;> first | rfl | cases other
  constructor
  · intro side
    rw [waits, ← pends.header]
    cases side with
    | request => exact congrArg HeaderState.lastRequestHeader same
    | response => exact congrArg HeaderState.lastResponseHeader same
  · rw [waits, show s'.requestMultipart = _ from congrArg HeaderState.requestMultipart same]
    exact (congrArg HeaderState.curField same).trans pends.field
  · exact (congrArg HeaderState.catchedCookie same).trans pends.cookie

end Steps

theorem pends_after (ctx : Context) (stat : Status) (run : List (Moment × Event)) :
    Pends ctx.cfg (after ctx (connStart stat) run).s (sinceReport (run.map Prod.snd)) := by
  have owes := after_owes ctx stat
  unfold after at owes ⊢
  induction run using List.reverseRecOn with
  | nil => exact pends_start
  | append_singleton run call ih =>
      obtain ⟨now, e⟩ := call
      rw [Runs.after_snoc, List.map_append, List.map_singleton, sinceReport_snoc]
      cases made : reported (sinceReport (run.map Prod.snd)) e with
      | true =>
          rw [if_pos rfl, step_reported now (owes run) ctx made]
          exact pends_start
      | false =>
          have silent := step_quiet now (owes run) ctx made
          rw [if_neg Bool.false_ne_true]
          cases e with
          | requestHeaderField name => exact pends_requestField ih name
          | requestHeaderValue value => exact pends_requestValue ih value
          | reponseHeaderField name => exact pends_responseField ih name
          | reponseHeaderValue value => exact pends_responseValue ih value
          | _ => exact pends_other ih _ _ rfl (step_headers ctx _ now _ rfl silent)

section Captured

variable (cfg : Configuration) (s : Session) (kv : Kv) (side : Side)

theorem recorded_type (type : KvType) (pairs : List (Bytes × Bytes))
    (member : kv ∈ recorded type pairs) : kv.type = type := by
  unfold recorded at member
  rw [List.mem_reverse, List.mem_map] at member
  obtain ⟨_, -, rfl⟩ := member
  rfl

theorem headerEntries_iff (header : Option CStr) (type : KvType) (value : Bytes) :
    kv ∈ headerEntries header type value ↔
      ∃ key, header = some key ∧ kv = ⟨key, cstr value, type⟩ := by
  unfold headerEntries
  rw [strndup_length]
  cases header <;> simp

/-- The header entries among the captures are made of what is pending. -/
theorem captures_header (e : Event) (type : kv.type = side.kvType) :
    kv ∈ captures cfg s e ↔ ∃ value, side.valued e = some value ∧
      kv ∈ headerEntries (side.header s) side.kvType value := by
  have unrecorded : ∀ pairs, kv ∉ recorded .get pairs ∧ kv ∉ recorded .cookie pairs ∧
      kv ∉ recorded .post pairs := by
    intro pairs
    refine ⟨?_, ?_, ?_⟩ <;>
    · intro member
      have other := recorded_type kv _ pairs member
      rw [type] at other
      cases side <;> cases other
  have typed : ∀ header type' value, kv ∈ headerEntries header type' value →
      type' = side.kvType := by
    intro header type' value member
    obtain ⟨key, -, rfl⟩ := (headerEntries_iff kv header type' value).mp member
    exact type
  constructor
  · intro member
    cases e with
    | requestUrl data => exact absurd member (unrecorded _).1
    | requestHeaderValue data =>
        rcases List.mem_append.mp member with cookie | header
        · split at cookie
          · exact absurd cookie (unrecorded _).2.1
          · cases cookie
        · cases side with
          | request => exact ⟨data, rfl, header⟩
          | response => cases typed _ _ _ header
    | requestBody data => exact absurd member (unrecorded _).2.2
    | requestComplete =>
        rw [captures] at member
        split at member
        · exact absurd member (unrecorded _).2.2
        · cases member
    | reponseHeaderValue data =>
        cases side with
        | request => cases typed _ _ _ member
        | response => exact ⟨data, rfl, member⟩
    | _ => cases member
  · rintro ⟨value, valued, member⟩
    cases side <;> cases e <;> cases valued
    · exact List.mem_append_right _ member
    · exact member

end Captured

/-- Only a value callback sets a known header. -/
theorem step_unvalued (ctx : Context) (c : Conn) (now : Moment) (e : Event) (k : KnownHeader)
    (unvalued : Side.request.valued e = none) (silent : (step ctx c (now, e)).2 = none) :
    k.read (step ctx c (now, e)).1.s = k.read c.s := by
  cases e with
  | requestHeaderField name =>
      obtain ⟨_, _, framed⟩ := requestHeaderField_frame ctx.cfg c.s name
      change k.read (requestHeaderField ctx.cfg c.s name) = _
      rw [framed]
      cases k <;> rfl
  | requestHeaderValue value => cases unvalued
  | reponseHeaderField name =>
      obtain ⟨_, framed⟩ := reponseHeaderField_frame ctx.cfg c.s name
      change k.read (reponseHeaderField ctx.cfg c.s name) = _
      rw [framed]
      cases k <;> rfl
  | reponseHeaderValue value =>
      obtain ⟨_, _, framed⟩ := reponseHeaderValue_frame c.s value
      change k.read (reponseHeaderValue c.s value) = _
      rw [framed]
      cases k <;> rfl
  | _ => exact k.read_headers _ _ (step_headers ctx c now _ rfl silent)

theorem sets_iff (ctx : Context) (c : Conn) (now : Moment) (e : Event) (k : KnownHeader)
    (value : CStr) :
    Sets ctx c (now, e) k value ↔
      ∃ data, e = .requestHeaderValue data ∧ c.s.curField = k.field ∧ value = cstr data := by
  constructor
  · intro sets
    have left := sets none
    cases valued : Side.request.valued e with
    | none =>
        by_cases silent : (step ctx { c with s := k.write c.s none } (now, e)).2 = none
        · rw [step_unvalued ctx _ now e k valued silent, k.read_write] at left
          cases left
        · rw [step_answered ctx _ now e silent] at left
          cases k <;> cases left
    | some data =>
        have here : e = .requestHeaderValue data := by
          cases e <;> cases valued
          rfl
        subst here
        change k.read (requestHeaderValue ctx.cfg (k.write c.s none) data) = _ at left
        rw [requestHeaderValue_known, k.write_curField, k.read_write] at left
        split at left
        · rename_i pointed
          exact ⟨data, rfl, pointed, (Option.some.inj left).symm⟩
        · cases left
  · rintro ⟨data, rfl, pointed, rfl⟩ old
    change k.read (requestHeaderValue ctx.cfg (k.write c.s old) data) = _
    rw [requestHeaderValue_known, k.write_curField, if_pos pointed]

/-- The field points at a known header when the waiting names do. -/
theorem pends_points (cfg : Configuration) (s : Session) (part : List Event)
    (pends : Pends cfg s part) (k : KnownHeader) :
    s.curField = k.field ↔
      matchedField cfg (decide (s.requestMultipart ≠ 0)) (waiting .request part) =
        some k.field := by
  rw [pends.field]
  cases matchedField cfg (decide (s.requestMultipart ≠ 0)) (waiting .request part) with
  | none => cases k <;> exact iff_of_false nofun nofun
  | some field => exact Option.some_inj.symm

section Attribution

variable (ctx : Context) (stat : Status) (front : List (Moment × Event)) (now : Moment) (e : Event)

theorem attributed_answers
    (attributed :
      Attributed ctx (after ctx (connStart stat) front) (front.map Prod.snd) (now, e)) :
    Answers ctx.cfg (decide ((after ctx (connStart stat) front).s.requestMultipart ≠ 0))
      (sinceReport (front.map Prod.snd)) e := by
  have pends := pends_after ctx stat front
  have room := room_after ctx (connStart stat) front (room_start stat)
  have last := fun side => waiting_last side (front.map Prod.snd)
  generalize after ctx (connStart stat) front = c at pends room attributed ⊢
  constructor
  · intro side comes listed found name waits
    obtain ⟨value, valued⟩ := Option.isSome_iff_exists.mp comes
    have silent : (step ctx c (now, e)).2 = none := by
      apply step_not_final
      cases side <;> cases e <;> first | rfl | cases valued
    have pending : side.header c.s = some (headerKey listed) := by
      rw [pends.header, found]
      rfl
    have entry := (headerEntries_iff ⟨headerKey listed, cstr value, side.kvType⟩ _ _ value).mpr
      ⟨_, pending, rfl⟩
    have member := (captures_header ctx.cfg c.s _ side e rfl).mpr ⟨value, valued, entry⟩
    obtain ⟨name', _, came, -, same, -⟩ := attributed.entries _
      (step_proplist ctx c now e room silent) _ member side rfl
    rw [last side name waits] at came
    rw [same, Option.some.inj came]
  · intro comes k taken name waits
    obtain ⟨value, valued⟩ := Option.isSome_iff_exists.mp comes
    have here : e = .requestHeaderValue value := by
      cases e <;> cases valued
      rfl
    have pointed := (pends_points ctx.cfg c.s _ pends k).mpr taken
    have sets := (sets_iff ctx c now e k (cstr value)).mpr ⟨value, here, pointed, rfl⟩
    obtain ⟨name', _, came, -, named, -⟩ := attributed.known k _ sets
    rw [last .request name waits] at came
    rwa [Option.some.inj came]

theorem answers_attributed
    (answers :
      Answers ctx.cfg (decide ((after ctx (connStart stat) front).s.requestMultipart ≠ 0))
        (sinceReport (front.map Prod.snd)) e) :
    Attributed ctx (after ctx (connStart stat) front) (front.map Prod.snd) (now, e) := by
  have pends := pends_after ctx stat front
  have owes := after_owes ctx stat front
  have room := room_after ctx (connStart stat) front (room_start stat)
  have last := fun side => waiting_last side (front.map Prod.snd)
  generalize after ctx (connStart stat) front = c at pends owes room answers ⊢
  constructor
  · intro added grown kv member side type
    cases made : reported (sinceReport (front.map Prod.snd)) e with
    | true =>
        -- the list of the new session is empty
        rw [step_reported now owes ctx made] at grown
        rw [(List.append_eq_nil_iff.mp grown.symm).1] at member
        cases member
    | false =>
        rw [step_proplist ctx c now e room (step_quiet now owes ctx made)] at grown
        rw [← List.append_cancel_right grown] at member
        obtain ⟨value, valued, entry⟩ := (captures_header ctx.cfg c.s kv side e type).mp member
        obtain ⟨key, pending, rfl⟩ := (headerEntries_iff kv _ _ value).mp entry
        rw [pends.header] at pending
        obtain ⟨listed, found, rfl⟩ := Option.map_eq_some_iff.mp pending
        obtain ⟨name, waits⟩ := lastListed_waits _ _ listed found
        have comes : (side.valued e).isSome := by rw [valued]; rfl
        exact ⟨name, value, last side name waits, valued,
          answers.listed side comes listed found name waits, rfl⟩
  · intro k value sets
    obtain ⟨data, rfl, pointed, same⟩ := (sets_iff ctx c now e k value).mp sets
    have taken := (pends_points ctx.cfg c.s _ pends k).mp pointed
    obtain ⟨name, waits⟩ := matchedField_waits ctx.cfg _ _ _ taken
    exact ⟨name, data, last .request name waits, rfl, answers.taken rfl k taken name waits, same⟩

end Attribution

/-- Every value of a connection is put down to the name before it exactly when, each
time a value comes, the names that wait for it allow it. -/
theorem attribution_iff (ctx : Context) (stat : Status) (run : List (Moment × Event)) :
    (∀ front call back, run = front ++ call :: back →
      Attributed ctx (after ctx (connStart stat) front) (front.map Prod.snd) call) ↔
    ∀ front call back, run = front ++ call :: back →
      Answers ctx.cfg (decide ((after ctx (connStart stat) front).s.requestMultipart ≠ 0))
        (sinceReport (front.map Prod.snd)) call.2 := by
  constructor
  · intro attributed front call back split
    exact attributed_answers ctx stat front call.1 call.2 (attributed front call back split)
  · intro answers front call back split
    exact answers_attributed ctx stat front call.1 call.2 (answers front call back split)

/-- Only `accept` is asked for. -/
def acceptContext : Context :=
  { localContext with cfg := { catchAll with catchReqHead := [lit "accept"] } }

/-- A line `Accept` without a colon, and `X: v` behind it. -/
def strayRun : List (Moment × Event) :=
  [(default, .requestHeaderField (asc "Accept")), (default, .requestHeaderField (asc "X")),
    (default, .requestHeaderValue (asc "v"))]

/-- The value of `X` is put down to `Accept`. -/
theorem attribution_stray :
    (after acceptContext (connStart statusInit) strayRun).s.proplist =
        [⟨lit "accept", lit "v", .requestHeader⟩] ∧
      lastName .request (strayRun.map Prod.snd) = some (asc "X") ∧
      ¬ ∀ front call back, strayRun = front ++ call :: back →
        Attributed acceptContext (after acceptContext (connStart statusInit) front)
          (front.map Prod.snd) call := by
  have grown : (after acceptContext (connStart statusInit) strayRun).s.proplist =
      [⟨lit "accept", lit "v", .requestHeader⟩] := by decide +kernel
  refine ⟨grown, by decide +kernel, ?_⟩
  intro attributed
  have last := (attributed (strayRun.take 2) _ [] rfl).entries
    [⟨lit "accept", lit "v", .requestHeader⟩] grown _ (List.mem_singleton_self _) .request rfl
  obtain ⟨name, value, came, -, same, -⟩ := last
  obtain rfl : asc "X" = name := Option.some.inj came
  exact absurd same (by decide +kernel)

end Bscope
