import Bscope.Exchange

set_option autoImplicit false

/- The request line and headers when a TCP segment may end inside any string. -/
namespace Bscope

/-- A URL and headers as delivered, every string in pieces. -/
structure Delivery where
  url : List Bytes
  headers : List Header

def Header.whole (h : Header) : Header := ⟨[h.name.flatten], [h.value.flatten]⟩

/-- The same strings, each in one piece. -/
def Delivery.whole (d : Delivery) : Delivery := ⟨[d.url.flatten], d.headers.map Header.whole⟩

/-- Every string comes in one or more pieces, none of them empty. -/
structure Delivery.Cut (d : Delivery) : Prop where
  url : d.url ≠ [] ∧ [] ∉ d.url
  headers : ∀ h ∈ d.headers,
    h.name ≠ [] ∧ [] ∉ h.name ∧ h.value ≠ [] ∧ [] ∉ h.value

def hearHeader (cfg : Configuration) (s : Session) (h : Header) : Session :=
  h.value.foldl (requestHeaderValue cfg) (h.name.foldl (requestHeaderField cfg) s)

def hear (cfg : Configuration) (s : Session) (d : Delivery) : Session :=
  d.headers.foldl (hearHeader cfg) (d.url.foldl (requestUrl cfg) s)

/-- What the three callbacks leave for the report. -/
def Session.heard (s : Session) :
    Option CStr × Option CStr × Option CStr × Option CStr × List Kv :=
  (s.path, s.host, s.referer, s.ua, s.proplist)

/-- The piece of a name under which the header is captured: the last one that the
list accepts. -/
def acceptedName (cfg : Configuration) (pieces : List Bytes) : Option Bytes :=
  (pieces.filter fun p => isInList p p.length cfg.catchReqHead).getLast?

/-- The field a piece of a name is taken for; `typed` says that a content type is
known already. -/
def fieldOf (cfg : Configuration) (typed : Bool) (piece : Bytes) : Option Field :=
  if strncasecmp (asc "host") piece piece.length = 0 then some .host
  else if strncasecmp (asc "referer") piece piece.length = 0 then some .referer
  else if strncasecmp (asc "user-agent") piece piece.length = 0 then some .ua
  else if 0 < cfg.catchPost.length ∧ typed = false ∧
      strncasecmp piece (asc "content-type") piece.length = 0 then some .contentType
  else if 0 < cfg.catchCookie.length ∧ strncasecmp piece (asc "cookie") piece.length = 0 then
    some .cookie
  else none

def matchedField (cfg : Configuration) (typed : Bool) (pieces : List Bytes) : Option Field :=
  (pieces.filterMap (fieldOf cfg typed)).getLast?

/-- The name is recognised from its pieces as from the whole, and the value of a
header that is kept comes in one piece. -/
def Header.Clean (cfg : Configuration) (typed : Bool) (h : Header) : Prop :=
  acceptedName cfg h.name = acceptedName cfg [h.name.flatten] ∧
    matchedField cfg typed h.name = matchedField cfg typed [h.name.flatten] ∧
    (h.value.length = 1 ∨ acceptedName cfg h.name = none ∧
      (matchedField cfg typed h.name = none ∨ matchedField cfg typed h.name = some .contentType))

def HeadersClean (cfg : Configuration) : Bool → List Header → Prop
  | _, [] => True
  | typed, h :: headers => h.Clean cfg typed ∧
      HeadersClean cfg (typed || matchedField cfg typed h.name = some .contentType) headers

def Delivery.Clean (cfg : Configuration) (d : Delivery) : Prop :=
  d.url.length = 1 ∧ HeadersClean cfg false d.headers

/-- Between two headers nothing is pending. -/
structure Idle (typed : Bool) (s : Session) : Prop where
  header : s.lastRequestHeader = none
  field : s.curField = .none
  cookie : s.catchedCookie = 0
  type : typed = decide (s.requestMultipart ≠ 0)

/-- Equal but for the content type, known in both or in neither. -/
structure Alike (s t : Session) : Prop where
  rest : t = { s with requestMultipart := t.requestMultipart }
  type : s.requestMultipart = 0 ↔ t.requestMultipart = 0

/-- What the pieces of a name leave for the value. -/
def Session.pending (s : Session) (name : Option Bytes) (field : Option Field) : Session :=
  { s with
    lastRequestHeader := name.map fun piece => (strndup piece piece.length).strtolower
    curField := field.getD .none }

theorem pending_none (typed : Bool) (s : Session) (idle : Idle typed s) :
    s.pending none none = s := by
  unfold Session.pending
  rw [Option.map_none, Option.getD_none, ← idle.header, ← idle.field]

theorem requestHeaderField_pending (cfg : Configuration) (typed : Bool) (s : Session)
    (name : Option Bytes) (field : Option Field) (piece : Bytes) (idle : Idle typed s) :
    requestHeaderField cfg (s.pending name field) piece =
      s.pending (if isInList piece piece.length cfg.catchReqHead then some piece else name)
        ((fieldOf cfg typed piece).or field) := by
  have untyped : typed = false ↔ s.requestMultipart = 0 := by
    rw [idle.type, decide_eq_false_iff_not, not_not]
  have header : (if isInList piece piece.length cfg.catchReqHead then
        some (strndup piece piece.length).strtolower
      else (s.pending name field).lastRequestHeader) =
        (if isInList piece piece.length cfg.catchReqHead then some piece else name).map
          fun piece => (strndup piece piece.length).strtolower := by
    split <;> rfl
  rw [requestHeaderField_eq, header]
  unfold fieldOf Session.pending
  simp only [untyped, idle.cookie, true_and]
  congr 1
  split_ifs <;> rfl

theorem acceptedName_snoc (cfg : Configuration) (pieces : List Bytes) (piece : Bytes) :
    acceptedName cfg (pieces ++ [piece]) =
      if isInList piece piece.length cfg.catchReqHead then some piece
      else acceptedName cfg pieces := by
  unfold acceptedName
  cases accepted : isInList piece piece.length cfg.catchReqHead <;>
    simp [List.filter_append, accepted]

theorem matchedField_snoc (cfg : Configuration) (typed : Bool) (pieces : List Bytes)
    (piece : Bytes) :
    matchedField cfg typed (pieces ++ [piece]) =
      (fieldOf cfg typed piece).or (matchedField cfg typed pieces) := by
  unfold matchedField
  cases field : fieldOf cfg typed piece <;> simp [List.filterMap_append, field]

/-- A name leaves the last of its pieces that is accepted, and the last field that
one of them matches. -/
theorem fields_eq (cfg : Configuration) (typed : Bool) (s : Session) (pieces : List Bytes)
    (idle : Idle typed s) :
    pieces.foldl (requestHeaderField cfg) s =
      s.pending (acceptedName cfg pieces) (matchedField cfg typed pieces) := by
  induction pieces using List.reverseRecOn with
  | nil =>
      apply Eq.symm
      exact pending_none typed s idle
  | append_singleton pieces piece ih =>
      rw [List.foldl_append, List.foldl_cons, List.foldl_nil, ih,
        requestHeaderField_pending cfg typed s _ _ piece idle, acceptedName_snoc, matchedField_snoc]

theorem requestHeaderValue_idle (cfg : Configuration) (s : Session) (piece : Bytes)
    (header : s.lastRequestHeader = none) (field : s.curField = .none) :
    requestHeaderValue cfg s piece = s := by
  cases s
  simp only at header field
  subst header field
  rfl

theorem requestHeaderValue_type (cfg : Configuration) (s : Session) (piece : Bytes)
    (header : s.lastRequestHeader = none) (field : s.curField = .contentType) :
    ∃ multipart ≠ 0, requestHeaderValue cfg s piece =
      { s with curField := .none, requestMultipart := multipart } := by
  cases s
  simp only at header field
  subst header field
  unfold requestHeaderValue
  dsimp only
  split
  · exact ⟨IS_MULTIPART, by decide, rfl⟩
  · exact ⟨3, by decide, rfl⟩

theorem requestHeaderValue_leaves (cfg : Configuration) (s : Session) (piece : Bytes) :
    (requestHeaderValue cfg s piece).lastRequestHeader = none ∧
      (requestHeaderValue cfg s piece).curField = .none ∧
      (requestHeaderValue cfg s piece).catchedCookie = s.catchedCookie ∧
      ((requestHeaderValue cfg s piece).requestMultipart ≠ 0 ↔
        s.requestMultipart ≠ 0 ∨ s.curField = .contentType) := by
  unfold requestHeaderValue
  cases header : s.lastRequestHeader <;> cases field : s.curField <;> simp only [field] <;>
    (try split) <;> simp [header, parseString, IS_MULTIPART]

/-- Only the first piece of a value is ever heard. -/
theorem values_first (cfg : Configuration) (s : Session) (piece : Bytes) (pieces : List Bytes) :
    (piece :: pieces).foldl (requestHeaderValue cfg) s = requestHeaderValue cfg s piece := by
  induction pieces using List.reverseRecOn with
  | nil => rfl
  | append_singleton pieces last ih =>
      obtain ⟨header, field, -⟩ := requestHeaderValue_leaves cfg s piece
      rw [← List.cons_append, List.foldl_append, ih, List.foldl_cons, List.foldl_nil]
      exact requestHeaderValue_idle cfg _ last header field

theorem hearHeader_eq (cfg : Configuration) (typed : Bool) (s : Session) (name : List Bytes)
    (piece : Bytes) (pieces : List Bytes) (idle : Idle typed s) :
    hearHeader cfg s ⟨name, piece :: pieces⟩ =
      requestHeaderValue cfg (s.pending (acceptedName cfg name) (matchedField cfg typed name))
        piece := by
  unfold hearHeader
  rw [values_first, fields_eq cfg typed s name idle]

theorem hearHeader_idle (cfg : Configuration) (typed : Bool) (s : Session) (h : Header)
    (idle : Idle typed s) (some_value : h.value ≠ []) :
    Idle (typed || matchedField cfg typed h.name = some .contentType) (hearHeader cfg s h) := by
  obtain ⟨name, value⟩ := h
  obtain ⟨piece, pieces, rfl⟩ := List.exists_cons_of_ne_nil some_value
  rw [hearHeader_eq cfg typed s name piece pieces idle]
  obtain ⟨header, field, cookie, type⟩ := requestHeaderValue_leaves cfg
    (s.pending (acceptedName cfg name) (matchedField cfg typed name)) piece
  apply Idle.mk header field (cookie.trans idle.cookie)
  have known := idle.type
  rw [Bool.eq_iff_iff, Bool.or_eq_true, decide_eq_true_eq, decide_eq_true_eq, type, known,
    decide_eq_true_eq]
  apply or_congr_right
  cases matchedField cfg (decide (s.requestMultipart ≠ 0)) name with
  | none => simp [Session.pending]
  | some field => simp [Session.pending]

theorem alike_refl (s : Session) : Alike s s := ⟨rfl, Iff.rfl⟩

theorem alike_idle (typed : Bool) (s t : Session) (alike : Alike s t) (idle : Idle typed s) :
    Idle typed t := by
  have type := idle.type
  rw [show decide (s.requestMultipart ≠ 0) = decide (t.requestMultipart ≠ 0) from
    decide_eq_decide.mpr (not_congr alike.type)] at type
  refine ⟨?_, ?_, ?_, type⟩ <;> rw [alike.rest]
  · exact idle.header
  · exact idle.field
  · exact idle.cookie

theorem alike_value (cfg : Configuration) (s t : Session) (name : Option Bytes)
    (field : Option Field) (piece : Bytes) (alike : Alike s t) :
    Alike (requestHeaderValue cfg (s.pending name field) piece)
      (requestHeaderValue cfg (t.pending name field) piece) := by
  obtain ⟨rest, type⟩ := alike
  constructor
  · rw [rest]
    unfold requestHeaderValue Session.pending
    cases name <;> cases field with
    | none => rfl
    | some field => cases field <;> rfl
  · obtain ⟨_, _, _, known⟩ := requestHeaderValue_leaves cfg (s.pending name field) piece
    obtain ⟨_, _, _, known'⟩ := requestHeaderValue_leaves cfg (t.pending name field) piece
    apply not_iff_not.mp
    exact known.trans ((or_congr_left (not_congr type)).trans known'.symm)

/-- A clean header is heard as if it had come in one piece. -/
theorem hearHeader_clean (cfg : Configuration) (typed : Bool) (s t : Session) (h : Header)
    (alike : Alike s t) (idle : Idle typed s) (some_value : h.value ≠ [])
    (clean : h.Clean cfg typed) : Alike (hearHeader cfg s h) (hearHeader cfg t h.whole) := by
  obtain ⟨name, value⟩ := h
  obtain ⟨piece, pieces, rfl⟩ := List.exists_cons_of_ne_nil some_value
  obtain ⟨accepted, matched, once⟩ := clean
  have idle' := alike_idle typed s t alike idle
  unfold Header.whole
  rw [hearHeader_eq cfg typed s name piece pieces idle, hearHeader_eq cfg typed t _ _ [] idle',
    ← accepted, ← matched]
  rcases once with single | ⟨unaccepted, unmatched | matched⟩
  · obtain rfl : pieces = [] := by simpa using single
    rw [List.flatten_singleton]
    exact alike_value cfg s t _ _ piece alike
  · rw [unaccepted, unmatched, pending_none typed s idle, pending_none typed t idle',
      requestHeaderValue_idle cfg s piece idle.header idle.field,
      requestHeaderValue_idle cfg t _ idle'.header idle'.field]
    exact alike
  · rw [unaccepted, matched]
    obtain ⟨multipart, known, left⟩ := requestHeaderValue_type cfg
      (s.pending none (some .contentType)) piece rfl rfl
    obtain ⟨multipart', known', right⟩ := requestHeaderValue_type cfg
      (t.pending none (some .contentType)) (piece :: pieces).flatten rfl rfl
    rw [left, right]
    constructor
    · rw [alike.rest]
      rfl
    · exact iff_of_false known known'

theorem hearHeaders_clean (cfg : Configuration) (typed : Bool) (s t : Session)
    (headers : List Header) (alike : Alike s t) (idle : Idle typed s)
    (some_values : ∀ h ∈ headers, h.value ≠ []) (clean : HeadersClean cfg typed headers) :
    Alike (headers.foldl (hearHeader cfg) s)
      ((headers.map Header.whole).foldl (hearHeader cfg) t) := by
  induction headers generalizing typed s t with
  | nil => exact alike
  | cons h headers ih =>
      have first := some_values h List.mem_cons_self
      rw [List.map_cons, List.foldl_cons, List.foldl_cons]
      apply ih _ _ _ _ (hearHeader_idle cfg typed s h idle first)
        (fun h' member => some_values h' (List.mem_cons_of_mem h member)) clean.2
      exact hearHeader_clean cfg typed s t h alike idle first clean.1

theorem requestUrl_idle (cfg : Configuration) (typed : Bool) (s : Session) (piece : Bytes)
    (idle : Idle typed s) : Idle typed (requestUrl cfg s piece) := by
  obtain ⟨_, framed⟩ := requestUrl_frame cfg s piece
  rw [framed]
  exact ⟨idle.header, idle.field, idle.cookie, idle.type⟩

theorem hear_clean (cfg : Configuration) (s : Session) (d : Delivery) (idle : Idle false s)
    (cut : d.Cut) (clean : d.Clean cfg) : (hear cfg s d).heard = (hear cfg s d.whole).heard := by
  obtain ⟨piece, one⟩ := List.length_eq_one_iff.mp clean.1
  have alike : Alike (hear cfg s d) (hear cfg s d.whole) := by
    unfold hear Delivery.whole
    rw [one, List.flatten_singleton]
    apply hearHeaders_clean cfg false _ _ d.headers (alike_refl _) _
      (fun h member => (cut.headers h member).2.2.1) clean.2
    exact requestUrl_idle cfg false s piece idle
  rw [alike.rest]
  rfl

theorem hearHeader_path (cfg : Configuration) (s : Session) (h : Header) :
    (hearHeader cfg s h).path = s.path := by
  have names : (h.name.foldl (requestHeaderField cfg) s).path = s.path := by
    induction h.name using List.reverseRecOn with
    | nil => rfl
    | append_singleton pieces piece ih =>
        obtain ⟨_, _, framed⟩ :=
          requestHeaderField_frame cfg (pieces.foldl (requestHeaderField cfg) s) piece
        rw [List.foldl_append, List.foldl_cons, List.foldl_nil, framed]
        exact ih
  unfold hearHeader
  induction h.value using List.reverseRecOn with
  | nil => exact names
  | append_singleton pieces piece ih =>
      obtain ⟨_, _, _, _, _, _, framed⟩ := requestHeaderValue_frame cfg
        (pieces.foldl (requestHeaderValue cfg) (h.name.foldl (requestHeaderField cfg) s)) piece
      rw [List.foldl_append, List.foldl_cons, List.foldl_nil, framed]
      exact ih

/-- The path is the last piece of the URL. -/
theorem hear_path (cfg : Configuration) (s : Session) (d : Delivery) (last : Bytes)
    (ends : d.url.getLast? = some last) :
    (hear cfg s d).path = some (strndup last last.length) := by
  have url : (d.url.foldl (requestUrl cfg) s).path = some (strndup last last.length) := by
    rw [List.getLast?_eq_some_iff] at ends
    obtain ⟨front, split⟩ := ends
    obtain ⟨_, framed⟩ := requestUrl_frame cfg (front.foldl (requestUrl cfg) s) last
    rw [split, List.foldl_append, List.foldl_cons, List.foldl_nil, framed]
  unfold hear
  induction d.headers using List.reverseRecOn with
  | nil => exact url
  | append_singleton headers h ih =>
      rw [List.foldl_append, List.foldl_cons, List.foldl_nil, hearHeader_path]
      exact ih

theorem strndup_injective (p q : Bytes) (free : 0 ∉ p) (free' : 0 ∉ q)
    (same : strndup p p.length = strndup q q.length) : p = q := by
  rw [strndup_length, strndup_length] at same
  have bytes := congrArg CStr.bytes same
  rwa [cstr_bytes_of_free p free, cstr_bytes_of_free q free'] at bytes

/-- Two clean deliveries of one request are heard alike, and two deliveries are
heard alike only when their URLs end in the same piece. -/
theorem deliveries_heard (cfg : Configuration) (s : Session) (d d' : Delivery)
    (idle : Idle false s) (cut : d.Cut) (cut' : d'.Cut) (same : d.whole = d'.whole)
    (free : 0 ∉ d.url.flatten) :
    (d.Clean cfg → d'.Clean cfg → (hear cfg s d).heard = (hear cfg s d').heard) ∧
      ((hear cfg s d).heard = (hear cfg s d').heard → d.url.getLast? = d'.url.getLast?) := by
  constructor
  · intro clean clean'
    rw [hear_clean cfg s d idle cut clean, hear_clean cfg s d' idle cut' clean', same]
  · intro alike
    obtain ⟨last, ends⟩ := Option.isSome_iff_exists.mp (List.getLast?_isSome.mpr cut.url.1)
    obtain ⟨last', ends'⟩ := Option.isSome_iff_exists.mp (List.getLast?_isSome.mpr cut'.url.1)
    have urls : d'.url.flatten = d.url.flatten := by
      have wholes := congrArg Delivery.url same
      exact (List.cons.inj wholes).1.symm
    have inside : ∀ (pieces : List Bytes) (piece : Bytes), pieces.getLast? = some piece →
        0 ∉ pieces.flatten → 0 ∉ piece := by
      intro pieces piece member free nul
      exact free (List.mem_flatten.mpr ⟨piece, List.mem_of_getLast? member, nul⟩)
    have paths : (hear cfg s d).path = (hear cfg s d').path := congrArg Prod.fst alike
    rw [hear_path cfg s d last ends, hear_path cfg s d' last' ends'] at paths
    rw [ends, ends', strndup_injective last last' (inside _ _ ends free)
      (inside _ _ ends' (urls ▸ free)) (Option.some.inj paths)]

/-- Nothing of `Date` is looked for, so it may be cut anywhere. -/
theorem deliveries_heard_date :
    (hear { catchAll with catchReqHead := [lit "accept"] } sessionInit
        ⟨[asc "/a"], [⟨[asc "D", asc "ate"], [asc "now"]⟩]⟩).heard =
      (hear { catchAll with catchReqHead := [lit "accept"] } sessionInit
        ⟨[asc "/a"], [⟨[asc "Date"], [asc "n", asc "ow"]⟩]⟩).heard :=
  (deliveries_heard { catchAll with catchReqHead := [lit "accept"] } sessionInit
    ⟨[asc "/a"], [⟨[asc "D", asc "ate"], [asc "now"]⟩]⟩
    ⟨[asc "/a"], [⟨[asc "Date"], [asc "n", asc "ow"]⟩]⟩ ⟨rfl, rfl, rfl, rfl⟩
    ⟨by decide, by decide⟩ ⟨by decide, by decide⟩ rfl (by decide)).1
    ⟨rfl, ⟨by decide, by decide, by decide⟩, trivial⟩
    ⟨rfl, ⟨by decide, by decide, by decide⟩, trivial⟩

/-- The second piece of a URL takes the place of the first. -/
theorem deliveries_heard_cut :
    let d : Delivery := ⟨[asc "/a", asc "b"], []⟩
    let d' : Delivery := ⟨[asc "/ab"], []⟩
    d.Cut ∧ d'.Cut ∧ d.whole = d'.whole ∧
      (hear catchAll sessionInit d).path = some (strndup (asc "b") 1) ∧
      (hear catchAll sessionInit d').path = some (strndup (asc "/ab") 3) ∧
      (hear catchAll sessionInit d).heard ≠ (hear catchAll sessionInit d').heard := by
  refine ⟨⟨by decide, by decide⟩, ⟨by decide, by decide⟩, rfl, rfl, rfl, ?_⟩
  decide

end Bscope
