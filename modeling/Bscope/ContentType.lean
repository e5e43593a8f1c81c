import Bscope.Attribution
import Bscope.CarryBounds
import Bscope.CookieNames
import Bscope.KnownHeaders
import Bscope.ListFilter

set_option autoImplicit false

/- Which bodies are skipped, and the value that decides it. -/
namespace Bscope

/-- Begins with `multipart`, in any case. -/
def Multipart (value : Bytes) : Prop := asc "multipart" <+: value.map tolower

/-- Before `multipart` in the dictionary, and not a beginning of it. -/
def Below (value : Bytes) : Prop :=
  value.map tolower < asc "multipart" ∧ ¬ value.map tolower <+: asc "multipart"

instance (value : Bytes) : Decidable (Multipart value) :=
  inferInstanceAs (Decidable (_ <+: _))

instance (value : Bytes) : Decidable (Below value) := inferInstanceAs (Decidable (_ ∧ _))

/-- What a callback says of the content type after the callbacks in `front`. -/
def typeSaid (cfg : Configuration) (front : List Event) (e : Event) : Option Bytes :=
  if matchedField cfg false (waiting .request front) = some .contentType then
    Side.request.valued e
  else none

/-- The first value that was taken for a content type. -/
def typeValue (cfg : Configuration) (part : List Event) : Option Bytes :=
  (part.foldl (fun (t : List Event × Option Bytes) e =>
    (t.1 ++ [e], t.2.or (typeSaid cfg t.1 e))) ([], none)).2

/-- What a content type leaves in `request_multipart`. -/
def typeCode (value : Bytes) : Nat :=
  if strncasecmp value (asc "multipart") value.length ≥ 0 then IS_MULTIPART else 3

/-- `request_body` passes over the chunk. -/
def Ignored (cfg : Configuration) (s : Session) (data : Bytes) : Prop :=
  requestBody cfg s data = s ∧ bodyUses cfg s data = []

/-- `request_body` hands something to the scanner. -/
def Scanned (cfg : Configuration) (s : Session) (data : Bytes) : Prop :=
  ∃ reads length, BodyUse.scan reads length ∈ bodyUses cfg s data

section Comparison

/-- The sign of the comparison, over the length of the tested string. -/
theorem strncasecmp_neg (p q : Bytes) (free : 0 ∉ q) :
    strncasecmp p q p.length < 0 ↔
      p.map tolower < q.map tolower ∧ ¬ p.map tolower <+: q.map tolower := by
  induction p generalizing q with
  | nil => simp [strncasecmp]
  | cons a p ih =>
      cases q with
      | nil =>
          -- the terminator is below every byte
          have least : ¬ strncasecmp (a :: p) [] (p.length + 1) < 0 := by
            change ¬ strncasecmp (a :: p) (0 :: []) (p.length + 1) < 0
            rw [strncasecmp_step, show tolower 0 = 0 from rfl, UInt8.toNat_zero]
            split
            · omega
            · rename_i same
              rw [not_or, not_not] at same
              have zero : tolower a = 0 := by
                rw [← UInt8.toNat_inj, UInt8.toNat_zero]
                omega
              exact absurd ((tolower_eq_zero a).mp zero) same.2
          apply iff_of_false least
          rintro ⟨before, -⟩
          exact absurd before (List.not_lt_nil _)
      | cons b q =>
          rw [List.mem_cons, not_or] at free
          have before : ((tolower a).toNat : Int) - (tolower b).toNat < 0 ↔
              tolower a < tolower b := by
            rw [UInt8.lt_iff_toNat_lt]
            omega
          rw [List.length_cons, strncasecmp_step, List.map_cons, List.map_cons,
            List.cons_lt_cons_iff, List.cons_prefix_cons]
          by_cases same : tolower a = tolower b
          · have present : a ≠ 0 := by
              rintro rfl
              exact free.1 ((tolower_eq_zero b).mp same.symm).symm
            rw [if_neg (by simp [same, present]), ih q free.2]
            simp [same, UInt8.lt_irrefl]
          · have apart : ((tolower a).toNat : Int) - (tolower b).toNat ≠ 0 := by
              rw [← UInt8.toNat_inj] at same
              omega
            rw [if_pos (Or.inl apart), before]
            simp [same]

theorem typeCode_iff (value : Bytes) : typeCode value = IS_MULTIPART ↔ ¬ Below value := by
  have sign := strncasecmp_neg value (asc "multipart") (by decide)
  rw [show (asc "multipart").map tolower = asc "multipart" from by decide] at sign
  unfold typeCode Below
  rw [← sign, Int.not_lt]
  split
  · rename_i least
    exact iff_of_true rfl least
  · rename_i below
    exact iff_of_false (by decide) below

theorem not_below_of_multipart (value : Bytes) (multipart : Multipart value) : ¬ Below value := by
  rintro ⟨before, -⟩
  exact absurd before (List.not_lt.mpr multipart.le)

end Comparison

section Said

variable (cfg : Configuration)

theorem typeValue_snoc (part : List Event) (e : Event) :
    typeValue cfg (part ++ [e]) = (typeValue cfg part).or (typeSaid cfg part e) := by
  have whole : ∀ part : List Event, (part.foldl (fun (t : List Event × Option Bytes) e =>
      (t.1 ++ [e], t.2.or (typeSaid cfg t.1 e))) ([], none)).1 = part := by
    intro part
    induction part using List.reverseRecOn with
    | nil => rfl
    | append_singleton part e ih => rw [List.foldl_append, List.foldl_cons, List.foldl_nil, ih]
  have seen := whole part
  unfold typeValue
  rw [List.foldl_append, List.foldl_cons, List.foldl_nil, seen]

/-- What was said first stays. -/
theorem typeValue_append (part later : List Event) (value : Bytes)
    (said : typeValue cfg part = some value) : typeValue cfg (part ++ later) = some value := by
  induction later using List.reverseRecOn with
  | nil => rwa [List.append_nil]
  | append_singleton later e ih => rw [← List.append_assoc, typeValue_snoc, ih, Option.some_or]

theorem matchedField_typed (names : List Bytes) :
    matchedField cfg true names ≠ some .contentType := by
  have never : ∀ piece, fieldOf cfg true piece ≠ some .contentType := by
    intro piece
    unfold fieldOf
    split_ifs <;> simp_all
  intro found
  have member := List.mem_of_getLast? found
  obtain ⟨piece, -, matched⟩ := List.mem_filterMap.mp member
  exact never piece matched

theorem typeCode_pos (value : Bytes) : typeCode value ≠ 0 := by
  unfold typeCode
  split <;> decide

theorem requestHeaderValue_multipart (s : Session) (value : Bytes) :
    (requestHeaderValue cfg s value).requestMultipart =
      if s.curField = .contentType then typeCode value else s.requestMultipart := by
  unfold requestHeaderValue typeCode
  by_cases multipart : strncasecmp value (asc "multipart") value.length ≥ 0 <;>
    cases s.lastRequestHeader <;> cases pointed : s.curField <;>
      simp only [pointed, multipart, ↓reduceIte] <;> rfl

/-- The field points at the content type when a value said now would be taken for it. -/
theorem pends_type (s : Session) (part : List Event) (pends : Pends cfg s part)
    (code : s.requestMultipart = (typeValue cfg part).elim 0 typeCode) (value : Bytes) :
    typeValue cfg (part ++ [.requestHeaderValue value]) =
      if s.curField = .contentType then some value else typeValue cfg part := by
  have field := pends.field
  rw [typeValue_snoc]
  cases said : typeValue cfg part with
  | none =>
      rw [said] at code
      rw [code, show decide ((none : Option Bytes).elim 0 typeCode ≠ 0) = false from rfl] at field
      rw [Option.none_or, field, typeSaid]
      cases matchedField cfg false (waiting .request part) with
      | none => rfl
      | some taken => cases taken <;> rfl
  | some first =>
      have known : decide (s.requestMultipart ≠ 0) = true := by
        rw [code, said]
        exact decide_eq_true (typeCode_pos first)
      rw [known] at field
      have elsewhere : s.curField ≠ .contentType := by
        intro pointed
        have typed := matchedField_typed cfg (waiting .request part)
        rw [pointed] at field
        cases taken : matchedField cfg true (waiting .request part) with
        | none => rw [taken] at field; cases field
        | some other =>
            rw [taken] at field typed
            exact typed (congrArg some field.symm)
      rw [Option.some_or, if_neg elsewhere]

end Said

theorem typeSaid_unvalued (cfg : Configuration) (part : List Event) (e : Event)
    (unvalued : Side.request.valued e = none) : typeSaid cfg part e = none := by
  unfold typeSaid
  rw [unvalued]
  exact ite_self none

/-- Only a value callback sets `request_multipart`. -/
theorem step_multipart (ctx : Context) (c : Conn) (now : Moment) (e : Event)
    (unvalued : Side.request.valued e = none) (silent : (step ctx c (now, e)).2 = none) :
    (step ctx c (now, e)).1.s.requestMultipart = c.s.requestMultipart := by
  cases e with
  | requestHeaderField name =>
      obtain ⟨_, _, framed⟩ := requestHeaderField_frame ctx.cfg c.s name
      change (requestHeaderField ctx.cfg c.s name).requestMultipart = _
      rw [framed]
  | requestHeaderValue value => cases unvalued
  | reponseHeaderField name =>
      obtain ⟨_, framed⟩ := reponseHeaderField_frame ctx.cfg c.s name
      change (reponseHeaderField ctx.cfg c.s name).requestMultipart = _
      rw [framed]
  | reponseHeaderValue value =>
      obtain ⟨_, _, framed⟩ := reponseHeaderValue_frame c.s value
      change (reponseHeaderValue c.s value).requestMultipart = _
      rw [framed]
  | _ => exact congrArg HeaderState.requestMultipart (step_headers ctx c now _ rfl silent)

/-- `request_multipart` holds what the first content type since the last report
left there. -/
theorem type_after (ctx : Context) (stat : Status) (run : List (Moment × Event)) :
    (after ctx (connStart stat) run).s.requestMultipart =
      (typeValue ctx.cfg (sinceReport (run.map Prod.snd))).elim 0 typeCode := by
  have owes := after_owes ctx stat
  have pends := pends_after ctx stat
  unfold after at owes pends ⊢
  induction run using List.reverseRecOn with
  | nil => rfl
  | append_singleton run call ih =>
      obtain ⟨now, e⟩ := call
      rw [Runs.after_snoc, List.map_append, List.map_singleton, sinceReport_snoc]
      cases made : reported (sinceReport (run.map Prod.snd)) e with
      | true =>
          rw [if_pos rfl, step_reported now (owes run) ctx made]
          rfl
      | false =>
          have silent := step_quiet now (owes run) ctx made
          rw [if_neg Bool.false_ne_true]
          cases valued : Side.request.valued e with
          | none =>
              rw [step_multipart ctx _ now e valued silent, ih, typeValue_snoc,
                typeSaid_unvalued _ _ e valued, Option.or_none]
          | some value =>
              obtain rfl : e = .requestHeaderValue value := by
                cases e <;> cases valued
                rfl
              rw [pends_type _ _ _ (pends run) ih value]
              change (requestHeaderValue ctx.cfg _ value).requestMultipart = _
              rw [requestHeaderValue_multipart]
              split
              · rfl
              · exact ih

section Body

variable (cfg : Configuration) (s : Session) (data : Bytes)

theorem bodyUses_scans (posts : 0 < cfg.catchPost.length)
    (plain : s.requestMultipart ≠ IS_MULTIPART) : Scanned cfg s data := by
  have rescans : ∃ reads length, BodyUse.scan reads length ∈ rescanUses cfg s data :=
    ⟨_, _, List.mem_cons_of_mem _ List.mem_cons_self⟩
  have scans : ∃ reads length, BodyUse.scan reads length ∈ scanUses cfg s data :=
    ⟨_, _, List.mem_cons_self⟩
  unfold Scanned bodyUses
  rw [if_pos posts, if_neg plain]
  by_cases held : 0 < s.postBuf.length
  · obtain ⟨reads, length, used⟩ := rescans
    rw [if_pos held]
    exact ⟨reads, length, List.mem_append_left _ used⟩
  · obtain ⟨reads, length, used⟩ := scans
    have fresh : s.postBuf.length = 0 := by omega
    rw [if_neg held, if_neg held]
    dsimp only
    rw [if_pos fresh]
    exact ⟨reads, length, used⟩

theorem scanned_iff (posts : 0 < cfg.catchPost.length) :
    Scanned cfg s data ↔ s.requestMultipart ≠ IS_MULTIPART := by
  constructor
  · rintro ⟨reads, length, scan⟩ multipart
    rw [(requestBody_off cfg s data fun on => on.2 multipart).2] at scan
    cases scan
  · exact bodyUses_scans cfg s data posts

theorem ignored_iff (posts : 0 < cfg.catchPost.length) :
    Ignored cfg s data ↔ s.requestMultipart = IS_MULTIPART := by
  constructor
  · rintro ⟨-, unused⟩
    by_contra plain
    obtain ⟨reads, length, scan⟩ := bodyUses_scans cfg s data posts plain
    rw [unused] at scan
    cases scan
  · intro multipart
    exact requestBody_off cfg s data fun on => on.2 multipart

end Body

section Delivered

variable (cfg : Configuration) (posts : 0 < cfg.catchPost.length) (name : Bytes)
variable (named : name.map tolower = asc "content-type")
include posts named

/-- The name in any case is taken for nothing else. -/
theorem fieldOf_contentType : fieldOf cfg false name = some .contentType := by
  have size : name.length = 12 := by
    have lengths := congrArg List.length named
    rwa [List.length_map] at lengths
  have left : ∀ text : Bytes,
      strncasecmp name text 12 = strncasecmp (asc "content-type") (text.map tolower) 12 := by
    intro text
    rw [← named, strncasecmp_tolower]
  have right : ∀ text : Bytes,
      strncasecmp text name 12 = strncasecmp (text.map tolower) (asc "content-type") 12 := by
    intro text
    rw [← named, strncasecmp_tolower]
  have type : strncasecmp name (asc "content-type") 12 = 0 := (left _).trans (by decide)
  have host : strncasecmp (asc "host") name 12 ≠ 0 := (right _).trans_ne (by decide)
  have referer : strncasecmp (asc "referer") name 12 ≠ 0 := (right _).trans_ne (by decide)
  have agent : strncasecmp (asc "user-agent") name 12 ≠ 0 := (right _).trans_ne (by decide)
  unfold fieldOf
  rw [size, if_neg host, if_neg referer, if_neg agent]
  exact if_pos ⟨posts, rfl, type⟩

/-- The header is what decides, unless a value before it did. -/
theorem typeValue_delivered (front gap later : List Event) (value : Bytes)
    (once : ∀ e ∈ gap, e.isRequestHeader = false) (first : typeValue cfg front = none) :
    typeValue cfg (front ++ .requestHeaderField name ::
      (gap ++ .requestHeaderValue value :: later)) = some value := by
  have quiet : ∀ e ∈ gap, Side.request.named e = none ∧ Side.request.valued e = none := by
    intro e member
    have other := once e member
    cases e <;> first | exact ⟨rfl, rfl⟩ | cases other
  have pending : typeValue cfg (front ++ .requestHeaderField name :: gap) = none ∧
      matchedField cfg false (waiting .request (front ++ .requestHeaderField name :: gap)) =
        some .contentType := by
    induction gap using List.reverseRecOn with
    | nil =>
        constructor
        · rw [typeValue_snoc, first, Option.none_or]
          exact typeSaid_unvalued cfg front _ rfl
        · have waits : waiting .request (front ++ [.requestHeaderField name]) =
              waiting .request front ++ [name] := waiting_snoc _ _ _
          rw [waits, matchedField_snoc, fieldOf_contentType cfg posts name named, Option.some_or]
    | append_singleton gap e ih =>
        obtain ⟨unsaid, waits⟩ := ih (fun e' member => once e' (List.mem_append_left [e] member))
          (fun e' member => quiet e' (List.mem_append_left [e] member))
        obtain ⟨unnamed, unvalued⟩ := quiet e (List.mem_append_right gap (List.mem_singleton_self e))
        rw [← List.cons_append, ← List.append_assoc]
        constructor
        · rw [typeValue_snoc, unsaid, Option.none_or]
          exact typeSaid_unvalued cfg _ e unvalued
        · rw [waiting_kept _ _ _ unnamed unvalued]
          exact waits
  have said : typeValue cfg (front ++ .requestHeaderField name :: gap ++
      [.requestHeaderValue value]) = some value := by
    rw [typeValue_snoc, pending.1, Option.none_or, typeSaid, if_pos pending.2]
    rfl
  have whole := typeValue_append cfg _ later value said
  simpa only [List.append_assoc, List.cons_append, List.nil_append] using whole

end Delivered

/-- A chunk is passed over exactly for multipart bodies when the Content-Type decides
and its value begins with `multipart` or stands before it, or another value decides and
comes to the same. -/
theorem multipart_skipped_iff (ctx : Context) (stat : Status)
    (front gap later : List (Moment × Event)) (now now' : Moment) (name value data : Bytes)
    (posts : 0 < ctx.cfg.catchPost.length) (named : name.map tolower = asc "content-type")
    (once : ∀ call ∈ gap, call.2.isRequestHeader = false) :
    let request := (now, .requestHeaderField name) ::
      (gap ++ (now', .requestHeaderValue value) :: later)
    let s := (after ctx (connStart stat) (front ++ request)).s
    let part := sinceReport ((front ++ request).map Prod.snd)
    ((Ignored ctx.cfg s data ↔ Multipart value) ∧ (Scanned ctx.cfg s data ↔ ¬ Multipart value)) ↔
      if typeValue ctx.cfg (sinceReport (front.map Prod.snd)) = none ∧
          part = sinceReport (front.map Prod.snd) ++ request.map Prod.snd then
        Multipart value ∨ Below value
      else (∃ said, typeValue ctx.cfg part = some said ∧ ¬ Below said) ↔ Multipart value := by
  intro request s part
  have skips : s.requestMultipart = IS_MULTIPART ↔
      ∃ said, typeValue ctx.cfg part = some said ∧ ¬ Below said := by
    rw [show s.requestMultipart = _ from type_after ctx stat (front ++ request)]
    cases typeValue ctx.cfg part with
    | none => simp [IS_MULTIPART]
    | some said =>
        rw [Option.elim_some, typeCode_iff]
        simp
  rw [ignored_iff _ _ _ posts, scanned_iff _ _ _ posts, ne_eq, not_iff_not, and_self, skips]
  split
  · rename_i decides
    have quiet : ∀ e ∈ gap.map Prod.snd, e.isRequestHeader = false := by
      intro e member
      obtain ⟨call, inside, rfl⟩ := List.mem_map.mp member
      exact once call inside
    have own : typeValue ctx.cfg part = some value := by
      have said := typeValue_delivered ctx.cfg posts name named (sinceReport (front.map Prod.snd))
        (gap.map Prod.snd) (later.map Prod.snd) value quiet decides.1
      rw [decides.2, List.map_cons, List.map_append, List.map_cons]
      exact said
    have only : (∃ said, some value = some said ∧ ¬ Below said) ↔ ¬ Below value := by simp
    rw [own, only]
    constructor
    · intro same
      by_cases below : Below value
      · exact Or.inr below
      · exact Or.inl (same.mp below)
    · rintro (multipart | below)
      · exact iff_of_true (not_below_of_multipart value multipart) multipart
      · apply iff_of_false (not_not.mpr below)
        intro multipart
        exact not_below_of_multipart value multipart below
  · exact Iff.rfl

/-- A request as far as its Content-Type. -/
def typedRun (value : Bytes) : List (Moment × Event) :=
  [(default, .requestBegin), (default, .requestHeaderField (asc "Content-Type")),
    (default, .requestHeaderValue value)]

theorem multipart_skipped_form :
    let s := (after localContext (connStart statusInit)
      (typedRun (asc "application/x-www-form-urlencoded"))).s
    (Ignored localContext.cfg s (asc "aa=1") ↔
        Multipart (asc "application/x-www-form-urlencoded")) ∧
      (Scanned localContext.cfg s (asc "aa=1") ↔
        ¬ Multipart (asc "application/x-www-form-urlencoded")) := by
  apply (multipart_skipped_iff localContext statusInit [(default, .requestBegin)] [] [] default
    default (asc "Content-Type") (asc "application/x-www-form-urlencoded") (asc "aa=1") (by decide)
    (by decide) (List.forall_mem_nil _)).mpr
  decide +kernel

/-- A plain text is passed over like a multipart one. -/
theorem multipart_skipped_text :
    let s := (after localContext (connStart statusInit) (typedRun (asc "text/plain"))).s
    Ignored localContext.cfg s (asc "aa=1") ∧ ¬ Multipart (asc "text/plain") ∧
      ¬ (Ignored localContext.cfg s (asc "aa=1") ↔ Multipart (asc "text/plain")) := by
  have ignored : Ignored localContext.cfg
      (after localContext (connStart statusInit) (typedRun (asc "text/plain"))).s (asc "aa=1") :=
    ⟨by decide +kernel, by decide +kernel⟩
  have plain : ¬ Multipart (asc "text/plain") := by decide
  exact ⟨ignored, plain, fun same => plain (same.mp ignored)⟩

end Bscope
