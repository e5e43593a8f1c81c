import Bscope.Attribution
import Bscope.CookieNames

set_option autoImplicit false

/- Host, Referer and User-Agent when every header is one name and one value. -/
namespace Bscope

/-- The callbacks of a header. -/
def headerCalls (h : Bytes × Bytes) : List Event :=
  [.requestHeaderField h.1, .requestHeaderValue h.2]

def Event.isRequestHeader : Event → Bool
  | .requestHeaderField _ => true
  | .requestHeaderValue _ => true
  | _ => false

/-- The known header that a name is taken for: each comparison only goes as far as
the name does. -/
def takenFor (name : Bytes) : Option KnownHeader :=
  if strncasecmp (asc "host") name name.length = 0 then some .host
  else if strncasecmp (asc "referer") name name.length = 0 then some .referer
  else if strncasecmp (asc "user-agent") name name.length = 0 then some .ua
  else none

/-- The value of the last header whose name is of this kind. -/
def lastValue (kind : Bytes → Prop) [DecidablePred kind] (hs : List (Bytes × Bytes)) :
    Option CStr :=
  (hs.filter fun h => kind h.1).getLast?.map fun h => cstr h.2

/-- In the end each known header has its last value, and nothing else has changed it
on the way. -/
structure Keeps (ctx : Context) (c : Conn) (run : List (Moment × Event))
    (hs : List (Bytes × Bytes)) : Prop where
  ends : ∀ k : KnownHeader, k.read (after ctx c run).s = lastValue k.Named hs
  others : ∀ front call back, run = front ++ call :: back → ∀ k : KnownHeader,
    k.read (after ctx c (front ++ [call])).s ≠ k.read (after ctx c front).s →
      ∃ name, lastName .request (front.map Prod.snd) = some name ∧ k.Named name

/-- A header that is taken for a known one is that header, or has the value that is
there already. -/
def TakenRightly (hs : List (Bytes × Bytes)) : Prop :=
  ∀ front h back, hs = front ++ h :: back → ∀ k : KnownHeader, takenFor h.1 = some k →
    k.Named h.1 ∨ lastValue (takenFor · = some k) front = some (cstr h.2)

section Names

theorem takenFor_named (k : KnownHeader) (name : Bytes) (named : k.Named name) :
    takenFor name = some k := by
  have spelled : name.map tolower = k.name := named
  have size : name.length = k.name.length := by
    rw [← spelled, List.length_map]
  have compared : ∀ text : Bytes, strncasecmp text name name.length =
      strncasecmp (text.map tolower) k.name k.name.length := by
    intro text
    rw [← strncasecmp_tolower, spelled, size]
  unfold takenFor
  rw [compared, compared, compared]
  cases k <;> decide

end Names

section Lines

theorem lastValue_snoc (kind : Bytes → Prop) [DecidablePred kind] (hs : List (Bytes × Bytes))
    (h : Bytes × Bytes) :
    lastValue kind (hs ++ [h]) = if kind h.1 then some (cstr h.2) else lastValue kind hs := by
  unfold lastValue
  by_cases mine : kind h.1 <;> simp [List.filter_append, mine]

theorem takenRightly_snoc (hs : List (Bytes × Bytes)) (h : Bytes × Bytes)
    (rightly : TakenRightly (hs ++ [h])) : TakenRightly hs := by
  intro front h' back split
  apply rightly front h' (back ++ [h])
  rw [split, List.append_assoc]
  rfl

/-- Then what is taken last is also what is named last. -/
theorem lastValue_rightly (hs : List (Bytes × Bytes)) (k : KnownHeader)
    (rightly : TakenRightly hs) : lastValue (takenFor · = some k) hs = lastValue k.Named hs := by
  induction hs using List.reverseRecOn with
  | nil => rfl
  | append_singleton hs h ih =>
      have before := ih (takenRightly_snoc hs h rightly)
      rw [lastValue_snoc, lastValue_snoc]
      by_cases named : k.Named h.1
      · rw [if_pos named, if_pos (takenFor_named k h.1 named)]
      · rw [if_neg named, ← before]
        split
        · rename_i mistaken
          exact ((rightly hs h [] rfl k mistaken).resolve_left named).symm
        · rfl

end Lines

section Calls

theorem lastName_filter (events : List Event) :
    lastName .request (events.filter Event.isRequestHeader) = lastName .request events := by
  unfold lastName
  rw [List.filterMap_filter]
  congr 1
  apply List.filterMap_congr
  intro e _
  cases e <;> rfl

/-- Where a header's name has come, and its value comes next. -/
theorem heard_name (front : List Event) (hs : List (Bytes × Bytes)) (name : Bytes)
    (heard : front.filter Event.isRequestHeader =
      hs.flatMap headerCalls ++ [.requestHeaderField name]) :
    lastName .request front = some name := by
  rw [← lastName_filter, heard, lastName_snoc]
  rfl

/-- A value among the callbacks belongs to one of the headers. -/
theorem value_of_call (front back : List Event) (value : Bytes) (hs : List (Bytes × Bytes))
    (heard : (front ++ .requestHeaderValue value :: back).filter Event.isRequestHeader =
      hs.flatMap headerCalls) :
    ∃ hs' name hs'', hs = hs' ++ (name, value) :: hs'' ∧
      front.filter Event.isRequestHeader =
        hs'.flatMap headerCalls ++ [.requestHeaderField name] := by
  rw [List.filter_append, List.filter_cons_of_pos rfl] at heard
  have inside : front.filter Event.isRequestHeader ++ [.requestHeaderValue value] <+:
      hs.flatMap headerCalls :=
    ⟨back.filter Event.isRequestHeader, by rw [← heard, List.append_assoc]; rfl⟩
  have filled : ∀ h, headerCalls h ≠ [] := fun h => List.cons_ne_nil _ _
  rcases prefix_flatMap headerCalls filled hs _ inside with
    none | ⟨hs', h, hs'', part, rfl, whole, within, some_part⟩
  · exact absurd none (List.append_ne_nil_of_right_ne_nil _ (List.cons_ne_nil _ _))
  · obtain ⟨rest, rfl, tail⟩ := (List.prefix_cons_iff.mp within).resolve_left some_part
    rcases List.prefix_cons_iff.mp tail with rfl | ⟨rest, rfl, past⟩
    · obtain ⟨-, same⟩ := List.append_inj' whole rfl
      cases same
    · obtain rfl := List.prefix_nil.mp past
      rw [List.append_cons (hs'.flatMap headerCalls)] at whole
      obtain ⟨before, same⟩ := List.append_inj' whole rfl
      obtain rfl : value = h.2 := by
        injection List.singleton_inj.mp same
      exact ⟨hs', h.1, hs'', rfl, before⟩

/-- A header of the list has its place in the run. -/
theorem call_of_value (run : List (Moment × Event)) (hs hs' : List (Bytes × Bytes))
    (h : Bytes × Bytes) 
    (heard : (run.map Prod.snd).filter Event.isRequestHeader =
      (hs ++ h :: hs').flatMap headerCalls) :
    ∃ front now back, run = front ++ (now, .requestHeaderValue h.2) :: back ∧
      (front.map Prod.snd).filter Event.isRequestHeader =
        hs.flatMap headerCalls ++ [.requestHeaderField h.1] := by
  have split : (hs ++ h :: hs').flatMap headerCalls =
      (hs.flatMap headerCalls ++ [.requestHeaderField h.1]) ++
        .requestHeaderValue h.2 :: hs'.flatMap headerCalls := by
    rw [List.flatMap_append, List.flatMap_cons, List.append_assoc]
    rfl
  rw [split] at heard
  obtain ⟨first, second, whole, before, rest⟩ := List.filter_eq_append_iff.mp heard
  obtain ⟨gap, after_it, rfl, quiet, -, -⟩ := List.filter_eq_cons_iff.mp rest
  rw [← List.append_assoc] at whole
  obtain ⟨front, tail, rfl, same, found⟩ := List.map_eq_append_iff.mp whole
  obtain ⟨⟨now, e⟩, back, rfl, here, -⟩ := List.map_eq_cons_iff.mp found
  obtain rfl : e = .requestHeaderValue h.2 := here
  refine ⟨front, now, back, rfl, ?_⟩
  rw [same, List.filter_append, before, List.filter_eq_nil_iff.mpr quiet, List.append_nil]

end Calls

/-- A callback that is for no request header leaves the field alone. -/
theorem step_curField (ctx : Context) (c : Conn) (now : Moment) (e : Event)
    (other : e.isRequestHeader = false) (silent : (step ctx c (now, e)).2 = none) :
    (step ctx c (now, e)).1.s.curField = c.s.curField := by
  cases e with
  | requestHeaderField name => cases other
  | requestHeaderValue value => cases other
  | reponseHeaderField name =>
      obtain ⟨_, framed⟩ := reponseHeaderField_frame ctx.cfg c.s name
      change (reponseHeaderField ctx.cfg c.s name).curField = _
      rw [framed]
  | reponseHeaderValue value =>
      obtain ⟨_, _, framed⟩ := reponseHeaderValue_frame c.s value
      change (reponseHeaderValue c.s value).curField = _
      rw [framed]
  | _ => exact congrArg HeaderState.curField (step_headers ctx c now _ rfl silent)

/-- Between two headers a name points at what it is taken for. -/
theorem requestHeaderField_taken (cfg : Configuration) (s : Session) (name : Bytes)
    (idle : ∀ k : KnownHeader, s.curField ≠ k.field) (k : KnownHeader) :
    (requestHeaderField cfg s name).curField = k.field ↔ takenFor name = some k := by
  have apart := idle k
  rw [requestHeaderField_eq]
  unfold takenFor
  dsimp only
  split_ifs <;> cases k <;> simp_all [KnownHeader.field]

/-- Each known header has the value of the last header that was taken for it, and
a name that waits points at what it is taken for. -/
structure Heard (s : Session) (hs : List (Bytes × Bytes)) (pending : Option Bytes) : Prop where
  known : ∀ k : KnownHeader, k.read s = lastValue (takenFor · = some k) hs
  field : ∀ k : KnownHeader, s.curField = k.field ↔ pending.bind takenFor = some k

section Steps

variable (cfg : Configuration) {s : Session} {hs : List (Bytes × Bytes)} {name : Bytes}

theorem heard_start : Heard sessionInit [] none where
  known k := by cases k <;> rfl
  field k := by cases k <;> simp [sessionInit, KnownHeader.field]

theorem heard_field (heard : Heard s hs none) :
    Heard (requestHeaderField cfg s name) hs (some name) := by
  have idle : ∀ k : KnownHeader, s.curField ≠ k.field := by
    intro k pointed
    cases (heard.field k).mp pointed
  constructor
  · intro k
    obtain ⟨_, _, framed⟩ := requestHeaderField_frame cfg s name
    rw [← heard.known, framed]
    cases k <;> rfl
  · exact requestHeaderField_taken cfg s name idle

theorem heard_value (heard : Heard s hs (some name)) (value : Bytes) :
    Heard (requestHeaderValue cfg s value) (hs ++ [(name, value)]) none := by
  constructor
  · intro k
    have pointed : s.curField = k.field ↔ takenFor name = some k := heard.field k
    rw [requestHeaderValue_known, lastValue_snoc, ← heard.known]
    exact if_congr pointed rfl rfl
  · intro k
    rw [(requestHeaderValue_leaves cfg s value).2.1]
    cases k <;> simp [KnownHeader.field]

/-- The last of the callbacks is the name that waits, or the value of the last header. -/
theorem calls_snoc (events : List Event) (e : Event) (pending : Option Bytes)
    (heard : events ++ [e] = hs.flatMap headerCalls ++ pending.toList.map .requestHeaderField) :
    (∃ name, e = .requestHeaderField name ∧ pending = some name ∧
        events = hs.flatMap headerCalls) ∨
      ∃ hs' name value, e = .requestHeaderValue value ∧ pending = none ∧
        hs = hs' ++ [(name, value)] ∧
        events = hs'.flatMap headerCalls ++ [.requestHeaderField name] := by
  cases pending with
  | some name =>
      obtain ⟨same, last⟩ := List.append_inj' heard rfl
      exact Or.inl ⟨name, List.singleton_inj.mp last, rfl, same⟩
  | none =>
      rw [Option.toList_none, List.map_nil, List.append_nil] at heard
      rcases List.eq_nil_or_concat' hs with rfl | ⟨hs', ⟨name, value⟩, rfl⟩
      · exact absurd heard (List.append_ne_nil_of_right_ne_nil _ (List.cons_ne_nil _ _))
      · rw [List.flatMap_append, List.flatMap_singleton, headerCalls,
          List.append_cons (hs'.flatMap headerCalls)] at heard
        obtain ⟨same, last⟩ := List.append_inj' heard rfl
        exact Or.inr ⟨hs', name, value, List.singleton_inj.mp last, rfl, rfl, same⟩

end Steps

theorem heard_after (ctx : Context) (stat : Status) (run : List (Moment × Event))
    (hs : List (Bytes × Bytes)) (pending : Option Bytes)
    (unreported : reports ctx (connStart stat) run = [])
    (heard : (run.map Prod.snd).filter Event.isRequestHeader =
      hs.flatMap headerCalls ++ pending.toList.map .requestHeaderField) :
    Heard (after ctx (connStart stat) run).s hs pending := by
  unfold reports at unreported
  unfold after
  induction run using List.reverseRecOn generalizing hs pending with
  | nil =>
      have empty := List.append_eq_nil_iff.mp heard.symm
      obtain rfl : hs = [] := by
        cases hs with
        | nil => rfl
        | cons h hs => cases empty.1
      obtain rfl : pending = none := by
        cases pending with
        | none => rfl
        | some name => cases empty.2
      exact heard_start
  | append_singleton run call ih =>
      obtain ⟨now, e⟩ := call
      rw [Runs.outputs_snoc, List.append_eq_nil_iff] at unreported
      have before := fun hs pending => ih hs pending unreported.1
      have silent : (step ctx (Runs.after (step ctx) (connStart stat) run) (now, e)).2 = none :=
        Option.toList_eq_nil_iff.mp unreported.2
      rw [List.map_append, List.filter_append, List.map_singleton] at heard
      rw [Runs.after_snoc]
      cases own : e.isRequestHeader with
      | false =>
          have unvalued : Side.request.valued e = none := by
            cases e <;> first | rfl | cases own
          rw [List.filter_singleton, own, cond_false, List.append_nil] at heard
          obtain ⟨known, pointed⟩ := before hs pending heard
          constructor
          · intro k
            exact (step_unvalued ctx _ now e k unvalued silent).trans (known k)
          · intro k
            rw [step_curField ctx _ now e own silent]
            exact pointed k
      | true =>
          rw [List.filter_singleton, own, cond_true] at heard
          rcases calls_snoc _ e pending heard with
            ⟨name, rfl, rfl, front⟩ | ⟨hs', name, value, rfl, rfl, rfl, front⟩
          · apply heard_field
            apply before hs none
            rw [front, Option.toList_none, List.map_nil, List.append_nil]
          · apply heard_value
            exact before hs' (some name) front

section Placed

variable {ctx : Context} {stat : Status} {front : List (Moment × Event)}
variable {hs : List (Bytes × Bytes)} (now : Moment)

/-- What a value does to a known header, where its name has come. -/
theorem value_known (name value : Bytes) (unreported : reports ctx (connStart stat) front = [])
    (heard : (front.map Prod.snd).filter Event.isRequestHeader =
      hs.flatMap headerCalls ++ [.requestHeaderField name]) (k : KnownHeader) :
    k.read (after ctx (connStart stat) front).s = lastValue (takenFor · = some k) hs ∧
      k.read (after ctx (connStart stat) (front ++ [(now, .requestHeaderValue value)])).s =
        if takenFor name = some k then some (cstr value)
        else lastValue (takenFor · = some k) hs := by
  obtain ⟨known, field⟩ := heard_after ctx stat front hs (some name) unreported heard
  refine ⟨known k, ?_⟩
  unfold after at known field ⊢
  rw [Runs.after_snoc, ← known]
  exact (requestHeaderValue_known ctx.cfg _ value k).trans (if_congr (field k) rfl rfl)

/-- What comes first in a run without reports. -/
theorem unreported_front (call : Moment × Event) (back : List (Moment × Event))
    (unreported : reports ctx (connStart stat) (front ++ call :: back) = []) :
    reports ctx (connStart stat) front = [] ∧
      (step ctx (after ctx (connStart stat) front) call).2 = none := by
  unfold reports at unreported
  rw [Runs.outputs_append, Runs.outputs_cons, List.append_eq_nil_iff,
    List.append_eq_nil_iff] at unreported
  exact ⟨unreported.1, Option.toList_eq_nil_iff.mp unreported.2.1⟩

end Placed

theorem keeps_rightly (ctx : Context) (stat : Status) (run : List (Moment × Event))
    (hs : List (Bytes × Bytes)) (unreported : reports ctx (connStart stat) run = [])
    (heard : (run.map Prod.snd).filter Event.isRequestHeader = hs.flatMap headerCalls)
    (keeps : Keeps ctx (connStart stat) run hs) : TakenRightly hs := by
  rintro hs' h hs'' rfl k mistaken
  obtain ⟨front, now, back, rfl, named⟩ := call_of_value run hs' hs'' h heard
  have silent := (unreported_front _ back unreported).1
  obtain ⟨before, behind⟩ := value_known now h.1 h.2 silent named k
  rw [if_pos mistaken] at behind
  by_cases changed : k.read (after ctx (connStart stat)
    (front ++ [(now, .requestHeaderValue h.2)])).s = k.read (after ctx (connStart stat) front).s
  · exact Or.inr (before.symm.trans (changed.symm.trans behind))
  · obtain ⟨name, last, own⟩ := keeps.others front _ back rfl k changed
    rw [heard_name _ hs' h.1 named] at last
    rw [Option.some.inj last]
    exact Or.inl own

theorem rightly_keeps (ctx : Context) (stat : Status) (run : List (Moment × Event))
    (hs : List (Bytes × Bytes)) (unreported : reports ctx (connStart stat) run = [])
    (heard : (run.map Prod.snd).filter Event.isRequestHeader = hs.flatMap headerCalls)
    (rightly : TakenRightly hs) : Keeps ctx (connStart stat) run hs := by
  constructor
  · intro k
    rw [← lastValue_rightly hs k rightly]
    apply (heard_after ctx stat run hs none unreported _).known k
    rw [heard, Option.toList_none, List.map_nil, List.append_nil]
  · rintro front ⟨now, e⟩ back rfl k changed
    obtain ⟨unreported_front, silent⟩ := unreported_front _ back unreported
    cases valued : Side.request.valued e with
    | none =>
        have kept := step_unvalued ctx _ now e k valued silent
        unfold after at changed kept
        rw [Runs.after_snoc] at changed
        exact absurd kept changed
    | some value =>
        obtain rfl : e = .requestHeaderValue value := by
          cases e <;> cases valued
          rfl
        rw [List.map_append, List.map_cons] at heard
        obtain ⟨hs', name, hs'', split, named⟩ := value_of_call _ _ value hs heard
        obtain ⟨before, behind⟩ := value_known now name value unreported_front named k
        refine ⟨name, heard_name _ hs' name named, ?_⟩
        rw [before, behind] at changed
        split at changed
        · rename_i mistaken
          apply (rightly hs' (name, value) hs'' split k mistaken).resolve_right
          exact fun same => changed same.symm
        · exact absurd rfl changed

/-- With one value to each name, the known headers come from their own headers exactly
when no other header is taken for one of them and changes it. -/
theorem knownHeaders_iff (ctx : Context) (stat : Status) (run : List (Moment × Event))
    (hs : List (Bytes × Bytes)) (unreported : reports ctx (connStart stat) run = [])
    (heard : (run.map Prod.snd).filter Event.isRequestHeader = hs.flatMap headerCalls) :
    Keeps ctx (connStart stat) run hs ↔ TakenRightly hs := by
  constructor
  · exact keeps_rightly ctx stat run hs unreported heard
  · exact rightly_keeps ctx stat run hs unreported heard

/-- The headers of a request, with its line and its end around them. -/
def headersRun (hs : List (Bytes × Bytes)) : List (Moment × Event) :=
  (.requestBegin :: .requestUrl (asc "/") :: hs.flatMap headerCalls ++
    [Event.requestHeadersComplete .get 1 1]).map fun e => (default, e)

theorem knownHeaders_spelled :
    Keeps localContext (connStart statusInit)
      (headersRun [(asc "HOST", asc "a"), (asc "X", asc "b")])
      [(asc "HOST", asc "a"), (asc "X", asc "b")] := by
  apply (knownHeaders_iff localContext statusInit _ _ rfl rfl).mpr
  intro front h back split k mistaken
  have member : h ∈ [(asc "HOST", asc "a"), (asc "X", asc "b")] := by
    rw [split]
    exact List.mem_append_right _ List.mem_cons_self
  rw [List.mem_cons, List.mem_singleton] at member
  rcases member with rfl | rfl
  · obtain rfl : KnownHeader.host = k := Option.some.inj mistaken
    exact Or.inl (by decide)
  · exact absurd mistaken (by decide +revert)

/-- A header `Ho` is taken for the host, though there is no `Host` header. -/
theorem knownHeaders_prefix :
    (after localContext (connStart statusInit) (headersRun [(asc "Ho", asc "x")])).s.host =
        some (lit "x") ∧
      ¬ KnownHeader.host.Named (asc "Ho") ∧
      ¬ Keeps localContext (connStart statusInit) (headersRun [(asc "Ho", asc "x")])
        [(asc "Ho", asc "x")] := by
  have host : (after localContext (connStart statusInit)
      (headersRun [(asc "Ho", asc "x")])).s.host = some (lit "x") := by decide +kernel
  refine ⟨host, by decide, ?_⟩
  intro keeps
  have ends := keeps.ends .host
  exact absurd (host.symm.trans ends) (by decide +kernel)

end Bscope
