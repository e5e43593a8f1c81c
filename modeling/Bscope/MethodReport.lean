import Bscope.RefererLog
import Bscope.SinceReport

set_option autoImplicit false

/- The method that is reported against the one that the client parser has read. -/
namespace Bscope

/-- A callback, with the method that the client parser has read by then of the
request it is at. -/
structure ReadCall where
  now : Moment
  event : Event
  parsed : Option HttpMethod

def ReadCall.timed (call : ReadCall) : Moment × Event := (call.now, call.event)

/-- What the parser promises. It keeps a method that it has read up to the next
request, and hands it over with the end of the headers. -/
def Reads (read : Option HttpMethod) (call : ReadCall) : Prop :=
  (∀ m ∈ call.event.head, call.parsed = some m) ∧
    (call.event.isBegin = false → ∀ m ∈ read, call.parsed = some m)

/-- A report starts the parser afresh. -/
def ReadsAll (part : List Event) (read : Option HttpMethod) (calls : List ReadCall)
    (last : Option HttpMethod) : Prop :=
  match calls with
  | [] => ∀ m ∈ read, last = some m
  | call :: calls =>
      Reads read call ∧
        if reported part call.event then ReadsAll [] none calls last
        else ReadsAll (part ++ [call.event]) call.parsed calls last

/-- The reports of a connection, each with the method read when it is made. -/
def shownMethods (ctx : Context) (c : Conn) (calls : List ReadCall) (type : CloseType)
    (now : Moment) (last : Option HttpMethod) : List (Filing × Option HttpMethod) :=
  match calls with
  | [] => (c.s.filing type now).toList.map fun f => (f, last)
  | call :: calls =>
      ((c.filing call.timed).toList.map fun f => (f, call.parsed)) ++
        shownMethods ctx (step ctx c call.timed).1 calls type now last

/-- They are all the reports there are. -/
theorem shownMethods_filings (ctx : Context) (c : Conn) (calls : List ReadCall) (type : CloseType)
    (now : Moment) (last : Option HttpMethod) :
    (shownMethods ctx c calls type now last).map Prod.fst =
      filings ctx c (calls.map ReadCall.timed) type now := by
  have first : ∀ (fs : List Filing) (read : Option HttpMethod),
      (fs.map fun f => (f, read)).map Prod.fst = fs := by
    intro fs read
    rw [List.map_map]
    exact List.map_id fs
  induction calls generalizing c with
  | nil => exact first _ last
  | cons call calls ih =>
      rw [shownMethods, List.map_append, first, ih]
      rfl

/-- The message and the log line both give the method, or leave it out. -/
def ShowsMethod (ctx : Context) (f : Filing) (method : Option HttpMethod) : Prop :=
  (f.report ctx).value (lit "method") = method.map (fun m => packStr (httpMethodStr m)) ∧
    ∀ m ∈ method, f.line ctx = Filing.line ctx { f with s := { f.s with method := m } }

/-- The headers of the request that began last are complete. -/
def HeadersDone (part : List Event) : Prop :=
  ∃ front method major minor back,
    part = front ++ .requestHeadersComplete method major minor :: back ∧
      ∀ e ∈ back, e.isBegin = false

/-- The method of the last headers that were complete since the last report. -/
def lastHead (part : List Event) : Option HttpMethod := (part.filterMap Event.head).getLast?

/-- The headers are complete; or the method happens to be the one of an earlier
request, or DELETE where there is none. -/
def MethodKnown (part : List Event) (parsed : Option HttpMethod) : Prop :=
  HeadersDone part ∨ parsed = some ((lastHead part).getD .delete)

/-- So it is whenever a report is made. -/
def KnownThroughout (part : List Event) (calls : List ReadCall) (last : Option HttpMethod) : Prop :=
  match calls with
  | [] => part.any Event.isBegin = true → MethodKnown part last
  | call :: calls =>
      if reported part call.event then
        MethodKnown part call.parsed ∧ KnownThroughout [] calls last
      else KnownThroughout (part ++ [call.event]) calls last

section Part

theorem lastHead_snoc (part : List Event) (e : Event) :
    lastHead (part ++ [e]) = e.head.or (lastHead part) := by
  unfold lastHead
  rw [List.filterMap_append]
  cases head : e.head with
  | none =>
      rw [List.filterMap_cons_none head, List.filterMap_nil, List.append_nil]
      rfl
  | some m =>
      rw [List.filterMap_cons_some head, List.filterMap_nil, List.getLast?_concat]
      rfl

theorem headersDone_snoc (part : List Event) (e : Event) (done : HeadersDone (part ++ [e])) :
    e.head.isSome ∨ e.isBegin = false ∧ HeadersDone part := by
  obtain ⟨front, method, major, minor, back, split, quiet⟩ := done
  rcases List.eq_nil_or_concat' back with rfl | ⟨back, last, rfl⟩
  · obtain ⟨-, same⟩ := List.append_inj' split rfl
    obtain rfl := List.singleton_inj.mp same
    exact Or.inl rfl
  · rw [← List.cons_append, ← List.append_assoc] at split
    obtain ⟨same, ends⟩ := List.append_inj' split rfl
    obtain rfl := List.singleton_inj.mp ends
    refine Or.inr ⟨quiet e (by simp), front, method, major, minor, back, same, ?_⟩
    exact fun e' member => quiet e' (List.mem_append_left _ member)

end Part

/-- The session and what has been called since the last report. -/
structure Follows (c : Conn) (part : List Event) (read : Option HttpMethod) : Prop where
  owes : c.s.needReport = part.any Event.isBegin
  method : c.s.method = (lastHead part).getD .delete
  done : HeadersDone part → read = some c.s.method

section Steps

variable (ctx : Context) (c : Conn) (part : List Event) (read : Option HttpMethod) (call : ReadCall)

theorem follows_start (c : Conn) (fresh : c.s = sessionInit) : Follows c [] none where
  owes := by rw [fresh]; rfl
  method := by rw [fresh]; rfl
  done := by
    rintro ⟨front, method, major, minor, back, split, -⟩
    cases front <;> cases split

variable {c part read call}

/-- A callback that makes no report. -/
theorem Follows.next (follows : Follows c part read) (reads : Reads read call)
    (quiet : reported part call.event = false) :
    Follows (step ctx c call.timed).1 (part ++ [call.event]) call.parsed := by
  obtain ⟨owes, next⟩ := step_next call.now follows.owes ctx quiet
  have method : (step ctx c call.timed).1.s.method = call.event.head.getD c.s.method := next
  constructor
  · exact owes
  · rw [method, lastHead_snoc, follows.method]
    cases call.event.head <;> rfl
  · intro done
    rw [method]
    cases head : call.event.head with
    | some m => exact reads.1 m head
    | none =>
        rcases headersDone_snoc part call.event done with here | ⟨same, before⟩
        · rw [head] at here
          cases here
        · exact reads.2 same _ (follows.done before)

end Steps

section Shown

def httpMethods : List HttpMethod :=
  [.delete, .get, .head, .post, .put, .connect, .options, .trace, .copy, .lock, .mkcol, .move,
    .propfind, .proppatch, .search, .unlock, .report, .mkactivity, .checkout, .merge, .msearch,
    .notify, .subscribe, .unsubscribe, .patch, .purge]

/-- No two methods have one name. -/
theorem httpMethodStr_injective (a b : HttpMethod) (same : httpMethodStr a = httpMethodStr b) :
    a = b := by
  have found : ∀ m, httpMethods.find? (fun k => httpMethodStr k = httpMethodStr m) = some m := by
    intro m
    cases m <;> decide +kernel
  have first := found a
  rw [same, found b] at first
  exact (Option.some.inj first).symm

theorem showsMethod_iff (ctx : Context) (f : Filing) (method : Option HttpMethod) :
    ShowsMethod ctx f method ↔ method = some f.s.method := by
  have packed : (f.report ctx).value (lit "method") = some (packStr (httpMethodStr f.s.method)) :=
    buildReport_method ctx f.s f.type f.now
  constructor
  · rintro ⟨shown, -⟩
    rw [packed] at shown
    cases method with
    | none => cases shown
    | some m =>
        have names := packStr_injective _ _ (Option.some.inj shown)
        rw [httpMethodStr_injective _ _ names]
  · rintro rfl
    refine ⟨packed, ?_⟩
    rintro m ⟨⟩
    rfl

theorem methodKnown_iff (c : Conn) (part : List Event) (read parsed : Option HttpMethod)
    (follows : Follows c part read) (kept : ∀ m ∈ read, parsed = some m) :
    MethodKnown part parsed ↔ parsed = some c.s.method := by
  unfold MethodKnown
  rw [← follows.method]
  constructor
  · rintro (done | same)
    · exact kept _ (follows.done done)
    · exact same
  · exact Or.inr

/-- Every report of a connection shows the method of the request that began last
exactly when that request's headers are complete at every report. -/
theorem shownMethods_iff (ctx : Context) (c : Conn) (part : List Event) (read : Option HttpMethod)
    (calls : List ReadCall) (type : CloseType) (now : Moment) (last : Option HttpMethod)
    (follows : Follows c part read) (reads : ReadsAll part read calls last) :
    (∀ shown ∈ shownMethods ctx c calls type now last, ShowsMethod ctx shown.1 shown.2) ↔
      KnownThroughout part calls last := by
  induction calls generalizing c part read with
  | nil =>
      have known := methodKnown_iff c part read last follows reads
      unfold shownMethods KnownThroughout Session.filing
      rw [known, ← follows.owes]
      split
      · rename_i owes
        simp only [Option.toList_some, List.map_cons, List.map_nil, List.forall_mem_singleton,
          showsMethod_iff, owes, forall_const]
      · rename_i pays
        constructor
        · intro _ owes
          exact absurd owes pays
        · intro _ shown member
          exact absurd member List.not_mem_nil
  | cons call calls ih =>
      unfold ReadsAll at reads
      unfold shownMethods KnownThroughout
      rw [List.forall_mem_append]
      by_cases made : reported part call.event = true
      · obtain ⟨f, found, method⟩ := filing_reported call.now follows.owes made
        have filed : c.filing call.timed = some f := found
        have running : call.event.isBegin = false := by
          unfold reported at made
          cases event : call.event with
          | requestBegin =>
              rw [event] at made
              exact absurd made Bool.false_ne_true
          | _ => rfl
        have known := methodKnown_iff c part read call.parsed follows (reads.1.2 running)
        have fresh := step_filed ctx c call.timed f filed
        have rest := reads.2
        rw [if_pos made] at rest
        rw [if_pos made, known, ih _ [] none (follows_start _ fresh) rest, filed]
        simp only [Option.toList_some, List.map_cons, List.map_nil, List.forall_mem_singleton,
          showsMethod_iff, method]
      · have quiet : reported part call.event = false := by simpa using made
        have rest := reads.2
        rw [if_neg made] at rest
        have none_filed : c.filing call.timed = none := filing_quiet call.now follows.owes quiet
        rw [if_neg made, ih _ _ _ (follows.next ctx reads.1 quiet) rest, none_filed]
        simp only [Option.toList_none, List.map_nil, List.not_mem_nil, false_implies, implies_true,
          true_and]

end Shown

theorem reportedMethod_iff (ctx : Context) (stat : Status) (calls : List ReadCall)
    (type : CloseType) (now : Moment) (last : Option HttpMethod)
    (reads : ReadsAll [] none calls last) :
    (∀ shown ∈ shownMethods ctx (connStart stat) calls type now last,
        ShowsMethod ctx shown.1 shown.2) ↔ KnownThroughout [] calls last :=
  shownMethods_iff ctx (connStart stat) [] none calls type now last (follows_start _ rfl) reads

/-- A request whose line has been read. -/
def lineCalls (method : HttpMethod) : List ReadCall :=
  [⟨default, .requestBegin, none⟩, ⟨default, .requestUrl (asc "/"), some method⟩]

/-- A GET request, and its response. -/
def wholeCalls : List ReadCall :=
  lineCalls .get ++ [⟨default, .requestHeadersComplete .get 1 1, some .get⟩,
    ⟨default, .responseComplete 200, some .get⟩]

theorem lineCalls_reads (method : HttpMethod) :
    ReadsAll [] none (lineCalls method) (some method) := by
  refine ⟨⟨nofun, fun _ => nofun⟩, ⟨nofun, fun _ => nofun⟩, ?_⟩
  rintro m ⟨⟩
  rfl

/-- A connection that is closed within the headers of a GET request reports DELETE. -/
theorem reportedMethod_cut :
    ReadsAll [] none (lineCalls .get) (some .get) ∧
      (shownMethods localContext (connStart statusInit) (lineCalls .get) .close default
          (some .get)).map
        (fun shown => ((shown.1.report localContext).value (lit "method"), shown.2)) =
        [(some (packStr (lit "DELETE")), some .get)] :=
  ⟨lineCalls_reads .get, by decide +kernel⟩

theorem wholeCalls_reads : ReadsAll [] none wholeCalls (some .get) := by
  refine ⟨⟨nofun, fun _ => nofun⟩, ⟨nofun, fun _ => nofun⟩, ⟨?_, ?_⟩, ⟨nofun, ?_⟩, nofun⟩
  · rintro m ⟨⟩
    rfl
  · rintro _ m ⟨⟩
    rfl
  · rintro _ m ⟨⟩
    rfl

theorem reportedMethod_whole :
    (shownMethods localContext (connStart statusInit) wholeCalls .close default
        (some .get)).length = 1 ∧
      ∀ shown ∈ shownMethods localContext (connStart statusInit) wholeCalls .close default
        (some .get), ShowsMethod localContext shown.1 shown.2 := by
  refine ⟨rfl, (reportedMethod_iff localContext statusInit wholeCalls .close default (some .get)
    wholeCalls_reads).mpr ⟨Or.inl ?_, nofun⟩⟩
  exact ⟨[.requestBegin, .requestUrl (asc "/")], .get, 1, 1, [], rfl, nofun⟩

end Bscope
