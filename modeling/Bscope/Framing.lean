import Bscope.HttpEnds
import Bscope.HttpExchanges
import Mathlib.Data.List.Forall2

set_option autoImplicit false

/- Whether the responses of a connection are told apart where they end, whatever the methods
of the requests. -/
namespace Bscope

open Http

def Event.isComplete : Event → Bool
  | .responseComplete _ => true
  | _ => false

/-- How many responses these callbacks complete. -/
def completed (run : List (Moment × Event)) : Nat := (run.map Prod.snd).countP Event.isComplete

/-- A request with this method, whatever its bytes are behind that, and what answers it. -/
structure Dialogue where
  method : HttpMethod
  request : Bytes
  interim : List Answer
  final : Answer
  begins : ∃ rest, request = (httpMethodStr method).bytes ++ SP :: rest
  passing : ∀ a ∈ interim, a.final = false
  last : final.final = true

namespace Dialogue

def answers (x : Dialogue) : List Answer := x.interim ++ [x.final]

def WellFormed (x : Dialogue) : Prop := ∀ a ∈ x.answers, a.WellFormed x.method ∧ a.Small

def Telling (x : Dialogue) : Prop := ∀ a ∈ x.answers, a.Telling

/-- The whole of it comes in these blocks. -/
def Cut (x : Dialogue) (blocks : List Block) : Prop :=
  Exchanged x.request (x.answers.flatMap Answer.bytes) blocks

/-- These callbacks are those for the request, and tell its responses but for the pieces in
which they bring the data; the report has the code of the final one and is made of them alone. -/
structure Heard (ctx : Context) (x : Dialogue) (h : Spoken) : Prop where
  told : ∃ p segments asked answered events, segments.flatten = x.request ∧
    httpRun clientParserSettings (httpParserInit .request) segments = some (p, asked) ∧
    h.1.map Prod.snd = asked.map requestEvent ++ events ∧ responseCalls answered = some events ∧
    Http.joined answered = Http.joined (x.answers.flatMap Answer.calls)
  report : OwnReport ctx x.final.line.code h.1 h.2

end Dialogue

/-- However the bytes of a connection come in blocks: at any of them as many responses are
complete as came whole until then, so each is at its last byte, and each report is made of
its own exchange. -/
structure FramingInStep (ctx : Context) (xs : List Dialogue) : Prop where
  counts : ∀ front x back, xs = front ++ x :: back →
    ∀ traffic, List.Forall₂ Dialogue.Cut front traffic → ∀ text k, Brings x.answers text k →
    ∀ blocks, Exchanged x.request text blocks → ∀ stat, ∃ done,
      handleRun ctx HttpSession.start stat (traffic.flatten ++ blocks) = some done ∧
        completed done.run = (front.flatMap Dialogue.answers).length + k
  heard : ∀ traffic, List.Forall₂ Dialogue.Cut xs traffic → ∀ stat, ∃ done spoken,
    handleRun ctx HttpSession.start stat traffic.flatten = some done ∧
      List.Forall₂ (Dialogue.Heard ctx) xs spoken ∧ done.run = spoken.flatMap Prod.fst ∧
      done.sent = spoken.map Prod.snd

section Counts

theorem completed_append (first second : List (Moment × Event)) :
    completed (first ++ second) = completed first + completed second := by
  unfold completed
  rw [List.map_append, List.countP_append]

theorem requests_incomplete (calls : List HttpCallback) :
    (calls.map requestEvent).countP Event.isComplete = 0 := by
  rw [List.countP_eq_zero]
  intro e member
  obtain ⟨call, -, rfl⟩ := List.mem_map.mp member
  cases call with
  | data kind bytes => cases kind <;> exact Bool.false_ne_true
  | _ => exact Bool.false_ne_true

/-- The session hears that a response is complete when its parser tells it. -/
theorem responses_complete {calls : List HttpCallback} : ∀ {events : List Event},
    responseCalls calls = some events → events.countP Event.isComplete = completions calls := by
  induction calls with
  | nil =>
      intro events told
      cases told
      rfl
  | cons call rest ih =>
      intro events told
      obtain ⟨first, later, here, there, rfl⟩ := responseCalls_cons told
      have one : first.countP Event.isComplete = completions [call] := by
        cases call with
        | messageBegin =>
            cases here
            rfl
        | data kind bytes => cases kind <;> cases here <;> rfl
        | headersComplete method httpMajor httpMinor statusCode =>
            obtain ⟨code, -, rfl⟩ := Option.map_eq_some_iff.mp here
            rfl
        | messageComplete statusCode =>
            obtain ⟨code, -, rfl⟩ := Option.map_eq_some_iff.mp here
            rfl
      rw [List.countP_append, ih there, one]
      exact (completions_append [call] rest).symm

theorem completed_events {run : List (Moment × Event)} {asked answered : List HttpCallback}
    {events : List Event} (said : run.map Prod.snd = asked.map requestEvent ++ events)
    (told : responseCalls answered = some events) : completed run = completions answered := by
  rw [completed, said, List.countP_append, requests_incomplete, responses_complete told,
    Nat.zero_add]

variable {ctx : Context}

theorem heard_completed {x : Dialogue} {h : Spoken} (heard : x.Heard ctx h) :
    completed h.1 = x.answers.length := by
  obtain ⟨p, segments, asked, answered, events, -, -, said, told, same⟩ := heard.told
  rw [completed_events said told, ← completions_joined, same, completions_joined,
    completions_answers]

theorem heards_completed {xs : List Dialogue} {spoken : List Spoken}
    (heard : List.Forall₂ (Dialogue.Heard ctx) xs spoken) :
    completed (spoken.flatMap Prod.fst) = (xs.flatMap Dialogue.answers).length := by
  induction heard with
  | nil => rfl
  | cons here _ ih =>
      rw [List.flatMap_cons, List.flatMap_cons, completed_append, List.length_append, ih,
        heard_completed here]

end Counts

section Requests

/-- A request begins with its first byte. -/
theorem request_begins (x : Dialogue) (segments : List Bytes) (full : ∀ data ∈ segments, data ≠ [])
    (stream : segments.flatten = x.request) {p : Parser} {calls : List HttpCallback}
    (run : httpRun clientParserSettings (httpParserInit .request) segments = some (p, calls)) :
    .messageBegin ∈ calls := by
  obtain ⟨rest, request⟩ := x.begins
  obtain ⟨ch, letters, first, word, -, -, letter⟩ :=
    letter_heads clientParserSettings (httpParserInit .request) x.method
  rw [request, word] at stream
  cases segments with
  | nil => cases stream
  | cons data others =>
      obtain ⟨done, later, here, -, rfl⟩ := httpRun_cons run
      obtain ⟨ch', data', rfl⟩ := List.exists_cons_of_ne_nil (full data List.mem_cons_self)
      obtain ⟨rfl, -⟩ := List.cons.inj stream
      have room : 0 + [ch'].length ≤ HTTP_MAX_HEADER_SIZE := by
        rw [List.length_singleton]
        decide
      have begun := letter 0 room data'
      have read : executeFrom clientParserSettings (httpParserInit .request) noMarks 0
          (ch' :: data') = some done := here
      obtain ⟨done', -, rfl⟩ := Option.map_eq_some_iff.mp (begun.symm.trans read)
      exact List.mem_append_left _ List.mem_cons_self

/-- A request and a part of what answers it, in whatever blocks. -/
theorem exchanged_run (x : Dialogue) {text : Bytes} {blocks : List Block}
    (exchanged : Exchanged x.request text blocks) :
    ∃ p asked answered, blocks = asked ++ answered ∧
      (∀ b ∈ asked, b.toServer = true ∧ b.data ≠ []) ∧
      (∀ b ∈ answered, b.toServer = false ∧ b.data ≠ []) ∧
      ∃ calls, httpRun clientParserSettings (httpParserInit .request) (asked.map Block.data) =
        some (p, calls) ∧ .messageBegin ∈ calls ∧ asked.flatMap Block.data = x.request ∧
          answered.flatMap Block.data = text := by
  obtain ⟨asked, answered, rfl, toServer, toClient, request, responses⟩ := exchanged
  have full := blocks_filled toServer
  obtain ⟨p, calls, run, -, -⟩ := httpRun_sound clientParserSettings_sound (asked.map Block.data)
    (httpParserInit .request) (httpParserInit_ready .request) full
  exact ⟨p, asked, answered, rfl, toServer, toClient, calls, run,
    request_begins x _ full request run, request, responses⟩

end Requests

section Dialogues

variable (ctx : Context)

/-- An exchange whose responses are told leaves the session as new, and one report. -/
theorem dialogue_told (x : Dialogue) (formed : x.WellFormed) (telling : x.Telling)
    (blocks : List Block) (cut : x.Cut blocks) (stat : Status) :
    ∃ done rp, handleRun ctx HttpSession.start stat blocks = some done ∧
      done.session = HttpSession.start ∧ done.sent = [rp] ∧ x.Heard ctx (done.run, rp) := by
  obtain ⟨p, asked, answered, rfl, toServer, toClient, calls, run, begins, request, responses⟩ :=
    exchanged_run x cut
  have whole := answers_whole x.interim x.last _ (awaiting_awaits true) x.passing
    fun a inside => ⟨(formed a inside).1, (formed a inside).2, telling a inside⟩
  have full := blocks_filled toClient
  obtain ⟨calls', run', same⟩ := whole.run serverParserSettings_sound (awaiting_ready true) rfl rfl
    rfl _ full responses
  obtain ⟨done, events, rp, handled, new, told, said, sent, own⟩ := dialogue_handled ctx
    toServer toClient run begins run' same x.passing x.last stat
  exact ⟨done, rp, handled, new, sent, ⟨p, _, calls, calls', events,
    request, run, said, told, same⟩, own⟩

/-- So do any number of them. -/
theorem dialogues_told {xs : List Dialogue} (formed : ∀ x ∈ xs, x.WellFormed)
    (telling : ∀ x ∈ xs, x.Telling) {traffic : List (List Block)}
    (cut : List.Forall₂ Dialogue.Cut xs traffic) (stat : Status) :
    ∃ done spoken, handleRun ctx HttpSession.start stat traffic.flatten = some done ∧
      done.session = HttpSession.start ∧ List.Forall₂ (Dialogue.Heard ctx) xs spoken ∧
      done.run = spoken.flatMap Prod.fst ∧ done.sent = spoken.map Prod.snd :=
  handled_each ctx (fun x blocks => (x.WellFormed ∧ x.Telling) ∧ x.Cut blocks) (Dialogue.Heard ctx)
    (fun x blocks cut stat => dialogue_told ctx x cut.1.1 cut.1.2 blocks cut.2 stat)
    ((List.forall₂_and_left _ _).mpr ⟨fun x inside => ⟨formed x inside, telling x inside⟩, cut⟩) stat

/-- What is complete behind exchanges that were told, and blocks of the next. -/
theorem dialogues_behind {front : List Dialogue} (formed : ∀ x ∈ front, x.WellFormed)
    (telling : ∀ x ∈ front, x.Telling) {traffic : List (List Block)}
    (cut : List.Forall₂ Dialogue.Cut front traffic) (blocks : List Block) (k : Nat)
    (next : ∀ stat, ∃ own, handleRun ctx HttpSession.start stat blocks = some own ∧
      completed own.run = k) (stat : Status) :
    ∃ done, handleRun ctx HttpSession.start stat (traffic.flatten ++ blocks) = some done ∧
      completed done.run = (front.flatMap Dialogue.answers).length + k := by
  obtain ⟨first, spoken, run, new, heard, said, -⟩ :=
    dialogues_told ctx formed telling cut stat
  obtain ⟨own, run', count⟩ := next first.stat
  refine ⟨⟨own.session, own.stat, first.run ++ own.run, first.sent ++ own.sent⟩, ?_, ?_⟩
  · rw [handleRun_append, run, Option.bind_some, new, run']
    rfl
  · show completed (first.run ++ own.run) = _
    rw [completed_append, count, said, heards_completed heard]

/-- A part of an exchange whose responses are told. -/
theorem dialogue_part (x : Dialogue) (formed : x.WellFormed) (telling : x.Telling) {text : Bytes}
    {k : Nat} (brings : Brings x.answers text k) {blocks : List Block}
    (exchanged : Exchanged x.request text blocks) (stat : Status) :
    ∃ done, handleRun ctx HttpSession.start stat blocks = some done ∧ completed done.run = k := by
  obtain ⟨p, asked, answered, rfl, toServer, toClient, calls, run, begins, -, responses⟩ :=
    exchanged_run x exchanged
  have full := blocks_filled toClient
  obtain ⟨p', calls', run', count⟩ := brings_run x.last x.passing
    (fun a inside => ⟨(formed a inside).1, (formed a inside).2, telling a inside⟩) brings _ full
    responses
  obtain ⟨done, events, handled, told, said, -⟩ := exchanged_events ctx toServer run begins stat
    toClient run'
  exact ⟨done, handled, (completed_events said told).trans count⟩

theorem dialogue_filled (x : Dialogue) : x.request ≠ [] := by
  obtain ⟨rest, request⟩ := x.begins
  rw [request]
  exact List.append_ne_nil_of_right_ne_nil _ (List.cons_ne_nil SP rest)

/-- A block for the request, and one for what answers it. -/
theorem exchanged_two {request responses : Bytes} (asks : request ≠ []) (answers : responses ≠ []) :
    Exchanged request responses
      [⟨true, request, fun _ => default⟩, ⟨false, responses, fun _ => default⟩] :=
  ⟨[_], [_], rfl, List.forall_mem_singleton.mpr ⟨rfl, asks⟩,
    List.forall_mem_singleton.mpr ⟨rfl, answers⟩, List.flatMap_singleton .., List.flatMap_singleton ..⟩

theorem dialogues_cut (xs : List Dialogue) : ∃ traffic, List.Forall₂ Dialogue.Cut xs traffic := by
  induction xs with
  | nil => exact ⟨[], .nil⟩
  | cons x xs ih =>
      obtain ⟨traffic, cut⟩ := ih
      have filled : x.answers.flatMap Answer.bytes ≠ [] := by
        rw [Dialogue.answers, List.flatMap_append, List.flatMap_singleton]
        exact List.append_ne_nil_of_right_ne_nil _ (answer_filled x.final)
      exact ⟨_, .cons (exchanged_two (dialogue_filled x) filled) cut⟩

/-- What is complete in one segment that answers a request. -/
theorem segment_completed (x : Dialogue) {text : Bytes} (filled : text ≠ []) {parsed : Http.Parsed}
    (here : executeFrom serverParserSettings (awaiting true) noMarks 0 text = some parsed)
    (stat : Status) :
    ∃ done, handleRun ctx HttpSession.start stat
        [⟨true, x.request, fun _ => default⟩, ⟨false, text, fun _ => default⟩] = some done ∧
      completed done.run = completions parsed.calls := by
  have filled' : ∀ data ∈ [x.request], data ≠ [] :=
    List.forall_mem_singleton.mpr (dialogue_filled x)
  have read : httpRun serverParserSettings (awaiting true) [text] =
      some (parsed.parser, parsed.calls ++ []) := by
    have ok : ¬ (awaiting true).httpErrno ≠ .ok := not_not.mpr rfl
    have whole : httpParserExecute serverParserSettings (awaiting true) text = some parsed := by
      rw [httpParserExecute, if_neg ok, if_neg filled]
      exact here
    rw [httpRun, whole]
    rfl
  rw [List.append_nil] at read
  obtain ⟨p, calls, run, -, -⟩ := httpRun_sound clientParserSettings_sound [x.request]
    (httpParserInit .request) (httpParserInit_ready .request) filled'
  have begins := request_begins x [x.request] filled' List.flatten_singleton run
  have toServer : ∀ b ∈ [(⟨true, x.request, fun _ => default⟩ : Block)],
      b.toServer = true ∧ b.data ≠ [] :=
    List.forall_mem_singleton.mpr ⟨rfl, dialogue_filled x⟩
  have toClient : ∀ b ∈ [(⟨false, text, fun _ => default⟩ : Block)],
      b.toServer = false ∧ b.data ≠ [] :=
    List.forall_mem_singleton.mpr ⟨rfl, filled⟩
  obtain ⟨done, events, handled, told, said, -⟩ :=
    exchanged_events ctx toServer run begins stat toClient read
  exact ⟨done, handled, completed_events said told⟩

/-- An exchange with a response that is not told. -/
theorem dialogue_astray (x : Dialogue) (formed : x.WellFormed) (untold : ¬ x.Telling) :
    ∃ text k blocks, Brings x.answers text k ∧ Exchanged x.request text blocks ∧ ∃ j, j ≠ k ∧
      ∀ stat, ∃ done, handleRun ctx HttpSession.start stat blocks = some done ∧
        completed done.run = j := by
  obtain ⟨text, k, brings, filled, parsed, here, apart⟩ := answers_astray x.interim x.last _
    (awaiting_awaits true) x.passing formed untold
  exact ⟨text, k, _, brings, exchanged_two (dialogue_filled x) filled, completions parsed.calls,
    apart, segment_completed ctx x filled here⟩

/-- Where the exchanges in front were told, the next is told too. -/
theorem framing_telling (xs : List Dialogue) : ∀ front : List Dialogue,
    FramingInStep ctx (front ++ xs) → (∀ x ∈ front ++ xs, x.WellFormed) →
      (∀ x ∈ front, x.Telling) → ∀ x ∈ xs, x.Telling := by
  induction xs with
  | nil => exact fun _ _ _ _ x member => absurd member List.not_mem_nil
  | cons x xs ih =>
      intro front framed formed told
      have before : ∀ y ∈ front, y.WellFormed := fun y inside => formed y (List.mem_append_left _ inside)
      have here := formed x (List.mem_append_right front List.mem_cons_self)
      have telling : x.Telling := by
        by_contra untold
        obtain ⟨text, k, blocks, brings, exchanged, j, apart, next⟩ :=
          dialogue_astray ctx x here untold
        obtain ⟨traffic, cut⟩ := dialogues_cut front
        obtain ⟨done, run, count⟩ :=
          dialogues_behind ctx before told cut blocks j next statusInit
        obtain ⟨done', run', count'⟩ :=
          framed.counts front x xs rfl traffic cut text k brings blocks exchanged statusInit
        cases run.symm.trans run'
        exact apart (Nat.add_left_cancel (count.symm.trans count'))
      rw [List.forall_mem_cons]
      refine ⟨telling, ih (front ++ [x]) ?_ ?_ ?_⟩
      · rw [List.append_assoc]
        exact framed
      · rw [List.append_assoc]
        exact formed
      · intro y inside
        rcases List.mem_append.mp inside with inside | inside
        · exact told y inside
        · exact List.mem_singleton.mp inside ▸ telling

/-- On every connection whose exchanges follow one another the responses are complete at
their last bytes, and the reports are about the right ones, exactly if the end of each
response can be told from it alone: `response_headers_complete` never tells the parser what
the method was. -/
theorem framing_iff (xs : List Dialogue) (formed : ∀ x ∈ xs, x.WellFormed) :
    FramingInStep ctx xs ↔ ∀ x ∈ xs, x.Telling := by
  constructor
  · intro framed
    exact framing_telling ctx xs [] framed formed fun x inside => absurd inside List.not_mem_nil
  · intro telling
    constructor
    · rintro front x back rfl traffic cut text k brings blocks exchanged stat
      have inside : x ∈ front ++ x :: back := List.mem_append_right front List.mem_cons_self
      exact dialogues_behind ctx (fun y member => formed y (List.mem_append_left _ member))
        (fun y member => telling y (List.mem_append_left _ member)) cut blocks k
        (dialogue_part ctx x (formed x inside) (telling x inside) brings exchanged) stat
    · intro traffic cut stat
      obtain ⟨done, spoken, run, -, heard⟩ := dialogues_told ctx formed telling cut stat
      exact ⟨done, spoken, run, heard⟩

end Dialogues

section HeadRequest

/-- `HTTP/1.1 200 OK`, with `Content-Length: 2`. -/
def twoAnswer (body : Body) : Answer := ⟨chunkedResponse.line, ⟨[lengthField], body⟩⟩

/-- A request for `/`, answered so. -/
def twoDialogue (method : HttpMethod) (body : Body) : Dialogue where
  method := method
  request := (httpMethodStr method).bytes ++ SP :: asc "/ HTTP/1.1\r\n\r\n"
  interim := []
  final := twoAnswer body
  begins := ⟨_, rfl⟩
  passing := fun a inside => absurd inside List.not_mem_nil
  last := by
    show decide (chunkedResponse.line.code.val / 100 ≠ 1) = true
    decide +kernel

theorem twoDialogue_head : (twoDialogue .head .none).WellFormed := by
  intro a inside
  rw [show a = twoAnswer .none from List.mem_singleton.mp inside]
  exact ⟨⟨fun _ => rfl, fun spoken => absurd (Or.inl rfl) spoken⟩, by decide +kernel, by decide⟩

theorem twoDialogue_get : (twoDialogue .get (.sized (asc "hi"))).WellFormed := by
  intro a inside
  rw [show a = twoAnswer (.sized (asc "hi")) from List.mem_singleton.mp inside]
  refine ⟨⟨?_, fun _ => ?_⟩, by decide +kernel, by decide⟩
  · rintro (other | without | ⟨other, -⟩)
    · cases other
    · exact absurd without (by unfold Answer.bodiless; decide)
    · cases other
  · exact ⟨by decide +kernel, by decide, Or.inr (by decide +kernel)⟩

/-- A request that is answered with the body its answer announces. -/
theorem framing_get :
    FramingInStep localContext [twoDialogue .get (.sized (asc "hi"))] ↔
      ∀ x ∈ [twoDialogue .get (.sized (asc "hi"))], x.Telling :=
  framing_iff _ _ (List.forall_mem_singleton.mpr twoDialogue_get)

/-- The answer to a HEAD request announces a body that does not come: with its last byte it
is not complete, nor is it with the first byte of the next. -/
theorem framing_head :
    (∀ x ∈ [twoDialogue .head .none, twoDialogue .get (.sized (asc "hi"))], x.WellFormed) ∧
      ¬ FramingInStep localContext
        [twoDialogue .head .none, twoDialogue .get (.sized (asc "hi"))] := by
  constructor
  · exact List.forall_mem_cons.mpr ⟨twoDialogue_head, List.forall_mem_singleton.mpr twoDialogue_get⟩
  · intro framed
    have brings : Brings (twoDialogue .head .none).answers ((twoAnswer .none).bytes ++ []) 1 :=
      .whole (twoAnswer .none) .done
    have filled : (twoAnswer .none).bytes ++ [] ≠ [] :=
      List.append_ne_nil_of_left_ne_nil (answer_filled _) []
    have read : (executeFrom serverParserSettings (awaiting true) noMarks 0
        ((twoAnswer .none).bytes ++ [])).map (fun parsed => completions parsed.calls) = some 0 := by
      decide +kernel
    obtain ⟨parsed, here, none⟩ := Option.map_eq_some_iff.mp read
    obtain ⟨done, run, count⟩ := segment_completed localContext (twoDialogue .head .none)
      filled here statusInit
    obtain ⟨done', run', count'⟩ := framed.counts [] _ _ rfl [] .nil _ 1 brings _
      (exchanged_two (dialogue_filled _) filled) statusInit
    cases run.symm.trans run'
    exact absurd (none.symm.trans (count.symm.trans count')) (by decide)

end HeadRequest

end Bscope
