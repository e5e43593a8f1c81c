import Bscope.Captures
import Bscope.Ledger

set_option autoImplicit false

namespace Bscope

/-- A header as it is delivered: its name and its value, each in pieces. -/
structure Header where
  name : List Bytes
  value : List Bytes

def Header.asked (h : Header) : List Event :=
  h.name.map .requestHeaderField ++ h.value.map .requestHeaderValue

def Header.answered (h : Header) : List Event :=
  h.name.map .reponseHeaderField ++ h.value.map .reponseHeaderValue

/-- A request whose URL is delivered in one piece. -/
structure Request where
  url : Bytes
  headers : List Header
  method : HttpMethod
  httpMajor : Nat
  httpMinor : Nat
  chunks : List Bytes

/-- The callbacks up to the end of the headers. -/
def Request.head (r : Request) : List Event :=
  [.requestBegin, .requestUrl r.url] ++ r.headers.flatMap Header.asked ++
    [.requestHeadersComplete r.method r.httpMajor r.httpMinor]

def Request.body (r : Request) : List Event := r.chunks.map .requestBody ++ [.requestComplete]

def Request.events (r : Request) : List Event := r.head ++ r.body

structure Response where
  headers : List Header
  statusCode : StatusCode
  chunks : List Bytes

/-- The callbacks of a response but the last. -/
def Response.opening (r : Response) : List Event :=
  [.responseBegin] ++ r.headers.flatMap Header.answered ++
    [.responseHeadersComplete r.statusCode] ++ r.chunks.map .responseBody

def Response.events (r : Response) : List Event := r.opening ++ [.responseComplete r.statusCode]

def Response.Interim (r : Response) : Prop := r.statusCode.val / 100 = 1

/-- Any number of interim responses, and the final one. -/
structure Reply where
  interim : List Response
  final : Response
  interim_codes : ∀ r ∈ interim, r.Interim
  final_code : ¬ final.Interim

def Reply.opening (r : Reply) : List Event := r.interim.flatMap Response.events ++ r.final.opening

def Reply.events (r : Reply) : List Event :=
  r.opening ++ [.responseComplete r.final.statusCode]

structure Exchange where
  request : Request
  reply : Reply

/-- The ledger over a list of events that touches none of its fields. -/
theorem ledger_idle (l : Ledger) (events : List Event)
    (idle : ∀ e ∈ events, ∀ l : Ledger, l.step e = (l, none)) :
    Runs.after Ledger.step l events = l := by
  induction events with
  | nil => rfl
  | cons e events ih =>
      rw [Runs.after_cons, idle e List.mem_cons_self]
      exact ih (fun e' member => idle e' (List.mem_cons_of_mem e member))

theorem asked_member (headers : List Header) (e : Event)
    (member : e ∈ headers.flatMap Header.asked) :
    ∃ data, e = .requestHeaderField data ∨ e = .requestHeaderValue data := by
  rw [List.mem_flatMap] at member
  obtain ⟨h, -, member⟩ := member
  rw [Header.asked, List.mem_append, List.mem_map, List.mem_map] at member
  rcases member with ⟨data, -, rfl⟩ | ⟨data, -, rfl⟩
  · exact ⟨data, Or.inl rfl⟩
  · exact ⟨data, Or.inr rfl⟩

theorem answered_member (headers : List Header) (e : Event)
    (member : e ∈ headers.flatMap Header.answered) :
    ∃ data, e = .reponseHeaderField data ∨ e = .reponseHeaderValue data := by
  rw [List.mem_flatMap] at member
  obtain ⟨h, -, member⟩ := member
  rw [Header.answered, List.mem_append, List.mem_map, List.mem_map] at member
  rcases member with ⟨data, -, rfl⟩ | ⟨data, -, rfl⟩
  · exact ⟨data, Or.inl rfl⟩
  · exact ⟨data, Or.inr rfl⟩

theorem ledger_head (l : Ledger) (r : Request) :
    Runs.after Ledger.step l r.head =
      { l with owes := true, path := some (strndup r.url r.url.length), method := r.method } := by
  unfold Request.head
  rw [Runs.after_snoc, Runs.after_append, ledger_idle]
  · rfl
  · intro e member
    obtain ⟨data, rfl | rfl⟩ := asked_member r.headers e member <;> exact fun l => rfl

theorem ledger_body (l : Ledger) (r : Request) : Runs.after Ledger.step l r.body = l := by
  apply ledger_idle
  intro e member
  simp only [Request.body, List.mem_append, List.mem_map, List.mem_singleton] at member
  rcases member with ⟨data, -, rfl⟩ | rfl <;> exact fun l => rfl

theorem ledger_opening (l : Ledger) (r : Response) :
    Runs.after Ledger.step l r.opening = { l with code := r.statusCode } := by
  unfold Response.opening
  rw [Runs.after_append, Runs.after_snoc, Runs.after_append, ledger_idle, ledger_idle]
  · rfl
  · intro e member
    obtain ⟨data, rfl | rfl⟩ := answered_member r.headers e member <;> exact fun l => rfl
  · intro e member
    rw [List.mem_map] at member
    obtain ⟨data, -, rfl⟩ := member
    exact fun l => rfl

theorem ledger_interim (l : Ledger) (rs : List Response) (interim : ∀ r ∈ rs, r.Interim) :
    ∃ code, Runs.after Ledger.step l (rs.flatMap Response.events) = { l with code := code } := by
  induction rs generalizing l with
  | nil => exact ⟨l.code, rfl⟩
  | cons r rs ih =>
      have passes : r.statusCode.val / 100 = 1 := interim r List.mem_cons_self
      have completed : Runs.after Ledger.step l r.events = { l with code := r.statusCode } := by
        rw [Response.events, Runs.after_snoc, ledger_opening]
        simp [Ledger.step, passes]
      obtain ⟨code, rest⟩ := ih { l with code := r.statusCode }
        (fun r' member => interim r' (List.mem_cons_of_mem r member))
      rw [List.flatMap_cons, Runs.after_append, completed]
      exact ⟨code, rest⟩

theorem ledger_reply (l : Ledger) (r : Reply) :
    Runs.after Ledger.step l r.opening = { l with code := r.final.statusCode } := by
  obtain ⟨code, passed⟩ := ledger_interim l r.interim r.interim_codes
  rw [Reply.opening, Runs.after_append, passed, ledger_opening]

/-- Before its last event an exchange has entered all the ledger keeps. -/
theorem ledger_exchange (l : Ledger) (x : Exchange) :
    Runs.after Ledger.step l (x.request.events ++ x.reply.opening) =
      ⟨true, some (strndup x.request.url x.request.url.length), x.request.method,
        x.reply.final.statusCode⟩ := by
  rw [Runs.after_append, ledger_reply, Request.events, Runs.after_append, ledger_body, ledger_head]

theorem opening_not_final (r : Response) : ∀ e ∈ r.opening, e.isFinal = false := by
  intro e member
  simp only [Response.opening, List.mem_append, List.mem_singleton, List.mem_map] at member
  rcases member with ((rfl | header) | rfl) | ⟨data, -, rfl⟩
  · rfl
  · obtain ⟨data, rfl | rfl⟩ := answered_member r.headers e header <;> rfl
  · rfl
  · rfl

theorem reply_not_final (r : Reply) : ∀ e ∈ r.opening, e.isFinal = false := by
  intro e member
  rw [Reply.opening, List.mem_append, List.mem_flatMap] at member
  rcases member with ⟨passing, inside, member⟩ | member
  · rw [Response.events, List.mem_append, List.mem_singleton] at member
    rcases member with member | rfl
    · exact opening_not_final passing e member
    · have passes : passing.statusCode.val / 100 = 1 := r.interim_codes passing inside
      simp [Event.isFinal, passes]
  · exact opening_not_final r.final e member

theorem request_not_final (r : Request) : ∀ e ∈ r.events, e.isFinal = false := by
  intro e member
  simp only [Request.events, Request.head, Request.body, List.mem_append,
    List.mem_cons, List.not_mem_nil, or_false, List.mem_map] at member
  rcases member with (((rfl | rfl) | header) | rfl) | ⟨data, -, rfl⟩ | rfl
  · rfl
  · rfl
  · obtain ⟨data, rfl | rfl⟩ := asked_member r.headers e header <;> rfl
  · rfl
  · rfl
  · rfl

end Bscope
