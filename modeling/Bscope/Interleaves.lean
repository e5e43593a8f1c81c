import Bscope.Exchange

set_option autoImplicit false

namespace Bscope

namespace Event

/-- The callbacks of the parser that reads what the client sends. -/
def isRequest : Event → Bool
  | .requestBegin => true
  | .requestUrl _ => true
  | .requestHeaderField _ => true
  | .requestHeaderValue _ => true
  | .requestHeadersComplete _ _ _ => true
  | .requestBody _ => true
  | .requestComplete => true
  | _ => false

def isHead : Event → Bool
  | .requestHeadersComplete _ _ _ => true
  | _ => false

def isEnding : Event → Bool
  | .requestComplete => true
  | _ => false

end Event

def begins (events : List Event) : Nat := events.countP Event.isBegin

def heads (events : List Event) : Nat := events.countP Event.isHead

def endings (events : List Event) : Nat := events.countP Event.isEnding

def finals (events : List Event) : Nat := events.countP Event.isFinal

/-- Both directions deliver their exchanges in order, as far as the connection
lasts, in any interleaving that answers no request before its headers are complete and
completes no final response within a request: there `session_start` takes the rest of the
request from its parser. -/
structure Interleaves (xs : List Exchange) (events : List Event) : Prop where
  client : events.filter Event.isRequest <+: xs.flatMap fun x => x.request.events
  server : events.filter (fun e => !e.isRequest) <+: xs.flatMap fun x => x.reply.events
  answers : ∀ front e back, events = front ++ e :: back → e.isRequest = false →
    finals front < heads front
  between : ∀ front e back, events = front ++ e :: back → e.isFinal = true →
    endings front = begins front

/-- No request begins before the one before it has its final response. -/
def Unpipelined (events : List Event) : Prop :=
  ∀ front back, events = front ++ .requestBegin :: back → finals front = begins front

theorem prefix_flatMap {α β : Type} (f : α → List β) (filled : ∀ x, f x ≠ []) (xs : List α)
    (pre : List β) (inside : pre <+: xs.flatMap f) :
    pre = [] ∨ ∃ done x rest part, xs = done ++ x :: rest ∧ pre = done.flatMap f ++ part ∧
      part <+: f x ∧ part ≠ [] := by
  induction xs generalizing pre with
  | nil => exact Or.inl (List.prefix_nil.mp inside)
  | cons x xs ih =>
      rw [List.flatMap_cons] at inside
      rcases List.prefix_or_prefix_of_prefix inside (List.prefix_append (f x) _) with within | past
      · by_cases empty : pre = []
        · exact Or.inl empty
        · exact Or.inr ⟨[], x, xs, pre, rfl, rfl, within, empty⟩
      · obtain ⟨pre', rfl⟩ := past
        rcases ih pre' ((List.prefix_append_right_inj (f x)).mp inside) with rfl | later
        · exact Or.inr ⟨[], x, xs, f x, rfl, by simp, List.prefix_rfl, filled x⟩
        · obtain ⟨done, y, rest, part, rfl, rfl, within, some_part⟩ := later
          exact Or.inr ⟨x :: done, y, rest, part, rfl, by simp, within, some_part⟩

theorem countP_client (p : Event → Bool) (own : ∀ e, p e = true → e.isRequest = true)
    (events : List Event) : events.countP p = (events.filter Event.isRequest).countP p := by
  rw [List.countP_filter]
  congr 1
  funext e
  cases hit : p e
  · rfl
  · simp [own e hit]

theorem begin_client (e : Event) (hit : e.isBegin = true) : e.isRequest = true := by
  cases e <;> first | rfl | cases hit

theorem begin_eq (e : Event) (hit : e.isBegin = true) : e = .requestBegin := by
  cases e <;> first | rfl | cases hit

theorem head_client (e : Event) (hit : e.isHead = true) : e.isRequest = true := by
  cases e <;> first | rfl | cases hit

theorem final_server (e : Event) (hit : e.isFinal = true) : e.isRequest = false := by
  cases e <;> first | rfl | cases hit

theorem request_split (r : Request) :
    ∃ middle, r.head =
        .requestBegin :: middle ++ [.requestHeadersComplete r.method r.httpMajor r.httpMinor] ∧
      (∀ e ∈ middle, e.isBegin = false ∧ e.isHead = false) := by
  refine ⟨.requestUrl r.url :: r.headers.flatMap Header.asked, rfl, ?_⟩
  intro e member
  rcases List.mem_cons.mp member with rfl | header
  · exact ⟨rfl, rfl⟩
  · obtain ⟨data, rfl | rfl⟩ := asked_member r.headers e header <;> exact ⟨rfl, rfl⟩

theorem body_plain (r : Request) : ∀ e ∈ r.body, e.isBegin = false ∧ e.isHead = false := by
  intro e member
  simp only [Request.body, List.mem_append, List.mem_map, List.mem_singleton] at member
  rcases member with ⟨data, -, rfl⟩ | rfl <;> exact ⟨rfl, rfl⟩

theorem countP_none (p : Event → Bool) (events : List Event) (none : ∀ e ∈ events, p e = false) :
    events.countP p = 0 := by
  rw [List.countP_eq_zero]
  intro e member
  simp [none e member]

theorem request_filled (r : Request) : r.events ≠ [] := by
  obtain ⟨middle, head, -⟩ := request_split r
  rw [Request.events, head]
  exact List.cons_ne_nil _ _

theorem request_counts (r : Request) : begins r.events = 1 ∧ heads r.events = 1 := by
  obtain ⟨middle, head, plain⟩ := request_split r
  constructor
  · rw [begins, Request.events, head, List.countP_append, List.countP_append, List.countP_cons,
      countP_none _ middle (fun e member => (plain e member).1),
      countP_none _ r.body (fun e member => (body_plain r e member).1)]
    rfl
  · rw [heads, Request.events, head, List.countP_append, List.countP_append, List.countP_cons,
      countP_none _ middle (fun e member => (plain e member).2),
      countP_none _ r.body (fun e member => (body_plain r e member).2)]
    rfl

/-- A begun request has begun once, and its headers are complete at most once,
namely when its whole head was delivered. -/
theorem part_counts (r : Request) (part : List Event) (within : part <+: r.events)
    (some_part : part ≠ []) :
    begins part = 1 ∧ heads part ≤ 1 ∧
      (heads part = 1 → ∃ more, part = r.head ++ more ∧ more <+: r.body) := by
  obtain ⟨middle, head, plain⟩ := request_split r
  obtain ⟨whole_begins, whole_heads⟩ := request_counts r
  have few_begins := within.sublist.countP_le (p := Event.isBegin)
  have few_heads := within.sublist.countP_le (p := Event.isHead)
  refine ⟨?_, few_heads.trans_eq whole_heads, ?_⟩
  · obtain ⟨rest, whole⟩ := within
    cases part with
    | nil => exact absurd rfl some_part
    | cons e part =>
        have first : e = .requestBegin := by
          rw [Request.events, head, List.cons_append, List.cons_append, List.cons_append] at whole
          exact (List.cons.inj whole).1
        subst first
        have at_least : 1 ≤ begins (.requestBegin :: part) := by
          rw [begins, List.countP_cons]
          exact Nat.le_add_left 1 _
        change begins (.requestBegin :: part) ≤ begins r.events at few_begins
        omega
  · intro complete
    rcases List.prefix_or_prefix_of_prefix within (List.prefix_append r.head r.body) with early | past
    · by_cases whole : part = r.head
      · exact ⟨[], by rw [whole, List.append_nil], List.nil_prefix⟩
      · have short : part <+: .requestBegin :: middle := by
          rw [head] at early whole
          exact (List.prefix_concat_iff.mp early).resolve_left whole
        have none := short.sublist.countP_le (p := Event.isHead)
        rw [List.countP_cons, countP_none _ middle (fun e member => (plain e member).2)] at none
        change heads part ≤ 0 at none
        omega
    · obtain ⟨more, rfl⟩ := past
      exact ⟨more, rfl, (List.prefix_append_right_inj r.head).mp within⟩

theorem interleaves_front (xs : List Exchange) (front back : List Event)
    (woven : Interleaves xs (front ++ back)) : Interleaves xs front where
  client := ((List.prefix_append front back).filter _).trans woven.client
  server := ((List.prefix_append front back).filter _).trans woven.server
  answers := fun first e rest split response =>
    woven.answers first e (rest ++ back) (by rw [split]; simp) response
  between := fun first e rest split final =>
    woven.between first e (rest ++ back) (by rw [split]; simp) final

theorem requests_begins (xs : List Exchange) :
    begins (xs.flatMap fun x => x.request.events) = xs.length ∧
      heads (xs.flatMap fun x => x.request.events) = xs.length := by
  induction xs with
  | nil => exact ⟨rfl, rfl⟩
  | cons x xs ih =>
      obtain ⟨begun, complete⟩ := request_counts x.request
      unfold begins heads at *
      rw [List.flatMap_cons, List.countP_append, List.countP_append, begun, complete, ih.1, ih.2,
        List.length_cons, Nat.add_comm]
      exact ⟨rfl, rfl⟩

/-- Where the client stands: nothing begun, or some requests done and one in part. -/
theorem client_stand (xs : List Exchange) (events : List Event) (woven : Interleaves xs events) :
    (begins events = 0 ∧ heads events = 0) ∨ ∃ done x rest part, xs = done ++ x :: rest ∧
      events.filter Event.isRequest = (done.flatMap fun x => x.request.events) ++ part ∧
      part <+: x.request.events ∧ part ≠ [] ∧ begins events = done.length + 1 ∧
      heads events = done.length + heads part := by
  have begun := countP_client Event.isBegin begin_client events
  have complete := countP_client Event.isHead head_client events
  rcases prefix_flatMap (fun x : Exchange => x.request.events) (fun x => request_filled x.request)
    xs _ woven.client with none | ⟨done, x, rest, part, split, stand, within, some_part⟩
  · rw [none] at begun complete
    exact Or.inl ⟨begun, complete⟩
  · refine Or.inr ⟨done, x, rest, part, split, stand, within, some_part, ?_, ?_⟩
    · rw [begins, begun, stand, List.countP_append]
      exact congrArg₂ _ (requests_begins done).1 (part_counts x.request part within some_part).1
    · rw [heads, complete, stand, List.countP_append]
      exact congrArg (· + _) (requests_begins done).2

theorem heads_le_begins (xs : List Exchange) (events : List Event) (woven : Interleaves xs events) :
    heads events ≤ begins events := by
  rcases client_stand xs events woven with
    ⟨begun, complete⟩ | ⟨done, x, rest, part, -, -, within, some_part, begun, complete⟩
  · omega
  · have few := (part_counts x.request part within some_part).2.1
    omega

/-- A final response answers a request whose headers are complete. -/
theorem finals_le_heads (xs : List Exchange) (events : List Event) (woven : Interleaves xs events) :
    finals events ≤ heads events := by
  induction events using List.reverseRecOn with
  | nil => exact Nat.le_refl 0
  | append_singleton events e ih =>
      have so_far := ih (interleaves_front xs events [e] woven)
      have more : heads events ≤ heads (events ++ [e]) := by
        rw [heads, heads, List.countP_append]
        exact Nat.le_add_right _ _
      rw [finals, List.countP_append, List.countP_singleton]
      change finals events + _ ≤ _
      split
      · rename_i final
        have answered := woven.answers events e [] rfl (final_server e final)
        omega
      · omega

end Bscope
