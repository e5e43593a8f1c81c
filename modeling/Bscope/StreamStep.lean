import Bscope.ProcessTcp
import Bscope.QueueBounds

set_option autoImplicit false

/- What a packet can do to the stream it belongs to. -/
namespace Bscope

/-- A stream before the third packet of its handshake: nothing came for either half. -/
structure Tracked.Opening (t : Tracked) : Prop where
  nidsState : t.nidsState = .opening
  listening : t.listening = false
  clientState : t.client.state = .synSent
  serverState : t.server.state = .close ∨ t.server.state = .synRecv
  client : t.client.Blank
  server : t.server.Blank
  quiet : t.client.collect = false ∧ t.server.collect = false

/-- A half of an announced stream. -/
structure HalfStream.Live (h : HalfStream) : Prop where
  bounded : h.Bounded
  limit : h.rmemAlloc ≤ 65535
  collect : h.collect = true
  state : h.state ≠ .synSent ∧ h.state ≠ .synRecv

/-- A stream that was announced. -/
structure Tracked.Open (inService : Tuple4 → Bool) (t : Tracked) : Prop where
  nidsState : t.nidsState = .data
  listening : t.listening = true
  service : inService t.tcp.addr = true
  client : t.client.Live
  server : t.server.Live

/-- What becomes of a stream, and the calls it takes. -/
inductive Outcome (inService : Tuple4 → Bool) (t : Tracked) (fromClient : Bool) :
    Option Tracked → List NidsCall → Prop
  | waits (t' : Tracked) : t.Opening → t'.Opening → t'.slot = t.slot → t'.tcp = t.tcp →
      Outcome inService t fromClient (some t') []
  | refused : t.Opening → Outcome inService t fromClient none []
  | passedOver : t.Opening → inService t.tcp.addr = false →
      Outcome inService t fromClient none [.justEst t.tcp]
  | announced (t' : Tracked) (blocks : List Bytes) : t.Opening → t'.Open inService →
      t'.slot = t.slot → t'.tcp = t.tcp → (∀ bytes ∈ blocks, bytes ≠ []) →
      Outcome inService t fromClient (some t')
        (.justEst t.tcp :: blocks.map (NidsCall.data t.tcp fromClient))
  | goesOn (t' : Tracked) (blocks : List Bytes) : t.Open inService → t'.Open inService →
      t'.slot = t.slot → t'.tcp = t.tcp → (∀ bytes ∈ blocks, bytes ≠ []) →
      Outcome inService t fromClient (some t') (blocks.map (NidsCall.data t.tcp fromClient))
  | ends (type : CloseType) : t.Open inService → type = .close ∨ type = .reset →
      Outcome inService t fromClient none [.ended t.tcp type]

section Halves

variable (t : Tracked) (fromClient : Bool)

@[simp] theorem Tracked.set_slot (snd rcv : HalfStream) :
    (t.set fromClient snd rcv).slot = t.slot := by
  cases fromClient <;> rfl

@[simp] theorem Tracked.set_tcp (snd rcv : HalfStream) :
    (t.set fromClient snd rcv).tcp = t.tcp := by
  cases fromClient <;> rfl

@[simp] theorem Tracked.set_listening (snd rcv : HalfStream) :
    (t.set fromClient snd rcv).listening = t.listening := by
  cases fromClient <;> rfl

@[simp] theorem Tracked.set_nidsState (snd rcv : HalfStream) :
    (t.set fromClient snd rcv).nidsState = t.nidsState := by
  cases fromClient <;> rfl

@[simp] theorem Tracked.set_snd (snd rcv : HalfStream) :
    (t.set fromClient snd rcv).snd fromClient = snd := by
  cases fromClient <;> rfl

@[simp] theorem Tracked.set_rcv (snd rcv : HalfStream) :
    (t.set fromClient snd rcv).rcv fromClient = rcv := by
  cases fromClient <;> rfl

end Halves

theorem HalfStream.Blank.bounded {h : HalfStream} (blank : h.Blank) : h.Bounded where
  drained := blank.drained
  small := by
    rw [blank.list]
    exact nofun
  tally := blank.tally

theorem queueData_safe (snd : HalfStream) {rcv : HalfStream} (bounded : rcv.Bounded) (s : Segment)
    (small : s.data.length < 65536) :
    ∃ snd' rcv' out, queueData snd rcv s = some (snd', rcv', out) ∧
      Handled snd rcv snd' rcv' out := by
  unfold queueData
  split
  · exact tcpQueue_safe bounded s small
  · exact ⟨snd, rcv, [], rfl, rfl, Or.inl rfl, bounded, .refl _, nofun, fun _ => rfl⟩

theorem limitQueue_requeue (rcv : HalfStream) :
    limitQueue rcv = rcv.requeue (limitQueue rcv).rmemAlloc (limitQueue rcv).list := by
  unfold limitQueue
  split <;> rfl

theorem limitQueue_limit (rcv : HalfStream) : (limitQueue rcv).rmemAlloc ≤ 65535 := by
  unfold limitQueue
  split
  · exact (by decide : (0 : Int) ≤ 65535)
  · omega

theorem HalfStream.Bounded.limitQueue {rcv : HalfStream} (bounded : rcv.Bounded) :
    (limitQueue rcv).Bounded := by
  unfold Bscope.limitQueue
  split
  · exact ⟨⟨bounded.drained.sized, bounded.drained.unset, bounded.drained.read⟩, nofun, rfl⟩
  · exact bounded

/-- The end of `process_tcp`, whatever the packet. -/
structure Received (t : Tracked) (fromClient : Bool) (s : Segment) (snd' rcv' : HalfStream)
    (out : List Bytes) : Prop where
  receive : receive t fromClient s =
    some (if t.listening then some (t.set fromClient snd' rcv') else none,
      out.map (NidsCall.data t.tcp fromClient))
  sender : snd' = { t.snd fromClient with
    state := snd'.state, currTs := snd'.currTs, window := snd'.window }
  told : snd'.state = (t.snd fromClient).state ∨ snd'.state = .finSent ∨ snd'.state = .closing
  bounded : rcv'.Bounded
  limit : rcv'.rmemAlloc ≤ 65535
  kept : ((t.rcv fromClient).requeue rcv'.rmemAlloc rcv'.list).Kept rcv'
  filled : ∀ bytes ∈ out, bytes ≠ []
  silent : (t.rcv fromClient).collect = false → out = []

theorem receive_spec (t : Tracked) (fromClient : Bool) (s : Segment)
    (bounded : (t.rcv fromClient).Bounded) (small : s.data.length < 65536) :
    ∃ snd' rcv' out, Received t fromClient s snd' rcv' out := by
  obtain ⟨snd₁, rcv₁, out, queued, done⟩ := queueData_safe (t.snd fromClient) bounded s small
  refine ⟨{ snd₁ with window := s.hdr.win }, limitQueue rcv₁, out, ?_, ?_, done.told,
    done.bounded.limitQueue, limitQueue_limit rcv₁, ?_, done.filled, done.silent⟩
  · simp only [Bscope.receive, queued, Option.bind_eq_bind, Option.bind_some]
    rfl
  · rw [done.sender]
  · have kept := done.kept.requeue (limitQueue rcv₁).rmemAlloc (limitQueue rcv₁).list
    rw [← limitQueue_requeue] at kept
    exact kept

section Outcomes

variable {inService : Tuple4 → Bool} {t : Tracked} {fromClient : Bool} {s : Segment}

theorem Tracked.Opening.rcv (opening : t.Opening) (fromClient : Bool) :
    (t.rcv fromClient).Blank ∧ (t.rcv fromClient).collect = false := by
  cases fromClient with
  | true => exact ⟨opening.server, opening.quiet.2⟩
  | false => exact ⟨opening.client, opening.quiet.1⟩

theorem Tracked.Open.rcv (opened : t.Open inService) (fromClient : Bool) :
    (t.rcv fromClient).Live := by
  cases fromClient with
  | true => exact opened.server
  | false => exact opened.client

theorem Tracked.Open.snd (opened : t.Open inService) (fromClient : Bool) :
    (t.snd fromClient).Live := by
  cases fromClient with
  | true => exact opened.client
  | false => exact opened.server

theorem Tracked.Open.set (opened : t.Open inService) (fromClient : Bool) {snd rcv : HalfStream}
    (live : snd.Live) (live' : rcv.Live) : (t.set fromClient snd rcv).Open inService := by
  cases fromClient with
  | true => exact ⟨opened.nidsState, opened.listening, opened.service, live, live'⟩
  | false => exact ⟨opened.nidsState, opened.listening, opened.service, live', live⟩

/-- A half that sends keeps what it has received. -/
theorem HalfStream.Live.sends {h h' : HalfStream} (live : h.Live)
    (same : h' = { h with
      state := h'.state, ackSeq := h'.ackSeq, currTs := h'.currTs, window := h'.window })
    (state : h'.state ≠ .synSent ∧ h'.state ≠ .synRecv) : h'.Live := by
  rw [same]
  exact ⟨⟨⟨live.bounded.drained.sized, live.bounded.drained.unset, live.bounded.drained.read⟩,
    live.bounded.small, live.bounded.tally⟩, live.limit, live.collect, state⟩

theorem synReceived_opening (opening : t.Opening) (fromClient : Bool) (hdr : TcpHdr) :
    (synReceived t fromClient hdr).Opening ∧ (synReceived t fromClient hdr).slot = t.slot ∧
      (synReceived t fromClient hdr).tcp = t.tcp := by
  unfold synReceived
  split
  · exact ⟨opening, rfl, rfl⟩
  · split
    · exact ⟨opening, rfl, rfl⟩
    · refine ⟨⟨opening.nidsState, opening.listening, opening.clientState, Or.inr rfl, ?_, ?_,
        opening.quiet⟩, rfl, rfl⟩
      · exact ⟨opening.client.data, opening.client.bufsize, opening.client.offset,
          opening.client.count, opening.client.urgCount, opening.client.urgSeen,
          opening.client.rmemAlloc, opening.client.list⟩
      · exact ⟨opening.server.data, opening.server.bufsize, opening.server.offset,
          opening.server.count, opening.server.urgCount, opening.server.urgSeen,
          opening.server.rmemAlloc, opening.server.list⟩

theorem synReceived_open (opened : t.Open inService) (hdr : TcpHdr) :
    synReceived t fromClient hdr = t := by
  unfold synReceived
  rw [if_pos (Or.inr (Or.inl opened.client.state.1))]

theorem handleAck_same (h : HalfStream) (acknum : UInt32) :
    handleAck h acknum = { h with ackSeq := (handleAck h acknum).ackSeq } := by
  unfold handleAck
  split <;> rfl

theorem acknowledge_open (opened : t.Open inService) (fromClient : Bool) (hdr : TcpHdr) :
    (acknowledge t fromClient hdr).Open inService ∧
      (acknowledge t fromClient hdr).slot = t.slot ∧
      (acknowledge t fromClient hdr).tcp = t.tcp := by
  unfold acknowledge
  split
  case isFalse => exact ⟨opened, rfl, rfl⟩
  case isTrue =>
    refine ⟨opened.set fromClient ?_ ?_, Tracked.set_slot .., Tracked.set_tcp ..⟩
    · have same := handleAck_same (t.snd fromClient) hdr.ackSeq
      apply (opened.snd fromClient).sends
      · rw [same]
      · rw [same]
        exact (opened.snd fromClient).state
    · split
      · exact (opened.rcv fromClient).sends rfl ⟨nofun, nofun⟩
      · exact opened.rcv fromClient

/-- A half whose state is none of those a FIN leads to is only acknowledged. -/
theorem acknowledge_states (t : Tracked) (fromClient : Bool) (hdr : TcpHdr)
    (waiting : (t.rcv fromClient).state ≠ .finSent) :
    ∃ ackSeq ackSeq', acknowledge t fromClient hdr =
      { t with
        client := { t.client with ackSeq := ackSeq }
        server := { t.server with ackSeq := ackSeq' } } := by
  unfold acknowledge
  split
  case isFalse => exact ⟨t.client.ackSeq, t.server.ackSeq, rfl⟩
  case isTrue =>
    dsimp only
    rw [if_neg waiting, handleAck_same]
    cases fromClient with
    | true => exact ⟨_, t.server.ackSeq, rfl⟩
    | false => exact ⟨t.client.ackSeq, _, rfl⟩

theorem HalfStream.Blank.ackSeq {h : HalfStream} (blank : h.Blank) (ackSeq : UInt32) :
    HalfStream.Blank { h with ackSeq := ackSeq } :=
  ⟨blank.data, blank.bufsize, blank.offset, blank.count, blank.urgCount, blank.urgSeen,
    blank.rmemAlloc, blank.list⟩

theorem acknowledge_opening (opening : t.Opening) (fromClient : Bool) (hdr : TcpHdr) :
    (acknowledge t fromClient hdr).Opening := by
  have waiting : (t.rcv fromClient).state ≠ .finSent := by
    cases fromClient with
    | true =>
        show t.server.state ≠ _
        rcases opening.serverState with close | synRecv
        · rw [close]
          exact nofun
        · rw [synRecv]
          exact nofun
    | false =>
        show t.client.state ≠ _
        rw [opening.clientState]
        exact nofun
  obtain ⟨ackSeq, ackSeq', same⟩ := acknowledge_states t fromClient hdr waiting
  rw [same]
  exact ⟨opening.nidsState, opening.listening, opening.clientState, opening.serverState,
    opening.client.ackSeq ackSeq, opening.server.ackSeq ackSeq', opening.quiet⟩

theorem receive_open (opened : t.Open inService) (fromClient : Bool)
    (small : s.data.length < 65536) :
    ∃ (t' : Tracked) (blocks : List Bytes), receive t fromClient s =
        some (some t', blocks.map (NidsCall.data t.tcp fromClient)) ∧
      t'.Open inService ∧ t'.slot = t.slot ∧ t'.tcp = t.tcp ∧ ∀ bytes ∈ blocks, bytes ≠ [] := by
  obtain ⟨snd', rcv', out, done⟩ :=
    receive_spec t fromClient s (opened.rcv fromClient).bounded small
  refine ⟨t.set fromClient snd' rcv', out, ?_, opened.set fromClient ?_ ?_, Tracked.set_slot ..,
    Tracked.set_tcp .., done.filled⟩
  · rw [done.receive, opened.listening]
    rfl
  · apply (opened.snd fromClient).sends
    · rw [done.sender]
    · have old := (opened.snd fromClient).state
      rcases done.told with same | fin | closing
      · rw [same]
        exact old
      · rw [fin]
        exact ⟨nofun, nofun⟩
      · rw [closing]
        exact ⟨nofun, nofun⟩
  · refine ⟨done.bounded, done.limit, ?_, ?_⟩
    · exact done.kept.collect.trans (opened.rcv fromClient).collect
    · have state : rcv'.state = (t.rcv fromClient).state := done.kept.state
      rw [state]
      exact (opened.rcv fromClient).state

theorem receive_opening (opening : t.Opening) (small : s.data.length < 65536) :
    receive t fromClient s = some (none, []) := by
  obtain ⟨blank, quiet⟩ := opening.rcv fromClient
  obtain ⟨snd', rcv', out, done⟩ := receive_spec t fromClient s blank.bounded small
  rw [done.receive, opening.listening, done.silent quiet]
  rfl

/-- The third packet of the handshake, for a stream in service. -/
theorem announce_open (opening : t.Opening) (service : inService t.tcp.addr = true)
    (ackSeq : UInt32) : (t.announce (inService t.tcp.addr) ackSeq).Open inService := by
  have client := opening.client.bounded
  have server := opening.server.bounded
  refine ⟨rfl, service, service, ⟨?_, ?_, ?_, nofun, nofun⟩, ⟨?_, ?_, ?_, nofun, nofun⟩⟩
  · exact ⟨⟨client.drained.sized, client.drained.unset, client.drained.read⟩, client.small,
      client.tally⟩
  · show t.client.rmemAlloc ≤ 65535
    rw [opening.client.rmemAlloc]
    decide
  · show (t.client.collect || inService t.tcp.addr) = true
    rw [service, Bool.or_true]
  · exact ⟨⟨server.drained.sized, server.drained.unset, server.drained.read⟩, server.small,
      server.tally⟩
  · show t.server.rmemAlloc ≤ 65535
    rw [opening.server.rmemAlloc]
    decide
  · show (t.server.collect || inService t.tcp.addr) = true
    rw [service, Bool.or_true]

theorem streamPacket_open (opened : t.Open inService) (small : s.data.length < 65536) :
    ∃ left calls, streamPacket inService t fromClient s = some (left, calls) ∧
      Outcome inService t fromClient left calls := by
  have stays : Outcome inService t fromClient (some t) [] :=
    .goesOn t [] opened opened rfl rfl nofun
  have announced : ¬ t.Completes fromClient s.hdr := by
    rintro ⟨-, -, state, -⟩
    exact opened.client.state.1 state
  unfold streamPacket
  split
  case isTrue => exact ⟨_, _, rfl, (synReceived_open opened s.hdr).symm ▸ stays⟩
  case isFalse =>
    split
    case isTrue => exact ⟨_, _, rfl, stays⟩
    case isFalse =>
      split
      case isTrue =>
        refine ⟨_, _, rfl, ?_⟩
        rw [if_pos opened.nidsState, Tracked.endCall, opened.listening]
        exact .ends .reset opened (Or.inr rfl)
      case isFalse =>
        split
        case isTrue => exact ⟨_, _, rfl, stays⟩
        case isFalse =>
          obtain ⟨acked, slot, tcp⟩ := acknowledge_open opened fromClient s.hdr
          simp only [announced, decide_false, Bool.false_eq_true, if_false, false_and,
            List.nil_append]
          split
          case isTrue =>
            refine ⟨_, _, rfl, ?_⟩
            rw [Tracked.endCall, acked.listening, tcp]
            exact .ends .close opened (Or.inl rfl)
          case isFalse =>
            obtain ⟨t', blocks, received, opened', slot', tcp', filled⟩ :=
              receive_open acked fromClient small
            refine ⟨_, _, by rw [received]; rfl, ?_⟩
            rw [tcp]
            exact .goesOn t' blocks opened opened' (slot'.trans slot) (tcp'.trans tcp) filled

theorem streamPacket_opening (opening : t.Opening) (small : s.data.length < 65536) :
    ∃ left calls, streamPacket inService t fromClient s = some (left, calls) ∧
      Outcome inService t fromClient left calls := by
  have stays : Outcome inService t fromClient (some t) [] := .waits t opening opening rfl rfl
  unfold streamPacket
  split
  case isTrue =>
    obtain ⟨opening', slot, tcp⟩ := synReceived_opening opening fromClient s.hdr
    exact ⟨_, _, rfl, .waits _ opening opening' slot tcp⟩
  case isFalse =>
    split
    case isTrue => exact ⟨_, _, rfl, stays⟩
    case isFalse =>
      split
      case isTrue =>
        refine ⟨_, _, rfl, ?_⟩
        rw [if_neg (by rw [opening.nidsState]; exact nofun)]
        exact .refused opening
      case isFalse =>
        split
        case isTrue => exact ⟨_, _, rfl, stays⟩
        case isFalse =>
          by_cases completes : t.Completes fromClient s.hdr
          · simp only [completes, decide_true, if_true, true_and]
            cases service : inService t.tcp.addr with
            | false => exact ⟨_, _, rfl, .passedOver opening service⟩
            | true =>
                have opened := announce_open opening service s.hdr.ackSeq
                rw [service] at opened
                obtain ⟨acked, slot, tcp⟩ := acknowledge_open opened fromClient s.hdr
                have waiting : ((t.announce true s.hdr.ackSeq).rcv fromClient).state ≠ .finSent := by
                  cases fromClient <;> exact nofun
                obtain ⟨ackSeq, ackSeq', same⟩ := acknowledge_states _ fromClient s.hdr waiting
                have closed : ¬ (acknowledge (t.announce true s.hdr.ackSeq) fromClient
                    s.hdr).Closed s.hdr := by
                  rw [same]
                  rintro ⟨-, state, -⟩
                  exact nomatch state
                obtain ⟨t', blocks, received, opened', slot', tcp', filled⟩ :=
                  receive_open acked fromClient small
                rw [if_neg (not_not_intro opened.listening), if_neg closed, received]
                refine ⟨_, _, rfl, ?_⟩
                rw [tcp]
                exact .announced t' blocks opening opened' (slot'.trans slot) (tcp'.trans tcp) filled
          · have acked := acknowledge_opening opening fromClient s.hdr
            have closed : ¬ (acknowledge t fromClient s.hdr).Closed s.hdr := by
              rintro ⟨-, state, -⟩
              rw [acked.clientState] at state
              exact nomatch state
            simp only [completes, decide_false, Bool.false_eq_true, if_false, false_and,
              List.nil_append]
            rw [if_neg closed, receive_opening acked small]
            exact ⟨_, _, rfl, .refused opening⟩

end Outcomes

end Bscope
