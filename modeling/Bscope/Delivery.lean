import Bscope.StreamTable

set_option autoImplicit false

/- A connection among any others: what the callback hears of it is what its two ends
sent, whatever became of the packets on the way. -/
namespace Bscope

open Serial Reassembly

/-- A connection: its addresses as the client has them, and for each direction the number
of the first byte and the bytes themselves. The direction is true for those of the client. -/
structure Transfer where
  addr : Tuple4
  first : Bool → UInt32
  bytes : Bool → Bytes

/-- The segment is one for `tcp_queue`. -/
def Segment.Counts (s : Segment) : Prop := s.data.length + s.hdr.fin.toNat > 0

instance (s : Segment) : Decidable s.Counts := inferInstanceAs (Decidable (_ > _))

/-- A packet of the connection carries what was sent: a SYN stands before the first byte. One
without bytes and without a FIN may stand anywhere, as the last ACK does behind the FIN of its
own side. -/
def Transfer.Sent (x : Transfer) (fromClient : Bool) (s : Segment) : Prop :=
  if s.hdr.syn then s.hdr.seq + 1 = x.first fromClient
  else s.Counts → s.Of (x.first fromClient) (x.bytes fromClient)

instance (x : Transfer) (fromClient : Bool) (s : Segment) : Decidable (x.Sent fromClient s) :=
  inferInstanceAs (Decidable (if s.hdr.syn then s.hdr.seq + 1 = x.first fromClient
    else s.Counts → s.Of (x.first fromClient) (x.bytes fromClient)))

/-- The same for any input, where it belongs to the connection. -/
def Transfer.Carries (x : Transfer) : NidsInput → Prop
  | .tcp p =>
      (p.addr = x.addr → x.Sent true p.segment) ∧ (p.addr = x.addr.reversed → x.Sent false p.segment)
  | .icmp _ => True

instance (x : Transfer) : (input : NidsInput) → Decidable (x.Carries input)
  | .tcp _ => inferInstanceAs (Decidable (_ ∧ _))
  | .icmp _ => inferInstanceAs (Decidable True)

/-- What a packet brings in one direction. -/
def Transfer.segment (x : Transfer) (fromClient : Bool) : NidsInput → Option Segment
  | .tcp p =>
      if p.addr = (if fromClient then x.addr else x.addr.reversed) ∧
          ¬ p.segment.hdr.syn ∧ p.segment.Counts then
        some p.segment
      else none
  | .icmp _ => none

def Transfer.segments (x : Transfer) (fromClient : Bool) (inputs : List NidsInput) : List Segment :=
  inputs.filterMap (x.segment fromClient)

/-- What the calls for a stream brought in one direction. -/
def dataOf (tcp : TcpStream) (fromClient : Bool) (calls : List NidsCall) : Bytes :=
  calls.flatMap fun call =>
    match call with
    | .data tcp' fromClient' bytes => if tcp' = tcp ∧ fromClient' = fromClient then bytes else []
    | _ => []

/-- A stretch from the beginning of what was sent, but for bytes that were urgent. -/
def Transfer.Tells (x : Transfer) (fromClient : Bool) (sent : List Segment) (heard : Bytes) : Prop :=
  ∃ marks : List Bool, marks.length ≤ (x.bytes fromClient).length ∧
    heard = sift marks ((x.bytes fromClient).take marks.length) ∧
    ∀ i, marks[i]? = some true → Urged (x.first fromClient) sent i

/-- A stream of the connection, with what the callback has heard of it. -/
structure Tracked.Relays (x : Transfer) (sent : Bool → List Segment) (t : Tracked)
    (heard : Bool → Bytes) : Prop where
  client : t.client.firstDataSeq = x.first true
  server : t.nidsState = .data ∨ t.server.state = .synRecv →
    t.server.firstDataSeq = x.first false
  quiet : t.nidsState = .opening → ∀ fromClient, heard fromClient = []
  gathers : t.nidsState = .data → ∀ fromClient, ∃ n, Gathers (x.first fromClient)
    (x.bytes fromClient) (sent fromClient) (t.rcv fromClient) (heard fromClient) n

section Gathering

variable {base : UInt32} {stream : Bytes} {seen : List Segment} {h : HalfStream} {out : Bytes}
  {n : Nat}

theorem Gathers.mono (gathers : Gathers base stream seen h out n) {seen' : List Segment}
    (more : seen ⊆ seen') (of : ∀ s ∈ seen', s.Of base stream) :
    Gathers base stream seen' h out n where
  of := of
  reads := by
    obtain ⟨marks, size, reads⟩ := gathers.reads
    refine ⟨marks, size, reads.mono ?_⟩
    rintro i ⟨s, member, here⟩
    exact ⟨s, more member, here⟩
  queue p member := by
    obtain ⟨s, inside, same⟩ := gathers.queue p member
    exact ⟨s, more inside, same⟩
  sorted := gathers.sorted
  tally := gathers.tally

/-- A half that sends keeps what it has received. -/
theorem Gathers.sends (gathers : Gathers base stream seen h out n) {h' : HalfStream}
    (same : h' = { h with
      state := h'.state, ackSeq := h'.ackSeq, currTs := h'.currTs, window := h'.window }) :
    Gathers base stream seen h' out n := by
  rw [same]
  refine ⟨gathers.of, ?_, gathers.queue, gathers.sorted, gathers.tally⟩
  obtain ⟨marks, size, reads⟩ := gathers.reads
  exact ⟨marks, size, ⟨reads.drained.sized, reads.drained.unset, reads.drained.read⟩, reads.collect,
    reads.inside, reads.text, reads.count, reads.urgCount, reads.marked, reads.pointer⟩

theorem Gathers.limitQueue (gathers : Gathers base stream seen h out n) :
    Gathers base stream seen (limitQueue h) out n := by
  unfold Bscope.limitQueue
  split
  · refine ⟨gathers.of, ?_, ?_, .nil, rfl⟩
    · obtain ⟨marks, size, reads⟩ := gathers.reads
      exact ⟨marks, size, reads.requeue 0 []⟩
    · intro p member
      exact absurd member List.not_mem_nil
  · exact gathers

theorem queueData_gathers {snd : HalfStream} (short : stream.length + 65536 < 2 ^ 31)
    (start : snd.firstDataSeq = base) (gathers : Gathers base stream seen h out n) {s : Segment}
    (known : s.Counts → s ∈ seen) :
    ∃ snd' rcv' new n', queueData snd h s = some (snd', rcv', new) ∧
      snd' = { snd with state := snd'.state, currTs := snd'.currTs } ∧
      rcv'.firstDataSeq = h.firstDataSeq ∧
      Gathers base stream seen rcv' (out ++ new.flatten) n' := by
  unfold queueData
  split
  case isTrue counts =>
    have member := known counts
    obtain ⟨snd', rcv', new, n', queued, done⟩ :=
      tcpQueue_queued short start gathers (gathers.of s member)
    refine ⟨snd', rcv', new, n', queued, done.sender, done.kept.firstDataSeq, ?_⟩
    apply done.gathers.mono
    · intro s' inside
      rcases List.mem_cons.mp inside with same | old
      · rw [same]
        exact member
      · exact old
    · exact gathers.of
  case isFalse =>
    refine ⟨snd, h, [], n, rfl, rfl, rfl, ?_⟩
    rw [List.flatten_nil, List.append_nil]
    exact gathers

end Gathering

section Stream

variable {inService : Tuple4 → Bool} {x : Transfer} {sent : Bool → List Segment} {t : Tracked}
  {heard : Bool → Bytes} {fromClient : Bool} {s : Segment}

@[simp] theorem dataOf_nil (tcp : TcpStream) (dir : Bool) : dataOf tcp dir [] = [] := rfl

theorem dataOf_append (tcp : TcpStream) (dir : Bool) (calls later : List NidsCall) :
    dataOf tcp dir (calls ++ later) = dataOf tcp dir calls ++ dataOf tcp dir later :=
  List.flatMap_append

theorem dataOf_blocks (tcp : TcpStream) (dir fromClient : Bool) (blocks : List Bytes) :
    dataOf tcp dir (blocks.map (NidsCall.data tcp fromClient)) =
      if fromClient = dir then blocks.flatten else [] := by
  induction blocks with
  | nil => cases decide (fromClient = dir) <;> simp
  | cons bytes blocks ih =>
      have step : dataOf tcp dir ((bytes :: blocks).map (NidsCall.data tcp fromClient)) =
          (if tcp = tcp ∧ fromClient = dir then bytes else []) ++
            dataOf tcp dir (blocks.map (NidsCall.data tcp fromClient)) := rfl
      rw [step, ih]
      by_cases same : fromClient = dir <;> simp [same]

/-- Nothing of another stream. -/
theorem dataOf_other (tcp tcp' : TcpStream) (apart : tcp' ≠ tcp) (dir fromClient : Bool)
    (blocks : List Bytes) : dataOf tcp dir (blocks.map (NidsCall.data tcp' fromClient)) = [] := by
  apply List.flatMap_eq_nil_iff.mpr
  intro call inside
  obtain ⟨bytes, -, rfl⟩ := List.mem_map.mp inside
  exact if_neg fun same => apart same.1

/-- A half that changes, with what it has heard, and the other that only sends. -/
theorem Tracked.Relays.set (relays : t.Relays x sent heard) (data : t.nidsState = .data)
    (snd rcv : HalfStream) (new : Bytes) {n : Nat}
    (same : snd = { t.snd fromClient with
      state := snd.state, ackSeq := snd.ackSeq, currTs := snd.currTs, window := snd.window })
    (start : rcv.firstDataSeq = (t.rcv fromClient).firstDataSeq)
    (gathers : Gathers (x.first fromClient) (x.bytes fromClient) (sent fromClient) rcv
      (heard fromClient ++ new) n) :
    (t.set fromClient snd rcv).Relays x sent
      fun dir => heard dir ++ if fromClient = dir then new else [] := by
  have first : snd.firstDataSeq = (t.snd fromClient).firstDataSeq := by rw [same]
  obtain ⟨n', other⟩ := relays.gathers data (!fromClient)
  cases fromClient with
  | true =>
      refine ⟨first.trans relays.client, fun _ => start.trans (relays.server (Or.inl data)), ?_, ?_⟩
      · intro opening
        exact nomatch data.symm.trans opening
      · intro _ dir
        cases dir with
        | true => exact ⟨n, gathers⟩
        | false =>
            refine ⟨n', ?_⟩
            rw [if_neg nofun, List.append_nil]
            exact other.sends same
  | false =>
      refine ⟨start.trans relays.client, fun _ => first.trans (relays.server (Or.inl data)), ?_, ?_⟩
      · intro opening
        exact nomatch data.symm.trans opening
      · intro _ dir
        cases dir with
        | false => exact ⟨n, gathers⟩
        | true =>
            refine ⟨n', ?_⟩
            rw [if_neg nofun, List.append_nil]
            exact other.sends same

theorem acknowledge_relays (fromClient : Bool) (relays : t.Relays x sent heard)
    (data : t.nidsState = .data) (hdr : TcpHdr) : (acknowledge t fromClient hdr).Relays x sent heard := by
  unfold acknowledge
  split
  case isFalse => exact relays
  case isTrue =>
    obtain ⟨n, gathers⟩ := relays.gathers data fromClient
    have rcv : ∀ rcv', rcv' = { t.rcv fromClient with state := rcv'.state } →
        (t.set fromClient (handleAck (t.snd fromClient) hdr.ackSeq) rcv').Relays x sent heard := by
      intro rcv' same
      have set := relays.set data (handleAck (t.snd fromClient) hdr.ackSeq) rcv' []
        (by rw [handleAck_same]) (by rw [same])
        (by rw [List.append_nil]; exact gathers.sends (by rw [same]))
      simpa using set
    apply rcv
    split <;> rfl

theorem Tracked.Relays.starts (relays : t.Relays x sent heard) (data : t.nidsState = .data)
    (fromClient : Bool) : (t.snd fromClient).firstDataSeq = x.first fromClient := by
  cases fromClient with
  | true => exact relays.client
  | false => exact relays.server (Or.inl data)

theorem receive_relays (short : ∀ dir, (x.bytes dir).length + 65536 < 2 ^ 31)
    (relays : t.Relays x sent heard) (data : t.nidsState = .data) (listening : t.listening = true)
    (known : s.Counts → s ∈ sent fromClient) :
    ∃ (t' : Tracked) (blocks : List Bytes), receive t fromClient s =
        some (some t', blocks.map (NidsCall.data t.tcp fromClient)) ∧
      t'.Relays x sent fun dir => heard dir ++ if fromClient = dir then blocks.flatten else [] := by
  obtain ⟨n, gathers⟩ := relays.gathers data fromClient
  obtain ⟨snd', rcv', new, n', queued, sender, start, gathers'⟩ :=
    queueData_gathers (short fromClient) (relays.starts data fromClient) gathers known
  refine ⟨t.set fromClient { snd' with window := s.hdr.win } (limitQueue rcv'), new, ?_, ?_⟩
  · simp only [receive, queued, Option.bind_eq_bind, Option.bind_some, listening, if_true]
    rfl
  · apply relays.set data
    · rw [sender]
    · rw [limitQueue_requeue]
      exact start
    · exact gathers'.limitQueue

/-- An announced stream relays from its beginning. -/
theorem announce_relays (opening : t.Opening) (relays : t.Relays x sent heard)
    (received : t.server.state = .synRecv) (of : ∀ dir, ∀ s ∈ sent dir, s.Of (x.first dir) (x.bytes dir))
    (ackSeq : UInt32) : (t.announce true ackSeq).Relays x sent heard := by
  refine ⟨relays.client, fun _ => relays.server (Or.inr received), nofun, ?_⟩
  intro _ dir
  have quiet := relays.quiet opening.nidsState dir
  rw [quiet]
  refine ⟨0, ?_⟩
  cases dir with
  | true =>
      have blank : (t.announce true ackSeq).server.Blank :=
        ⟨opening.server.data, opening.server.bufsize, opening.server.offset, opening.server.count,
          opening.server.urgCount, opening.server.urgSeen, opening.server.rmemAlloc,
          opening.server.list⟩
      exact (blank.gathers (Bool.or_true _)).mono (List.nil_subset _) (of true)
  | false =>
      have blank : (t.announce true ackSeq).client.Blank :=
        ⟨opening.client.data, opening.client.bufsize, opening.client.offset, opening.client.count,
          opening.client.urgCount, opening.client.urgSeen, opening.client.rmemAlloc,
          opening.client.list⟩
      exact (blank.gathers (Bool.or_true _)).mono (List.nil_subset _) (of false)

/-- The answer to the first packet says where the server's bytes begin. -/
theorem synReceived_relays (opening : t.Opening) (relays : t.Relays x sent heard)
    (number : s.hdr.seq + 1 = x.first fromClient) :
    (synReceived t fromClient s.hdr).Relays x sent heard := by
  unfold synReceived
  split
  case isTrue => exact relays
  case isFalse answer =>
    split
    case isTrue => exact relays
    case isFalse =>
      have server : fromClient = false := by
        rw [Bool.eq_false_iff]
        exact fun client => answer (Or.inl client)
      refine ⟨relays.client, ?_, relays.quiet, ?_⟩
      · intro _
        rw [server] at number
        exact number
      · intro data
        exact nomatch opening.nidsState.symm.trans data

/-- The last part of `process_tcp` on an announced stream. -/
theorem acknowledged_relays (short : ∀ dir, (x.bytes dir).length + 65536 < 2 ^ 31)
    (opened : t.Open inService) (relays : t.Relays x sent heard) (known : s.Counts → s ∈ sent fromClient)
    {t' : Tracked} {later : List NidsCall}
    (done : receive (acknowledge t fromClient s.hdr) fromClient s = some (some t', later)) :
    t'.Relays x sent fun dir => heard dir ++ dataOf t.tcp dir later := by
  obtain ⟨acked, slot, tcp⟩ := acknowledge_open opened fromClient s.hdr
  have relays₁ := acknowledge_relays fromClient relays opened.nidsState s.hdr
  obtain ⟨t'', blocks, received, relays'⟩ :=
    receive_relays short relays₁ acked.nidsState acked.listening known
  rw [received] at done
  cases done
  rw [tcp]
  simp only [dataOf_blocks]
  exact relays'

/-- What a packet of the connection does to its stream, if that is still tracked behind it. -/
theorem streamPacket_relays (short : ∀ dir, (x.bytes dir).length + 65536 < 2 ^ 31)
    (of : ∀ dir, ∀ s ∈ sent dir, s.Of (x.first dir) (x.bytes dir))
    (phase : t.Opening ∨ t.Open inService) (relays : t.Relays x sent heard)
    (carries : x.Sent fromClient s) (small : s.data.length < 65536)
    (known : ¬ s.hdr.syn → s.Counts → s ∈ sent fromClient) {t' : Tracked}
    {calls : List NidsCall}
    (done : streamPacket inService t fromClient s = some (some t', calls)) :
    t'.Relays x sent fun dir => heard dir ++ dataOf t.tcp dir calls := by
  have same : t.Relays x sent fun dir => heard dir ++ dataOf t.tcp dir [] := by
    simpa using relays
  unfold streamPacket at done
  split at done
  case isTrue syn =>
    cases done
    rcases phase with opening | opened
    · have number := carries
      rw [Transfer.Sent, if_pos syn] at number
      simpa using synReceived_relays opening relays number
    · rw [synReceived_open opened]
      exact same
  case isFalse syn =>
    split at done
    case isTrue =>
      cases done
      exact same
    case isFalse =>
      split at done
      case isTrue => exact nomatch done
      case isFalse =>
        split at done
        case isTrue =>
          cases done
          exact same
        case isFalse =>
          rcases phase with opening | opened
          · by_cases completes : t.Completes fromClient s.hdr
            · simp only [completes, decide_true, if_true, true_and] at done
              cases service : inService t.tcp.addr with
              | false =>
                  rw [service] at done
                  exact nomatch done
              | true =>
                  have opened := announce_open opening service s.hdr.ackSeq
                  have relays₁ :=
                    announce_relays opening relays completes.2.2.2.1 of s.hdr.ackSeq
                  rw [service] at opened done
                  rw [if_neg (not_not_intro opened.listening)] at done
                  split at done
                  case isTrue => exact nomatch done
                  case isFalse =>
                    obtain ⟨⟨left, later⟩, received, same'⟩ := Option.map_eq_some_iff.mp done
                    cases same'
                    show t'.Relays x sent fun dir => heard dir ++ dataOf t.tcp dir later
                    exact acknowledged_relays short opened relays₁ (known syn) received
            · have acked := acknowledge_opening opening fromClient s.hdr
              simp only [completes, decide_false, Bool.false_eq_true, if_false, false_and] at done
              split at done
              case isTrue => exact nomatch done
              case isFalse =>
                rw [receive_opening acked small] at done
                exact nomatch done
          · have announced : ¬ t.Completes fromClient s.hdr := by
              rintro ⟨-, -, state, -⟩
              exact opened.client.state.1 state
            simp only [announced, decide_false, Bool.false_eq_true, if_false, false_and,
              List.nil_append] at done
            split at done
            case isTrue => exact nomatch done
            case isFalse =>
              obtain ⟨⟨left, later⟩, received, same'⟩ := Option.map_eq_some_iff.mp done
              cases same'
              exact acknowledged_relays short opened relays (known syn) received

end Stream

section Outcomes

variable {inService : Tuple4 → Bool} {t : Tracked} {fromClient : Bool} {left : Option Tracked}
  {calls : List NidsCall} (outcome : Outcome inService t fromClient left calls)
include outcome

theorem Outcome.other {tcp : TcpStream} (apart : t.tcp ≠ tcp) (dir : Bool) :
    dataOf tcp dir calls = [] := by
  cases outcome with
  | waits => rfl
  | refused => rfl
  | passedOver => rfl
  | announced t' blocks => exact dataOf_other tcp t.tcp apart dir fromClient blocks
  | goesOn t' blocks => exact dataOf_other tcp t.tcp apart dir fromClient blocks
  | ends => rfl

theorem Outcome.gone (none : left = none) (tcp : TcpStream) (dir : Bool) :
    dataOf tcp dir calls = [] := by
  cases outcome with
  | waits => rfl
  | refused => rfl
  | passedOver => rfl
  | announced => exact nomatch none
  | goesOn => exact nomatch none
  | ends => rfl

theorem Outcome.kept {t' : Tracked} (some : left = some t') :
    t'.slot = t.slot ∧ t'.tcp = t.tcp ∧ (t'.Opening ∨ t'.Open inService) := by
  cases outcome with
  | waits t₁ _ opening slot tcp =>
      cases some
      exact ⟨slot, tcp, Or.inl opening⟩
  | announced t₁ _ _ opened slot tcp =>
      cases some
      exact ⟨slot, tcp, Or.inr opened⟩
  | goesOn t₁ _ _ opened slot tcp =>
      cases some
      exact ⟨slot, tcp, Or.inr opened⟩
  | refused => exact nomatch some
  | passedOver => exact nomatch some
  | ends => exact nomatch some

end Outcomes

/-- What the callback has heard of the connection, between two packets. -/
structure Nids.Relays (x : Transfer) (sent : Bool → List Segment) (m : Nids)
    (calls : List NidsCall) : Prop where
  tracked : ∀ t ∈ m.streams, t.tcp.addr = x.addr →
    t.Relays x sent fun dir => dataOf t.tcp dir calls
  told : ∀ tcp : TcpStream, tcp.addr = x.addr → ∀ dir,
    x.Tells dir (sent dir) (dataOf tcp dir calls)
  unborn : ∀ tcp : TcpStream, m.created ≤ tcp.id → ∀ dir, dataOf tcp dir calls = []

section Table

variable {inService : Tuple4 → Bool} {maxStream : Nat} {x : Transfer}
  {sent : Bool → List Segment} {m : Nids} {calls : List NidsCall}

theorem tells_nothing (x : Transfer) (dir : Bool) (segments : List Segment) :
    x.Tells dir segments [] :=
  ⟨[], Nat.zero_le _, rfl, nofun⟩

theorem Tracked.Relays.tells {t : Tracked} {heard : Bool → Bytes}
    (relays : t.Relays x sent heard) (phase : t.Opening ∨ t.Open inService) (dir : Bool) :
    x.Tells dir (sent dir) (heard dir) := by
  rcases phase with opening | opened
  · rw [relays.quiet opening.nidsState dir]
    exact tells_nothing x dir (sent dir)
  · obtain ⟨n, gathers⟩ := relays.gathers opened.nidsState dir
    obtain ⟨marks, -, reads⟩ := gathers.reads
    exact ⟨marks, reads.inside, reads.text, reads.marked⟩

/-- What brings no data and no stream of the connection. -/
theorem Nids.Relays.silent (relays : m.Relays x sent calls) {m' : Nids} {new : List NidsCall}
    (quiet : ∀ tcp dir, dataOf tcp dir new = []) (created : m.created ≤ m'.created)
    (tracked : ∀ t ∈ m'.streams, t.tcp.addr = x.addr →
      t.Relays x sent fun dir => dataOf t.tcp dir calls) : m'.Relays x sent (calls ++ new) := by
  have same : ∀ tcp dir, dataOf tcp dir (calls ++ new) = dataOf tcp dir calls := by
    intro tcp dir
    rw [dataOf_append, quiet, List.append_nil]
  refine ⟨?_, ?_, ?_⟩
  · intro t member here
    simp only [same]
    exact tracked t member here
  · intro tcp here dir
    rw [same]
    exact relays.told tcp here dir
  · intro tcp late dir
    rw [same]
    exact relays.unborn tcp (Nat.le_trans created late) dir

theorem endCall_quiet (t : Tracked) (type : CloseType) (tcp : TcpStream) (dir : Bool) :
    dataOf tcp dir (t.endCall type) = [] := by
  unfold Tracked.endCall
  split <;> rfl

/-- A packet of a stream that is tracked. -/
theorem settle_relays (short : ∀ dir, (x.bytes dir).length + 65536 < 2 ^ 31)
    (of : ∀ dir, ∀ s ∈ sent dir, s.Of (x.first dir) (x.bytes dir))
    (valid : m.Valid inService maxStream) (relays : m.Relays x sent calls) {t : Tracked}
    (member : t ∈ m.streams) {fromClient : Bool} {s : Segment}
    (carries : t.tcp.addr = x.addr → x.Sent fromClient s ∧ (¬ s.hdr.syn → s.Counts → s ∈ sent fromClient))
    (small : s.data.length < 65536) {left : Option Tracked} {new : List NidsCall}
    (done : streamPacket inService t fromClient s = some (left, new))
    (outcome : Outcome inService t fromClient left new) :
    (m.settle t left).Relays x sent (calls ++ new) := by
  cases left with
  | none =>
      apply relays.silent (outcome.gone rfl)
      · exact Nat.le_refl m.created
      · intro other inside
        exact relays.tracked other (List.mem_of_mem_filter inside)
  | some t' =>
      obtain ⟨slot, tcp, phase'⟩ := outcome.kept rfl
      have here : t.tcp.addr = x.addr →
          t'.Relays x sent fun dir => dataOf t.tcp dir (calls ++ new) := by
        intro here
        obtain ⟨carries, member'⟩ := carries here
        simp only [dataOf_append]
        exact streamPacket_relays short of (valid.each t member) (relays.tracked t member here)
          carries small member' done
      refine ⟨?_, ?_, ?_⟩
      · intro other inside addr
        rcases List.mem_cons.mp ((settle_split valid member t').mem_iff.mp inside) with same | old
        · rw [same] at addr ⊢
          rw [tcp] at addr ⊢
          exact here addr
        · have apart : t.tcp ≠ other.tcp := by
            intro same
            have distinct := ((split_slot valid.slots member).map Tracked.tcp).pairwise_iff
              (R := fun a b : TcpStream => a.id ≠ b.id) (fun apart => Ne.symm apart)
            have apart := (List.pairwise_cons.mp (distinct.mp valid.distinct)).1
            exact apart other.tcp (List.mem_map_of_mem old) (by rw [same])
          simp only [dataOf_append, outcome.other apart, List.append_nil]
          exact relays.tracked other (List.mem_of_mem_filter old) addr
      · intro tcp' addr dir
        by_cases same : t.tcp = tcp'
        · rw [← same] at addr ⊢
          exact (here addr).tells phase' dir
        · rw [dataOf_append, outcome.other same, List.append_nil]
          exact relays.told tcp' addr dir
      · intro tcp' late dir
        have apart : t.tcp ≠ tcp' := by
          intro same
          have less := valid.numbered t.tcp (List.mem_map_of_mem member)
          rw [same] at less
          exact Nat.lt_irrefl _ (Nat.lt_of_lt_of_le less late)
        rw [dataOf_append, outcome.other apart, List.append_nil]
        exact relays.unborn tcp' late dir

theorem giveUpOldest_relays (relays : m.Relays x sent calls) {m' : Nids} {new : List NidsCall}
    (done : giveUpOldest maxStream m = some (m', new)) : m'.Relays x sent (calls ++ new) := by
  unfold giveUpOldest at done
  split at done
  case isFalse =>
    cases done
    exact relays.silent (fun _ _ => rfl) (Nat.le_refl m.created) relays.tracked
  case isTrue =>
    obtain ⟨oldest, -, same⟩ := Option.map_eq_some_iff.mp done
    cases same
    apply relays.silent (endCall_quiet oldest .timedOut)
    · exact Nat.le_refl m.created
    · intro t inside
      exact relays.tracked t (List.mem_of_mem_filter inside)

/-- The first packet of a stream says where the client's bytes begin. -/
theorem takeFree_relays (relays : m.Relays x sent calls) {p : Packet}
    (number : p.addr = x.addr → p.segment.hdr.seq + 1 = x.first true) {m' : Nids}
    (done : takeFree m p = some m') : m'.Relays x sent calls := by
  unfold takeFree at done
  split at done
  case h_1 => exact nomatch done
  case h_2 slot rest place =>
    cases done
    rw [← List.append_nil calls]
    apply relays.silent (fun _ _ => rfl)
    · exact Nat.le_succ m.created
    · intro t inside here
      rcases List.mem_cons.mp inside with new | old
      · rw [new] at here ⊢
        refine ⟨number here, ?_, ?_, nofun⟩
        · rintro (data | received)
          · exact nomatch data
          · exact nomatch received
        · intro _ dir
          exact relays.unborn ⟨m.created, p.addr⟩ (Nat.le_refl m.created) dir
      · exact relays.tracked t old here

theorem processIcmp_relays (relays : m.Relays x sent calls) (e : Unreachable) :
    (processIcmp m e).1.Relays x sent (calls ++ (processIcmp m e).2) := by
  have same : m.Relays x sent (calls ++ []) :=
    relays.silent (fun _ _ => rfl) (Nat.le_refl m.created) relays.tracked
  unfold processIcmp
  dsimp only
  split
  case isTrue => exact same
  case isFalse =>
    split
    case h_1 => exact same
    case h_2 t _ _ =>
      generalize (if t.tcp.addr.dest.toUInt32 = e.dst then t.server else t.client) = hlf
      split
      case isTrue => exact same
      case isFalse =>
        apply relays.silent (endCall_quiet t .reset)
        · exact Nat.le_refl m.created
        · intro other inside
          exact relays.tracked other (List.mem_of_mem_filter inside)

/-- One packet of any connection. -/
theorem nidsStep_relays (short : ∀ dir, (x.bytes dir).length + 65536 < 2 ^ 31)
    (of : ∀ dir, ∀ s ∈ sent dir, s.Of (x.first dir) (x.bytes dir))
    (valid : m.Valid inService maxStream) (relays : m.Relays x sent calls) {input : NidsInput}
    (small : input.Small) (carries : x.Carries input)
    (known : ∀ dir, ∀ s ∈ x.segment dir input, s ∈ sent dir) {m' : Nids} {new : List NidsCall}
    (done : nidsStep inService maxStream m input = some (m', new)) :
    m'.Relays x sent (calls ++ new) := by
  cases input with
  | icmp e =>
      have same := processIcmp_relays relays e
      rw [Option.some.inj done] at same
      exact same
  | tcp p =>
      change processTcp inService maxStream m p = _ at done
      unfold processTcp at done
      split at done
      case h_1 =>
        dsimp only at done
        split at done
        case isFalse =>
          cases done
          exact relays.silent (fun _ _ => rfl) (Nat.le_refl m.created) relays.tracked
        case isTrue first =>
          obtain ⟨⟨m₁, new₁⟩, gave, rest⟩ := Option.bind_eq_some_iff.mp done
          obtain ⟨m₂, took, same⟩ := Option.bind_eq_some_iff.mp rest
          cases same
          apply takeFree_relays (giveUpOldest_relays relays gave) (p := p)
          · intro here
            have number := carries.1 here
            rw [Transfer.Sent, if_pos first.1] at number
            exact number
          · exact took
      case h_2 t fromClient found =>
        obtain ⟨⟨left, new'⟩, packet, same⟩ := Option.map_eq_some_iff.mp done
        cases same
        obtain ⟨member, addr⟩ := findStream_some found
        have outcome : Outcome inService t fromClient left new' := by
          rcases valid.each t member with opening | opened
          · obtain ⟨_, _, packet', outcome⟩ := streamPacket_opening opening small
            cases packet.symm.trans packet'
            exact outcome
          · obtain ⟨_, _, packet', outcome⟩ := streamPacket_open opened small
            cases packet.symm.trans packet'
            exact outcome
        apply settle_relays short of valid relays member _ small packet outcome
        intro here
        rw [addr] at here
        have way : p.addr = if fromClient then x.addr else x.addr.reversed := by
          cases fromClient with
          | true => exact here
          | false =>
              rw [← here]
              exact (Tuple4.reversed_reversed p.addr).symm
        refine ⟨?_, ?_⟩
        · cases fromClient with
          | true => exact carries.1 way
          | false => exact carries.2 way
        · intro data counts
          apply known
          exact if_pos ⟨way, data, counts⟩

theorem nidsRun_relays (short : ∀ dir, (x.bytes dir).length + 65536 < 2 ^ 31)
    (of : ∀ dir, ∀ s ∈ sent dir, s.Of (x.first dir) (x.bytes dir)) (inputs : List NidsInput) :
    ∀ (m : Nids) (calls : List NidsCall), m.Valid inService maxStream → m.Relays x sent calls →
      (∀ input ∈ inputs, input.Small) → (∀ input ∈ inputs, x.Carries input) →
      (∀ input ∈ inputs, ∀ dir, ∀ s ∈ x.segment dir input, s ∈ sent dir) →
      ∃ m' new, nidsRun inService maxStream m inputs = some (m', new) ∧
        m'.Relays x sent (calls ++ new) := by
  induction inputs with
  | nil =>
      intro m calls _ relays _ _ _
      refine ⟨m, [], rfl, ?_⟩
      rw [List.append_nil]
      exact relays
  | cons input rest ih =>
      intro m calls valid relays small carries known
      obtain ⟨m₁, new, done, moves⟩ := nidsStep_moves valid input (small input List.mem_cons_self)
      have relays₁ := nidsStep_relays short of valid relays (small input List.mem_cons_self)
        (carries input List.mem_cons_self) (known input List.mem_cons_self) done
      obtain ⟨m₂, later, done', relays₂⟩ := ih m₁ (calls ++ new) (moves.valid valid) relays₁
        (fun other inside => small other (List.mem_cons_of_mem input inside))
        (fun other inside => carries other (List.mem_cons_of_mem input inside))
        (fun other inside => known other (List.mem_cons_of_mem input inside))
      refine ⟨m₂, new ++ later, ?_, ?_⟩
      · simp only [nidsRun, done, done', Option.bind_eq_bind, Option.bind_some]
        rfl
      · rw [← List.append_assoc]
        exact relays₂

/-- Without an urgent pointer nothing is missing. -/
theorem Transfer.Tells.whole {dir : Bool} {segments : List Segment} {heard : Bytes}
    (tells : x.Tells dir segments heard) (plain : ∀ s ∈ segments, s.hdr.urg = false) :
    heard <+: x.bytes dir := by
  obtain ⟨marks, inside, text, marked⟩ := tells
  have unmarked : true ∉ marks := by
    intro member
    obtain ⟨i, here⟩ := List.getElem?_of_mem member
    obtain ⟨s, sent, urgent, -⟩ := marked i here
    rw [plain s sent] at urgent
    exact nomatch urgent
  rw [text, sift_unmarked marks _ (by rw [List.length_take, Nat.min_eq_left inside]) unmarked]
  exact List.take_prefix ..

end Table

/-- Packets may be lost, repeated, cut in another way, come in any order and among those
of any other connections: what the callback hears for a stream of this connection is a
stretch from the beginning of what was sent, with nothing but urgent bytes left out. -/
theorem nidsRun_tells (inService : Tuple4 → Bool) (maxStream : Nat) (x : Transfer)
    (short : ∀ dir, (x.bytes dir).length + 65536 < 2 ^ 31) (inputs : List NidsInput)
    (small : ∀ input ∈ inputs, input.Small) (carries : ∀ input ∈ inputs, x.Carries input) :
    ∃ m calls, nidsRun inService maxStream (tcpInit maxStream) inputs = some (m, calls) ∧
      ∀ tcp : TcpStream, tcp.addr = x.addr → ∀ dir,
        x.Tells dir (x.segments dir inputs) (dataOf tcp dir calls) ∧
          ((∀ s ∈ x.segments dir inputs, s.hdr.urg = false) →
            dataOf tcp dir calls <+: x.bytes dir) := by
  have of : ∀ dir, ∀ s ∈ x.segments dir inputs, s.Of (x.first dir) (x.bytes dir) := by
    intro dir s sent
    obtain ⟨input, inside, way⟩ := List.mem_filterMap.mp sent
    cases input with
    | icmp e => exact nomatch way
    | tcp p =>
        obtain ⟨⟨addr, data, counts⟩, same⟩ := Option.ite_none_right_eq_some.mp way
        cases same
        have carried := carries _ inside
        have sent : x.Sent dir p.segment := by
          cases dir with
          | true => exact carried.1 addr
          | false => exact carried.2 addr
        rw [Transfer.Sent, if_neg data] at sent
        exact sent counts
  have known : ∀ input ∈ inputs, ∀ dir, ∀ s ∈ x.segment dir input, s ∈ x.segments dir inputs :=
    fun input inside dir s way => List.mem_filterMap.mpr ⟨input, inside, way⟩
  have initial : (tcpInit maxStream).Relays x (fun dir => x.segments dir inputs) [] :=
    ⟨fun t member => absurd member List.not_mem_nil, fun _ _ dir => tells_nothing x dir _,
      fun _ _ _ => rfl⟩
  obtain ⟨m, calls, done, relays⟩ := nidsRun_relays short of inputs (tcpInit maxStream) []
    (tcpInit_valid inService maxStream) initial small carries known
  refine ⟨m, calls, done, ?_⟩
  intro tcp here dir
  have tells := relays.told tcp here dir
  exact ⟨tells, tells.whole⟩

/-- Four bytes across the end of the numbers, and one back. -/
def localTransfer : Transfer where
  addr := ⟨40000, 80, 2130706433, 2130706434⟩
  first fromClient := if fromClient then 4294967294 else 1000
  bytes fromClient := if fromClient then [71, 69, 84, 32] else [10]

/-- A handshake, the end of the request before its beginning, and the answer. Both sides
close in order: the last ACKs stand behind the FIN of their own side. -/
def localExchange : List NidsInput :=
  localHandshake ++
    [localPacket true 0 1000 false false true [84, 32],
      localPacket true 4294967294 1000 false false true [71, 69, 84],
      localPacket false 1000 2 false false true [10],
      localPacket true 2 1001 true false true [],
      localPacket false 1001 3 true false true [],
      localPacket true 3 1002 false false true [],
      localPacket false 1002 3 false false true []]

theorem nidsRun_tells_local :
    ∃ m calls, nidsRun (fun _ => true) 3 (tcpInit 3) localExchange = some (m, calls) ∧
      dataOf ⟨0, localTransfer.addr⟩ true calls <+: [71, 69, 84, 32] ∧
      dataOf ⟨0, localTransfer.addr⟩ false calls <+: [10] := by
  obtain ⟨m, calls, done, tells⟩ := nidsRun_tells (fun _ => true) 3 localTransfer (by decide)
    localExchange (by decide +kernel) (by decide +kernel)
  exact ⟨m, calls, done, (tells ⟨0, localTransfer.addr⟩ rfl true).2 (by decide +kernel),
    (tells ⟨0, localTransfer.addr⟩ rfl false).2 (by decide +kernel)⟩

end Bscope
