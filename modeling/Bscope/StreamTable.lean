import Bscope.StreamStep
import Mathlib.Data.List.Perm.Basic
import Mathlib.Data.List.Nodup

set_option autoImplicit false

/- The table of streams over any run of packets: the pool is never empty when a place is
needed, no two streams could take the same packet, and what is queued is bounded. -/
namespace Bscope

/-- What holds of the table between two packets. -/
structure Nids.Valid (inService : Tuple4 → Bool) (maxStream : Nat) (m : Nids) : Prop where
  tcpNum : m.tcpNum = m.streams.length
  pool : (m.streams.map Tracked.slot ++ m.freeStreams).Perm (List.range (maxStream + 1))
  each : ∀ t ∈ m.streams, t.Opening ∨ t.Open inService
  apart : (m.streams.map Tracked.tcp).Pairwise fun a b =>
    a.addr ≠ b.addr ∧ a.addr ≠ b.addr.reversed
  numbered : ∀ tcp ∈ m.streams.map Tracked.tcp, tcp.id < m.created
  distinct : (m.streams.map Tracked.tcp).Pairwise fun a b => a.id ≠ b.id

theorem tcpInit_valid (inService : Tuple4 → Bool) (maxStream : Nat) :
    (tcpInit maxStream).Valid inService maxStream := by
  unfold tcpInit
  refine ⟨rfl, ?_, ?_, .nil, ?_, .nil⟩
  · rw [List.map_nil, List.nil_append]
  · intro t inside
    exact absurd inside List.not_mem_nil
  · intro tcp inside
    exact absurd inside List.not_mem_nil

section Table

variable {inService : Tuple4 → Bool} {maxStream : Nat} {m : Nids} {t : Tracked}

theorem Nids.Valid.slots (valid : m.Valid inService maxStream) :
    (m.streams.map Tracked.slot).Nodup :=
  (valid.pool.nodup_iff.mpr List.nodup_range).of_append_left

theorem Nids.Valid.room (valid : m.Valid inService maxStream) :
    m.tcpNum + m.freeStreams.length = maxStream + 1 := by
  have length := valid.pool.length_eq
  rw [List.length_append, List.length_map, List.length_range] at length
  rw [valid.tcpNum]
  exact length

/-- A stream of the table and the others. -/
theorem split_slot {streams : List Tracked} (slots : (streams.map Tracked.slot).Nodup)
    (member : t ∈ streams) :
    streams.Perm (t :: streams.filter fun other => other.slot ≠ t.slot) := by
  induction streams with
  | nil => exact absurd member List.not_mem_nil
  | cons head rest ih =>
      rw [List.map_cons, List.nodup_cons] at slots
      rcases List.mem_cons.mp member with same | later
      · have others : rest.filter (fun other => other.slot ≠ t.slot) = rest := by
          apply List.filter_eq_self.mpr
          intro other inside
          rw [decide_eq_true_iff]
          intro same'
          apply slots.1
          rw [← same, ← same']
          exact List.mem_map_of_mem inside
        rw [List.filter_cons, ← same, if_neg (by simp), others]
      · have apart : head.slot ≠ t.slot := by
          intro same
          apply slots.1
          rw [same]
          exact List.mem_map_of_mem later
        rw [List.filter_cons, if_pos (by simpa using apart)]
        exact ((ih slots.2 later).cons head).trans (.swap ..)

theorem nidsFreeTcpStream_valid (valid : m.Valid inService maxStream) (member : t ∈ m.streams) :
    (nidsFreeTcpStream m t).Valid inService maxStream := by
  have split := split_slot valid.slots member
  have sub : (m.streams.filter fun other => other.slot ≠ t.slot).Sublist m.streams :=
    List.filter_sublist
  have sub' := sub.map Tracked.tcp
  refine ⟨?_, ?_, ?_, valid.apart.sublist sub', ?_, valid.distinct.sublist sub'⟩
  · have length := split.length_eq
    rw [List.length_cons] at length
    show m.tcpNum - 1 = (m.streams.filter fun other => other.slot ≠ t.slot).length
    rw [valid.tcpNum, length]
    rfl
  · have slots := (split.map Tracked.slot).append_right m.freeStreams
    rw [List.map_cons, List.cons_append] at slots
    exact (List.perm_middle.trans slots.symm).trans valid.pool
  · intro other inside
    exact valid.each other (sub.subset inside)
  · intro tcp inside
    exact valid.numbered tcp (sub'.subset inside)

/-- The stream that a packet changed, and those it did not. -/
theorem settle_split (valid : m.Valid inService maxStream) (member : t ∈ m.streams) (t' : Tracked) :
    (m.settle t (some t')).streams.Perm (t' :: (nidsFreeTcpStream m t).streams) := by
  have split := (split_slot valid.slots member).map
    fun other => if other.slot = t.slot then t' else other
  refine split.trans ?_
  rw [List.map_cons, if_pos rfl]
  have others : ((m.streams.filter fun other => other.slot ≠ t.slot).map
      fun other => if other.slot = t.slot then t' else other) =
      m.streams.filter fun other => other.slot ≠ t.slot := by
    conv => rhs; rw [← List.map_id (m.streams.filter fun other => other.slot ≠ t.slot)]
    apply List.map_congr_left
    intro other inside
    have apart := of_decide_eq_true (List.mem_filter.mp inside).2
    rw [if_neg apart]
    rfl
  rw [others]
  exact .refl _

/-- The table keeps the places and the names of its streams when one of them changes. -/
theorem settle_maps {β : Type} (view : Tracked → β) (m : Nids) (t t' : Tracked)
    (slots : (m.streams.map Tracked.slot).Nodup) (member : t ∈ m.streams)
    (same : view t' = view t) : (m.settle t (some t')).streams.map view = m.streams.map view := by
  show (m.streams.map fun other => if other.slot = t.slot then t' else other).map view = _
  rw [List.map_map]
  apply List.map_congr_left
  intro other inside
  show view (if other.slot = t.slot then t' else other) = view other
  split
  case isTrue slot =>
    rw [List.inj_on_of_nodup_map slots inside member slot, same]
  case isFalse => rfl

theorem settle_valid (valid : m.Valid inService maxStream) (member : t ∈ m.streams)
    {left : Option Tracked} {fromClient : Bool} {calls : List NidsCall}
    (outcome : Outcome inService t fromClient left calls) :
    (m.settle t left).Valid inService maxStream := by
  have changed : ∀ t' : Tracked, t'.slot = t.slot → t'.tcp = t.tcp →
      (t'.Opening ∨ t'.Open inService) → (m.settle t (some t')).Valid inService maxStream := by
    intro t' slot tcp phase
    have slots := settle_maps Tracked.slot m t t' valid.slots member slot
    have tcps := settle_maps Tracked.tcp m t t' valid.slots member tcp
    refine ⟨?_, ?_, ?_, ?_, ?_, ?_⟩
    · show m.tcpNum = _
      rw [valid.tcpNum, ← List.length_map Tracked.slot, ← slots, List.length_map]
    · rw [slots]
      exact valid.pool
    · intro other inside
      obtain ⟨before, inside', rfl⟩ := List.mem_map.mp inside
      split
      · exact phase
      · exact valid.each before inside'
    · rw [tcps]
      exact valid.apart
    · rw [tcps]
      exact valid.numbered
    · rw [tcps]
      exact valid.distinct
  cases outcome with
  | waits t' _ opening slot tcp => exact changed t' slot tcp (Or.inl opening)
  | refused => exact nidsFreeTcpStream_valid valid member
  | passedOver => exact nidsFreeTcpStream_valid valid member
  | announced t' _ _ opened slot tcp => exact changed t' slot tcp (Or.inr opened)
  | goesOn t' _ _ opened slot tcp => exact changed t' slot tcp (Or.inr opened)
  | ends => exact nidsFreeTcpStream_valid valid member

/-- A new stream takes a free place, and no stream that is there takes its packets. -/
theorem entered_valid (valid : m.Valid inService maxStream) (opening : t.Opening)
    (rest : List Nat) (place : m.freeStreams = t.slot :: rest) (new : t.tcp.id = m.created)
    (apart : ∀ other ∈ m.streams,
      t.tcp.addr ≠ other.tcp.addr ∧ t.tcp.addr ≠ other.tcp.addr.reversed) :
    Nids.Valid inService maxStream ⟨t :: m.streams, m.tcpNum + 1, rest, m.created + 1⟩ := by
  refine ⟨?_, ?_, ?_, ?_, ?_, ?_⟩
  · rw [List.length_cons, valid.tcpNum]
  · have pool := valid.pool
    rw [place] at pool
    exact List.perm_middle.symm.trans pool
  · intro other inside
    rcases List.mem_cons.mp inside with same | old
    · rw [same]
      exact Or.inl opening
    · exact valid.each other old
  · rw [List.map_cons, List.pairwise_cons]
    refine ⟨?_, valid.apart⟩
    intro tcp inside
    obtain ⟨other, inside', same⟩ := List.mem_map.mp inside
    rw [← same]
    exact apart other inside'
  · rw [List.map_cons]
    intro tcp inside
    rcases List.mem_cons.mp inside with same | old
    · rw [same, new]
      exact Nat.lt_succ_self m.created
    · exact Nat.lt_succ_of_lt (valid.numbered tcp old)
  · rw [List.map_cons, List.pairwise_cons]
    refine ⟨?_, valid.distinct⟩
    intro tcp inside same
    have less := valid.numbered tcp inside
    rw [← same, new] at less
    exact Nat.lt_irrefl _ less

end Table

/-- One thing that happens to the table. -/
inductive Move (inService : Tuple4 → Bool) : Nids → Nids → List NidsCall → Prop
  | freed (m : Nids) (t : Tracked) (type : CloseType) : t ∈ m.streams → type ≠ .success →
      Move inService m (nidsFreeTcpStream m t) (t.endCall type)
  | entered (m : Nids) (t : Tracked) (rest : List Nat) : t.Opening →
      m.freeStreams = t.slot :: rest → t.tcp.id = m.created →
      (∀ other ∈ m.streams,
        t.tcp.addr ≠ other.tcp.addr ∧ t.tcp.addr ≠ other.tcp.addr.reversed) →
      Move inService m ⟨t :: m.streams, m.tcpNum + 1, rest, m.created + 1⟩ []
  | settled (m : Nids) (t : Tracked) (fromClient : Bool) (left : Option Tracked)
      (calls : List NidsCall) : t ∈ m.streams → Outcome inService t fromClient left calls →
      Move inService m (m.settle t left) calls

inductive Moves (inService : Tuple4 → Bool) : Nids → Nids → List NidsCall → Prop
  | rest (m : Nids) : Moves inService m m []
  | step (m mid m' : Nids) (calls later : List NidsCall) : Move inService m mid calls →
      Moves inService mid m' later → Moves inService m m' (calls ++ later)

section Runs

variable {inService : Tuple4 → Bool} {maxStream : Nat} {m m' : Nids} {calls : List NidsCall}

theorem Move.valid (move : Move inService m m' calls) (valid : m.Valid inService maxStream) :
    m'.Valid inService maxStream := by
  cases move with
  | freed t _ member => exact nidsFreeTcpStream_valid valid member
  | entered t rest opening place new apart => exact entered_valid valid opening rest place new apart
  | settled t fromClient left calls member outcome => exact settle_valid valid member outcome

theorem Move.moves (move : Move inService m m' calls) : Moves inService m m' calls := by
  have once := Moves.step m m' m' calls [] move (.rest m')
  rw [List.append_nil] at once
  exact once

theorem Moves.trans {m'' : Nids} {later : List NidsCall} (moves : Moves inService m m' calls)
    (moves' : Moves inService m' m'' later) : Moves inService m m'' (calls ++ later) := by
  induction moves with
  | rest => exact moves'
  | step m mid m' calls _ move _ ih =>
      rw [List.append_assoc]
      exact .step m mid m'' calls _ move (ih moves')

theorem Moves.valid (moves : Moves inService m m' calls) (valid : m.Valid inService maxStream) :
    m'.Valid inService maxStream := by
  induction moves with
  | rest => exact valid
  | step m mid m' calls _ move _ ih => exact ih (move.valid valid)

theorem Tuple4.reversed_reversed (addr : Tuple4) : addr.reversed.reversed = addr := rfl

theorem findStream_some {addr : Tuple4} {t : Tracked} {fromClient : Bool}
    (found : findStream m addr = some (t, fromClient)) :
    t ∈ m.streams ∧ t.tcp.addr = if fromClient then addr else addr.reversed := by
  unfold findStream nidsFindTcpStream at found
  split at found
  case h_1 t' direct =>
    cases found
    exact ⟨List.mem_of_find?_eq_some direct, by simpa using List.find?_some direct⟩
  case h_2 =>
    obtain ⟨t', back, same⟩ := Option.map_eq_some_iff.mp found
    cases same
    exact ⟨List.mem_of_find?_eq_some back, by simpa using List.find?_some back⟩

theorem findStream_none {addr : Tuple4} (missing : findStream m addr = none) :
    ∀ t ∈ m.streams, addr ≠ t.tcp.addr ∧ addr ≠ t.tcp.addr.reversed := by
  unfold findStream nidsFindTcpStream at missing
  split at missing
  case h_1 => exact nomatch missing
  case h_2 direct =>
    have back := Option.map_eq_none_iff.mp missing
    intro t member
    refine ⟨?_, ?_⟩
    · intro same
      simpa [same] using List.find?_eq_none.mp direct t member
    · intro same
      apply List.find?_eq_none.mp back t member
      rw [same, Tuple4.reversed_reversed]
      exact decide_eq_true rfl

theorem clientStart_blank (hdr : TcpHdr) : (clientStart hdr).Blank :=
  ⟨rfl, rfl, rfl, rfl, rfl, rfl, rfl, rfl⟩

theorem giveUpOldest_moves (valid : m.Valid inService maxStream) :
    ∃ m' calls, giveUpOldest maxStream m = some (m', calls) ∧ Moves inService m m' calls ∧
      m'.tcpNum ≤ maxStream ∧ m'.streams ⊆ m.streams := by
  unfold giveUpOldest
  split
  case isFalse room => exact ⟨m, [], rfl, .rest m, Nat.le_of_not_lt room, List.Subset.refl _⟩
  case isTrue full =>
    have some' : m.streams ≠ [] := by
      intro empty
      have number := valid.tcpNum
      rw [empty, List.length_nil] at number
      omega
    have member := List.getLast_mem some'
    rw [List.getLast?_eq_some_getLast some']
    refine ⟨_, _, rfl, (Move.freed m _ .timedOut member nofun).moves, ?_, List.filter_subset_self _⟩
    have room := valid.room
    show m.tcpNum - 1 ≤ maxStream
    omega

/-- A new stream always finds a place. -/
theorem takeFree_moves (valid : m.Valid inService maxStream) (room : m.tcpNum ≤ maxStream)
    (p : Packet)
    (new : ∀ t ∈ m.streams, p.addr ≠ t.tcp.addr ∧ p.addr ≠ t.tcp.addr.reversed) :
    ∃ m', takeFree m p = some m' ∧ Moves inService m m' [] := by
  have total := valid.room
  unfold takeFree
  cases place : m.freeStreams with
  | nil =>
      rw [place, List.length_nil] at total
      omega
  | cons slot rest =>
      refine ⟨_, rfl, (Move.entered m _ rest ?_ place rfl new).moves⟩
      exact ⟨rfl, rfl, rfl, Or.inl rfl, clientStart_blank _,
        ⟨rfl, rfl, rfl, rfl, rfl, rfl, rfl, rfl⟩, rfl, rfl⟩

theorem processIcmp_moves (m : Nids) (e : Unreachable) :
    Moves inService m (processIcmp m e).1 (processIcmp m e).2 := by
  unfold processIcmp
  dsimp only
  split
  case isTrue => exact .rest m
  case isFalse =>
    split
    case h_1 => exact .rest m
    case h_2 t fromClient found =>
      generalize (if t.tcp.addr.dest.toUInt32 = e.dst then t.server else t.client) = hlf
      split
      case isTrue => exact .rest m
      case isFalse => exact (Move.freed m t .reset (findStream_some found).1 nofun).moves

/-- The segments of a packet are no longer than IP allows. -/
def NidsInput.Small : NidsInput → Prop
  | .tcp p => p.segment.data.length < 65536
  | .icmp _ => True

instance : (input : NidsInput) → Decidable input.Small
  | .tcp p => inferInstanceAs (Decidable (p.segment.data.length < 65536))
  | .icmp _ => inferInstanceAs (Decidable True)

/-- No packet finds the pool empty or makes the code leave a block. -/
theorem nidsStep_moves (valid : m.Valid inService maxStream) (input : NidsInput)
    (small : input.Small) :
    ∃ m' calls, nidsStep inService maxStream m input = some (m', calls) ∧
      Moves inService m m' calls := by
  cases input with
  | tcp p =>
      show ∃ m' calls, processTcp inService maxStream m p = _ ∧ _
      unfold processTcp
      cases found : findStream m p.addr with
      | none =>
          dsimp only
          split
          case isFalse => exact ⟨m, [], rfl, .rest m⟩
          case isTrue =>
            have new := findStream_none found
            obtain ⟨m₁, calls, gave, moves, room, sub⟩ := giveUpOldest_moves valid
            obtain ⟨m₂, took, moves'⟩ := takeFree_moves (moves.valid valid) room p
              fun t member => new t (sub member)
            refine ⟨m₂, calls, ?_, ?_⟩
            · simp only [addNewTcp, gave, took, Option.bind_eq_bind, Option.bind_some]
              rfl
            · have both := moves.trans moves'
              rw [List.append_nil] at both
              exact both
      | some here =>
          obtain ⟨t, fromClient⟩ := here
          obtain ⟨member, -⟩ := findStream_some found
          have outcome : ∃ left calls,
              streamPacket inService t fromClient p.segment = some (left, calls) ∧
                Outcome inService t fromClient left calls := by
            rcases valid.each t member with opening | opened
            · exact streamPacket_opening opening small
            · exact streamPacket_open opened small
          obtain ⟨left, calls, done, outcome⟩ := outcome
          refine ⟨m.settle t left, calls, ?_, (Move.settled m t _ left calls member outcome).moves⟩
          dsimp only
          rw [done]
          rfl
  | icmp e => exact ⟨_, _, rfl, processIcmp_moves m e⟩

theorem nidsRun_moves (inputs : List NidsInput) :
    ∀ m : Nids, m.Valid inService maxStream → (∀ input ∈ inputs, input.Small) →
      ∃ m' calls, nidsRun inService maxStream m inputs = some (m', calls) ∧
        Moves inService m m' calls := by
  induction inputs with
  | nil => exact fun m _ _ => ⟨m, [], rfl, .rest m⟩
  | cons input rest ih =>
      intro m valid small
      obtain ⟨m₁, calls, done, moves⟩ := nidsStep_moves valid input (small input List.mem_cons_self)
      obtain ⟨m₂, later, done', moves'⟩ := ih m₁ (moves.valid valid)
        fun other inside => small other (List.mem_cons_of_mem input inside)
      refine ⟨m₂, calls ++ later, ?_, moves.trans moves'⟩
      simp only [nidsRun, done, done', Option.bind_eq_bind, Option.bind_some]
      rfl

theorem Tracked.bounds {t : Tracked} (phase : t.Opening ∨ t.Open inService) (fromClient : Bool) :
    (t.rcv fromClient).rmemAlloc = truesizes (t.rcv fromClient).list ∧
      (t.rcv fromClient).rmemAlloc ≤ 65535 := by
  rcases phase with opening | opened
  · obtain ⟨blank, -⟩ := opening.rcv fromClient
    refine ⟨blank.tally, ?_⟩
    rw [blank.rmemAlloc]
    decide
  · exact ⟨(opened.rcv fromClient).bounded.tally, (opened.rcv fromClient).limit⟩

/-- A message finds both halves of an announced stream in a state it does not want. -/
theorem processIcmp_quiet (valid : m.Valid inService maxStream) (e : Unreachable) :
    (processIcmp m e).2 = [] ∧
      ∀ t ∈ m.streams, t.nidsState = .data → t ∈ (processIcmp m e).1.streams := by
  have same : (m, ([] : List NidsCall)).2 = [] ∧
      ∀ t ∈ m.streams, t.nidsState = .data → t ∈ (m, ([] : List NidsCall)).1.streams :=
    ⟨rfl, fun t member _ => member⟩
  unfold processIcmp
  dsimp only
  split
  case isTrue => exact same
  case isFalse =>
    split
    case h_1 => exact same
    case h_2 t fromClient found =>
      have member := (findStream_some found).1
      rcases valid.each t member with opening | opened
      · generalize (if t.tcp.addr.dest.toUInt32 = e.dst then t.server else t.client) = hlf
        split
        case isTrue => exact same
        case isFalse =>
          refine ⟨?_, ?_⟩
          · rw [Tracked.endCall, opening.listening]
            rfl
          · intro other inside data
            apply List.mem_filter.mpr
            refine ⟨inside, ?_⟩
            rw [decide_eq_true_iff]
            intro slot
            rw [List.inj_on_of_nodup_map valid.slots inside member slot, opening.nidsState] at data
            exact absurd data (by decide)
      · rw [if_pos]
        · exact same
        · split
          · exact opened.server.state
          · exact opened.client.state

end Runs

/-- Over any run no pointer leaves its block and no place is wanted of an empty pool. The
places are those of the streams and the free ones, each once; no packet could belong to
two streams; and what waits behind a gap is counted, and bounded, in every half. -/
theorem nidsRun_bounds (inService : Tuple4 → Bool) (maxStream : Nat) (inputs : List NidsInput)
    (small : ∀ input ∈ inputs, input.Small) :
    ∃ m calls, nidsRun inService maxStream (tcpInit maxStream) inputs = some (m, calls) ∧
      m.tcpNum = m.streams.length ∧
      (m.streams.map Tracked.slot ++ m.freeStreams).Perm (List.range (maxStream + 1)) ∧
      ((m.streams.map Tracked.tcp).Pairwise fun a b =>
        a.addr ≠ b.addr ∧ a.addr ≠ b.addr.reversed) ∧
      ∀ t ∈ m.streams, ∀ fromClient,
        (t.rcv fromClient).rmemAlloc = truesizes (t.rcv fromClient).list ∧
          (t.rcv fromClient).rmemAlloc ≤ 65535 := by
  have initial := tcpInit_valid inService maxStream
  obtain ⟨m, calls, done, moves⟩ := nidsRun_moves inputs (tcpInit maxStream) initial small
  have valid := moves.valid initial
  exact ⟨m, calls, done, valid.tcpNum, valid.pool, valid.apart,
    fun t member fromClient => Tracked.bounds (valid.each t member) fromClient⟩

/-- The first packet of a connection, and nothing else. -/
def localSyn : Packet :=
  ⟨2130706433, 2130706434,
    ⟨40000, 80, 7, 0, false, true, false, false, false, 4096, 0, []⟩, [], 512⟩

/-- A pool of one place, and two that want it. -/
theorem nidsRun_bounds_full :
    ∃ m calls, nidsRun (fun _ => true) 0 (tcpInit 0)
        [.tcp localSyn, .tcp { localSyn with saddr := 2130706435 }] = some (m, calls) ∧
      m.tcpNum = m.streams.length ∧
      (m.streams.map Tracked.slot ++ m.freeStreams).Perm (List.range 1) ∧
      ((m.streams.map Tracked.tcp).Pairwise fun a b =>
        a.addr ≠ b.addr ∧ a.addr ≠ b.addr.reversed) ∧
      ∀ t ∈ m.streams, ∀ fromClient,
        (t.rcv fromClient).rmemAlloc = truesizes (t.rcv fromClient).list ∧
          (t.rcv fromClient).rmemAlloc ≤ 65535 :=
  nidsRun_bounds (fun _ => true) 0 _ (by decide)

/-- In no state that packets lead to does an ICMP message end a stream that was announced:
it can only refuse one that is still opening, and the callback hears nothing of it. -/
theorem processIcmp_spares (inService : Tuple4 → Bool) (maxStream : Nat)
    (inputs : List NidsInput) (small : ∀ input ∈ inputs, input.Small) :
    ∃ m calls, nidsRun inService maxStream (tcpInit maxStream) inputs = some (m, calls) ∧
      ∀ e : Unreachable, (processIcmp m e).2 = [] ∧
        ∀ t ∈ m.streams, t.nidsState = .data → t ∈ (processIcmp m e).1.streams := by
  have initial := tcpInit_valid inService maxStream
  obtain ⟨m, calls, done, moves⟩ := nidsRun_moves inputs (tcpInit maxStream) initial small
  exact ⟨m, calls, done, processIcmp_quiet (moves.valid initial)⟩

def localPacket (fromClient : Bool) (seq ackSeq : UInt32) (fin syn ack : Bool) (data : Bytes) :
    NidsInput :=
  let hdr := TcpHdr.mk 40000 80 seq ackSeq fin syn false ack false 4096 0 []
  if fromClient then .tcp ⟨2130706433, 2130706434, hdr, data, 512⟩
  else .tcp ⟨2130706434, 2130706433, { hdr with sport := 80, dport := 40000 }, data, 512⟩

/-- The numbers of the client begin two before their end. -/
def localHandshake : List NidsInput :=
  [localPacket true 4294967293 0 false true false [],
    localPacket false 999 4294967294 false true true [],
    localPacket true 4294967294 1000 false false true []]

/-- The server's port is not there. -/
def localUnreachable : Unreachable :=
  ⟨ICMP_PORT_UNREACH, 2130706434, 2130706433, ⟨40000, 80, 2130706433, 2130706434⟩⟩

/-- The message finds the stream that the handshake opened, and leaves it. -/
theorem processIcmp_spares_local :
    ∃ m calls, nidsRun (fun _ => true) 779 (tcpInit 779) localHandshake = some (m, calls) ∧
      ((findStream m localUnreachable.orig).map fun found => found.1.nidsState) = some .data ∧
      (processIcmp m localUnreachable).2 = [] ∧
      ∀ t ∈ m.streams, t ∈ (processIcmp m localUnreachable).1.streams := by
  obtain ⟨m, calls, done, spares⟩ :=
    processIcmp_spares (fun _ => true) 779 localHandshake (by decide +kernel)
  have streams : (nidsRun (fun _ => true) 779 (tcpInit 779) localHandshake).map
      (fun found => (found.1.streams.map Tracked.nidsState,
        (findStream found.1 localUnreachable.orig).map fun found => found.1.nidsState)) =
      some ([.data], some .data) := by
    decide +kernel
  rw [done, Option.map_some, Option.some.injEq, Prod.mk.injEq] at streams
  refine ⟨m, calls, done, streams.2, (spares localUnreachable).1, ?_⟩
  intro t member
  apply (spares localUnreachable).2 t member
  have state := List.mem_map_of_mem (f := Tracked.nidsState) member
  rw [streams.1] at state
  exact List.mem_singleton.mp state

end Bscope
