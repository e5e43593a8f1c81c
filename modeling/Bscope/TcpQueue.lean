import Bscope.InOrder

set_option autoImplicit false

/- The queue of one direction over any run of segments: what it delivers is all that
the segments tell of the stream, each byte once. -/
namespace Bscope

open Serial Reassembly

/-- What the packets of a queue are counted with. -/
def truesizes : List SkBuff → Int
  | [] => 0
  | p :: rest => p.truesize + truesizes rest

theorem truesizes_append (first second : List SkBuff) :
    truesizes (first ++ second) = truesizes first + truesizes second := by
  induction first with
  | nil => simp [truesizes]
  | cons p first ih =>
      rw [List.cons_append, truesizes, truesizes, ih]
      omega

def HalfStream.requeue (rcv : HalfStream) (rmemAlloc : Int) (list : List SkBuff) : HalfStream :=
  { rcv with rmemAlloc := rmemAlloc, list := list }

theorem HalfStream.Kept.requeue {rcv rcv' : HalfStream} (kept : rcv.Kept rcv') (rmemAlloc : Int)
    (list : List SkBuff) : (rcv.requeue rmemAlloc list).Kept (rcv'.requeue rmemAlloc list) :=
  ⟨kept.state, kept.collect, rfl, kept.seq, kept.ackSeq, kept.firstDataSeq, kept.window, kept.tsOn,
    kept.wscaleOn, kept.currTs, kept.wscale, rfl⟩

theorem Hears.requeue {base : UInt32} {stream : Bytes} {urged : Nat → Prop} {rcv : HalfStream}
    {marks : List Bool} {out : Bytes} (reads : Hears base stream urged rcv marks out)
    (rmemAlloc : Int) (list : List SkBuff) :
    Hears base stream urged (rcv.requeue rmemAlloc list) marks out :=
  ⟨⟨reads.drained.sized, reads.drained.unset, reads.drained.read⟩, reads.collect,
    reads.inside, reads.text, reads.count, reads.urgCount, reads.marked, reads.pointer⟩

section Forward

variable {base : UInt32} {stream : Bytes} {seen : List Segment}

/-- What going through a queue gives: the packets that are left are the last ones, and
they are all behind the next gap. -/
structure Forwarded (base : UInt32) (stream : Bytes) (seen : List Segment) (snd rcv : HalfStream)
    (out : Bytes) (n : Nat) (rest : List SkBuff) (snd' rcv' : HalfStream) (new : List Bytes)
    (n' : Nat) : Prop where
  sender : snd' = { snd with state := snd'.state }
  kept : (rcv.requeue rcv'.rmemAlloc rcv'.list).Kept rcv'
  filled : ∀ bytes ∈ new, bytes ≠ []
  reads : ∃ marks : List Bool, marks.length = n' ∧
    Hears base stream (Urged base seen) rcv' marks (out ++ new.flatten)
  left : rcv'.list <:+ rest
  tally : rcv'.rmemAlloc - truesizes rcv'.list = rcv.rmemAlloc - truesizes rest
  waiting : ∀ pieces, (∀ s ∈ seen, s.piece base ∈ pieces) →
    Waiting pieces (rest.map (SkBuff.piece base)) n →
      Waiting pieces (rcv'.list.map (SkBuff.piece base)) n' ∧
        Ahead (rcv'.list.map (SkBuff.piece base)) n'

/-- The number behind a segment, its FIN among the bytes. -/
theorem word_stop (base : UInt32) (s : Segment) (fin : Bool) :
    s.hdr.seq + UInt32.ofNat s.data.length + (if fin then 1 else 0) =
      word base ((s.piece base).stop + fin.toNat) := by
  have length : (s.piece base).stop = (s.piece base).pos + s.data.length := rfl
  rw [length, word_add, word_add, seq_eq]
  cases fin <;> rfl

section Tests

variable {urged : Nat → Prop} {snd rcv : HalfStream} {out : Bytes} {marks : List Bool} {s : Segment}
  (short : stream.length + 65536 < 2 ^ 31) (reads : Hears base stream urged rcv marks out)
  (start : snd.firstDataSeq = base) (of : s.Of base stream)
include short reads start of

theorem gap_test : seqAfter s.hdr.seq (expSeq snd rcv) ↔ marks.length < (s.piece base).pos := by
  have near := of.start
  have inside := reads.inside
  rw [← seq_eq base s, seqAfter, reads.expSeq start, negative_word_sub _ _ _ (by omega) (by omega)]

theorem stop_test :
    seqAfter (s.hdr.seq + UInt32.ofNat s.data.length + (if s.hdr.fin then 1 else 0))
      (expSeq snd rcv) ↔ marks.length < (s.piece base).stop + s.hdr.fin.toNat := by
  have near := of.stop
  have inside := reads.inside
  have bit : s.hdr.fin.toNat ≤ 1 := Bool.toNat_le s.hdr.fin
  rw [seqAfter, word_stop, reads.expSeq start, negative_word_sub _ _ _ (by omega) (by omega)]

end Tests

/-- A packet that leaves no gap. -/
theorem Hears.addVisible (short : stream.length + 65536 < 2 ^ 31) {snd rcv : HalfStream}
    {out : Bytes} {marks : List Bool} (reads : Hears base stream (Urged base seen) rcv marks out)
    (start : snd.firstDataSeq = base) {s : Segment} (member : s ∈ seen) (of : s.Of base stream)
    (first : (s.piece base).pos ≤ marks.length) :
    ∃ state rcv' new,
      Bscope.addVisible snd rcv s.skbuff = some ({ snd with state := state }, rcv', new) ∧
      Reaches base stream (Urged base seen) rcv out (max marks.length (s.piece base).stop)
        rcv' new := by
  have bit : s.hdr.fin.toNat ≤ 1 := Bool.toNat_le s.hdr.fin
  have test := stop_test short reads start of
  unfold Bscope.addVisible Segment.skbuff
  by_cases new : marks.length < (s.piece base).stop + s.hdr.fin.toNat
  · have stop : marks.length ≤ (s.piece base).stop := by omega
    obtain ⟨rcv', out', added, reaches⟩ := reads.addFromSkb short start of
      (fun urg i place => ⟨s, member, urg, place⟩) first stop
    rw [if_pos (test.mpr new), added, Nat.max_eq_right stop]
    cases s.hdr.fin with
    | false => exact ⟨snd.state, rcv', out', rfl, reaches⟩
    | true => exact ⟨.finSent, rcv', out', rfl, reaches⟩
  · rw [if_neg fun after => new (test.mp after), Nat.max_eq_left (by omega)]
    exact ⟨snd.state, rcv, [], rfl, reads.reaches⟩

theorem forward_reads (short : stream.length + 65536 < 2 ^ 31)
    (of : ∀ s ∈ seen, s.Of base stream) (rest : List SkBuff) :
    ∀ (snd rcv : HalfStream) (out : Bytes) (marks : List Bool), snd.firstDataSeq = base →
      Hears base stream (Urged base seen) rcv marks out →
      (∀ p ∈ rest, ∃ s ∈ seen, p = s.skbuff) →
      ∃ snd' rcv' new n', forward snd rcv rest = some (snd', rcv', new) ∧
        Forwarded base stream seen snd rcv out marks.length rest snd' rcv' new n' := by
  induction rest with
  | nil =>
      intro snd rcv out marks start reads queue
      refine ⟨snd, rcv.requeue rcv.rmemAlloc [], [], marks.length, rfl, rfl, .refl _, nofun,
        ⟨marks, rfl, ?_⟩, List.suffix_rfl, rfl, fun pieces _ waiting => ⟨waiting, nofun⟩⟩
      simpa using reads.requeue rcv.rmemAlloc []
  | cons p rest ih =>
      intro snd rcv out marks start reads queue
      obtain ⟨s, member, rfl⟩ := queue p List.mem_cons_self
      have gap : seqAfter s.skbuff.seq (expSeq snd rcv) ↔ marks.length < (s.piece base).pos :=
        gap_test short reads start (of s member)
      unfold forward
      by_cases ahead : marks.length < (s.piece base).pos
      · rw [if_pos (gap.mpr ahead)]
        refine ⟨snd, rcv.requeue rcv.rmemAlloc (s.skbuff :: rest), [], marks.length, rfl, rfl,
          .refl _, nofun, ⟨marks, rfl, ?_⟩, List.suffix_rfl, rfl,
          fun pieces _ waiting => ⟨waiting, waiting.front ahead⟩⟩
        simpa using reads.requeue rcv.rmemAlloc (s.skbuff :: rest)
      · rw [if_neg fun after => ahead (gap.mp after)]
        obtain ⟨state, rcv₁, new₁, taken, reaches⟩ :=
          reads.addVisible short start member (of s member) (Nat.le_of_not_lt ahead)
        obtain ⟨marks₁, size₁, reads₁⟩ := reaches.reads
        obtain ⟨snd', rcv', new', n', rest', done⟩ := ih { snd with state := state }
          (rcv₁.requeue (rcv₁.rmemAlloc - s.skbuff.truesize) rest) (out ++ new₁.flatten) marks₁
          start (reads₁.requeue _ _) fun q later => queue q (List.mem_cons_of_mem _ later)
        refine ⟨snd', rcv', new₁ ++ new', n', ?_, ?_⟩
        · rw [HalfStream.requeue] at rest'
          simp only [taken, Option.bind_eq_bind, Option.bind_some, rest']
          rfl
        · refine ⟨done.sender, (reaches.kept.requeue _ _).trans done.kept, ?_, ?_,
            done.left.trans (List.suffix_cons ..), ?_, ?_⟩
          · intro bytes from'
            rcases List.mem_append.mp from' with early | late
            · exact reaches.filled bytes early
            · exact done.filled bytes late
          · obtain ⟨marks', size', reads'⟩ := done.reads
            refine ⟨marks', size', ?_⟩
            rw [List.flatten_append, ← List.append_assoc]
            exact reads'
          · have tally := done.tally
            have alloc := reaches.kept.rmemAlloc
            show _ = _ - (_ + _)
            rw [tally]
            show rcv₁.rmemAlloc - _ - _ = _
            rw [alloc]
            omega
          · intro pieces all waiting
            apply done.waiting pieces all
            rw [size₁]
            apply (waiting.advance (all s member) (Nat.le_of_not_lt ahead)).pop
            exact Nat.le_max_right ..

end Forward

section Insertion

variable {pakiet : SkBuff}

theorem mem_insertFrom (q : SkBuff) (list : List SkBuff) :
    q ∈ insertFrom pakiet list ↔ q = pakiet ∨ q ∈ list := by
  induction list with
  | nil => simp [insertFrom]
  | cons p rest ih =>
      unfold insertFrom
      split
      · rw [List.mem_cons, ih, List.mem_cons]
        tauto
      · rw [List.mem_cons]

theorem truesizes_insertFrom (list : List SkBuff) :
    truesizes (insertFrom pakiet list) = pakiet.truesize + truesizes list := by
  induction list with
  | nil => rfl
  | cons p rest ih =>
      unfold insertFrom
      split
      · rw [truesizes, ih, truesizes]
        omega
      · rfl

theorem truesizes_reverse (list : List SkBuff) : truesizes list.reverse = truesizes list := by
  induction list with
  | nil => rfl
  | cons p rest ih =>
      rw [List.reverse_cons, truesizes_append, ih]
      simp only [truesizes]
      omega

/-- A queue that is in order from the tail stays so. -/
theorem insertFrom_sorted (key : SkBuff → Nat) (list : List SkBuff)
    (test : ∀ q ∈ list, seqAfter q.seq pakiet.seq ↔ key pakiet < key q)
    (sorted : list.Pairwise (fun a b => key b ≤ key a)) :
    (insertFrom pakiet list).Pairwise fun a b => key b ≤ key a := by
  induction list with
  | nil => exact List.pairwise_singleton ..
  | cons p rest ih =>
      have tails := ih (fun q member => test q (List.mem_cons_of_mem p member)) sorted.of_cons
      have below := (List.pairwise_cons.mp sorted).1
      unfold insertFrom
      split
      case isTrue after =>
        have order := (test p List.mem_cons_self).mp after
        refine List.pairwise_cons.mpr ⟨?_, tails⟩
        intro q member
        rcases (mem_insertFrom q rest).mp member with same | later
        · rw [same]
          exact Nat.le_of_lt order
        · exact below q later
      case isFalse notAfter =>
        have order : key p ≤ key pakiet := by
          by_contra more
          exact notAfter ((test p List.mem_cons_self).mpr (Nat.lt_of_not_le more))
        refine List.pairwise_cons.mpr ⟨?_, sorted⟩
        intro q member
        rcases List.mem_cons.mp member with same | later
        · rw [same]
          exact order
        · exact Nat.le_trans (below q later) order

end Insertion

/-- One half of a stream between two packets: what the callback has read of it, and the
queue, in the order of the stream. -/
structure Gathers (base : UInt32) (stream : Bytes) (seen : List Segment) (rcv : HalfStream)
    (out : Bytes) (n : Nat) : Prop where
  of : ∀ s ∈ seen, s.Of base stream
  reads : ∃ marks : List Bool, marks.length = n ∧ Hears base stream (Urged base seen) rcv marks out
  queue : ∀ p ∈ rcv.list, ∃ s ∈ seen, p = s.skbuff
  sorted : rcv.list.Pairwise fun a b => (a.piece base).pos ≤ (b.piece base).pos
  tally : rcv.rmemAlloc = truesizes rcv.list

/-- It has read all that the segments tell. -/
structure Caught (base : UInt32) (seen : List Segment) (rcv : HalfStream) (n : Nat) : Prop where
  waiting : Waiting (seen.map (Segment.piece base)) (rcv.list.map (SkBuff.piece base)) n
  ahead : Ahead (rcv.list.map (SkBuff.piece base)) n

/-- What `tcp_queue` does to one half, and what it hands on. -/
structure Queued (base : UInt32) (stream : Bytes) (seen : List Segment) (snd rcv : HalfStream)
    (out : Bytes) (n : Nat) (s : Segment) (snd' rcv' : HalfStream) (new : List Bytes) (n' : Nat) :
    Prop where
  sender : snd' = { snd with state := snd'.state, currTs := snd'.currTs }
  kept : (rcv.requeue rcv'.rmemAlloc rcv'.list).Kept rcv'
  filled : ∀ bytes ∈ new, bytes ≠ []
  gathers : Gathers base stream (s :: seen) rcv' (out ++ new.flatten) n'
  caught : Caught base seen rcv n → Caught base (s :: seen) rcv' n'

section Step

variable {base : UInt32} {stream : Bytes} {seen : List Segment} {snd rcv : HalfStream}
  {out : Bytes} {n : Nat} {s : Segment}

theorem Urged.cons {i : Nat} (urged : Urged base seen i) : Urged base (s :: seen) i := by
  obtain ⟨s', member, here⟩ := urged
  exact ⟨s', List.mem_cons_of_mem s member, here⟩

theorem Gathers.cons (gathers : Gathers base stream seen rcv out n) (of : s.Of base stream) :
    Gathers base stream (s :: seen) rcv out n where
  of s' member := by
    rcases List.mem_cons.mp member with same | later
    · rw [same]
      exact of
    · exact gathers.of s' later
  reads := by
    obtain ⟨marks, size, reads⟩ := gathers.reads
    exact ⟨marks, size, reads.mono fun i urged => urged.cons⟩
  queue p member := by
    obtain ⟨s', seen, same⟩ := gathers.queue p member
    exact ⟨s', List.mem_cons_of_mem s seen, same⟩
  sorted := gathers.sorted
  tally := gathers.tally

/-- A segment behind a gap. -/
theorem enqueue_queued (short : stream.length + 65536 < 2 ^ 31)
    (gathers : Gathers base stream seen rcv out n) (of : s.Of base stream)
    (gap : n < (s.piece base).pos) :
    Queued base stream seen snd rcv out n s (enqueue snd rcv s).1 (enqueue snd rcv s).2 [] n := by
  have more := gathers.cons of
  have members : ∀ q, q ∈ (enqueue snd rcv s).2.list ↔ q = s.skbuff ∨ q ∈ rcv.list := by
    intro q
    show q ∈ (insertFrom s.skbuff rcv.list.reverse).reverse ↔ _
    rw [List.mem_reverse, mem_insertFrom, List.mem_reverse]
  have sorted : (enqueue snd rcv s).2.list.Pairwise
      fun a b => (a.piece base).pos ≤ (b.piece base).pos := by
    apply List.pairwise_reverse.mpr
    apply insertFrom_sorted fun p => (p.piece base).pos
    · intro q member
      obtain ⟨s', seen', same⟩ := gathers.queue q (List.mem_reverse.mp member)
      have near := of.start
      have near' := (gathers.of s' seen').start
      rw [same]
      show seqAfter s'.hdr.seq s.hdr.seq ↔ (s.piece base).pos < (s'.piece base).pos
      rw [← seq_eq base s, ← seq_eq base s', seqAfter,
        negative_word_sub _ _ _ (by omega) (by omega)]
    · exact List.pairwise_reverse.mpr gathers.sorted
  have size : (enqueue snd rcv s).2.rmemAlloc = truesizes (enqueue snd rcv s).2.list := by
    show rcv.rmemAlloc + s.skblen = truesizes (insertFrom s.skbuff rcv.list.reverse).reverse
    rw [truesizes_reverse, truesizes_insertFrom, truesizes_reverse, gathers.tally]
    show _ = (s.skblen : Int) + _
    omega
  refine ⟨?_, .refl _, fun bytes member => absurd member List.not_mem_nil, ⟨more.of, ?_, ?_, sorted, size⟩, ?_⟩
  · unfold enqueue
    split <;> rfl
  · obtain ⟨marks, length, reads⟩ := more.reads
    refine ⟨marks, length, ?_⟩
    rw [List.flatten_nil, List.append_nil]
    exact reads.requeue _ _
  · intro p member
    rcases (members p).mp member with same | old
    · exact ⟨s, List.mem_cons_self, same⟩
    · exact more.queue p old
  · intro caught
    have filed : ∀ q, q ∈ (enqueue snd rcv s).2.list.map (SkBuff.piece base) ↔
        q = s.piece base ∨ q ∈ rcv.list.map (SkBuff.piece base) := by
      intro q
      simp only [List.mem_map, members]
      constructor
      · rintro ⟨p, rfl | old, rfl⟩
        · exact Or.inl rfl
        · exact Or.inr ⟨p, old, rfl⟩
      · rintro (rfl | ⟨p, old, rfl⟩)
        · exact ⟨s.skbuff, Or.inl rfl, rfl⟩
        · exact ⟨p, Or.inr old, rfl⟩
    refine ⟨caught.waiting.file filed (List.pairwise_map.mpr sorted), ?_⟩
    intro q member
    rcases (filed q).mp member with same | old
    · rw [same]
      exact gap
    · exact caught.ahead q old

theorem tcpQueue_queued (short : stream.length + 65536 < 2 ^ 31)
    (start : snd.firstDataSeq = base) (gathers : Gathers base stream seen rcv out n)
    (of : s.Of base stream) :
    ∃ snd' rcv' new n', tcpQueue snd rcv s = some (snd', rcv', new) ∧
      Queued base stream seen snd rcv out n s snd' rcv' new n' := by
  have more := gathers.cons of
  obtain ⟨marks, size, reads⟩ := more.reads
  have gap := gap_test short reads start of
  have last := stop_test short reads start of
  unfold tcpQueue
  by_cases ahead : marks.length < (s.piece base).pos
  · rw [if_neg (not_not_intro (gap.mpr ahead))]
    rw [size] at ahead
    exact ⟨_, _, _, n, rfl, enqueue_queued short gathers of ahead⟩
  · rw [if_pos fun after => ahead (gap.mp after)]
    by_cases new : marks.length < (s.piece base).stop + s.hdr.fin.toNat
    · rw [if_pos (last.mpr new)]
      have bit : s.hdr.fin.toNat ≤ 1 := Bool.toNat_le s.hdr.fin
      obtain ⟨rcv₁, new₁, added, reaches⟩ := reads.addFromSkb short
        (show { snd with currTs := (getTs s.hdr).getD snd.currTs }.firstDataSeq = base from start) of
        (fun urg i place => ⟨s, List.mem_cons_self, urg, place⟩) (Nat.le_of_not_lt ahead)
        (by omega)
      obtain ⟨marks₁, size₁, reads₁⟩ := reaches.reads
      have queue : ∀ p ∈ rcv₁.list, ∃ s' ∈ s :: seen, p = s'.skbuff := by
        rw [reaches.kept.list]
        exact more.queue
      obtain ⟨snd', rcv', new', n', rest, done⟩ := forward_reads short more.of rcv₁.list
        (if s.hdr.fin then { snd with currTs := (getTs s.hdr).getD snd.currTs, state := .finSent }
          else { snd with currTs := (getTs s.hdr).getD snd.currTs })
        rcv₁ _ marks₁ (by split <;> exact start) reads₁ queue
      refine ⟨snd', rcv', new₁ ++ new', n', ?_, ?_, ?_, ?_, ⟨more.of, ?_, ?_, ?_, ?_⟩, ?_⟩
      · simp only [added, Option.bind_eq_bind, Option.bind_some, rest]
        rfl
      · rw [done.sender]
        split <;> rfl
      · exact (reaches.kept.requeue _ _).trans done.kept
      · intro bytes member
        rcases List.mem_append.mp member with early | late
        · exact reaches.filled bytes early
        · exact done.filled bytes late
      · obtain ⟨marks', size', reads'⟩ := done.reads
        refine ⟨marks', size', ?_⟩
        rw [List.flatten_append, ← List.append_assoc]
        exact reads'
      · intro p member
        exact queue p (done.left.subset member)
      · apply List.Pairwise.sublist done.left.sublist
        rw [reaches.kept.list]
        exact more.sorted
      · have tally := done.tally
        rw [reaches.kept.rmemAlloc, reaches.kept.list, more.tally] at tally
        omega
      · intro caught
        have waiting := caught.waiting.accept (p := s.piece base) (by omega) (by omega)
        rw [← reaches.kept.list, ← size₁] at waiting
        obtain ⟨waiting', ahead'⟩ := done.waiting _
          (fun s' member => List.mem_map.mpr ⟨s', member, rfl⟩) waiting
        exact ⟨waiting', ahead'⟩
    · rw [if_neg fun after => new (last.mp after)]
      refine ⟨snd, rcv, [], n, rfl, rfl, .refl _, nofun, ?_, ?_⟩
      · simpa using more
      · intro caught
        refine ⟨caught.waiting.stale ?_, caught.ahead⟩
        omega

end Step

/-- `tcp_queue` for each of a list of segments, and all that it hands on. -/
def queueRun (snd rcv : HalfStream) :
    List Segment → Option (HalfStream × HalfStream × List Bytes)
  | [] => some (snd, rcv, [])
  | s :: rest => do
      let (snd, rcv, out) ← tcpQueue snd rcv s
      let (snd, rcv, later) ← queueRun snd rcv rest
      return (snd, rcv, out ++ later)

/-- A half stream that nothing came for yet. -/
structure HalfStream.Blank (rcv : HalfStream) : Prop where
  data : rcv.data = none
  bufsize : rcv.bufsize = 0
  offset : rcv.offset = 0
  count : rcv.count = 0
  urgCount : rcv.urgCount = 0
  urgSeen : rcv.urgSeen = false
  rmemAlloc : rcv.rmemAlloc = 0
  list : rcv.list = []

section Runs

variable {base : UInt32} {stream : Bytes} {rcv : HalfStream}

theorem HalfStream.Blank.drained (blank : rcv.Blank) : rcv.Drained where
  sized := by
    rw [blank.data]
    exact nofun
  unset _ := blank.bufsize
  read := by rw [blank.offset, blank.count]

theorem HalfStream.Blank.tally (blank : rcv.Blank) : rcv.rmemAlloc = truesizes rcv.list := by
  rw [blank.list, blank.rmemAlloc]
  rfl

theorem HalfStream.Blank.gathers (blank : rcv.Blank) (collect : rcv.collect = true) :
    Gathers base stream [] rcv [] 0 where
  of := nofun
  reads := by
    refine ⟨[], rfl, blank.drained, collect, Nat.zero_le _, rfl, blank.count, blank.urgCount,
      nofun, ?_⟩
    rw [blank.urgSeen]
    exact nofun
  queue := by
    rw [blank.list]
    exact nofun
  sorted := by
    rw [blank.list]
    exact .nil
  tally := blank.tally

theorem HalfStream.Blank.caught (blank : rcv.Blank) : Caught base [] rcv 0 where
  waiting := by
    rw [blank.list]
    exact waiting_nil
  ahead := by
    rw [blank.list]
    exact nofun

theorem queueRun_gathers (short : stream.length + 65536 < 2 ^ 31) (segments : List Segment) :
    ∀ (seen : List Segment) (snd rcv : HalfStream) (out : Bytes) (n : Nat),
      snd.firstDataSeq = base → Gathers base stream seen rcv out n → Caught base seen rcv n →
      (∀ s ∈ segments, s.Of base stream) →
      ∃ snd' rcv' new n', queueRun snd rcv segments = some (snd', rcv', new) ∧
        snd'.firstDataSeq = base ∧ (∀ bytes ∈ new, bytes ≠ []) ∧
        Gathers base stream (segments.reverse ++ seen) rcv' (out ++ new.flatten) n' ∧
        Caught base (segments.reverse ++ seen) rcv' n' := by
  induction segments with
  | nil =>
      intro seen snd rcv out n start gathers caught _
      refine ⟨snd, rcv, [], n, rfl, start, nofun, ?_, caught⟩
      simpa using gathers
  | cons s rest ih =>
      intro seen snd rcv out n start gathers caught of
      obtain ⟨snd₁, rcv₁, new₁, n₁, queued, here⟩ :=
        tcpQueue_queued short start gathers (of s List.mem_cons_self)
      have start₁ : snd₁.firstDataSeq = base := by
        rw [here.sender]
        exact start
      obtain ⟨snd', rcv', new', n', run, start', filled, gathers', caught'⟩ :=
        ih (s :: seen) snd₁ rcv₁ _ n₁ start₁ here.gathers (here.caught caught)
          fun s' member => of s' (List.mem_cons_of_mem s member)
      have order : (s :: rest).reverse ++ seen = rest.reverse ++ (s :: seen) := by
        rw [List.reverse_cons, List.append_assoc]
        rfl
      rw [order]
      refine ⟨snd', rcv', new₁ ++ new', n', ?_, start', ?_, ?_, caught'⟩
      · simp only [queueRun, queued, run, Option.bind_eq_bind, Option.bind_some]
        rfl
      · intro bytes member
        rcases List.mem_append.mp member with early | late
        · exact here.filled bytes early
        · exact filled bytes late
      · rw [List.flatten_append, ← List.append_assoc]
        exact gathers'

/-- Segments of one stream, in any order, some of them again, overlapping or with a gap
before them: no block is overrun, and what the callback reads, in blocks that are never
empty, is the stream as far as the segments tell it without a gap, but for the bytes
that urgent pointers name. -/
theorem queueRun_reads (short : stream.length + 65536 < 2 ^ 31) {snd : HalfStream}
    (start : snd.firstDataSeq = base) (collect : rcv.collect = true) (blank : rcv.Blank)
    (segments : List Segment)
    (of : ∀ s ∈ segments, s.Of base stream) :
    ∃ snd' rcv' out n marks, queueRun snd rcv segments = some (snd', rcv', out) ∧
      Known (segments.map (Segment.piece base)) n ∧ expSeq snd' rcv' = word base n ∧
      marks.length = n ∧ out.flatten = sift marks (stream.take n) ∧
      (∀ i, marks[i]? = some true → Urged base segments i) ∧ ∀ bytes ∈ out, bytes ≠ [] := by
  obtain ⟨snd', rcv', out, n, run, start', filled, gathers, caught⟩ :=
    queueRun_gathers short segments [] snd rcv [] 0 start (blank.gathers collect) blank.caught of
  obtain ⟨marks, size, reads⟩ := gathers.reads
  refine ⟨snd', rcv', out, n, marks, run, ?_, ?_, size, ?_, ?_, filled⟩
  · apply (caught.waiting.known caught.ahead).congr
    simp
  · rw [reads.expSeq start', size]
  · rw [← size]
    exact reads.text
  · intro i mark
    obtain ⟨s, member, here⟩ := reads.marked i mark
    exact ⟨s, by simpa using member, here⟩

/-- A segment with nothing but its place and its bytes. -/
def bareSegment (seq : UInt32) (data : Bytes) : Segment :=
  ⟨⟨40000, 80, seq, 0, false, false, false, true, false, 4096, 0, []⟩, data, 512⟩

/-- The end, the middle and the beginning of eight bytes, with overlaps, and with the end
of the numbers among them. -/
theorem queueRun_reads_late :
    ∃ snd' rcv' out n marks,
      queueRun { HalfStream.zero .established with firstDataSeq := 4294967293 }
          { HalfStream.zero .established with collect := true }
          [bareSegment 2 [6, 7, 8], bareSegment 4294967295 [3, 4, 5, 6], bareSegment 4294967293 [1, 2, 3]] =
        some (snd', rcv', out) ∧
      Known ([bareSegment 2 [6, 7, 8], bareSegment 4294967295 [3, 4, 5, 6],
        bareSegment 4294967293 [1, 2, 3]].map (Segment.piece 4294967293)) n ∧
      expSeq snd' rcv' = word 4294967293 n ∧ marks.length = n ∧
      out.flatten = sift marks (([1, 2, 3, 4, 5, 6, 7, 8] : Bytes).take n) ∧
      (∀ i, marks[i]? = some true → Urged 4294967293 [bareSegment 2 [6, 7, 8],
        bareSegment 4294967295 [3, 4, 5, 6], bareSegment 4294967293 [1, 2, 3]] i) ∧
      ∀ bytes ∈ out, bytes ≠ [] :=
  queueRun_reads (by decide) rfl rfl ⟨rfl, rfl, rfl, rfl, rfl, rfl, rfl, rfl⟩ _ (by decide +kernel)

end Runs

end Bscope
