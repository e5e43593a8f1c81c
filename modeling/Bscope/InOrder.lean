import Bscope.HalfStream
import Bscope.Reassembly

set_option autoImplicit false

/- What the callback reads of one direction of a connection is the stream itself, in
order and without a gap, whatever becomes of its segments on the way. -/
namespace Bscope

open Serial Reassembly

/-- The place of a segment in the stream whose first byte has the number `base`. -/
def Segment.piece (base : UInt32) (s : Segment) : Piece UInt8 := ⟨(s.hdr.seq - base).toNat, s.data⟩

def SkBuff.piece (base : UInt32) (p : SkBuff) : Piece UInt8 := ⟨(p.seq - base).toNat, p.data⟩

/-- The segment carries what the stream has at its place. -/
structure Segment.Of (base : UInt32) (stream : Bytes) (s : Segment) : Prop where
  start : (s.piece base).pos ≤ stream.length
  body : (s.piece base).Of stream

instance (base : UInt32) (stream : Bytes) (s : Segment) : Decidable (s.Of base stream) :=
  decidable_of_iff ((s.piece base).pos ≤ stream.length ∧ s.data <+: stream.drop (s.piece base).pos)
    ⟨fun of => ⟨of.1, of.2⟩, fun of => ⟨of.start, of.body⟩⟩

theorem Segment.Of.stop {base : UInt32} {stream : Bytes} {s : Segment} (of : s.Of base stream) :
    (s.piece base).stop ≤ stream.length := by
  by_cases empty : s.data = []
  · have stop : (s.piece base).stop = (s.piece base).pos + s.data.length := rfl
    rw [stop, empty]
    exact of.start
  · exact of.body.stop_le empty

/-- An urgent pointer of a segment names the place `i`. -/
def Urged (base : UInt32) (seen : List Segment) (i : Nat) : Prop :=
  ∃ s ∈ seen, s.hdr.urg = true ∧ i + 1 = (s.piece base).pos + s.hdr.urp.toNat

/-- The buffer between two callbacks: all that was in it has been read. -/
structure HalfStream.Drained (rcv : HalfStream) : Prop where
  sized : ∀ block, rcv.data = some block → block.length = rcv.bufsize
  unset : rcv.data = none → rcv.bufsize = 0
  read : rcv.offset = rcv.count

/-- What `add_from_skb` leaves alone. -/
structure HalfStream.Kept (rcv rcv' : HalfStream) : Prop where
  state : rcv'.state = rcv.state
  collect : rcv'.collect = rcv.collect
  rmemAlloc : rcv'.rmemAlloc = rcv.rmemAlloc
  seq : rcv'.seq = rcv.seq
  ackSeq : rcv'.ackSeq = rcv.ackSeq
  firstDataSeq : rcv'.firstDataSeq = rcv.firstDataSeq
  window : rcv'.window = rcv.window
  tsOn : rcv'.tsOn = rcv.tsOn
  wscaleOn : rcv'.wscaleOn = rcv.wscaleOn
  currTs : rcv'.currTs = rcv.currTs
  wscale : rcv'.wscale = rcv.wscale
  list : rcv'.list = rcv.list

theorem HalfStream.Kept.refl (rcv : HalfStream) : rcv.Kept rcv :=
  ⟨rfl, rfl, rfl, rfl, rfl, rfl, rfl, rfl, rfl, rfl, rfl, rfl⟩

theorem HalfStream.Kept.trans {a b c : HalfStream} (first : a.Kept b) (second : b.Kept c) :
    a.Kept c where
  state := second.state.trans first.state
  collect := second.collect.trans first.collect
  rmemAlloc := second.rmemAlloc.trans first.rmemAlloc
  seq := second.seq.trans first.seq
  ackSeq := second.ackSeq.trans first.ackSeq
  firstDataSeq := second.firstDataSeq.trans first.firstDataSeq
  window := second.window.trans first.window
  tsOn := second.tsOn.trans first.tsOn
  wscaleOn := second.wscaleOn.trans first.wscaleOn
  currTs := second.currTs.trans first.currTs
  wscale := second.wscale.trans first.wscale
  list := second.list.trans first.list

theorem seq_eq (base : UInt32) (s : Segment) : word base (s.piece base).pos = s.hdr.seq :=
  word_toNat_sub base s.hdr.seq

/-- The place behind the urgent byte. -/
theorem urgPtr_place (base : UInt32) (s : Segment) :
    s.hdr.urp.toUInt32 + s.hdr.seq - 1 + 1 =
      word base ((s.piece base).pos + s.hdr.urp.toNat) := by
  have urp : UInt32.ofNat s.hdr.urp.toNat = s.hdr.urp.toUInt32 := by
    rw [← UInt16.toNat_toUInt32, UInt32.ofNat_toNat]
  rw [word_add, seq_eq, urp]
  grind

section Buffer

variable {rcv : HalfStream} {bytes : Bytes}

theorem readBytes_inside (data : Bytes) (i n : Nat) (fits : i + n ≤ data.length) :
    readBytes data i n = some ((data.drop i).take n) := if_pos fits

theorem memcpy_inside (block : Bytes) (i : Nat) (fits : i + bytes.length ≤ block.length) :
    memcpy block i bytes =
      some (block.take i ++ bytes ++ block.drop (i + bytes.length)) := if_pos fits

/-- A drained buffer has room for what it grows for. -/
theorem grow_room (drained : rcv.Drained) (n : Nat) (positive : 0 < n) :
    ∃ block size, grow rcv n = { rcv with data := some block, bufsize := size } ∧
      block.length = size ∧ n ≤ size := by
  have empty : n + rcv.count - rcv.offset = n := by
    rw [drained.read]
    omega
  unfold grow
  rw [empty]
  cases data : rcv.data with
  | none =>
      have size := drained.unset data
      rw [if_pos (by omega)]
      exact ⟨_, _, rfl, List.length_replicate, by split <;> omega⟩
  | some block =>
      have size := drained.sized block data
      by_cases small : n > rcv.bufsize
      · rw [if_pos small]
        refine ⟨_, _, rfl, ?_, ?_⟩
        · rw [List.length_append, List.length_replicate, size]
          split <;> omega
        · split <;> omega
      · rw [if_neg small]
        exact ⟨block, rcv.bufsize, by rw [← data], size, by omega⟩

theorem add2buf_drained (drained : rcv.Drained) (some' : bytes ≠ []) :
    ∃ block size, block.length = size ∧ bytes <+: block ∧
      add2buf rcv bytes = some { rcv with
        data := some block, bufsize := size, countNew := bytes.length
        count := rcv.count + bytes.length } := by
  obtain ⟨block, size, grown, length, room⟩ :=
    grow_room drained bytes.length (List.length_pos_iff.mpr some')
  refine ⟨bytes ++ block.drop bytes.length, size, ?_, List.prefix_append .., ?_⟩
  · rw [List.length_append, List.length_drop]
    omega
  · have start : rcv.count - rcv.offset = 0 := by
      rw [drained.read]
      omega
    simp only [add2buf, grown, Option.bind_eq_bind, Option.bind_some]
    rw [start, memcpy_inside block 0 (by omega)]
    simp

/-- Bytes that are due reach the callback as they are, and the buffer is empty again. -/
theorem pass_drained (drained : rcv.Drained) (collect : rcv.collect = true) (data : Bytes) (i n : Nat) (positive : 0 < n)
    (fits : i + n ≤ data.length) :
    ∃ block size, block.length = size ∧
      pass rcv data i n = some ({ rcv with
        data := some block, bufsize := size, countNew := 0
        count := rcv.count + n, offset := rcv.offset + n }, [(data.drop i).take n]) := by
  have length : ((data.drop i).take n).length = n := by
    rw [List.length_take, List.length_drop]
    omega
  have some' : (data.drop i).take n ≠ [] := by
    rw [← List.length_pos_iff, length]
    exact positive
  obtain ⟨block, size, sized, front, added⟩ := add2buf_drained drained some'
  refine ⟨block, size, sized, ?_⟩
  have room : 0 + ((data.drop i).take n).length ≤ block.length := by
    have := front.length_le
    omega
  have new : (block.drop 0).take ((data.drop i).take n).length = (data.drop i).take n :=
    (List.prefix_iff_eq_take.mp front).symm
  have read : rcv.offset + (rcv.count + n - rcv.offset) = rcv.offset + n := by
    rw [drained.read]
    omega
  unfold pass
  rw [if_pos collect, readBytes_inside data i n fits]
  simp only [Option.bind_eq_bind, Option.bind_some, added, notify, collect, if_true]
  rw [readBytes_inside block 0 _ room, new, length]
  simp only [Option.bind_some, read]
  rfl

end Buffer

/-- The callback has read the stream up to a place, but for the marked bytes, which were
urgent ones. A pointer that is still to come names a later place. -/
structure Hears (base : UInt32) (stream : Bytes) (urged : Nat → Prop) (rcv : HalfStream)
    (marks : List Bool) (out : Bytes) : Prop where
  drained : rcv.Drained
  collect : rcv.collect = true
  inside : marks.length ≤ stream.length
  text : out = sift marks (stream.take marks.length)
  count : rcv.count = out.length
  urgCount : rcv.urgCount = marks.count true
  marked : ∀ i, marks[i]? = some true → urged i
  pointer : rcv.urgSeen = true →
    ∃ i, rcv.urgPtr = word base i ∧ marks.length ≤ i ∧ i < stream.length + 65536 ∧ urged i

section Reading

variable {base : UInt32} {stream : Bytes} {urged : Nat → Prop} {snd rcv : HalfStream}
  {marks : List Bool} {out : Bytes}

theorem Hears.place (reads : Hears base stream urged rcv marks out) :
    rcv.count + rcv.urgCount = marks.length := by
  have length : (stream.take marks.length).length = marks.length := by
    rw [List.length_take]
    exact Nat.min_eq_left reads.inside
  rw [reads.count, reads.urgCount, reads.text, length_sift _ _ length.symm, length]

theorem Hears.expSeq (reads : Hears base stream urged rcv marks out)
    (start : snd.firstDataSeq = base) : expSeq snd rcv = word base marks.length := by
  rw [← reads.place, word_add, Bscope.expSeq, start]
  rfl

theorem Hears.mono (reads : Hears base stream urged rcv marks out) {urged' : Nat → Prop}
    (more : ∀ i, urged i → urged' i) : Hears base stream urged' rcv marks out where
  drained := reads.drained
  collect := reads.collect
  inside := reads.inside
  text := reads.text
  count := reads.count
  urgCount := reads.urgCount
  marked i mark := more i (reads.marked i mark)
  pointer seen := by
    obtain ⟨i, place, later, inside, here⟩ := reads.pointer seen
    exact ⟨i, place, later, inside, more i here⟩

theorem take_sift (reads : Hears base stream urged rcv marks out) (m : Nat) (new : Bytes)
    (tail : List Bool) (more : stream.take m = stream.take marks.length ++ new) :
    sift (marks ++ tail) (stream.take m) = out ++ sift tail new := by
  have aligned : marks.length = (stream.take marks.length).length := by
    rw [List.length_take]
    exact (Nat.min_eq_left reads.inside).symm
  rw [more, sift_append _ _ _ _ aligned, reads.text]

theorem sift_unmarked_tail (n : Nat) (new : Bytes) (size : new.length = n) :
    sift (List.replicate n false) new = new := by
  apply sift_unmarked
  · rw [List.length_replicate, size]
  · simp

/-- The bytes of a piece from the next place up to a later one, where no urgent byte
stands between. -/
theorem Hears.pass (reads : Hears base stream urged rcv marks out) {p : Piece UInt8}
    (of : p.Of stream) (start : p.pos ≤ marks.length) {m : Nat} (new : marks.length < m)
    (stop : m ≤ p.stop)
    (clear : rcv.urgSeen = true → ∃ i, rcv.urgPtr = word base i ∧ m ≤ i ∧
      i < stream.length + 65536 ∧ urged i) :
    ∃ rcv' bytes,
      Bscope.pass rcv p.body (marks.length - p.pos) (m - marks.length) = some (rcv', [bytes]) ∧
      bytes ≠ [] ∧ rcv.Kept rcv' ∧ rcv'.urgSeen = rcv.urgSeen ∧ rcv'.urgPtr = rcv.urgPtr ∧
      Hears base stream urged rcv' (marks ++ List.replicate (m - marks.length) false)
        (out ++ bytes) := by
  have length : p.stop = p.pos + p.body.length := rfl
  obtain ⟨block, size, sized, passed⟩ := pass_drained reads.drained reads.collect p.body
    (marks.length - p.pos) (m - marks.length) (by omega) (by omega)
  have size' : ((p.body.drop (marks.length - p.pos)).take (m - marks.length)).length =
      m - marks.length := by
    rw [List.length_take, List.length_drop]
    omega
  have some' : p.body ≠ [] := by
    intro empty
    rw [empty, List.length_nil] at length
    omega
  have end' := of.stop_le some'
  have whole : (marks ++ List.replicate (m - marks.length) false).length = m := by
    rw [List.length_append, List.length_replicate]
    omega
  refine ⟨_, _, passed, ?_, ?_, rfl, rfl, ?_⟩
  · rw [← List.length_pos_iff, size']
    omega
  · exact ⟨rfl, rfl, rfl, rfl, rfl, rfl, rfl, rfl, rfl, rfl, rfl, rfl⟩
  · refine ⟨⟨?_, nofun, ?_⟩, reads.collect, ?_, ?_, ?_, ?_, ?_, ?_⟩
    · intro block' same
      rw [← Option.some.inj same]
      exact sized
    · show rcv.offset + _ = rcv.count + _
      rw [reads.drained.read]
    · rw [whole]
      omega
    · rw [whole, take_sift reads m _ _ (of.take_append start (Nat.le_of_lt new) stop),
        sift_unmarked_tail _ _ size']
    · show rcv.count + _ = _
      rw [List.length_append, size', reads.count]
    · show rcv.urgCount = _
      rw [reads.urgCount, List.count_append, List.count_replicate]
      rfl
    · intro i mark
      apply reads.marked i
      rw [List.getElem?_append] at mark
      split at mark
      · exact mark
      · simp [List.getElem?_replicate] at mark
    · rw [whole]
      exact clear

/-- The urgent byte itself. -/
theorem Hears.urgent (reads : Hears base stream urged rcv marks out) (byte : UInt8)
    (here : stream[marks.length]? = some byte) (due : urged marks.length) :
    Hears base stream urged (takeUrg rcv byte) (marks ++ [true]) out := by
  obtain ⟨inside, there⟩ := List.getElem?_eq_some_iff.mp here
  have length : (marks ++ [true]).length = marks.length + 1 := List.length_append
  refine ⟨⟨reads.drained.sized, reads.drained.unset, reads.drained.read⟩, reads.collect,
    ?_, ?_, reads.count, ?_, ?_, nofun⟩
  · rw [length]
    exact inside
  · have more : stream.take (marks.length + 1) = stream.take marks.length ++ [byte] := by
      rw [List.take_add_one, here]
      rfl
    rw [length, take_sift reads _ _ _ more]
    simp [sift]
  · show rcv.urgCount + 1 = _
    rw [reads.urgCount, List.count_append]
    rfl
  · intro i mark
    rw [List.getElem?_append] at mark
    split at mark
    · exact reads.marked i mark
    · have last : i = marks.length := by
        have short := (List.getElem?_eq_some_iff.mp mark).1
        rw [List.length_singleton] at short
        omega
      rw [last]
      exact due

/-- What a step of the reader gives: it has read up to the place `m`, in blocks that are
not empty. -/
structure Reaches (base : UInt32) (stream : Bytes) (urged : Nat → Prop) (rcv : HalfStream)
    (out : Bytes) (m : Nat) (rcv' : HalfStream) (new : List Bytes) : Prop where
  kept : rcv.Kept rcv'
  filled : ∀ bytes ∈ new, bytes ≠ []
  reads : ∃ marks : List Bool, marks.length = m ∧
    Hears base stream urged rcv' marks (out ++ new.flatten)

theorem Hears.reaches (reads : Hears base stream urged rcv marks out) :
    Reaches base stream urged rcv out marks.length rcv [] where
  kept := .refl rcv
  filled := nofun
  reads := ⟨marks, rfl, by simpa using reads⟩

theorem Reaches.trans {rcv₁ rcv₂ : HalfStream} {m m' : Nat} {first second : List Bytes}
    (reaches : Reaches base stream urged rcv out m rcv₁ first)
    (reaches' : Reaches base stream urged rcv₁ (out ++ first.flatten) m' rcv₂ second) :
    Reaches base stream urged rcv out m' rcv₂ (first ++ second) where
  kept := reaches.kept.trans reaches'.kept
  filled bytes member := by
    rcases List.mem_append.mp member with early | late
    · exact reaches.filled bytes early
    · exact reaches'.filled bytes late
  reads := by
    obtain ⟨marks, length, reads⟩ := reaches'.reads
    refine ⟨marks, length, ?_⟩
    rw [List.flatten_append, ← List.append_assoc]
    exact reads

/-- The same where there may be none. -/
theorem Hears.passSome (reads : Hears base stream urged rcv marks out) {p : Piece UInt8}
    (of : p.Of stream) (start : p.pos ≤ marks.length) {m : Nat} (order : marks.length ≤ m)
    (stop : m ≤ p.stop) (near : m < marks.length + 2 ^ 31)
    (clear : rcv.urgSeen = true → ∃ i, rcv.urgPtr = word base i ∧ m ≤ i ∧
      i < stream.length + 65536 ∧ urged i)
    {n : UInt32} (number : n.toNat = m - marks.length) :
    ∃ rcv' new, Bscope.passSome rcv p.body (marks.length - p.pos) n = some (rcv', new) ∧
      rcv'.urgPtr = rcv.urgPtr ∧ Reaches base stream urged rcv out m rcv' new := by
  have sign := positive_iff n (by omega)
  unfold Bscope.passSome
  by_cases more : marks.length < m
  · obtain ⟨rcv', bytes, passed, filled, kept, -, pointer, reads'⟩ :=
      reads.pass of start more stop clear
    rw [if_pos (sign.mpr (by omega)), number, passed]
    refine ⟨rcv', [bytes], rfl, pointer, kept, by simpa using filled, _, ?_, by simpa using reads'⟩
    rw [List.length_append, List.length_replicate]
    omega
  · have same : m = marks.length := by omega
    rw [if_neg fun positive => absurd (sign.mp positive) (by omega), same]
    exact ⟨rcv, [], rfl, rfl, reads.reaches⟩

theorem noteUrg_kept (snd rcv : HalfStream) (urg : Bool) (urgPtr : UInt32) :
    rcv.Kept (noteUrg snd rcv urg urgPtr) := by
  unfold noteUrg
  split
  · exact ⟨rfl, rfl, rfl, rfl, rfl, rfl, rfl, rfl, rfl, rfl, rfl, rfl⟩
  · exact .refl rcv

theorem takeUrg_kept (rcv : HalfStream) (byte : UInt8) : rcv.Kept (takeUrg rcv byte) :=
  ⟨rfl, rfl, rfl, rfl, rfl, rfl, rfl, rfl, rfl, rfl, rfl, rfl⟩

section Segments

variable {s : Segment} (short : stream.length + 65536 < 2 ^ 31)
include short

theorem Hears.noteUrg (reads : Hears base stream urged rcv marks out)
    (start : snd.firstDataSeq = base) (of : s.Of base stream)
    (due : s.hdr.urg = true →
      ∀ i, i + 1 = (s.piece base).pos + s.hdr.urp.toNat → urged i) :
    Hears base stream urged
      (Bscope.noteUrg snd rcv s.hdr.urg (s.hdr.urp.toUInt32 + s.hdr.seq - 1)) marks out := by
  unfold Bscope.noteUrg
  split
  case isFalse => exact reads
  case isTrue new =>
    obtain ⟨urg, behind, -⟩ := new
    have near := of.start
    have bound : s.hdr.urp.toNat < 65536 := s.hdr.urp.toNat_lt
    have inside := reads.inside
    have later : marks.length < (s.piece base).pos + s.hdr.urp.toNat := by
      rw [seqAfter, negative_sub_one_sub, urgPtr_place, reads.expSeq start,
        negative_word_sub _ _ _ (by omega) (by omega)] at behind
      exact behind
    refine ⟨⟨reads.drained.sized, reads.drained.unset, reads.drained.read⟩,
      reads.collect, reads.inside, reads.text, reads.count, reads.urgCount, reads.marked, ?_⟩
    intro _
    refine ⟨(s.piece base).pos + s.hdr.urp.toNat - 1, ?_, by omega, by omega, ?_⟩
    · have place := urgPtr_place base s
      have last : (s.piece base).pos + s.hdr.urp.toNat =
          (s.piece base).pos + s.hdr.urp.toNat - 1 + 1 := by omega
      rw [last, word_add] at place
      exact (UInt32.add_left_inj 1).mp place
    · exact due urg _ (by omega)

/-- What the places of a segment are in words, at the place `n` of the stream. -/
structure At (base : UInt32) (s : Segment) (lost : UInt32) (n : Nat) : Prop where
  first : (s.piece base).pos ≤ n
  stop : n ≤ (s.piece base).stop
  next : s.hdr.seq + lost = word base n
  skipped : lost.toNat = n - (s.piece base).pos
  last : s.hdr.seq + UInt32.ofNat s.data.length = word base (s.piece base).stop

/-- Bytes with the urgent one at the place `i` among them. -/
theorem Hears.passAround (reads : Hears base stream urged rcv marks out) (of : s.Of base stream)
    {lost : UInt32} (here : At base s lost marks.length) {i : Nat}
    (pointer : rcv.urgPtr = word base i) (later : marks.length ≤ i) (due : urged i)
    (within : i < (s.piece base).stop) :
    ∃ rcv' new, Bscope.passAround rcv s.data s.hdr.seq lost = some (rcv', new) ∧
      Reaches base stream urged rcv out (s.piece base).stop rcv' new := by
  have stop := of.stop
  have first := here.first
  have length : (s.piece base).stop = (s.piece base).pos + s.data.length := rfl
  have toCopy : (rcv.urgPtr - (s.hdr.seq + lost)).toNat = i - marks.length := by
    rw [here.next, pointer, toNat_word_sub _ _ _ later (by omega)]
  have at' : (rcv.urgPtr - s.hdr.seq).toNat = i - (s.piece base).pos := by
    rw [pointer, ← seq_eq base s, toNat_word_sub _ _ _ (by omega) (by omega)]
  have toCopy2 : (s.hdr.seq + UInt32.ofNat s.data.length - rcv.urgPtr - 1).toNat =
      (s.piece base).stop - (i + 1) := by
    have behind : word base (s.piece base).stop - word base i - 1 =
        word base (s.piece base).stop - word base (i + 1) := by
      rw [word_add base i 1]
      show _ = _ - (_ + 1)
      grind
    rw [here.last, pointer, behind, toNat_word_sub _ _ _ within (by omega)]
  -- up to the urgent byte
  obtain ⟨rcv₁, new₁, passed₁, same, reaches₁⟩ := reads.passSome of.body first later
    (Nat.le_of_lt within) (by omega) (fun _ => ⟨i, pointer, Nat.le_refl i, by omega, due⟩) toCopy
  obtain ⟨marks₁, size₁, reads₁⟩ := reaches₁.reads
  -- the urgent byte
  obtain ⟨byte, found⟩ : ∃ byte, s.data[i - (s.piece base).pos]? = some byte :=
    ⟨_, List.getElem?_eq_getElem (by omega)⟩
  have urgent := reads₁.urgent byte (by
    rw [size₁]
    exact of.body.getElem? (by omega) found) (by rw [size₁]; exact due)
  have size₂ : (marks₁ ++ [true]).length = i + 1 := by
    rw [List.length_append, size₁]
    rfl
  -- and behind it
  rw [← size₂] at toCopy2
  have pointer₁ : (takeUrg rcv₁ byte).urgPtr = rcv.urgPtr := same
  obtain ⟨rcv₂, new₂, passed₂, -, reaches₂⟩ := urgent.passSome of.body (by omega)
    (by omega) (Nat.le_refl _) (by omega) nofun toCopy2
  refine ⟨rcv₂, new₁ ++ new₂, ?_, reaches₁.trans ⟨?_, reaches₂.filled, reaches₂.reads⟩⟩
  · have offset : lost.toNat + (i - marks.length) + 1 = i + 1 - (s.piece base).pos := by
      rw [here.skipped]
      omega
    rw [size₂, ← offset] at passed₂
    rw [← here.skipped] at passed₁
    have body : (s.piece base).body = s.data := rfl
    rw [body] at passed₁ passed₂
    simp only [Bscope.passAround, Option.bind_eq_bind, toCopy, passed₁, Option.bind_some, same,
      pointer₁, at', found, passed₂]
    rfl
  · exact (takeUrg_kept rcv₁ byte).trans reaches₂.kept

theorem Hears.passNew (reads : Hears base stream urged rcv marks out) (of : s.Of base stream)
    {lost : UInt32} (here : At base s lost marks.length) :
    ∃ rcv' new, Bscope.passNew rcv s.data s.hdr.seq lost = some (rcv', new) ∧
      Reaches base stream urged rcv out (s.piece base).stop rcv' new := by
  have stop := of.stop
  have first := here.first
  have inside := here.stop
  have length : (s.piece base).stop = (s.piece base).pos + s.data.length := rfl
  unfold Bscope.passNew
  dsimp only
  split
  case isTrue urgent =>
    obtain ⟨seen, -, before⟩ := urgent
    obtain ⟨i, pointer, later, near, due⟩ := reads.pointer seen
    rw [seqBefore, here.last, pointer, negative_word_sub _ _ _ (by omega) (by omega)] at before
    exact reads.passAround short of here pointer later due before
  case isFalse plain =>
    have clear : rcv.urgSeen = true → ∃ i, rcv.urgPtr = word base i ∧ (s.piece base).stop ≤ i ∧
        i < stream.length + 65536 ∧ urged i := by
      intro seen
      obtain ⟨i, pointer, later, near, due⟩ := reads.pointer seen
      have behind : seqAfter (rcv.urgPtr + 1) (s.hdr.seq + lost) := by
        have next : word base i + 1 = word base (i + 1) := (word_add base i 1).symm
        rw [seqAfter, here.next, pointer, next, negative_word_sub _ _ _ (by omega) (by omega)]
        omega
      refine ⟨i, pointer, ?_, near, due⟩
      by_contra within
      apply plain
      refine ⟨seen, behind, ?_⟩
      rw [seqBefore, here.last, pointer, negative_word_sub _ _ _ (by omega) (by omega)]
      omega
    have number : (UInt32.ofNat s.data.length - lost).toNat =
        (s.piece base).stop - marks.length := by
      have rest : UInt32.ofNat s.data.length - lost =
          word base (s.piece base).stop - word base marks.length := by
        rw [← here.last, ← here.next]
        grind
      rw [rest, toNat_word_sub _ _ _ here.stop (by omega)]
    obtain ⟨rcv', new, passed, -, reaches⟩ :=
      reads.passSome of.body first here.stop (Nat.le_refl _) (by omega) clear number
    refine ⟨rcv', new, ?_, reaches⟩
    have sign : UInt32.ofNat s.data.length - lost > 0 ↔
        0 < (UInt32.ofNat s.data.length - lost).toInt32 := by
      rw [positive_iff _ (by omega)]
      exact UInt32.lt_iff_toNat_lt
    rw [here.skipped, if_congr sign rfl rfl]
    exact passed

/-- A segment that reaches the next place, or a queued one that does: its bytes from
there on are read, without the urgent one where it is among them. -/
theorem Hears.addFromSkb (reads : Hears base stream urged rcv marks out)
    (start : snd.firstDataSeq = base) (of : s.Of base stream)
    (due : s.hdr.urg = true →
      ∀ i, i + 1 = (s.piece base).pos + s.hdr.urp.toNat → urged i)
    (first : (s.piece base).pos ≤ marks.length) (stop : marks.length ≤ (s.piece base).stop) :
    ∃ rcv' new,
      Bscope.addFromSkb snd rcv s.data s.hdr.seq s.hdr.fin s.hdr.urg
          (s.hdr.urp.toUInt32 + s.hdr.seq - 1) =
        some (if s.hdr.fin then { snd with state := .finSent } else snd, rcv', new) ∧
      Reaches base stream urged rcv out (s.piece base).stop rcv' new := by
  have noted := reads.noteUrg short start of due
  have near := of.start
  have inside := reads.inside
  have next := reads.expSeq start
  have here : At base s (Bscope.expSeq snd rcv - s.hdr.seq) marks.length := by
    refine ⟨first, stop, ?_, ?_, ?_⟩
    · rw [next]
      grind
    · rw [next, ← seq_eq base s, toNat_word_sub _ _ _ first (by omega)]
    · have length : (s.piece base).stop = (s.piece base).pos + s.data.length := rfl
      rw [length, word_add, seq_eq]
  obtain ⟨rcv', new, passed, reaches⟩ := noted.passNew short of here
  refine ⟨rcv', new, ?_, ?_⟩
  · simp only [Bscope.addFromSkb, Option.bind_eq_bind, passed, Option.bind_some]
    rfl
  · exact ⟨(noteUrg_kept ..).trans reaches.kept, reaches.filled, reaches.reads⟩

end Segments

end Reading

end Bscope
