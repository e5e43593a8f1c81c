import Bscope.TcpQueue

set_option autoImplicit false

/- The queue of one direction on segments of any kind, also such as no peer would send:
nothing is read or written outside a block, and the queue is counted right. -/
namespace Bscope

open Serial

/-- What a step makes of a half stream, and what it hands on. -/
structure Served (rcv rcv' : HalfStream) (out : List Bytes) : Prop where
  drained : rcv'.Drained
  kept : rcv.Kept rcv'
  filled : ∀ bytes ∈ out, bytes ≠ []
  silent : rcv.collect = false → out = []

theorem HalfStream.Drained.served {rcv : HalfStream} (drained : rcv.Drained) : Served rcv rcv [] :=
  ⟨drained, .refl rcv, nofun, fun _ => rfl⟩

theorem Served.trans {a b c : HalfStream} {first second : List Bytes} (served : Served a b first)
    (served' : Served b c second) : Served a c (first ++ second) where
  drained := served'.drained
  kept := served.kept.trans served'.kept
  filled bytes member := by
    rcases List.mem_append.mp member with early | late
    · exact served.filled bytes early
    · exact served'.filled bytes late
  silent quiet := by
    have quiet' : b.collect = false := served.kept.collect.trans quiet
    rw [served.silent quiet, served'.silent quiet']
    rfl

section Safety

variable {rcv : HalfStream} (drained : rcv.Drained)
include drained

theorem pass_safe (data : Bytes) (i n : Nat) (positive : 0 < n) (fits : i + n ≤ data.length) :
    ∃ rcv' out, pass rcv data i n = some (rcv', out) ∧ rcv'.urgPtr = rcv.urgPtr ∧
      Served rcv rcv' out := by
  cases collect : rcv.collect with
  | true =>
      obtain ⟨block, size, sized, passed⟩ := pass_drained drained collect data i n positive fits
      refine ⟨_, _, passed, rfl, ⟨?_, nofun, ?_⟩, ?_, ?_, ?_⟩
      · intro block' same
        rw [← Option.some.inj same]
        exact sized
      · show rcv.offset + n = rcv.count + n
        rw [drained.read]
      · exact ⟨rfl, rfl, rfl, rfl, rfl, rfl, rfl, rfl, rfl, rfl, rfl, rfl⟩
      · intro bytes member
        rw [List.mem_singleton.mp member, ← List.length_pos_iff, List.length_take, List.length_drop]
        omega
      · rw [collect]
        exact nofun
  | false =>
      refine ⟨{ rcv with count := rcv.count + n, offset := rcv.count + n }, [], ?_, rfl,
        ⟨drained.sized, drained.unset, rfl⟩, ?_, nofun, fun _ => rfl⟩
      · rw [pass, collect]
        rfl
      · exact ⟨rfl, rfl, rfl, rfl, rfl, rfl, rfl, rfl, rfl, rfl, rfl, rfl⟩

theorem passSome_safe (data : Bytes) (i : Nat) (n : UInt32) (small : n.toNat < 2 ^ 31)
    (fits : i + n.toNat ≤ data.length) :
    ∃ rcv' out, passSome rcv data i n = some (rcv', out) ∧ rcv'.urgPtr = rcv.urgPtr ∧
      Served rcv rcv' out := by
  have sign := positive_iff n small
  unfold passSome
  split
  case isTrue positive => exact pass_safe drained data i n.toNat (sign.mp positive) fits
  case isFalse => exact ⟨rcv, [], rfl, rfl, drained.served⟩

/-- The urgent byte stands among the new ones, `u` bytes behind the first of all. -/
theorem passAround_safe (data : Bytes) (thisSeq lost : UInt32) (u : Nat)
    (small : data.length < 65536) (pointer : rcv.urgPtr = word thisSeq u)
    (later : lost.toNat ≤ u) (within : u < data.length) :
    ∃ rcv' out, passAround rcv data thisSeq lost = some (rcv', out) ∧ Served rcv rcv' out := by
  have next : thisSeq + lost = word thisSeq lost.toNat := by
    rw [word, UInt32.ofNat_toNat]
  have last : thisSeq + UInt32.ofNat data.length = word thisSeq data.length := rfl
  have first : thisSeq = word thisSeq 0 := (word_zero thisSeq).symm
  have toCopy : (rcv.urgPtr - (thisSeq + lost)).toNat = u - lost.toNat := by
    rw [pointer, next, toNat_word_sub _ _ _ later (by omega)]
  have place : (rcv.urgPtr - thisSeq).toNat = u := by
    have there := toNat_word_sub thisSeq 0 u (Nat.zero_le u) (by omega)
    rw [word_zero, Nat.sub_zero] at there
    rw [pointer, there]
  have toCopy2 : (thisSeq + UInt32.ofNat data.length - rcv.urgPtr - 1).toNat =
      data.length - (u + 1) := by
    have behind : word thisSeq data.length - word thisSeq u - 1 =
        word thisSeq data.length - word thisSeq (u + 1) := by
      rw [word_add thisSeq u 1]
      show _ = _ - (_ + 1)
      grind
    rw [last, pointer, behind, toNat_word_sub _ _ _ within (by omega)]
  obtain ⟨rcv₁, out₁, passed₁, same, served₁⟩ := passSome_safe drained data lost.toNat
    (rcv.urgPtr - (thisSeq + lost)) (by omega) (by omega)
  obtain ⟨byte, found⟩ : ∃ byte, data[u]? = some byte := ⟨_, List.getElem?_eq_getElem within⟩
  have taken : (takeUrg rcv₁ byte).Drained :=
    ⟨served₁.drained.sized, served₁.drained.unset, served₁.drained.read⟩
  have pointer₁ : (takeUrg rcv₁ byte).urgPtr = rcv.urgPtr := same
  obtain ⟨rcv₂, out₂, passed₂, -, served₂⟩ := passSome_safe taken data
    (lost.toNat + (u - lost.toNat) + 1) (thisSeq + UInt32.ofNat data.length - rcv.urgPtr - 1)
    (by omega) (by omega)
  refine ⟨rcv₂, out₁ ++ out₂, ?_, served₁.trans ⟨served₂.drained, ?_, served₂.filled, ?_⟩⟩
  · simp only [passAround, Option.bind_eq_bind, toCopy, passed₁, Option.bind_some, same, pointer₁,
      place, found, passed₂]
    rfl
  · exact (takeUrg_kept rcv₁ byte).trans served₂.kept
  · exact served₂.silent

theorem passNew_safe (data : Bytes) (thisSeq lost : UInt32) (small : data.length < 65536)
    (new : lost.toNat ≤ data.length) :
    ∃ rcv' out, passNew rcv data thisSeq lost = some (rcv', out) ∧ Served rcv rcv' out := by
  have next : thisSeq + lost = word thisSeq lost.toNat := by
    rw [word, UInt32.ofNat_toNat]
  have last : thisSeq + UInt32.ofNat data.length = word thisSeq data.length := rfl
  have pointer : rcv.urgPtr = word thisSeq (rcv.urgPtr - thisSeq).toNat :=
    (word_toNat_sub thisSeq rcv.urgPtr).symm
  have round : (rcv.urgPtr - thisSeq).toNat < 2 ^ 32 := UInt32.toNat_lt _
  unfold passNew
  dsimp only
  split
  case isTrue urgent =>
    obtain ⟨-, behind, before⟩ := urgent
    generalize (rcv.urgPtr - thisSeq).toNat = u at pointer round
    have step : rcv.urgPtr + 1 = word thisSeq (u + 1) := by
      rw [pointer]
      exact (word_add thisSeq u 1).symm
    rw [seqAfter, step, next] at behind
    have near : u + 1 ≤ lost.toNat + 2 ^ 31 := by
      by_contra far
      exact negative_word_sub_far thisSeq _ _ (by omega) (by omega) behind
    have later : lost.toNat ≤ u := by
      by_cases half : u + 1 = lost.toNat + 2 ^ 31
      · omega
      · rw [negative_word_sub _ _ _ (by omega) (by omega)] at behind
        omega
    rw [seqBefore, last, pointer, negative_word_sub _ _ _ (by omega) (by omega)] at before
    exact passAround_safe drained data thisSeq lost u small pointer later before
  case isFalse =>
    have number : (UInt32.ofNat data.length - lost).toNat = data.length - lost.toNat := by
      have rest : UInt32.ofNat data.length - lost =
          word thisSeq data.length - word thisSeq lost.toNat := by
        rw [← last, ← next]
        grind
      rw [rest, toNat_word_sub _ _ _ new (by omega)]
    split
    case isTrue positive =>
      have more : 0 < (UInt32.ofNat data.length - lost).toNat := UInt32.lt_iff_toNat_lt.mp positive
      obtain ⟨rcv', out, passed, -, served⟩ :=
        pass_safe drained data lost.toNat (UInt32.ofNat data.length - lost).toNat more (by omega)
      exact ⟨rcv', out, passed, served⟩
    case isFalse => exact ⟨rcv, [], rfl, drained.served⟩

end Safety

/-- A segment that ends behind the number expected has as many bytes as are before that. -/
theorem lost_le (thisSeq exp : UInt32) (len : Nat) (fin : Bool) (small : len < 65536)
    (first : ¬ seqAfter thisSeq exp)
    (last : seqAfter (thisSeq + UInt32.ofNat len + (if fin then 1 else 0)) exp) :
    (exp - thisSeq).toNat ≤ len := by
  have bit : fin.toNat ≤ 1 := Bool.toNat_le fin
  have near : (exp - thisSeq).toNat < 2 ^ 31 := by
    rw [seqAfter, negative_iff] at first
    omega
  have stop : thisSeq + UInt32.ofNat len + (if fin then 1 else 0) =
      word thisSeq (len + fin.toNat) := by
    rw [word_add, word]
    cases fin <;> rfl
  rw [seqAfter, stop, ← word_toNat_sub thisSeq exp,
    negative_word_sub _ _ _ (by omega) (by omega)] at last
  omega

/-- A half stream between two packets, whatever they were. -/
structure HalfStream.Bounded (h : HalfStream) : Prop where
  drained : h.Drained
  small : ∀ p ∈ h.list, p.data.length < 65536
  tally : h.rmemAlloc = truesizes h.list

/-- What `tcp_queue` may change of the two halves. -/
structure Handled (snd rcv snd' rcv' : HalfStream) (out : List Bytes) : Prop where
  sender : snd' = { snd with state := snd'.state, currTs := snd'.currTs }
  told : snd'.state = snd.state ∨ snd'.state = .finSent ∨ snd'.state = .closing
  bounded : rcv'.Bounded
  kept : (rcv.requeue rcv'.rmemAlloc rcv'.list).Kept rcv'
  filled : ∀ bytes ∈ out, bytes ≠ []
  silent : rcv.collect = false → out = []

theorem addFromSkb_safe (snd : HalfStream) {rcv : HalfStream} (drained : rcv.Drained) (data : Bytes)
    (thisSeq : UInt32) (fin urg : Bool) (urgPtr : UInt32) (small : data.length < 65536)
    (new : (expSeq snd rcv - thisSeq).toNat ≤ data.length) :
    ∃ rcv' out, addFromSkb snd rcv data thisSeq fin urg urgPtr =
        some (if fin then { snd with state := .finSent } else snd, rcv', out) ∧
      Served rcv rcv' out := by
  have kept := noteUrg_kept snd rcv urg urgPtr
  have noted : (noteUrg snd rcv urg urgPtr).Drained := by
    unfold noteUrg
    split
    · exact ⟨drained.sized, drained.unset, drained.read⟩
    · exact drained
  obtain ⟨rcv', out, passed, served⟩ := passNew_safe noted data thisSeq _ small new
  refine ⟨rcv', out, ?_, served.drained, kept.trans served.kept, served.filled, ?_⟩
  · simp only [addFromSkb, Option.bind_eq_bind, passed, Option.bind_some]
    rfl
  · intro quiet
    exact served.silent (kept.collect.trans quiet)

theorem addVisible_safe {snd rcv : HalfStream} (drained : rcv.Drained) (p : SkBuff)
    (small : p.data.length < 65536) (first : ¬ seqAfter p.seq (expSeq snd rcv)) :
    ∃ snd' rcv' out, addVisible snd rcv p = some (snd', rcv', out) ∧ Served rcv rcv' out ∧
      (snd' = snd ∨ snd' = { snd with state := .finSent }) := by
  unfold addVisible
  by_cases last : seqAfter (p.seq + UInt32.ofNat p.data.length + (if p.fin then 1 else 0))
      (expSeq snd rcv)
  · rw [if_pos last]
    have new := lost_le p.seq (expSeq snd rcv) p.data.length p.fin small first last
    obtain ⟨rcv', out, added, served⟩ := addFromSkb_safe snd drained p.data p.seq p.fin p.urg
      (p.urgPtr.toUInt32 + p.seq - 1) small new
    refine ⟨_, rcv', out, added, served, ?_⟩
    cases p.fin with
    | false => exact Or.inl rfl
    | true => exact Or.inr rfl
  · rw [if_neg last]
    exact ⟨snd, rcv, [], rfl, drained.served, Or.inl rfl⟩

theorem forward_safe (rest : List SkBuff) :
    ∀ (snd rcv : HalfStream), rcv.Drained → (∀ p ∈ rest, p.data.length < 65536) →
      rcv.rmemAlloc = truesizes rest →
      ∃ snd' rcv' out, forward snd rcv rest = some (snd', rcv', out) ∧
        Handled snd rcv snd' rcv' out := by
  induction rest with
  | nil =>
      intro snd rcv drained small tally
      exact ⟨snd, rcv.requeue rcv.rmemAlloc [], [], rfl, rfl, Or.inl rfl,
        ⟨⟨drained.sized, drained.unset, drained.read⟩, nofun, tally⟩, .refl _, nofun, fun _ => rfl⟩
  | cons p rest ih =>
      intro snd rcv drained small tally
      unfold forward
      split
      case isTrue =>
        exact ⟨snd, rcv.requeue rcv.rmemAlloc (p :: rest), [], rfl, rfl, Or.inl rfl,
          ⟨⟨drained.sized, drained.unset, drained.read⟩, small, tally⟩, .refl _, nofun,
          fun _ => rfl⟩
      case isFalse first =>
        obtain ⟨snd₁, rcv₁, out₁, added, served, told⟩ :=
          addVisible_safe drained p (small p List.mem_cons_self) first
        have alloc : rcv₁.rmemAlloc - p.truesize = truesizes rest := by
          rw [served.kept.rmemAlloc, tally, truesizes]
          omega
        obtain ⟨snd', rcv', out', rest', done⟩ := ih snd₁
          (rcv₁.requeue (rcv₁.rmemAlloc - p.truesize) rest)
          ⟨served.drained.sized, served.drained.unset, served.drained.read⟩
          (fun q later => small q (List.mem_cons_of_mem p later)) alloc
        refine ⟨snd', rcv', out₁ ++ out', ?_, ?_, ?_, done.bounded,
          (served.kept.requeue _ _).trans done.kept, ?_, ?_⟩
        · rw [HalfStream.requeue] at rest'
          simp only [added, Option.bind_eq_bind, Option.bind_some, rest']
          rfl
        · have sender := done.sender
          rcases told with same | fin
          · rw [← same]
            exact sender
          · rw [fin] at sender
            exact sender
        · rcases told with same | fin
          · rw [← same]
            exact done.told
          · have told' := done.told
            rw [fin] at told'
            rcases told' with kept | finSent | closing
            · exact Or.inr (Or.inl kept)
            · exact Or.inr (Or.inl finSent)
            · exact Or.inr (Or.inr closing)
        · intro bytes member
          rcases List.mem_append.mp member with early | late
          · exact served.filled bytes early
          · exact done.filled bytes late
        · intro quiet
          have quiet' : rcv₁.collect = false := served.kept.collect.trans quiet
          rw [served.silent quiet, done.silent quiet']
          rfl

theorem tcpQueue_safe {snd rcv : HalfStream} (bounded : rcv.Bounded) (s : Segment)
    (small : s.data.length < 65536) :
    ∃ snd' rcv' out, tcpQueue snd rcv s = some (snd', rcv', out) ∧
      Handled snd rcv snd' rcv' out := by
  unfold tcpQueue
  by_cases first : seqAfter s.hdr.seq (expSeq snd rcv)
  case neg =>
    rw [if_pos first]
    by_cases last : seqAfter (s.hdr.seq + UInt32.ofNat s.data.length +
        (if s.hdr.fin then 1 else 0)) (expSeq snd rcv)
    case pos =>
      rw [if_pos last]
      have new := lost_le s.hdr.seq (expSeq snd rcv) s.data.length s.hdr.fin small first last
      obtain ⟨rcv₁, out₁, added, served⟩ := addFromSkb_safe
        { snd with currTs := (getTs s.hdr).getD snd.currTs } bounded.drained s.data
        s.hdr.seq s.hdr.fin s.hdr.urg (s.hdr.urp.toUInt32 + s.hdr.seq - 1) small new
      have list := served.kept.list
      obtain ⟨snd', rcv', out', rest', done⟩ := forward_safe rcv₁.list
        (if s.hdr.fin then { snd with currTs := (getTs s.hdr).getD snd.currTs, state := .finSent }
          else { snd with currTs := (getTs s.hdr).getD snd.currTs }) rcv₁ served.drained
        (by rw [list]; exact bounded.small)
        (by rw [served.kept.rmemAlloc, list, bounded.tally])
      refine ⟨snd', rcv', out₁ ++ out', ?_, ?_, ?_, done.bounded,
        (served.kept.requeue _ _).trans done.kept, ?_, ?_⟩
      · simp only [added, Option.bind_eq_bind, Option.bind_some, rest']
        rfl
      · rw [done.sender]
        split <;> rfl
      · have told := done.told
        cases fin : s.hdr.fin with
        | false => simpa [fin] using told
        | true =>
            simp only [fin, if_true] at told
            tauto
      · intro bytes member
        rcases List.mem_append.mp member with early | late
        · exact served.filled bytes early
        · exact done.filled bytes late
      · intro quiet
        have quiet' : rcv₁.collect = false := served.kept.collect.trans quiet
        rw [served.silent quiet, done.silent quiet']
        rfl
    case neg =>
      rw [if_neg last]
      exact ⟨snd, rcv, [], rfl, rfl, Or.inl rfl, bounded, .refl _, nofun, fun _ => rfl⟩
  case pos =>
    rw [if_neg (not_not_intro first)]
    have members : ∀ q, q ∈ (enqueue snd rcv s).2.list ↔ q = s.skbuff ∨ q ∈ rcv.list := by
      intro q
      show q ∈ (insertFrom s.skbuff rcv.list.reverse).reverse ↔ _
      rw [List.mem_reverse, mem_insertFrom, List.mem_reverse]
    refine ⟨_, _, [], rfl, ?_, ?_, ⟨?_, ?_, ?_⟩, .refl _, nofun, fun _ => rfl⟩
    · split <;> rfl
    · split
      · exact Or.inr (Or.inr rfl)
      · exact Or.inl rfl
    · exact ⟨bounded.drained.sized, bounded.drained.unset, bounded.drained.read⟩
    · intro q member
      rcases (members q).mp member with same | old
      · rw [same]
        exact small
      · exact bounded.small q old
    · show rcv.rmemAlloc + s.skblen = truesizes (insertFrom s.skbuff rcv.list.reverse).reverse
      rw [truesizes_reverse, truesizes_insertFrom, truesizes_reverse, bounded.tally]
      show _ = (s.skblen : Int) + _
      omega

end Bscope
