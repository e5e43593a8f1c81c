import Bscope.UrlDecoding

set_option autoImplicit false

/- What `urldecode` makes of encoded strings, and of strings whose last escape is cut
off. -/
namespace Bscope

open Overwrite

/-- `e` is a form encoding of `s`. -/
inductive FormEncodes : Bytes → Bytes → Prop
  | nil : FormEncodes [] []
  | literal (c : UInt8) (e s : Bytes) (safe : c ≠ 37 ∧ c ≠ 43 ∧ c ≠ 32) (rest : FormEncodes e s) :
      FormEncodes (c :: e) (c :: s)
  | escape (high low : UInt8) (h l : Nat) (e s : Bytes)
      (digits : hexValue high = some h ∧ hexValue low = some l) (rest : FormEncodes e s) :
      FormEncodes (37 :: high :: low :: e) ((h * 16 + l).toUInt8 :: s)
  | space (e s : Bytes) (rest : FormEncodes e s) : FormEncodes (43 :: e) (32 :: s)

theorem strtoulHex_digits (high low : UInt8) (h l : Nat) (first : hexValue high = some h)
    (second : hexValue low = some l) : strtoulHex high low = h * 16 + l := by
  simp only [strtoulHex, first, second]

theorem FormEncodes.pieces (e s : Bytes) (encoded : FormEncodes e s) :
    ∃ ts : List Piece, (∀ t ∈ ts, t.Fits) ∧ e = ts.flatMap Piece.text ∧ s = ts.map Piece.byte := by
  induction encoded with
  | nil => exact ⟨[], nofun, rfl, rfl⟩
  | literal c e s safe rest ih =>
      obtain ⟨ts, fits, rfl, rfl⟩ := ih
      have byte : (Piece.plain c).byte = c := if_neg safe.2.1
      refine ⟨.plain c :: ts, List.forall_mem_cons.mpr ⟨safe.1, fits⟩, rfl, ?_⟩
      rw [List.map_cons, byte]
  | escape high low h l e s digits rest ih =>
      obtain ⟨ts, fits, rfl, rfl⟩ := ih
      have coded : (Piece.code high low).Fits :=
        ⟨Option.isSome_of_eq_some digits.1, Option.isSome_of_eq_some digits.2⟩
      refine ⟨.code high low :: ts, List.forall_mem_cons.mpr ⟨coded, fits⟩, rfl, ?_⟩
      rw [List.map_cons, Piece.byte, strtoulHex_digits high low h l digits.1 digits.2]
  | space e s rest ih =>
      obtain ⟨ts, fits, rfl, rfl⟩ := ih
      have plus : (Piece.plain 43).Fits := by
        change (43 : UInt8) ≠ 37
        decide
      exact ⟨.plain 43 :: ts, List.forall_mem_cons.mpr ⟨plus, fits⟩, rfl, rfl⟩

/-- An encoding has no NUL where the string has none. -/
theorem FormEncodes.nulFree (e s : Bytes) (encoded : FormEncodes e s) (free : 0 ∉ s) : 0 ∉ e := by
  induction encoded with
  | nil => exact free
  | literal c e s safe rest ih =>
      rw [List.mem_cons, not_or] at free ⊢
      exact ⟨free.1, ih free.2⟩
  | escape high low h l e s digits rest ih =>
      have digit : ∀ c n, hexValue c = some n → 0 ≠ c := by
        rintro c n value rfl
        exact absurd value nofun
      simp only [List.mem_cons, not_or] at free ⊢
      exact ⟨by decide, digit high h digits.1, digit low l digits.2, ih free.2⟩
  | space e s rest ih =>
      rw [List.mem_cons, not_or] at free ⊢
      exact ⟨by decide, ih free.2⟩

/-- Decoding in place gives back the string, and reads only what came. -/
theorem urldecode_encodes (e s : Bytes) (free : 0 ∉ s) (encoded : FormEncodes e s) :
    urldecode (cstr e) = cstr s ∧ (∃ stale, urldecodeBuffer e = s ++ 0 :: stale) ∧
      ∀ before k c after, urldecodeAccesses e.length e.length (e ++ [0]) 0 0 =
          before ++ .read k c :: after →
        (e ++ [0]).getD k 0 = c ∧ ∀ c', Access.write k c' ∉ before := by
  obtain ⟨ts, fits, whole, bytes⟩ := encoded.pieces
  have buffer : urldecodeBuffer e = s ++ 0 :: (e ++ [0]).drop (s ++ [0]).length := by
    rw [urldecodeBuffer_pieces e ts whole fits, ← bytes, overwritten, List.append_assoc]
    rfl
  refine ⟨?_, ⟨_, buffer⟩, ?_⟩
  · rw [urldecode_cstr e (encoded.nulFree e s free), buffer]
    exact cstr_append_nul s _
  · intro before k c after split
    exact (urldecodeAccesses_intact e.length e.length (e ++ [0]) 0 0 (Nat.le_refl 0) before after k c
      split).2

/-- Every byte above 127 comes back, with digits of either case, and so does a space
at the end. -/
theorem urldecode_encodes_latin :
    urldecode (cstr (asc "A%fF%25%2B+")) = cstr [65, 255, 37, 43, 32] := by
  refine (urldecode_encodes (asc "A%fF%25%2B+") [65, 255, 37, 43, 32] (by decide) ?_).1
  apply FormEncodes.literal 65 _ _ (by decide)
  apply FormEncodes.escape 102 70 15 15 _ _ (by decide)
  apply FormEncodes.escape 50 53 2 5 _ _ (by decide)
  apply FormEncodes.escape 50 66 2 11 _ _ (by decide)
  apply FormEncodes.space
  exact FormEncodes.nil

/-- A decoder that writes to a buffer of its own: a '%' too close to the end for an
escape stays a '%'. -/
def decodeFresh : Bytes → Bytes
  | [] => []
  | c :: rest =>
      if c = 37 then
        match rest with
        | [] => [37]
        | [a] => if a = 37 then [37] else 37 :: decodeFresh [a]
        | a :: b :: more =>
            if a = 37 then 37 :: decodeFresh (b :: more)
            else
              match hexValue a, hexValue b with
              | some high, some low => (high * 16 + low).toUInt8 :: decodeFresh more
              | _, _ => 37 :: decodeFresh (a :: b :: more)
      else (if c = 43 then 32 else c) :: decodeFresh rest

/-- A '%' with two characters behind it is doubled or has two digits. -/
def WellEscaped (v : Bytes) : Prop :=
  ∀ i < v.length, v.getD i 0 = 37 → i + 2 < v.length →
    v.getD (i + 1) 0 = 37 ∨
      (hexValue (v.getD (i + 1) 0)).isSome ∧ (hexValue (v.getD (i + 2) 0)).isSome

/-- `v` is these pieces and a last '%' that is too close to the end. -/
structure CutOff (v : Bytes) (ts : List Piece) (tail : Bytes) : Prop where
  fits : ∀ t ∈ ts, t.Fits
  whole : v = ts.flatMap Piece.text ++ 37 :: tail
  short : tail.length ≤ 1
  single : tail ≠ [37]

/-- `v` is pieces, up to a '%' that is cut off. -/
def Pieced (v : Bytes) : Prop :=
  ∃ ts : List Piece, ((∀ t ∈ ts, t.Fits) ∧ v = ts.flatMap Piece.text) ∨ ∃ tail, CutOff v ts tail

theorem Pieced.piece (t : Piece) (v : Bytes) (fits : t.Fits) (pieced : Pieced v) :
    Pieced (t.text ++ v) := by
  obtain ⟨ts, ⟨rest, whole⟩ | ⟨tail, cut⟩⟩ := pieced
  · refine ⟨t :: ts, Or.inl ⟨List.forall_mem_cons.mpr ⟨fits, rest⟩, ?_⟩⟩
    rw [List.flatMap_cons, whole]
  · refine ⟨t :: ts, Or.inr ⟨tail, List.forall_mem_cons.mpr ⟨fits, cut.fits⟩, ?_, cut.short,
      cut.single⟩⟩
    rw [List.flatMap_cons, List.append_assoc, ← cut.whole]

theorem WellEscaped.behind (front v : Bytes) (well : WellEscaped (front ++ v)) : WellEscaped v := by
  have cell : ∀ k, (front ++ v).getD (front.length + k) 0 = v.getD k 0 := by
    intro k
    rw [List.getD_append_right _ _ _ _ (Nat.le_add_right _ _), Nat.add_sub_cancel_left]
  intro i inside sign room
  have size : (front ++ v).length = front.length + v.length := List.length_append
  have here := well (front.length + i) (by omega) ((cell i).trans sign) (by omega)
  rwa [Nat.add_assoc, Nat.add_assoc, cell, cell] at here

theorem pieced (v : Bytes) (well : WellEscaped v) : Pieced v := by
  induction size : v.length using Nat.strong_induction_on generalizing v with
  | _ n ih =>
      subst size
      match v, well with
      | [], _ => exact ⟨[], Or.inl ⟨nofun, rfl⟩⟩
      | c :: rest, well =>
          have later := ih rest.length (Nat.lt_succ_self _) rest
            (WellEscaped.behind [c] rest well) rfl
          by_cases sign : c = 37
          · subst sign
            match rest, well with
            | [], _ => exact ⟨[], Or.inr ⟨[], nofun, rfl, Nat.zero_le 1, nofun⟩⟩
            | [a], _ =>
                by_cases again : a = 37
                · subst again
                  exact ⟨[.pair], Or.inl ⟨List.forall_mem_singleton.mpr trivial, rfl⟩⟩
                · exact ⟨[], Or.inr ⟨[a], nofun, rfl, Nat.le_refl 1,
                    fun same => again (List.singleton_inj.mp same)⟩⟩
            | a :: b :: more, well =>
                by_cases again : a = 37
                · subst again
                  have next := ih (b :: more).length (by simp) (b :: more)
                    (WellEscaped.behind [37, 37] (b :: more) well) rfl
                  exact Pieced.piece .pair (b :: more) trivial next
                · have next := ih more.length (by simp; omega) more
                    (WellEscaped.behind [37, a, b] more well) rfl
                  have digits := (well 0 (by simp) rfl (by simp)).resolve_left again
                  exact Pieced.piece (.code a b) more digits next
          · exact Pieced.piece (.plain c) rest sign later

theorem hexValue_lt (c : UInt8) (n : Nat) (value : hexValue c = some n) :
    n < 16 ∧ (n = 0 → c = 48) := by
  unfold hexValue at value
  simp only [UInt8.le_iff_toNat_le, UInt8.toNat_ofNat] at value
  split at value
  · obtain rfl := Option.some.inj value
    refine ⟨by omega, fun zero => UInt8.toNat_inj.mp ?_⟩
    change c.toNat = 48
    omega
  · split at value
    · obtain rfl := Option.some.inj value
      exact ⟨by omega, by omega⟩
    · split at value
      · obtain rfl := Option.some.inj value
        exact ⟨by omega, by omega⟩
      · exact absurd value nofun

/-- A piece gives NUL only as "%00". -/
theorem Piece.byte_zero (t : Piece) (fits : t.Fits) (free : 0 ∉ t.text) (zero : t.byte = 0) :
    t = .code 48 48 := by
  cases t with
  | plain c =>
      unfold Piece.byte at zero
      dsimp only at zero
      split at zero
      · exact absurd zero (by decide)
      · exact absurd (List.mem_singleton.mpr zero.symm) free
  | pair => exact absurd zero (by decide)
  | code high low =>
      obtain ⟨h, first⟩ := Option.isSome_iff_exists.mp fits.1
      obtain ⟨l, second⟩ := Option.isSome_iff_exists.mp fits.2
      have bound_h := hexValue_lt high h first
      have bound_l := hexValue_lt low l second
      rw [Piece.byte, strtoulHex_digits high low h l first second] at zero
      have sum := congrArg UInt8.toNat zero
      rw [UInt8.toNat_ofNat', UInt8.toNat_zero] at sum
      rw [bound_h.2 (by omega), bound_l.2 (by omega)]

theorem decodeFresh_piece (t : Piece) (rest : Bytes) (fits : t.Fits) :
    decodeFresh (t.text ++ rest) = t.byte :: decodeFresh rest := by
  cases t with
  | plain c =>
      change decodeFresh (c :: rest) = _
      rw [decodeFresh.eq_def]
      exact if_neg fits
  | pair =>
      change decodeFresh (37 :: 37 :: rest) = _
      cases rest with
      | nil => rfl
      | cons b more => rw [decodeFresh, if_pos rfl, if_pos rfl]; rfl
  | code high low =>
      change decodeFresh (37 :: high :: low :: rest) = _
      obtain ⟨h, first⟩ := Option.isSome_iff_exists.mp fits.1
      obtain ⟨l, second⟩ := Option.isSome_iff_exists.mp fits.2
      rw [decodeFresh, if_pos rfl, if_neg (hexDigit_ne_percent high fits.1), first, second,
        Piece.byte, strtoulHex_digits high low h l first second]

theorem decodeFresh_pieces (ts : List Piece) (rest : Bytes) (fits : ∀ t ∈ ts, t.Fits) :
    decodeFresh (ts.flatMap Piece.text ++ rest) = ts.map Piece.byte ++ decodeFresh rest := by
  induction ts with
  | nil => rfl
  | cons t ts ih =>
      rw [List.flatMap_cons, List.append_assoc, decodeFresh_piece t _ (fits t List.mem_cons_self),
        ih fun t' member => fits t' (List.mem_cons_of_mem _ member)]
      rfl

theorem decodeFresh_cutOff (tail : Bytes) (short : tail.length ≤ 1) (single : tail ≠ [37]) :
    decodeFresh (37 :: tail) = 37 :: tail.map fun c => (Piece.plain c).byte := by
  match tail, short, single with
  | [], _, _ => rfl
  | [a], _, single =>
      have other : a ≠ 37 := fun same => single (congrArg (fun c => [c]) same)
      rw [decodeFresh, if_pos rfl, if_neg other, decodeFresh, if_neg other]
      rfl

/-- Two strings that differ in one character: it shows, or a NUL stands before it. -/
theorem cstr_differ_iff (front back : Bytes) (a b : UInt8) (some_a : a ≠ 0) (some_b : b ≠ 0) :
    cstr (front ++ a :: back) = cstr (front ++ b :: back) ↔ a = b ∨ 0 ∈ front := by
  by_cases ended : 0 ∈ front
  · obtain ⟨before, behind, rfl⟩ := List.append_of_mem ended
    simp only [List.append_assoc, List.cons_append, cstr_append_nul, ended, or_true]
  · have passed : ∀ c ∈ front, decide (c ≠ 0) = true := by
      intro c member
      exact decide_eq_true fun zero => ended (zero ▸ member)
    have bytes : ∀ c : UInt8, c ≠ 0 →
        (cstr (front ++ c :: back)).bytes = front ++ c :: (cstr back).bytes := by
      intro c nonzero
      change (front ++ c :: back).takeWhile (· ≠ 0) = _
      rw [List.takeWhile_append_of_pos passed, List.takeWhile_cons,
        if_pos (decide_eq_true nonzero)]
      rfl
    rw [CStr.ext_iff, bytes a some_a, bytes b some_b, List.append_cancel_left_eq, List.cons.injEq]
    constructor
    · rintro ⟨same, -⟩
      exact Or.inl same
    · rintro (same | zero)
      · exact ⟨same, rfl⟩
      · exact absurd zero ended

/-- Where the '%' is cut off, the cell that the output has reached holds a '%' as
well; or the string has ended at a "%00" before it. -/
def NothingStale (v : Bytes) : Prop :=
  ∀ ts tail, CutOff v ts tail → v.getD ts.length 0 = 37 ∨ Piece.code 48 48 ∈ ts

theorem urldecode_cutOff (v : Bytes) (free : 0 ∉ v) (ts : List Piece) (tail : Bytes)
    (cut : CutOff v ts tail) :
    urldecode (cstr v) = cstr (decodeFresh v) ↔
      v.getD ts.length 0 = 37 ∨ Piece.code 48 48 ∈ ts := by
  have count := texts_length ts
  have size : v.length = (ts.flatMap Piece.text).length + (tail.length + 1) := by
    rw [cut.whole, List.length_append, List.length_cons]
  have inside : ts.length < v.length := by omega
  have stale : v.getD ts.length 0 ≠ 0 := by
    rw [List.getD_eq_getElem v 0 inside]
    exact fun zero => free (zero ▸ List.getElem_mem inside)
  have fresh : decodeFresh v =
      ts.map Piece.byte ++ 37 :: tail.map fun c => (Piece.plain c).byte := by
    rw [cut.whole, decodeFresh_pieces ts _ cut.fits, decodeFresh_cutOff tail cut.short cut.single]
  have zero : 0 ∈ ts.map Piece.byte ↔ Piece.code 48 48 ∈ ts := by
    rw [List.mem_map]
    constructor
    · rintro ⟨t, member, zero⟩
      have clean : 0 ∉ t.text := by
        intro found
        apply free
        rw [cut.whole]
        exact List.mem_append_left _ (List.mem_flatMap.mpr ⟨t, member, found⟩)
      exact t.byte_zero (cut.fits t member) clean zero ▸ member
    · intro member
      exact ⟨_, member, by decide⟩
  rw [urldecode_cstr v free,
    urldecodeBuffer_truncated v tail ts cut.whole cut.fits cut.short cut.single, fresh, overwritten,
    List.append_assoc, List.singleton_append, cstr_append_nul,
    cstr_differ_iff _ _ _ _ stale (by decide), zero]

/-- Decoding in place is decoding into a buffer of its own exactly when no stale
byte shows. -/
theorem urldecode_fresh_iff (v : Bytes) (free : 0 ∉ v) (well : WellEscaped v) :
    urldecode (cstr v) = cstr (decodeFresh v) ↔ NothingStale v := by
  constructor
  · intro same ts tail cut
    exact (urldecode_cutOff v free ts tail cut).mp same
  · intro clean
    obtain ⟨ts, ⟨fits, whole⟩ | ⟨tail, cut⟩⟩ := pieced v well
    · have fresh := decodeFresh_pieces ts [] fits
      rw [List.append_nil, ← whole, decodeFresh, List.append_nil] at fresh
      rw [urldecode_cstr v free, urldecodeBuffer_pieces v ts whole fits, fresh, overwritten,
        List.append_assoc]
      exact cstr_append_nul _ _
    · exact (urldecode_cutOff v free ts tail cut).mpr (clean ts tail cut)

/-- An escape has made room before the one that is cut off. -/
theorem urldecode_stale :
    0 ∉ asc "%41%" ∧ WellEscaped (asc "%41%") ∧ urldecode (cstr (asc "%41%")) = lit "A4" ∧
      cstr (decodeFresh (asc "%41%")) = lit "A%" := by
  unfold WellEscaped
  decide

theorem urldecode_fresh_percent :
    urldecode (cstr (asc "%")) = cstr (decodeFresh (asc "%")) := by
  refine (urldecode_fresh_iff (asc "%") (by decide) (by unfold WellEscaped; decide)).mpr ?_
  intro ts tail cut
  have count := texts_length ts
  have size := congrArg List.length cut.whole
  rw [List.length_append, List.length_cons] at size
  change 1 = _ at size
  obtain rfl : ts = [] := List.length_eq_zero_iff.mp (by omega)
  exact Or.inl rfl

end Bscope
