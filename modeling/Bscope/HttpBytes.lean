import Bscope.HttpParser

set_option autoImplicit false

/- The parser reads a body in one piece as it would byte by byte. -/
namespace Bscope.Http

section Marks

variable (marks : Marks) (kind : DataKind) (ch : UInt8)

@[simp] theorem Marks.mark_self : marks.mark kind kind = (marks kind).or (some []) :=
  Function.update_self ..

@[simp] theorem Marks.clear_self : marks.clear kind kind = none := Function.update_self ..

theorem Marks.mark_some : ∃ held, marks.mark kind kind = some held := by
  rw [mark_self]
  cases marks kind with
  | none => exact ⟨[], rfl⟩
  | some held => exact ⟨held, rfl⟩

theorem Marks.mark_advance : ((marks.mark kind).advance ch).mark kind = (marks.mark kind).advance ch := by
  funext other
  by_cases same : other = kind
  · subst same
    rw [mark_self, advance, mark_self]
    cases marks other <;> rfl
  · simp [mark, advance, same]

theorem Marks.clear_mark : (marks.mark kind).clear kind = marks.clear kind := by
  funext other
  by_cases same : other = kind
  · subst same
    rw [clear_self, clear_self]
  · simp [mark, clear, same]

theorem Marks.clear_advance : (marks.advance ch).clear kind = (marks.clear kind).advance ch := by
  funext other
  by_cases same : other = kind
  · subst same
    rw [clear_self, advance, clear_self]
    rfl
  · simp [clear, advance, same]

end Marks

section Reading

variable (p : Parser)

theorem toRead_pos (filled : p.contentLength ≠ 0) (rest : Bytes) : 0 < toRead p rest := by
  have positive : 0 < p.contentLength.toNat := by
    apply Nat.pos_of_ne_zero
    intro zero
    exact filled (UInt64.toNat_inj.mp zero)
  exact Nat.lt_min.mpr ⟨positive, Nat.succ_pos _⟩

theorem toRead_one (filled : p.contentLength ≠ 0) : toRead p [] = 1 := by
  have positive := toRead_pos p filled []
  have small : toRead p [] ≤ 1 := Nat.min_le_right ..
  omega

theorem readBody_toNat (rest : Bytes) :
    (readBody p rest).contentLength.toNat = p.contentLength.toNat - toRead p rest := by
  have some' : toRead p rest ≤ p.contentLength.toNat := Nat.min_le_left ..
  have round : p.contentLength.toNat < 2 ^ 64 := UInt64.toNat_lt _
  have word : (toRead p rest).toUInt64.toNat = toRead p rest :=
    UInt64.toNat_ofNat_of_lt' (by show _ < 2 ^ 64; omega)
  show (p.contentLength - (toRead p rest).toUInt64).toNat = _
  rw [UInt64.toNat_sub_of_le _ _ (by rw [UInt64.le_iff_toNat_le, word]; exact some'), word]

theorem readBody_empty (rest : Bytes) :
    (readBody p rest).contentLength = 0 ↔ p.contentLength.toNat = toRead p rest := by
  have some' : toRead p rest ≤ p.contentLength.toNat := Nat.min_le_left ..
  rw [← UInt64.toNat_inj, readBody_toNat]
  show _ = 0 ↔ _
  omega

/-- Where one byte is left, one byte is read. -/
theorem readBody_last (filled : p.contentLength ≠ 0) (last : (readBody p []).contentLength = 0)
    (rest : Bytes) : toRead p rest = 1 ∧ readBody p rest = readBody p [] := by
  have one := (readBody_empty p []).mp last
  rw [toRead_one p filled] at one
  have same : toRead p rest = 1 := by
    unfold toRead
    omega
  refine ⟨same, ?_⟩
  unfold readBody
  rw [same, toRead_one p filled]

variable (next : UInt8) (rest : Bytes) (more : (readBody p []).contentLength ≠ 0)
  (filled : p.contentLength ≠ 0)
include more filled

theorem two_left : 2 ≤ p.contentLength.toNat := by
  have value := mt (readBody_empty p []).mpr more
  have one := toRead_pos p filled []
  rw [toRead_one p filled] at value
  have some' : toRead p [] ≤ p.contentLength.toNat := Nat.min_le_left ..
  rw [toRead_one p filled] at some'
  omega

/-- To read a byte and then the rest is to read all at once. -/
theorem toRead_again : toRead p (next :: rest) = toRead (readBody p []) rest + 1 := by
  have two := two_left p more filled
  unfold toRead
  rw [readBody_toNat, toRead_one p filled, List.length_cons]
  omega

theorem readBody_again : readBody (readBody p []) rest = readBody p (next :: rest) := by
  have two := two_left p more filled
  have again := toRead_again p next rest more filled
  have same : (readBody (readBody p []) rest).contentLength =
      (readBody p (next :: rest)).contentLength := by
    rw [← UInt64.toNat_inj, readBody_toNat, readBody_toNat, readBody_toNat, toRead_one p filled,
      again]
    omega
  show { readBody p [] with contentLength := (readBody (readBody p []) rest).contentLength } = _
  rw [same]
  rfl

theorem readBody_known : (readBody p []).contentLength ≠ ULLONG_MAX := by
  have two := two_left p more filled
  have round : p.contentLength.toNat < 2 ^ 64 := UInt64.toNat_lt _
  intro top
  have value := readBody_toNat p []
  rw [top, toRead_one p filled] at value
  have max : ULLONG_MAX.toNat = 2 ^ 64 - 1 := rfl
  omega

end Reading

section OneByte

variable (settings : Settings) (p : Parser) (marks : Marks) (ch next : UInt8) (rest : Bytes)

/-- The rest of the loop behind what the code for a byte did. -/
def resume (rest : Bytes) : Turn → Option Parsed
  | .goes p marks calls skip =>
      (executeFrom settings p (marks.advance ch) skip rest).map (Parsed.behind calls)
  | .fails p calls => some ⟨p, calls, 0⟩
  | .leaves p calls => some ⟨p, calls, 1⟩

theorem executeFrom_cons (fits : ¬ p.counted.overflows) :
    executeFrom settings p marks 0 (ch :: rest) =
      (turn settings p.counted marks ch rest).bind (resume settings ch rest) := by
  rw [executeFrom, if_neg fits]
  rfl

theorem counted_body (body : p.state.parsingHeader = false) : p.counted = p := by
  rw [Parser.counted, if_neg (by rw [body]; exact Bool.false_ne_true)]

theorem overflows_body (body : p.state.parsingHeader = false) : ¬ p.counted.overflows := by
  rw [counted_body p body]
  rintro ⟨header, -⟩
  rw [body] at header
  exact absurd header Bool.false_ne_true

theorem bodyIdentityEof_byte (state : p.state = .bodyIdentityEof) :
    (turn settings p marks ch (next :: rest)).bind (resume settings ch (next :: rest)) =
      (turn settings p marks ch []).bind (resume settings ch (next :: rest)) := by
  have body : p.state.parsingHeader = false := by rw [state]; rfl
  have here : ∀ marks ch rest, turn settings p marks ch rest = some (bodyIdentityEof p marks rest) := by
    intro marks ch rest
    rw [turn, state]
  rw [here, here, Option.bind_some, Option.bind_some]
  show (executeFrom settings p _ (rest.length + 1) (next :: rest)).map _ =
    (executeFrom settings p _ 0 (next :: rest)).map _
  rw [executeFrom, executeFrom_cons settings p _ next rest (overflows_body p body),
    counted_body p body, here, Option.bind_some, bodyIdentityEof, Marks.mark_advance]
  rfl

theorem chunkData_byte (state : p.state = .chunkData) :
    (turn settings p marks ch (next :: rest)).bind (resume settings ch (next :: rest)) =
      (turn settings p marks ch []).bind (resume settings ch (next :: rest)) := by
  have here : ∀ q : Parser, q.state = .chunkData → ∀ marks ch rest,
      turn settings q marks ch rest = chunkData q marks rest := by
    intro q state marks ch rest
    rw [turn, state]
  rw [here p state, here p state]
  by_cases bad : (!p.flags.chunked) = true ∨ p.contentLength = 0 ∨ p.contentLength = ULLONG_MAX
  · rw [chunkData, if_pos bad, chunkData, if_pos bad]
  · have filled : p.contentLength ≠ 0 := fun zero => bad (Or.inr (Or.inl zero))
    rw [chunkData, if_neg bad, chunkData, if_neg bad, Option.bind_some, Option.bind_some]
    by_cases last : (readBody p []).contentLength = 0
    · obtain ⟨one, same⟩ := readBody_last p filled last (next :: rest)
      rw [one, same, toRead_one p filled]
    · have again := toRead_again p next rest last filled
      have positive := toRead_pos (readBody p []) last rest
      obtain ⟨skip, count⟩ : ∃ skip, toRead (readBody p []) rest = skip + 1 :=
        ⟨toRead (readBody p []) rest - 1, by omega⟩
      have good : ¬ ((!(readBody p []).flags.chunked) = true ∨
          (readBody p []).contentLength = 0 ∨ (readBody p []).contentLength = ULLONG_MAX) := by
        rintro (plain | empty | top)
        · exact bad (Or.inl plain)
        · exact last empty
        · exact readBody_known p last filled top
      have stays : (readBody p []).state.parsingHeader = false := by
        show p.state.parsingHeader = false
        rw [state]
        rfl
      rw [if_neg last, again, count, Nat.add_sub_cancel, toRead_one p filled]
      show (executeFrom settings _ _ (skip + 1) (next :: rest)).map _ =
        (executeFrom settings _ _ 0 (next :: rest)).map _
      rw [executeFrom, executeFrom_cons settings _ _ next rest (overflows_body _ stays),
        counted_body _ stays, here (readBody p []) state, chunkData, if_neg good, Option.bind_some,
        count, Nat.add_sub_cancel, Marks.mark_advance, readBody_again p next rest last filled]
      rfl

theorem bodyIdentity_byte (state : p.state = .bodyIdentity) :
    (turn settings p marks ch (next :: rest)).bind (resume settings ch (next :: rest)) =
      (turn settings p marks ch []).bind (resume settings ch (next :: rest)) := by
  have here : ∀ q : Parser, q.state = .bodyIdentity → ∀ marks ch rest,
      turn settings q marks ch rest = bodyIdentity settings q marks ch rest := by
    intro q state marks ch rest
    rw [turn, state]
  rw [here p state, here p state]
  by_cases bad : p.contentLength = 0 ∨ p.contentLength = ULLONG_MAX
  · rw [bodyIdentity, if_pos bad, bodyIdentity, if_pos bad]
  · have filled : p.contentLength ≠ 0 := fun zero => bad (Or.inl zero)
    rw [bodyIdentity, if_neg bad, bodyIdentity, if_neg bad]
    by_cases last : (readBody p []).contentLength = 0
    · obtain ⟨one, same⟩ := readBody_last p filled last (next :: rest)
      rw [one, same, toRead_one p filled]
      rfl
    · have again := toRead_again p next rest last filled
      have positive := toRead_pos (readBody p []) last rest
      obtain ⟨skip, count⟩ : ∃ skip, toRead (readBody p []) rest = skip + 1 :=
        ⟨toRead (readBody p []) rest - 1, by omega⟩
      have good : ¬ ((readBody p []).contentLength = 0 ∨
          (readBody p []).contentLength = ULLONG_MAX) := by
        rintro (empty | top)
        · exact last empty
        · exact readBody_known p last filled top
      have stays : (readBody p []).state.parsingHeader = false := by
        show p.state.parsingHeader = false
        rw [state]
        rfl
      have later : (some (Turn.goes (readBody p []) (marks.mark .body) [] 0)).bind
          (resume settings ch (next :: rest)) =
            ((bodyIdentity settings (readBody p []) ((marks.mark .body).advance ch) next rest).bind
              (resume settings next rest)).map (Parsed.behind []) := by
        show (executeFrom settings (readBody p []) _ 0 (next :: rest)).map _ = _
        rw [executeFrom_cons settings _ _ next rest (overflows_body _ stays),
          counted_body _ stays, here (readBody p []) state]
      dsimp only
      rw [if_neg last, toRead_one p filled, later, bodyIdentity, if_neg good]
      dsimp only
      rw [again, count, Nat.add_sub_cancel, Nat.add_sub_cancel,
        readBody_again p next rest last filled, Marks.mark_advance, Marks.clear_advance]
      split
      case isFalse => rfl
      case isTrue =>
        obtain ⟨held, marked⟩ := marks.mark_some .body
        have told : ((marks.mark .body).advance ch .body).getD [] ++ (next :: rest).take (skip + 1) =
            ((marks.mark .body) .body).getD [] ++ (ch :: next :: rest).take (skip + 1 + 1) := by
          rw [Marks.advance, marked]
          simp
        rw [told]
        show ((executeFrom settings _ _ skip rest).map (Parsed.behind [])).map _ =
          ((executeFrom settings _ _ skip rest).map _).map (Parsed.behind [])
        rw [Option.map_map, Option.map_map]
        rfl

/-- Every other state reads one byte. -/
theorem turn_alone (plain : p.state ≠ .bodyIdentity ∧ p.state ≠ .bodyIdentityEof ∧
    p.state ≠ .chunkData) : turn settings p marks ch rest = turn settings p marks ch [] := by
  cases state : p.state with
  | bodyIdentity => exact absurd state plain.1
  | bodyIdentityEof => exact absurd state plain.2.1
  | chunkData => exact absurd state plain.2.2
  | _ => simp only [turn, state]

/-- A body read in one piece is read as it would be byte by byte. -/
theorem executeFrom_byte (fits : ¬ p.counted.overflows) :
    executeFrom settings p marks 0 (ch :: rest) =
      (turn settings p.counted marks ch []).bind (resume settings ch rest) := by
  rw [executeFrom_cons settings p marks ch rest fits]
  cases rest with
  | nil => rfl
  | cons next rest =>
      by_cases identity : p.counted.state = .bodyIdentity
      · exact bodyIdentity_byte settings _ marks ch next rest identity
      · by_cases eof : p.counted.state = .bodyIdentityEof
        · exact bodyIdentityEof_byte settings _ marks ch next rest eof
        · by_cases chunk : p.counted.state = .chunkData
          · exact chunkData_byte settings _ marks ch next rest chunk
          · rw [turn_alone settings p.counted marks ch (next :: rest) ⟨identity, eof, chunk⟩]

end OneByte

end Bscope.Http
