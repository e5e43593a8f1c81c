import Bscope.HttpLines

set_option autoImplicit false

/- Header lines, as they are written and as the parser reads them: it tells the names it
knows from all others letter by letter. -/
namespace Bscope.Http

/-- A word the parser looks for: its state within the word, from the letter `least` on, and
the one behind the last letter. -/
structure Keyword where
  word : Bytes
  inside : HeaderState
  whole : HeaderState
  least : Nat
deriving DecidableEq

def fieldWords : List Keyword :=
  [⟨asc "connection", .matchingConnection, .connection, 3⟩,
    ⟨asc "proxy-connection", .matchingProxyConnection, .connection, 0⟩,
    ⟨asc "content-length", .matchingContentLength, .contentLength, 3⟩,
    ⟨asc "transfer-encoding", .matchingTransferEncoding, .transferEncoding, 0⟩,
    ⟨asc "upgrade", .matchingUpgrade, .upgrade, 0⟩]

/-- What the parser knows of a name behind these letters, in lower case, and its index. -/
inductive NameSeen : Bytes → HeaderState → Nat → Prop
  | c : NameSeen [99] .c 0
  | co : NameSeen [99, 111] .co 1
  | con : NameSeen [99, 111, 110] .con 2
  | inside (k : Keyword) (i : Nat) : k ∈ fieldWords → k.least ≤ i → i + 1 < k.word.length →
      NameSeen (k.word.take (i + 1)) k.inside i
  | whole (k : Keyword) (i : Nat) : k ∈ fieldWords → NameSeen k.word k.whole i
  | general (w : Bytes) (i : Nat) : (∀ k ∈ fieldWords, ¬ w <+: k.word) → NameSeen w .general i

/-- Behind the letters they share, no word begins as another does. -/
theorem fieldWords_apart : ∀ k ∈ fieldWords, ∀ k' ∈ fieldWords, ∀ i < k.word.length,
    k.least ≤ i → k.word.take (i + 1) <+: k'.word → k' = k := by
  decide

theorem fieldWords_long : ∀ k ∈ fieldWords, k.least + 1 < k.word.length := by decide

/-- A letter within a word. -/
theorem matchLetter_inside (k : Keyword) (p : Parser) (c : UInt8) (short : p.index + 1 < k.word.length) :
    matchLetter k.word k.whole p c =
      if c = k.word.getD (p.index + 1) 0 then
        if p.index + 2 = k.word.length then { p with index := p.index + 1, headerState := k.whole }
        else { p with index := p.index + 1 }
      else { p with index := p.index + 1, headerState := .general } := by
  unfold matchLetter
  dsimp only
  by_cases same : c = k.word.getD (p.index + 1) 0
  · rw [if_neg (by rintro (long | other); exacts [by omega, other same]), if_pos same]
    by_cases last : p.index + 2 = k.word.length
    · rw [if_pos (by omega), if_pos last]
    · rw [if_neg (by omega), if_neg last]
  · rw [if_pos (Or.inr same), if_neg same]

theorem fieldLetter_inside (k : Keyword) (known : k ∈ fieldWords) (p : Parser)
    (state : p.headerState = k.inside) (ch c : UInt8) :
    fieldLetter p ch c = some (matchLetter k.word k.whole p c) := by
  simp only [fieldWords, List.mem_cons, List.not_mem_nil, or_false] at known
  rcases known with rfl | rfl | rfl | rfl | rfl <;> rw [fieldLetter, state]

theorem fieldLetter_whole (k : Keyword) (known : k ∈ fieldWords) (p : Parser)
    (state : p.headerState = k.whole) (ch c : UInt8) (solid : ch ≠ SP) :
    fieldLetter p ch c = some { p with headerState := .general } := by
  simp only [fieldWords, List.mem_cons, List.not_mem_nil, or_false] at known
  rcases known with rfl | rfl | rfl | rfl | rfl <;> rw [fieldLetter, state] <;>
    simp only [solid, ne_eq, not_false_eq_true, if_true]

theorem take_letter (word : Bytes) (i : Nat) (short : i < word.length) :
    word.take (i + 1) = word.take i ++ [word.getD i 0] := by
  rw [List.take_add_one, List.getD_eq_getElem?_getD, List.getElem?_eq_getElem short]
  rfl

theorem prefix_letter {w word : Bytes} {c : UInt8} (longer : w ++ [c] <+: word) :
    w <+: word ∧ c = word.getD w.length 0 := by
  refine ⟨(List.prefix_append w [c]).trans longer, ?_⟩
  obtain ⟨rest, rfl⟩ := longer
  simp

/-- The code for one more letter of a name, whatever else the parser has in mind. -/
def Letter (s : HeaderState) (i : Nat) (ch c : UInt8) (s' : HeaderState) (i' : Nat) : Prop :=
  ∀ p : Parser, p.headerState = s → p.index = i →
    fieldLetter p ch c = some { p with headerState := s', index := i' }

/-- One of the letters that tell `connection` from `content-length`. -/
theorem Letter.step (s next : HeaderState) (i : Nat) (ch c : UInt8)
    (code : ∀ p : Parser, p.headerState = s → fieldLetter p ch c = some (stepLetter next p)) :
    Letter s i ch c next (i + 1) := by
  intro p state index
  rw [code p state, stepLetter, index]

/-- No word goes on with this letter. -/
theorem NameSeen.lost (w : Bytes) (i : Nat) (c : UInt8)
    (other : ∀ k ∈ fieldWords, w <+: k.word → c ≠ k.word.getD w.length 0) :
    NameSeen (w ++ [c]) .general i := by
  apply NameSeen.general
  intro k known longer
  obtain ⟨front, letter⟩ := prefix_letter longer
  exact other k known front letter

theorem NameSeen.inside_step (k : Keyword) (known : k ∈ fieldWords) (i : Nat) (least : k.least ≤ i)
    (short : i + 1 < k.word.length) (ch c : UInt8) :
    ∃ s' i', Letter k.inside i ch c s' i' ∧ NameSeen (k.word.take (i + 1) ++ [c]) s' i' := by
  have code : ∀ p : Parser, p.headerState = k.inside → p.index = i →
      fieldLetter p ch c = some
        (if c = k.word.getD (i + 1) 0 then
          if i + 2 = k.word.length then { p with index := i + 1, headerState := k.whole }
          else { p with index := i + 1 }
        else { p with index := i + 1, headerState := .general }) := by
    intro p state index
    rw [← index] at short ⊢
    rw [fieldLetter_inside k known p state ch c, matchLetter_inside k p c short]
  by_cases same : c = k.word.getD (i + 1) 0
  · rw [same, ← take_letter k.word (i + 1) short]
    by_cases last : i + 2 = k.word.length
    · rw [last, List.take_length]
      refine ⟨k.whole, i + 1, ?_, .whole k _ known⟩
      intro p state index
      rw [← same, code p state index, if_pos same, if_pos last]
    · refine ⟨k.inside, i + 1, ?_, .inside k _ known (by omega) (by omega)⟩
      intro p state index
      rw [← same, code p state index, if_pos same, if_neg last, ← state]
  · refine ⟨.general, i + 1, ?_, .lost _ _ _ ?_⟩
    · intro p state index
      rw [code p state index, if_neg same]
    · intro k' known' front
      cases fieldWords_apart k known k' known' i (by omega) least front
      rw [List.length_take, Nat.min_eq_left (by omega)]
      exact same

/-- One more letter of a name. -/
theorem NameSeen.step {w : Bytes} {s : HeaderState} {i : Nat} (seen : NameSeen w s i)
    (ch c : UInt8) (solid : ch ≠ SP) :
    ∃ s' i', Letter s i ch c s' i' ∧ NameSeen (w ++ [c]) s' i' := by
  cases seen with
  | c =>
      have next : ∀ k ∈ fieldWords, [99] <+: k.word → k.word.getD 1 0 = 111 := by decide
      refine ⟨_, _, .step .c (if c = 111 then .co else .general) 0 ch c
        (fun p state => by rw [fieldLetter, state]), ?_⟩
      by_cases same : c = 111
      · rw [if_pos same, same]
        exact .co
      · rw [if_neg same]
        exact .lost _ _ _ fun k known front letter => same (letter.trans (next k known front))
  | co =>
      have next : ∀ k ∈ fieldWords, [99, 111] <+: k.word → k.word.getD 2 0 = 110 := by decide
      refine ⟨_, _, .step .co (if c = 110 then .con else .general) 1 ch c
        (fun p state => by rw [fieldLetter, state]), ?_⟩
      by_cases same : c = 110
      · rw [if_pos same, same]
        exact .con
      · rw [if_neg same]
        exact .lost _ _ _ fun k known front letter => same (letter.trans (next k known front))
  | con =>
      have next : ∀ k ∈ fieldWords, [99, 111, 110] <+: k.word →
          k.word.getD 3 0 = 110 ∨ k.word.getD 3 0 = 116 := by decide
      refine ⟨_, _, .step .con (if c = 110 then .matchingConnection
        else if c = 116 then .matchingContentLength else .general) 2 ch c
        (fun p state => by rw [fieldLetter, state]), ?_⟩
      by_cases n : c = 110
      · rw [if_pos n, n]
        exact .inside ⟨asc "connection", .matchingConnection, .connection, 3⟩ 3 (by decide)
          (by decide) (by decide)
      · by_cases t : c = 116
        · rw [if_neg n, if_pos t, t]
          exact .inside ⟨asc "content-length", .matchingContentLength, .contentLength, 3⟩ 3
            (by decide) (by decide) (by decide)
        · rw [if_neg n, if_neg t]
          apply NameSeen.lost
          intro k known front letter
          rcases next k known front with one | two
          · exact n (letter.trans one)
          · exact t (letter.trans two)
  | inside k _ known least short => exact NameSeen.inside_step k known i least short ch c
  | whole k _ known =>
      refine ⟨.general, i, ?_, .general _ _ ?_⟩
      · intro p state index
        rw [fieldLetter_whole k known p state ch c solid, ← index]
      · intro k' known' longer
        have long := fieldWords_long k known
        have all : k.word.take (k.word.length - 1 + 1) = k.word := by
          rw [Nat.sub_add_cancel (by omega), List.take_length]
        have front := (prefix_letter longer).1
        rw [← all] at front
        cases fieldWords_apart k known k' known' (k.word.length - 1) (by omega) (by omega) front
        have size := longer.length_le
        rw [List.length_append, List.length_singleton] at size
        omega
  | general _ _ apart =>
      refine ⟨.general, i, ?_, .general _ _ ?_⟩
      · intro p state index
        cases p
        cases state
        cases index
        rfl
      · intro k known longer
        exact apart k known (prefix_letter longer).1

/-- The first letter of a name. -/
def nameStart (c : UInt8) : HeaderState :=
  if c = 99 then .c
  else if c = 112 then .matchingProxyConnection
  else if c = 116 then .matchingTransferEncoding
  else if c = 117 then .matchingUpgrade
  else .general

theorem NameSeen.begin (c : UInt8) : NameSeen [c] (nameStart c) 0 := by
  unfold nameStart
  by_cases c' : c = 99
  · rw [if_pos c', c']
    exact .c
  · by_cases p : c = 112
    · rw [if_neg c', if_pos p, p]
      exact .inside ⟨asc "proxy-connection", .matchingProxyConnection, .connection, 0⟩ 0 (by decide)
        (by decide) (by decide)
    · by_cases t : c = 116
      · rw [if_neg c', if_neg p, if_pos t, t]
        exact .inside ⟨asc "transfer-encoding", .matchingTransferEncoding, .transferEncoding, 0⟩ 0
          (by decide) (by decide) (by decide)
      · by_cases u : c = 117
        · rw [if_neg c', if_neg p, if_neg t, if_pos u, u]
          exact .inside ⟨asc "upgrade", .matchingUpgrade, .upgrade, 0⟩ 0 (by decide) (by decide)
            (by decide)
        · rw [if_neg c', if_neg p, if_neg t, if_neg u]
          apply NameSeen.general
          intro k known front
          have first : ∀ k ∈ fieldWords, k.word.getD 0 0 ∈ [99, 112, 116, 117] := by decide
          obtain ⟨-, letter⟩ := prefix_letter (show [] ++ [c] <+: k.word from front)
          have among := first k known
          rw [← show c = k.word.getD 0 0 from letter] at among
          simp [c', p, t, u] at among

/-- What the parser keeps of a name for the value behind it. -/
def HeaderState.named : HeaderState → HeaderState
  | .connection => .connection
  | .contentLength => .contentLength
  | .transferEncoding => .transferEncoding
  | .upgrade => .upgrade
  | _ => .general

/-- The state behind a whole name. -/
def wordState (w : Bytes) : HeaderState :=
  match fieldWords.find? fun k => k.word = w with
  | some k => k.whole
  | none => .general

theorem wordState_none {w : Bytes} (none' : ∀ k ∈ fieldWords, k.word ≠ w) :
    wordState w = .general := by
  have missing : (fieldWords.find? fun k => k.word = w) = none := by
    rw [List.find?_eq_none]
    intro k known
    simpa using none' k known
  rw [wordState, missing]

theorem NameSeen.named {w : Bytes} {s : HeaderState} {i : Nat} (seen : NameSeen w s i) :
    s.named = wordState w := by
  cases seen with
  | c => rfl
  | co => rfl
  | con => rfl
  | inside k _ known least short =>
      have general : ∀ k ∈ fieldWords, k.inside.named = .general := by decide
      rw [general k known, wordState_none]
      intro k' known' same
      have front : k.word.take (i + 1) <+: k'.word := same ▸ List.prefix_rfl
      cases fieldWords_apart k known k' known' i (by omega) least front
      have size := congrArg List.length same
      rw [List.length_take] at size
      omega
  | whole k _ known =>
      have found : ∀ k ∈ fieldWords, k.whole.named = wordState k.word := by decide
      exact found k known
  | general _ _ apart =>
      rw [wordState_none]
      · rfl
      · intro k known same
        exact apart k known (same ▸ List.prefix_rfl)

section Names

variable {settings : Settings} (p : Parser)

theorem tokens_zero : tokens SP = 0 ∧ tokens CR = 0 ∧ tokens LF = 0 ∧ tokens 58 = 0 := by decide

variable (settings) in
/-- The letters of a name behind the first, and the colon. -/
theorem letters_name (text : Bytes) (token : ∀ c ∈ text, tokens c ≠ 0) :
    ∀ (held w : Bytes) (s : HeaderState) (i : Nat), NameSeen w s i →
      ∃ s' i', Heads settings { p with state := .headerField, headerState := s, index := i }
          (word .headerField held) (text ++ [58]) [.data .headerField (held ++ text)]
          { p with state := .headerValueStart, headerState := s', index := i' } noMarks ∧
        s'.named = wordState (w ++ text.map tokens) := by
  induction text with
  | nil =>
      intro held w s i seen
      refine ⟨s, i, ?_, ?_⟩
      · rw [List.nil_append, List.append_nil]
        apply Heads.byte { p with state := .headerValueStart, headerState := s, index := i } noMarks
          58 [.data .headerField held] rfl
        intro n
        have none : ¬ tokens 58 ≠ 0 := by decide
        simp only [turn, headerField, if_neg none, if_true, word_clear, word_calls]
      · rw [List.map_nil, List.append_nil]
        exact seen.named
  | cons ch text ih =>
      intro held w s i seen
      have letter := token ch List.mem_cons_self
      have solid : ch ≠ SP := fun blank => letter (by rw [blank]; exact tokens_zero.1)
      obtain ⟨s₁, i₁, code, seen₁⟩ := seen.step ch (tokens ch) solid
      have first : Heads settings { p with state := .headerField, headerState := s, index := i }
          (word .headerField held) [ch] []
          { p with state := .headerField, headerState := s₁, index := i₁ }
          (word .headerField (held ++ [ch])) := by
        rw [← word_advance]
        apply Heads.byte { p with state := .headerField, headerState := s₁, index := i₁ }
          (word .headerField held) ch [] rfl
        intro n
        rw [turn, headerField, if_pos letter, code _ rfl rfl]
        rfl
      obtain ⟨s', i', rest, known⟩ := ih
        (fun other inside => token other (List.mem_cons_of_mem ch inside)) (held ++ [ch])
        (w ++ [tokens ch]) s₁ i₁ seen₁
      rw [List.append_assoc] at rest known
      exact ⟨s', i', first.append rest, known⟩

variable (settings) in
/-- A header's name, and the colon. -/
theorem name_heads (name : Bytes) (named : name ≠ []) (token : ∀ c ∈ name, tokens c ≠ 0)
    (start : p.state = .headerFieldStart ∨ p.state = .headerValueLws) :
    ∃ s i, Heads settings p noMarks (name ++ [58]) [.data .headerField name]
        { p with state := .headerValueStart, headerState := s, index := i } noMarks ∧
      s.named = wordState (name.map tokens) := by
  obtain ⟨ch, text, rfl⟩ := List.exists_cons_of_ne_nil named
  have letter := token ch List.mem_cons_self
  have plain : ch ≠ SP ∧ ch ≠ HT ∧ ch ≠ CR ∧ ch ≠ LF := by
    refine ⟨?_, ?_, ?_, ?_⟩ <;> rintro rfl <;> exact letter (by decide)
  obtain ⟨s', i', rest, known⟩ := letters_name settings p text
    (fun other inside => token other (List.mem_cons_of_mem ch inside)) [ch] [tokens ch] _ 0
    (.begin (tokens ch))
  refine ⟨s', i', ?_, known⟩
  have begun : ∀ q : Parser, headerFieldStart settings q noMarks ch = Turn.next
      { q with
        index := 0
        state := .headerField
        headerState := nameStart (tokens ch) }
      (word .headerField []) := by
    intro q
    unfold headerFieldStart
    rw [if_neg plain.2.2.1, if_neg plain.2.2.2, none_mark]
    exact if_neg letter
  have first : Heads settings p noMarks [ch] []
      { p with
        state := .headerField
        headerState := nameStart (tokens ch)
        index := 0 } (word .headerField [ch]) := by
    have marked : Heads settings p noMarks [ch] []
        { p with state := .headerField, headerState := nameStart (tokens ch), index := 0 }
        ((word .headerField []).advance ch) := by
      apply Heads.byte
        { p with state := .headerField, headerState := nameStart (tokens ch), index := 0 }
        (word .headerField []) ch []
      · rcases start with state | state <;> rw [state] <;> rfl
      · intro n
        rcases start with state | state
        · have code : turn settings { p with nread := n } noMarks ch [] =
              some (headerFieldStart settings { p with nread := n } noMarks ch) := by
            rw [turn]
            dsimp only
            rw [state]
          rw [code, begun]
          rfl
        · have code : turn settings { p with nread := n } noMarks ch [] =
              some (headerValueLws settings { p with nread := n } noMarks ch) := by
            rw [turn]
            dsimp only
            rw [state]
          rw [code, headerValueLws, if_neg (not_or.mpr ⟨plain.1, plain.2.1⟩), begun]
          rfl
    rw [word_advance] at marked
    exact marked
  exact first.append rest

end Names

/-- A letter of a value, in lower case. -/
def fold (ch : UInt8) : UInt8 := if ch = 0 then 0 else lower ch

/-- A value is this word, but for its case and for blanks behind it. -/
def Spells (word value : Bytes) : Prop :=
  ∃ n ≤ value.length, value.map fold = word ++ List.replicate n SP

instance (word value : Bytes) : Decidable (Spells word value) :=
  inferInstanceAs (Decidable (∃ n ≤ value.length, value.map fold = word ++ List.replicate n SP))

/-- The words the parser looks for behind a name. -/
def valueWords : HeaderState → List Keyword
  | .transferEncoding =>
      [⟨asc "chunked", .matchingTransferEncodingChunked, .transferEncodingChunked, 0⟩]
  | .connection =>
      [⟨asc "keep-alive", .matchingConnectionKeepAlive, .connectionKeepAlive, 0⟩,
        ⟨asc "close", .matchingConnectionClose, .connectionClose, 0⟩]
  | _ => []

/-- What the parser knows of a value behind these letters, and its index. -/
inductive ValueSeen (s : HeaderState) : Bytes → HeaderState → Nat → Prop
  | inside (k : Keyword) (i : Nat) : k ∈ valueWords s → i + 1 < k.word.length →
      ValueSeen s (k.word.take (i + 1)) k.inside i
  | whole (k : Keyword) (n i : Nat) : k ∈ valueWords s →
      ValueSeen s (k.word ++ List.replicate n SP) k.whole i
  | general (w : Bytes) (i : Nat) :
      (∀ k ∈ valueWords s, ∀ rest n, w ++ rest ≠ k.word ++ List.replicate n SP) →
      ValueSeen s w .general i

/-- A word is told by its first letter. -/
theorem valueWords_apart (s : HeaderState) : ∀ k ∈ valueWords s, ∀ k' ∈ valueWords s,
    k.word.getD 0 0 = k'.word.getD 0 0 → k' = k := by
  cases s <;> decide

theorem valueWords_long (s : HeaderState) : ∀ k ∈ valueWords s, 1 < k.word.length := by
  cases s <;> decide

theorem valueWords_solid (s : HeaderState) :
    ∀ k ∈ valueWords s, ∀ c ∈ k.word, c ≠ 0 ∧ c ≠ SP := by
  cases s <;> decide +kernel

theorem valueLetter_inside (s : HeaderState) (k : Keyword) (known : k ∈ valueWords s) (p : Parser)
    (state : p.headerState = k.inside) (ch c : UInt8) :
    valueLetter p ch c = some (.ok (matchLetter k.word k.whole p c)) := by
  cases s <;> simp only [valueWords, List.mem_cons, List.not_mem_nil, or_false] at known
  case connection => rcases known with rfl | rfl <;> rw [valueLetter, state]
  case transferEncoding =>
    cases known
    rw [valueLetter, state]

theorem valueLetter_whole (s : HeaderState) (k : Keyword) (known : k ∈ valueWords s) (p : Parser)
    (state : p.headerState = k.whole) (ch c : UInt8) :
    valueLetter p ch c = some (.ok (if ch ≠ SP then { p with headerState := .general } else p)) := by
  cases s <;> simp only [valueWords, List.mem_cons, List.not_mem_nil, or_false] at known
  case connection => rcases known with rfl | rfl <;> rw [valueLetter, state]
  case transferEncoding =>
    cases known
    rw [valueLetter, state]

theorem fold_blank (ch : UInt8) : fold ch = SP ↔ ch = SP := by
  have all : ∀ n < 256, fold (UInt8.ofNat n) = SP ↔ UInt8.ofNat n = SP := by decide +kernel
  have here := all ch.toNat ch.toNat_lt
  rw [UInt8.ofNat_toNat] at here
  exact here

theorem fold_letter (ch c : UInt8) (letter : c ≠ 0 ∧ c ≠ SP) : lower ch = c ↔ fold ch = c := by
  unfold fold
  by_cases nul : ch = 0
  · rw [if_pos nul, nul]
    have blank : lower 0 = SP := by decide
    rw [blank]
    exact iff_of_false (Ne.symm letter.2) (Ne.symm letter.1)
  · rw [if_neg nul]

/-- The code for one more letter of a value, whatever else the parser has in mind. -/
def ValueLetter (s : HeaderState) (i : Nat) (ch : UInt8) (s' : HeaderState) (i' : Nat) : Prop :=
  ∀ p : Parser, p.headerState = s → p.index = i →
    valueLetter p ch (lower ch) = some (.ok { p with headerState := s', index := i' })

theorem getD_front (word rest : Bytes) (i : Nat) (short : i < word.length) :
    (word ++ rest).getD i 0 = word.getD i 0 := by
  rw [List.getD_eq_getElem?_getD, List.getD_eq_getElem?_getD, List.getElem?_append_left short]

theorem spelled_same (s : HeaderState) (k k' : Keyword) (known : k ∈ valueWords s)
    (known' : k' ∈ valueWords s) (i : Nat) (rest rest' : Bytes)
    (equal : k.word.take (i + 1) ++ rest = k'.word ++ rest') : k' = k := by
  have long := valueWords_long s k known
  have long' := valueWords_long s k' known'
  have first := congrArg (fun text : Bytes => text.getD 0 0) equal
  rw [getD_front _ _ 0 (by rw [List.length_take]; omega), getD_front _ _ 0 (by omega)] at first
  apply valueWords_apart s k known k' known'
  rw [← first, List.getD_eq_getElem?_getD, List.getD_eq_getElem?_getD,
    List.getElem?_take_of_lt (by omega)]

/-- One more letter of a value. -/
theorem ValueSeen.step {n : HeaderState} {w : Bytes} {s : HeaderState} {i : Nat}
    (seen : ValueSeen n w s i) (ch : UInt8) :
    ∃ s' i', ValueLetter s i ch s' i' ∧ ValueSeen n (w ++ [fold ch]) s' i' := by
  cases seen with
  | inside k _ known short =>
      have solid := valueWords_solid n k known (k.word.getD (i + 1) 0) (by
        rw [List.getD_eq_getElem?_getD, List.getElem?_eq_getElem short]
        exact List.getElem_mem short)
      have code : ∀ p : Parser, p.headerState = k.inside → p.index = i →
          valueLetter p ch (lower ch) = some (.ok
            (if fold ch = k.word.getD (i + 1) 0 then
              if i + 2 = k.word.length then { p with index := i + 1, headerState := k.whole }
              else { p with index := i + 1 }
            else { p with index := i + 1, headerState := .general })) := by
        intro p state index
        rw [← index] at short solid ⊢
        rw [valueLetter_inside n k known p state, matchLetter_inside k p _ short]
        simp only [fold_letter ch _ solid]
      by_cases same : fold ch = k.word.getD (i + 1) 0
      · rw [same, ← take_letter k.word (i + 1) short]
        by_cases last : i + 2 = k.word.length
        · rw [last, List.take_length]
          refine ⟨k.whole, i + 1, ?_, ?_⟩
          · intro p state index
            rw [code p state index, if_pos same, if_pos last]
          · have whole := ValueSeen.whole k 0 (i + 1) known
            rw [List.replicate_zero, List.append_nil] at whole
            exact whole
        · refine ⟨k.inside, i + 1, ?_, .inside k _ known (by omega)⟩
          intro p state index
          rw [code p state index, if_pos same, if_neg last, ← state]
      · refine ⟨.general, i + 1, ?_, .general _ _ ?_⟩
        · intro p state index
          rw [code p state index, if_neg same]
        · intro k' known' rest m equal
          rw [List.append_assoc] at equal
          cases spelled_same n k k' known known' i _ _ equal
          have letters := congrArg (fun text : Bytes => text.getD (i + 1) 0) equal
          have size : (k.word.take (i + 1)).length = i + 1 := by
            rw [List.length_take]
            omega
          rw [getD_front _ _ (i + 1) short, List.getD_eq_getElem?_getD,
            List.getElem?_append_right (by omega), size, Nat.sub_self] at letters
          exact same letters
  | whole k m _ known =>
      by_cases blank : ch = SP
      · refine ⟨k.whole, i, ?_, ?_⟩
        · intro p state index
          rw [valueLetter_whole n k known p state, if_neg (not_not.mpr blank), ← state, ← index]
        · rw [(fold_blank ch).mpr blank, List.append_assoc, ← List.replicate_succ']
          exact .whole k (m + 1) i known
      · refine ⟨.general, i, ?_, .general _ _ ?_⟩
        · intro p state index
          rw [valueLetter_whole n k known p state, if_pos blank, ← index]
        · intro k' known' rest m' equal
          have long := valueWords_long n k known
          have all : k.word.take (k.word.length - 1 + 1) = k.word := by
            rw [Nat.sub_add_cancel (by omega), List.take_length]
          rw [List.append_assoc, List.append_assoc] at equal
          cases spelled_same n k k' known known' (k.word.length - 1) _ _ (all.symm ▸ equal)
          have behind := List.append_cancel_left equal
          have member : fold ch ∈ List.replicate m' SP := by
            rw [← behind]
            simp
          exact blank ((fold_blank ch).mp (List.eq_of_mem_replicate member))
  | general _ _ apart =>
      refine ⟨.general, i, ?_, .general _ _ ?_⟩
      · intro p state index
        cases p
        cases state
        cases index
        rfl
      · intro k known rest m
        rw [List.append_assoc]
        exact apart k known _ m

/-- What a value says, behind a name with this state. -/
def noteValue (s : HeaderState) (value : Bytes) (flags : Flags) : Flags :=
  match s with
  | .upgrade => { flags with upgrade := true }
  | .transferEncoding => { flags with chunked := flags.chunked || Spells (asc "chunked") value }
  | .connection =>
      { flags with
        connectionKeepAlive := flags.connectionKeepAlive || Spells (asc "keep-alive") value
        connectionClose := flags.connectionClose || Spells (asc "close") value }
  | _ => flags

/-- The flag that `header_almost_done` sets. -/
def setFlag (s : HeaderState) (flags : Flags) : Flags :=
  match s with
  | .connectionKeepAlive => { flags with connectionKeepAlive := true }
  | .connectionClose => { flags with connectionClose := true }
  | .transferEncodingChunked => { flags with chunked := true }
  | _ => flags

/-- The flag that the first letter of a value sets. -/
def startFlag (s : HeaderState) (flags : Flags) : Flags :=
  match s with
  | .upgrade => { flags with upgrade := true }
  | _ => flags

theorem ValueSeen.spells {s s' : HeaderState} {value : Bytes} {i : Nat}
    (seen : ValueSeen s (value.map fold) s' i) (k : Keyword) (known : k ∈ valueWords s) :
    Spells k.word value ↔ s' = k.whole := by
  have apart : ∀ s, ∀ k ∈ valueWords s, ∀ k' ∈ valueWords s, k'.inside ≠ k.whole ∧
      k.whole ≠ .general ∧ (k'.whole = k.whole → k' = k) := by
    intro s
    cases s <;> decide
  generalize letters : value.map fold = w at seen
  have size := congrArg List.length letters
  rw [List.length_map] at size
  cases seen with
  | inside k' i known' short =>
      apply iff_of_false
      · rintro ⟨n, -, same⟩
        rw [letters, ← List.append_nil (k'.word.take (i + 1))] at same
        cases spelled_same s k' k known' known i _ _ same
        have length := congrArg List.length same
        rw [List.append_nil, List.length_take, List.length_append] at length
        omega
      · exact (apart s k known k' known').1
  | whole k' n i known' =>
      have long := valueWords_long s k' known'
      have all : k'.word.take (k'.word.length - 1 + 1) = k'.word := by
        rw [Nat.sub_add_cancel (by omega), List.take_length]
      constructor
      · rintro ⟨m, -, same⟩
        rw [letters, ← all] at same
        cases spelled_same s k' k known' known (k'.word.length - 1) _ _ same
        rfl
      · intro same
        cases (apart s k known k' known').2.2 same
        rw [List.length_append, List.length_replicate] at size
        exact ⟨n, by omega, letters⟩
  | general _ i none =>
      apply iff_of_false
      · rintro ⟨n, -, same⟩
        apply none k known [] n
        rw [List.append_nil, ← letters]
        exact same
      · exact Ne.symm (apart s k known k known).2.1

theorem ValueSeen.state {s s' : HeaderState} {w : Bytes} {i : Nat} (seen : ValueSeen s w s' i) :
    s' = .general ∨ ∃ k ∈ valueWords s, s' = k.inside ∨ s' = k.whole := by
  cases seen with
  | inside k _ known => exact Or.inr ⟨k, known, Or.inl rfl⟩
  | whole k _ _ known => exact Or.inr ⟨k, known, Or.inr rfl⟩
  | general => exact Or.inl rfl

theorem valueSeen_flags {s s' : HeaderState} (value : Bytes) {i : Nat}
    (seen : ValueSeen s (value.map fold) s' i) (flags : Flags) :
    setFlag s' (startFlag s flags) = noteValue s value flags := by
  have spells := seen.spells
  have states := seen.state
  cases s with
  | transferEncoding =>
      have chunked := spells _ List.mem_cons_self
      simp only [valueWords, List.mem_singleton, exists_eq_left] at states
      rcases states with rfl | rfl | rfl <;>
        simp [setFlag, startFlag, noteValue, chunked]
  | connection =>
      have keepAlive := spells _ List.mem_cons_self
      have close := spells _ (List.mem_cons_of_mem _ List.mem_cons_self)
      simp only [valueWords, List.mem_cons, List.not_mem_nil, or_false, exists_eq_or_imp,
        exists_eq_left] at states
      rcases states with rfl | (rfl | rfl) | rfl | rfl <;>
        simp [setFlag, startFlag, noteValue, keepAlive, close]
  | _ =>
      simp only [valueWords, List.not_mem_nil, false_and, exists_false, or_false] at states
      cases states
      rfl

section Values

variable {settings : Settings} (p : Parser)

theorem headerAlmostDone_flag (marks : Marks) : headerAlmostDone p marks LF =
    .next { p with state := .headerValueLws, flags := setFlag p.headerState p.flags } marks := by
  rw [headerAlmostDone, if_neg (not_not.mpr rfl)]
  dsimp only
  cases p.headerState <;> rfl

/-- The end of a line whose value was told. -/
theorem almostDone_heads : Heads settings { p with state := .headerAlmostDone } noMarks [LF] []
    { p with state := .headerValueLws, flags := setFlag p.headerState p.flags } noMarks := by
  apply Heads.byte { p with state := .headerValueLws, flags := setFlag p.headerState p.flags } noMarks
    LF [] rfl
  intro n
  rw [turn, headerAlmostDone_flag]
  rfl

theorem valueEnd_heads (held : Bytes) :
    Heads settings { p with state := .headerValue } (word .headerValue held) crlf
      [.data .headerValue held]
      { p with state := .headerValueLws, flags := setFlag p.headerState p.flags } noMarks := by
  have first : Heads settings { p with state := .headerValue } (word .headerValue held) [CR]
      [.data .headerValue held] { p with state := .headerAlmostDone } noMarks := by
    apply Heads.byte { p with state := .headerAlmostDone } noMarks CR [.data .headerValue held] rfl
    intro n
    rw [turn, headerValue, if_pos rfl, word_clear, word_calls]
  exact first.append (almostDone_heads p)

variable (settings) in
/-- The letters of a value behind the first, and the end of its line. -/
theorem letters_value (n : HeaderState) (text : Bytes) (plain : ∀ c ∈ text, c ≠ CR ∧ c ≠ LF) :
    ∀ (held w : Bytes) (s : HeaderState) (i : Nat), ValueSeen n w s i →
      ∃ s' i', Heads settings { p with state := .headerValue, headerState := s, index := i }
          (word .headerValue held) (text ++ crlf) [.data .headerValue (held ++ text)]
          { p with
            state := .headerValueLws, flags := setFlag s' p.flags, headerState := s', index := i' }
          noMarks ∧
        ValueSeen n (w ++ text.map fold) s' i' := by
  induction text with
  | nil =>
      intro held w s i seen
      rw [List.nil_append, List.append_nil, List.map_nil, List.append_nil]
      exact ⟨s, i, valueEnd_heads { p with headerState := s, index := i } held, seen⟩
  | cons ch text ih =>
      intro held w s i seen
      obtain ⟨apart, apart'⟩ := plain ch List.mem_cons_self
      obtain ⟨s₁, i₁, code, seen₁⟩ := seen.step ch
      have first : Heads settings { p with state := .headerValue, headerState := s, index := i }
          (word .headerValue held) [ch] []
          { p with state := .headerValue, headerState := s₁, index := i₁ }
          (word .headerValue (held ++ [ch])) := by
        rw [← word_advance]
        apply Heads.byte { p with state := .headerValue, headerState := s₁, index := i₁ }
          (word .headerValue held) ch [] rfl
        intro m
        rw [turn, headerValue, if_neg apart, if_neg apart', code _ rfl rfl]
        rfl
      obtain ⟨s', i', rest, known⟩ := ih
        (fun other inside => plain other (List.mem_cons_of_mem ch inside)) (held ++ [ch])
        (w ++ [fold ch]) s₁ i₁ seen₁
      rw [List.append_assoc] at rest known
      exact ⟨s', i', first.append rest, known⟩

/-- No word begins with this letter. -/
theorem ValueSeen.none (s : HeaderState) (ch : UInt8)
    (other : ∀ k ∈ valueWords s, fold ch ≠ k.word.getD 0 0) : ValueSeen s [fold ch] .general 0 := by
  apply ValueSeen.general
  intro k known rest n equal
  have long := valueWords_long s k known
  have letters := congrArg (fun text : Bytes => text.getD 0 0) equal
  have right := getD_front k.word (List.replicate n SP) 0 (by omega)
  exact other k known (letters.trans right)

/-- The state with which the first letter begins a value. -/
theorem ValueSeen.begin (s : HeaderState) (ch : UInt8) :
    ∃ s', (∀ q : Parser, q.headerState = s → s ≠ .contentLength → valueStart q (lower ch) =
        { q with flags := startFlag s.named q.flags, headerState := s' }) ∧
      ValueSeen s.named [fold ch] s' 0 := by
  cases s with
  | connection =>
      have keep := fold_letter ch 107 (by decide)
      have close := fold_letter ch 99 (by decide)
      refine ⟨if lower ch = 107 then .matchingConnectionKeepAlive
        else if lower ch = 99 then .matchingConnectionClose else .general, ?_, ?_⟩
      · intro q state _
        rw [valueStart, state]
        rfl
      · by_cases k : lower ch = 107
        · rw [if_pos k, keep.mp k]
          exact .inside ⟨asc "keep-alive", .matchingConnectionKeepAlive, .connectionKeepAlive, 0⟩ 0
            (by decide) (by decide)
        · by_cases c : lower ch = 99
          · rw [if_neg k, if_pos c, close.mp c]
            exact .inside ⟨asc "close", .matchingConnectionClose, .connectionClose, 0⟩ 0 (by decide)
              (by decide)
          · rw [if_neg k, if_neg c]
            apply ValueSeen.none
            have letters : ∀ k ∈ valueWords .connection, k.word.getD 0 0 = 107 ∨ k.word.getD 0 0 = 99 := by
              decide
            intro word known same
            rcases letters word known with one | two
            · exact k (keep.mpr (same.trans one))
            · exact c (close.mpr (same.trans two))
  | transferEncoding =>
      have chunked := fold_letter ch 99 (by decide)
      refine ⟨if lower ch = 99 then .matchingTransferEncodingChunked else .general, ?_, ?_⟩
      · intro q state _
        rw [valueStart, state]
        rfl
      · by_cases c : lower ch = 99
        · rw [if_pos c, chunked.mp c]
          exact .inside ⟨asc "chunked", .matchingTransferEncodingChunked, .transferEncodingChunked, 0⟩
            0 (by decide) (by decide)
        · rw [if_neg c]
          apply ValueSeen.none
          have letters : ∀ k ∈ valueWords .transferEncoding, k.word.getD 0 0 = 99 := by decide
          intro word known same
          exact c (chunked.mpr (same.trans (letters word known)))
  | contentLength => exact ⟨.general, fun _ _ other => absurd rfl other,
      .none _ _ fun k known => absurd known List.not_mem_nil⟩
  | _ =>
      refine ⟨.general, ?_, .none _ _ ?_⟩
      · intro q state _
        rw [valueStart, state]
        rfl
      · intro k known
        exact absurd known List.not_mem_nil

variable (settings) in
theorem value_heads (s : HeaderState) (other : s ≠ .contentLength) (value : Bytes)
    (filled : value ≠ []) (first : ∀ c ∈ value.head?, c ≠ SP ∧ c ≠ HT)
    (plain : ∀ c ∈ value, c ≠ CR ∧ c ≠ LF) :
    ∃ s' i', Heads settings { p with state := .headerValueStart, headerState := s } noMarks
      (value ++ crlf) [.data .headerValue value]
      { p with
        state := .headerValueLws, flags := noteValue s.named value p.flags, headerState := s',
        index := i' } noMarks := by
  obtain ⟨ch, text, rfl⟩ := List.exists_cons_of_ne_nil filled
  obtain ⟨solid, solid'⟩ := first ch rfl
  obtain ⟨apart, apart'⟩ := plain ch List.mem_cons_self
  obtain ⟨s₁, code, seen⟩ := ValueSeen.begin s ch
  obtain ⟨s', i', rest, known⟩ := letters_value settings
    { p with flags := startFlag s.named p.flags } s.named text
    (fun c inside => plain c (List.mem_cons_of_mem ch inside)) [ch] [fold ch] s₁ 0 seen
  have begun : Heads settings { p with state := .headerValueStart, headerState := s } noMarks [ch] []
      { p with
        state := .headerValue, flags := startFlag s.named p.flags, headerState := s₁, index := 0 }
      (word .headerValue [ch]) := by
    have marked : Heads settings { p with state := .headerValueStart, headerState := s } noMarks
        [ch] []
        { p with
          state := .headerValue, flags := startFlag s.named p.flags, headerState := s₁, index := 0 }
        ((word .headerValue []).advance ch) := by
      apply Heads.byte
        { p with
          state := .headerValue, flags := startFlag s.named p.flags, headerState := s₁, index := 0 }
        (word .headerValue []) ch [] rfl
      intro n
      rw [turn, headerValueStart, if_neg (not_or.mpr ⟨solid, solid'⟩)]
      dsimp only
      rw [if_neg apart, if_neg apart', if_neg other, code _ rfl other, none_mark]
      rfl
    rw [word_advance] at marked
    exact marked
  refine ⟨s', i', ?_⟩
  rw [← valueSeen_flags (ch :: text) known]
  exact begun.append rest

variable (settings) in
/-- A line without a value, whatever its name. -/
theorem empty_heads (s : HeaderState) :
    Heads settings { p with state := .headerValueStart, headerState := s } noMarks crlf
      [.data .headerValue []]
      { p with state := .headerValueLws, headerState := .general, index := 0 } noMarks := by
  let told : Parser := { p with headerState := .general, index := 0 }
  have first : Heads settings { p with state := .headerValueStart, headerState := s } noMarks [CR]
      [.data .headerValue []] { told with state := .headerAlmostDone } noMarks := by
    apply Heads.byte { told with state := .headerAlmostDone } noMarks CR [.data .headerValue []] rfl
    intro n
    rw [turn, headerValueStart, if_neg (by decide)]
    dsimp only
    rw [if_pos rfl, none_mark, word_clear, word_calls]
  exact first.append (almostDone_heads told)

/-- The number that these digits are. -/
def numberIn (base : Nat) (weight : UInt8 → Nat) (text : Bytes) : Nat :=
  text.foldl (fun n c => n * base + weight c) 0

theorem numberIn_snoc (base : Nat) (weight : UInt8 → Nat) (text : Bytes) (ch : UInt8) :
    numberIn base weight (text ++ [ch]) = numberIn base weight text * base + weight ch :=
  List.foldl_concat ..

theorem numberIn_grows (base : Nat) (weight : UInt8 → Nat) (text more : Bytes) (grows : 1 ≤ base) :
    numberIn base weight text ≤ numberIn base weight (text ++ more) := by
  unfold numberIn
  rw [List.foldl_append]
  generalize text.foldl (fun n c => n * base + weight c) 0 = n
  induction more generalizing n with
  | nil => exact Nat.le_refl n
  | cons ch more ih =>
      have least := Nat.le_mul_of_pos_right n grows
      exact Nat.le_trans (by omega) (ih (n * base + weight ch))

/-- The number that decimal digits are. -/
def number : Bytes → Nat := numberIn 10 digit

theorem moreLength_number (base value n : Nat) (small : n * base + value < ULLONG_MAX.toNat)
    (grows : 1 ≤ base) (length : p.contentLength = n.toUInt64) :
    moreLength p base value = .ok { p with contentLength := (n * base + value).toUInt64 } := by
  have max : ULLONG_MAX.toNat = 2 ^ 64 - 1 := rfl
  have least : n ≤ n * base := Nat.le_mul_of_pos_right n grows
  have word : p.contentLength * base.toUInt64 + value.toUInt64 = (n * base + value).toUInt64 := by
    rw [length]
    show UInt64.ofNat n * UInt64.ofNat base + UInt64.ofNat value = UInt64.ofNat (n * base + value)
    rw [UInt64.ofNat_add, UInt64.ofNat_mul]
  have size : (n * base + value).toUInt64.toNat = n * base + value :=
    UInt64.toNat_ofNat_of_lt' (by show _ < 2 ^ 64; omega)
  have size' : p.contentLength.toNat = n := by
    rw [length]
    exact UInt64.toNat_ofNat_of_lt' (by show _ < 2 ^ 64; omega)
  have fits : ¬ ((n * base + value).toUInt64 < p.contentLength ∨
      (n * base + value).toUInt64 = ULLONG_MAX) := by
    rw [UInt64.lt_iff_toNat_lt, ← UInt64.toNat_inj, size, size']
    omega
  unfold moreLength
  dsimp only
  rw [word, if_neg fits]

theorem isNum_plain {ch : UInt8} (num : isNum ch = true) :
    ch ≠ SP ∧ ch ≠ HT ∧ ch ≠ CR ∧ ch ≠ LF := by
  refine ⟨?_, ?_, ?_, ?_⟩ <;> rintro rfl <;> exact absurd num (by decide)

variable (settings) in
/-- The digits of a length behind the first, and the end of its line. -/
theorem digits_length (text : Bytes) (digits : ∀ c ∈ text, isNum c = true) :
    ∀ held : Bytes, number (held ++ text) < ULLONG_MAX.toNat →
      Heads settings
        { p with
          state := .headerValue, headerState := .contentLength
          contentLength := (number held).toUInt64 }
        (word .headerValue held) (text ++ crlf) [.data .headerValue (held ++ text)]
        { p with
          state := .headerValueLws, headerState := .contentLength
          contentLength := (number (held ++ text)).toUInt64 } noMarks := by
  induction text with
  | nil =>
      intro held _
      rw [List.nil_append, List.append_nil]
      exact valueEnd_heads
        { p with headerState := .contentLength, contentLength := (number held).toUInt64 } held
  | cons ch text ih =>
      intro held small
      have num := digits ch List.mem_cons_self
      obtain ⟨solid, -, apart, apart'⟩ := isNum_plain num
      have snoc : number (held ++ [ch]) = number held * 10 + digit ch := numberIn_snoc ..
      have grows : number (held ++ [ch]) ≤ number (held ++ [ch] ++ text) :=
        numberIn_grows 10 digit (held ++ [ch]) text (by decide)
      rw [List.append_assoc] at grows
      have first : Heads settings
          { p with
            state := .headerValue, headerState := .contentLength
            contentLength := (number held).toUInt64 }
          (word .headerValue held) [ch] []
          { p with
            state := .headerValue, headerState := .contentLength
            contentLength := (number (held ++ [ch])).toUInt64 }
          (word .headerValue (held ++ [ch])) := by
        rw [← word_advance]
        apply Heads.byte
          { p with
            state := .headerValue, headerState := .contentLength
            contentLength := (number (held ++ [ch])).toUInt64 }
          (word .headerValue held) ch [] rfl
        intro m
        have more := moreLength_number
          { p with
            state := .headerValue, headerState := .contentLength
            contentLength := (number held).toUInt64, nread := m } 10 (digit ch) (number held)
          (snoc ▸ Nat.lt_of_le_of_lt grows small) (by decide) rfl
        rw [turn, headerValue, if_neg apart, if_neg apart', valueLetter]
        simp only [if_neg solid, num, Bool.not_true, Bool.false_eq_true, if_false, more, snoc]
        rfl
      have rest := ih (fun other inside => digits other (List.mem_cons_of_mem ch inside))
        (held ++ [ch]) (by rw [List.append_assoc]; exact small)
      rw [List.append_assoc] at rest
      exact first.append rest

variable (settings) in
theorem length_heads (value : Bytes) (filled : value ≠ []) (digits : ∀ c ∈ value, isNum c = true)
    (small : number value < ULLONG_MAX.toNat) :
    ∃ i, Heads settings { p with state := .headerValueStart, headerState := .contentLength } noMarks
      (value ++ crlf) [.data .headerValue value]
      { p with
        state := .headerValueLws, headerState := .contentLength, index := i
        contentLength := (number value).toUInt64 } noMarks := by
  obtain ⟨ch, text, rfl⟩ := List.exists_cons_of_ne_nil filled
  have num := digits ch List.mem_cons_self
  obtain ⟨solid, solid', apart, apart'⟩ := isNum_plain num
  have one : number [ch] = digit ch := by
    show 0 * 10 + digit ch = digit ch
    omega
  have begun : Heads settings { p with state := .headerValueStart, headerState := .contentLength }
      noMarks [ch] []
      { p with
        state := .headerValue, headerState := .contentLength, index := 0
        contentLength := (number [ch]).toUInt64 } ((word .headerValue []).advance ch) := by
    apply Heads.byte
      { p with
        state := .headerValue, headerState := .contentLength, index := 0
        contentLength := (number [ch]).toUInt64 } (word .headerValue []) ch [] rfl
    intro n
    rw [turn, headerValueStart, if_neg (not_or.mpr ⟨solid, solid'⟩)]
    dsimp only
    rw [if_neg apart, if_neg apart', if_pos rfl, num, none_mark, one]
    rfl
  rw [word_advance] at begun
  exact ⟨0, begun.append (digits_length settings { p with index := 0 } text
    (fun c inside => digits c (List.mem_cons_of_mem ch inside)) [ch] small)⟩

end Values

end Bscope.Http
