import Bscope.HttpSafety
import Bscope.Joining
import Bscope.Transducer

set_option autoImplicit false

/- Where segments are cut makes no difference to the parser: it ends as it would have
with a segment for each byte, and its callbacks bring the same, in pieces. -/
namespace Bscope.Http

/-- Data of one kind that comes in two pieces. -/
def mergeCalls : HttpCallback → HttpCallback → Option HttpCallback
  | .data kind first, .data kind' second =>
      if kind = kind' then some (.data kind (first ++ second)) else none
  | _, _ => none

theorem mergeCalls_data (kind kind' : DataKind) (first second : Bytes) :
    mergeCalls (.data kind first) (.data kind' second) =
      if kind = kind' then some (.data kind (first ++ second)) else none := rfl

theorem mergeCalls_some {x y z : HttpCallback} (merged : mergeCalls x y = some z) :
    ∃ kind first second,
      x = .data kind first ∧ y = .data kind second ∧ z = .data kind (first ++ second) := by
  unfold mergeCalls at merged
  split at merged
  case h_1 kind first kind' second =>
    split at merged
    case isTrue equal =>
      cases merged
      exact ⟨kind, first, second, rfl, by rw [equal], rfl⟩
    case isFalse => exact nomatch merged
  case h_2 => exact nomatch merged

theorem mergeCalls_associates : Joining.Associates mergeCalls where
  apart x y z w merged next := by
    obtain ⟨kind, first, second, rfl, rfl, rfl⟩ := mergeCalls_some merged
    cases w with
    | data kind' third =>
        have other : kind ≠ kind' := by
          intro equal
          rw [mergeCalls_data, if_pos equal] at next
          exact nomatch next
        rw [mergeCalls_data, if_neg other]
    | _ => rfl
  both x y z w v merged next := by
    obtain ⟨kind, first, second, rfl, rfl, rfl⟩ := mergeCalls_some merged
    obtain ⟨kind', second', third, equal, rfl, rfl⟩ := mergeCalls_some next
    cases equal
    refine ⟨.data kind (first ++ (second ++ third)), ?_, ?_⟩
    · rw [mergeCalls_data, if_pos rfl]
    · rw [mergeCalls_data, if_pos rfl, List.append_assoc]

/-- The callbacks, with what came in pieces put together. -/
def joined (calls : List HttpCallback) : List HttpCallback := Joining.join mergeCalls calls

theorem joined_append_congr (front : List HttpCallback) {back back' : List HttpCallback}
    (same : joined back = joined back') : joined (front ++ back) = joined (front ++ back') :=
  Joining.join_append_congr mergeCalls front same

theorem joined_pieces (kind : DataKind) (first second : Bytes) (rest : List HttpCallback) :
    joined (.data kind first :: .data kind second :: rest) =
      joined (.data kind (first ++ second) :: rest) :=
  Joining.join_merge mergeCalls mergeCalls_associates
    (by rw [mergeCalls_data, if_pos rfl]) rest

/-- A segment of one byte. -/
def byteStep (settings : Settings) (p : Parser) (ch : UInt8) : Parser × List HttpCallback :=
  match httpParserExecute settings p [ch] with
  | some done => (done.parser, done.calls)
  | none => (p, [])

/-- The callbacks for the marks that are left over. -/
def Marks.flush (marks : Marks) : List HttpCallback :=
  [DataKind.headerField, .headerValue, .url, .body].flatMap marks.calls

/-- One mark is set. -/
def word (kind : DataKind) (held : Bytes) : Marks := Function.update noMarks kind (some held)

section Word

variable (kind : DataKind) (held : Bytes) (ch : UInt8)

@[simp] theorem flush_none : noMarks.flush = [] := rfl

@[simp] theorem flush_word : (word kind held).flush = [.data kind held] := by
  cases kind <;> rfl

@[simp] theorem word_advance : (word kind held).advance ch = word kind (held ++ [ch]) := by
  funext other
  by_cases same : other = kind
  · subst same
    simp [Marks.advance, word]
  · simp [Marks.advance, word, same, noMarks]

@[simp] theorem none_advance : noMarks.advance ch = noMarks := rfl

@[simp] theorem word_clear : (word kind held).clear kind = noMarks := by
  funext other
  by_cases same : other = kind
  · subst same
    simp [noMarks]
  · simp [Marks.clear, word, same]

@[simp] theorem word_calls : (word kind held).calls kind = [.data kind held] := by
  simp [Marks.calls, word]

@[simp] theorem word_mark : (word kind held).mark kind = word kind held := by
  funext other
  by_cases same : other = kind
  · subst same
    simp [Marks.mark, word]
  · simp [Marks.mark, word, same]

@[simp] theorem none_mark : noMarks.mark kind = word kind [] := by
  funext other
  by_cases same : other = kind
  · subst same
    simp [Marks.mark, word, noMarks]
  · simp [Marks.mark, word, same]

theorem startMarks_word {s : State} (marked : s.marked = some kind) : startMarks s = word kind [] := by
  funext other
  by_cases same : other = kind
  · subst same
    simp [startMarks, word, marked]
  · have apart : s.marked ≠ some other := by
      rw [marked]
      exact fun equal => same (Option.some.inj equal).symm
    simp [startMarks, word, same, apart, noMarks]

theorem startMarks_none {s : State} (plain : s.marked = none) : startMarks s = noMarks := by
  funext other
  simp [startMarks, plain, noMarks]

end Word

/-- What the code for a byte does with the marks of a segment that began earlier, and
what it does when the segment begins here. -/
inductive Cut (marks : Marks) (ch : UInt8) : Turn → Turn → Prop
  | goes (p : Parser) (whole cut : Marks) (calls calls' : List HttpCallback) :
      (∀ later, joined (marks.flush ++ calls' ++ (cut.advance ch).flush ++ later) =
        joined (calls ++ (whole.advance ch).flush ++ later)) →
      Cut marks ch (.goes p whole calls 0) (.goes p cut calls' 0)
  | fails (p : Parser) (calls : List HttpCallback) : marks.flush = [] ∨ calls = [] →
      Cut marks ch (.fails p calls) (.fails p calls)
  | leaves (p : Parser) (calls : List HttpCallback) : marks.flush = [] →
      Cut marks ch (.leaves p calls) (.leaves p calls)

section Cuts

variable (p : Parser) (kind : DataKind) (held : Bytes) (ch : UInt8)

/-- Without a mark there is nothing to cut. -/
theorem Cut.same {t : Turn} (sound : t.Sound) : Cut noMarks ch t t := by
  cases t with
  | goes p marks calls skip =>
      rw [sound.2.1]
      exact .goes p marks marks calls calls fun _ => rfl
  | fails p calls => exact .fails p calls (Or.inl rfl)
  | leaves p calls => exact .leaves p calls rfl

/-- What the code does with a byte within a word that began earlier, and what it does when
the segment begins with this byte. -/
inductive Within : Turn → Turn → Prop
  | more (p : Parser) : Within (.next p (word kind held)) (.next p (word kind []))
  | told (p : Parser) (calls : List HttpCallback) : Within
      (.goes p noMarks (.data kind held :: calls) 0) (.goes p noMarks (.data kind [] :: calls) 0)
  | fails (p : Parser) : Within (.fails p []) (.fails p [])

theorem Within.cut {t t' : Turn} (within : Within kind held t t') :
    Cut (word kind held) ch t t' := by
  cases within with
  | more p =>
      apply Cut.goes
      intro later
      simp only [flush_word, word_advance, List.append_nil, List.nil_append, List.cons_append]
      exact joined_pieces kind held [ch] later
  | told p calls =>
      apply Cut.goes
      intro later
      simp only [flush_word, none_advance, flush_none, List.append_nil, List.cons_append,
        List.nil_append]
      rw [joined_pieces, List.append_nil]
  | fails p => exact .fails p [] (Or.inr rfl)

/-- A segment that begins within a word brings a piece of it first, if its first byte is
not an error. -/
theorem Within.begins {t t' : Turn} (within : Within kind held t t') :
    (∃ p', t' = .fails p' []) ∨ ∃ p' marks calls, t' = .goes p' marks calls 0 ∧
      ∃ piece later, calls ++ (marks.advance ch).flush = .data kind piece :: later := by
  cases within with
  | more p =>
      right
      refine ⟨p, word kind [], [], rfl, [ch], [], ?_⟩
      rw [word_advance, flush_word]
      rfl
  | told p calls => exact Or.inr ⟨p, noMarks, _, rfl, [], _, rfl⟩
  | fails p => exact Or.inl ⟨p, rfl⟩

theorem urlChar_within : Within .url held (urlChar p (word .url held) ch)
    (urlChar p (word .url []) ch) := by
  unfold urlChar
  dsimp only
  split
  · exact .fails _
  · exact .more _

theorem urlFront_within : Within .url held (urlFront p (word .url held) ch)
    (urlFront p (word .url []) ch) := by
  unfold urlFront
  split
  · exact .fails _
  · exact urlChar_within p held ch

theorem urlBack_within : Within .url held (urlBack p (word .url held) ch)
    (urlBack p (word .url []) ch) := by
  unfold urlBack
  simp only [word_clear, word_calls]
  split
  · exact .told ..
  · split
    · exact .told ..
    · exact urlChar_within p held ch

theorem headerField_within {t t' : Turn}
    (whole : headerField p (word .headerField held) ch = some t)
    (cut : headerField p (word .headerField []) ch = some t') :
    Within .headerField held t t' := by
  unfold headerField at whole cut
  simp only [word_clear, word_calls] at whole cut
  by_cases letter : tokens ch ≠ 0
  · rw [if_pos letter] at whole cut
    obtain ⟨p', found, rfl⟩ := Option.map_eq_some_iff.mp whole
    obtain ⟨p'', found', rfl⟩ := Option.map_eq_some_iff.mp cut
    cases found.symm.trans found'
    exact .more _
  · rw [if_neg letter] at whole cut
    split_ifs at whole cut <;> cases whole <;> cases cut
    · exact .told _ []
    · exact .told _ []
    · exact .told _ []
    · exact .fails _

theorem headerValue_within {t t' : Turn}
    (whole : headerValue p (word .headerValue held) ch = some t)
    (cut : headerValue p (word .headerValue []) ch = some t') :
    Within .headerValue held t t' := by
  unfold headerValue at whole cut
  simp only [word_clear, word_calls] at whole cut
  by_cases cr : ch = CR
  · rw [if_pos cr] at whole cut
    cases whole
    cases cut
    exact .told _ []
  · rw [if_neg cr] at whole cut
    by_cases lf : ch = LF
    · rw [if_pos lf] at whole cut
      cases whole
      cases cut
      unfold headerAlmostDone
      rw [if_neg (not_not.mpr lf)]
      dsimp only
      split <;> exact .told _ []
    · rw [if_neg lf] at whole cut
      obtain ⟨letter, found, rfl⟩ := Option.map_eq_some_iff.mp whole
      obtain ⟨letter', found', rfl⟩ := Option.map_eq_some_iff.mp cut
      cases found.symm.trans found'
      cases letter with
      | ok p' => exact .more _
      | error p' => exact .fails p'

/-- A body whose mark was set before this segment, or is set with this byte. -/
theorem Cut.body : Cut (word .body held) ch (.next p ((word .body held).mark .body))
    (.next p (noMarks.mark .body)) := by
  rw [word_mark, none_mark]
  exact Within.cut .body held ch (.more p)

theorem bodyIdentity_cut {settings : Settings} {t t' : Turn}
    (whole : bodyIdentity settings p (word .body held) ch [] = some t)
    (cut : bodyIdentity settings p noMarks ch [] = some t') : Cut (word .body held) ch t t' := by
  unfold bodyIdentity at whole cut
  by_cases bad : p.contentLength = 0 ∨ p.contentLength = ULLONG_MAX
  · rw [if_pos bad] at whole
    exact nomatch whole
  · rw [if_neg bad] at whole cut
    have filled : p.contentLength ≠ 0 := fun zero => bad (Or.inl zero)
    simp only [toRead_one p filled] at whole cut
    split_ifs at whole cut
    · cases whole
      cases cut
      apply Cut.goes
      intro later
      simp only [word_mark, none_mark, word_clear, flush_word, none_advance, flush_none,
        List.append_nil, List.cons_append, List.nil_append]
      exact joined_pieces .body held [ch] _
    · cases whole
      cases cut
      exact .body (readBody p []) held ch

theorem chunkDataAlmostDone_cut {t t' : Turn}
    (whole : chunkDataAlmostDone p (word .body held) ch = some t)
    (cut : chunkDataAlmostDone p noMarks ch = some t') : Cut (word .body held) ch t t' := by
  unfold chunkDataAlmostDone at whole cut
  simp only [word_clear, word_calls] at whole cut
  split_ifs at whole cut <;> cases whole <;> cases cut
  · exact .fails _ [] (Or.inr rfl)
  · apply Cut.goes
    intro later
    rw [flush_word]
    rfl

end Cuts

/-- The marks of a state: none, or one. -/
theorem Sound.word {p : Parser} {marks : Marks} (sound : Sound p marks) {kind : DataKind}
    (holds : p.state.holds = some kind) : marks = noMarks ∨ ∃ held, marks = word kind held := by
  have others : ∀ other, other ≠ kind → marks other = none := by
    intro other apart
    cases set : marks other with
    | none => rfl
    | some held =>
        have held' := sound.held other (by rw [set]; rfl)
        rw [holds] at held'
        exact absurd (Option.some.inj held').symm apart
  cases set : marks kind with
  | none =>
      left
      funext other
      by_cases same : other = kind
      · rw [same, set]
        rfl
      · exact others other same
  | some held =>
      right
      refine ⟨held, ?_⟩
      funext other
      by_cases same : other = kind
      · rw [same, set, Http.word, Function.update_self]
      · rw [others other same, Http.word, Function.update_of_ne same]
        rfl

section Turns

variable {settings : Settings} {p : Parser} {marks : Marks}

/-- A word goes on in a segment as it would if the segment began with this byte. -/
theorem word_within (kind : DataKind) (marked : p.state.marked = some kind) (held : Bytes) (ch : UInt8)
    {t t' : Turn} (whole : turn settings p (word kind held) ch [] = some t)
    (cut : turn settings p (word kind []) ch [] = some t') : Within kind held t t' := by
  have url : ∀ s : State, p.state = s → s.marked = some .url → kind = .url := by
    intro s state marked'
    rw [state, marked'] at marked
    exact (Option.some.inj marked).symm
  cases state : p.state with
  | headerField =>
      rw [state] at marked
      cases marked
      rw [turn, state] at whole cut
      exact headerField_within p held ch whole cut
  | headerValue =>
      rw [state] at marked
      cases marked
      rw [turn, state] at whole cut
      exact headerValue_within p held ch whole cut
  | reqSchema | reqSchemaSlash | reqSchemaSlashSlash | reqServerStart =>
      cases url _ state rfl
      rw [turn, state] at whole cut
      cases whole
      cases cut
      exact urlFront_within p held ch
  | reqServer | reqServerWithAt | reqPath | reqQueryStringStart | reqQueryString
  | reqFragmentStart | reqFragment =>
      cases url _ state rfl
      rw [turn, state] at whole cut
      cases whole
      cases cut
      exact urlBack_within p held ch
  | _ =>
      rw [state] at marked
      cases marked

theorem body_cut (holds : p.state.holds = some .body) (held : Bytes) (ch : UInt8)
    {t t' : Turn} (whole : turn settings p (word .body held) ch [] = some t)
    (cut : turn settings p noMarks ch [] = some t') : Cut (word .body held) ch t t' := by
  cases state : p.state with
  | bodyIdentity =>
      rw [turn, state] at whole cut
      exact bodyIdentity_cut p held ch whole cut
  | bodyIdentityEof =>
      rw [turn, state] at whole cut
      cases whole
      cases cut
      exact .body p held ch
  | chunkData =>
      rw [turn, state] at whole cut
      unfold chunkData at whole cut
      by_cases bad : (!p.flags.chunked) = true ∨ p.contentLength = 0 ∨ p.contentLength = ULLONG_MAX
      · rw [if_pos bad] at whole
        cases whole
      · rw [if_neg bad] at whole cut
        have filled : p.contentLength ≠ 0 := fun zero => bad (Or.inr (Or.inl zero))
        rw [toRead_one p filled] at whole cut
        cases whole
        cases cut
        exact .body _ held ch
  | chunkDataAlmostDone =>
      rw [turn, state] at whole cut
      exact chunkDataAlmostDone_cut p held ch whole cut
  | _ =>
      rw [state] at holds
      cases holds

end Turns

theorem counted_state (p : Parser) : p.counted.state = p.state := by
  unfold Parser.counted
  split <;> rfl

theorem State.unmarked_body {s : State} {kind : DataKind} (plain : s.marked = none)
    (holds : s.holds = some kind) : kind = .body := by
  cases s with
  | bodyIdentity | bodyIdentityEof | chunkData | chunkDataAlmostDone =>
      exact (Option.some.inj holds).symm
  | _ => exact nomatch plain.symm.trans holds

/-- In any state. -/
theorem turn_cut {settings : Settings} (good : settings.Sound) {p : Parser} {marks : Marks}
    (sound : Sound p marks) (ch : UInt8) :
    ∃ t t', turn settings p.counted marks ch [] = some t ∧
      turn settings p.counted (startMarks p.state) ch [] = some t' ∧ t.Sound ∧ t'.Sound ∧
      Cut marks ch t t' := by
  obtain ⟨t, whole, sound'⟩ := turn_sound good sound ch
  obtain ⟨t', cut, sound''⟩ := turn_sound good sound.start ch
  refine ⟨t, t', whole, cut, sound', sound'', ?_⟩
  have same : startMarks p.state = noMarks → marks = noMarks → Cut marks ch t t' := by
    intro start none
    rw [start] at cut
    rw [none] at whole ⊢
    cases whole.symm.trans cut
    exact .same ch sound'
  cases marked : p.state.marked with
  | some kind =>
      rcases sound.word (State.marked_holds _ kind marked) with none | ⟨held, one⟩
      · have set := sound.set kind marked
        rw [none] at set
        exact nomatch set
      · rw [one] at whole ⊢
        rw [startMarks_word kind marked] at cut
        exact (word_within kind (by rw [counted_state, marked]) held ch whole cut).cut kind held ch
  | none =>
      have start := startMarks_none marked
      cases holds : p.state.holds with
      | none => exact same start (sound.unmarked holds)
      | some kind =>
          cases State.unmarked_body marked holds
          rcases sound.word holds with none | ⟨held, one⟩
          · exact same start none
          · rw [one] at whole ⊢
            rw [start] at cut
            exact body_cut (by rw [counted_state, holds]) held ch whole cut

/-- What is left over behind the callbacks: what the parser did not bring when it failed
within a word. -/
def Leftover (p : Parser) (tail : List HttpCallback) : Prop :=
  tail.length ≤ 1 ∧ (p.httpErrno = .ok → tail = [])

section Bytes

variable {settings : Settings} (good : settings.Sound)

theorem flush_short {p : Parser} {marks : Marks} (sound : Sound p marks) :
    marks.flush.length ≤ 1 := by
  cases holds : p.state.holds with
  | none =>
      rw [sound.unmarked holds]
      exact Nat.zero_le 1
  | some kind =>
      rcases sound.word holds with none | ⟨held, one⟩
      · rw [none]
        exact Nat.zero_le 1
      · rw [one, flush_word]
        exact Nat.le_refl 1

/-- A parser that has failed reads nothing. -/
theorem byteStep_failed (settings : Settings) {p : Parser} (failed : p.httpErrno ≠ .ok) (ch : UInt8) :
    byteStep settings p ch = (p, []) := by
  rw [byteStep, httpParserExecute, if_pos failed]

theorem bytes_failed (settings : Settings) {p : Parser} (failed : p.httpErrno ≠ .ok) (data : Bytes) :
    Transducer.after (byteStep settings) p data = p ∧
      Transducer.emits (byteStep settings) p data = [] := by
  induction data with
  | nil => exact ⟨rfl, rfl⟩
  | cons ch rest ih =>
      rw [Transducer.after_cons, Transducer.emits_cons, byteStep_failed settings failed]
      exact ih

include good

omit good in
theorem finish_flush {p : Parser} {marks : Marks} (sound : Sound p marks) :
    finish p marks = some ⟨p, marks.flush, 0⟩ := by
  obtain ⟨_, done, -⟩ := finish_sound sound
  rw [finish] at done ⊢
  split at done
  case isTrue one => exact if_pos one
  case isFalse => exact nomatch done

theorem executeFrom_bytes (data : Bytes) :
    ∀ (p : Parser) (marks : Marks), Sound p marks → ∀ done,
      executeFrom settings p marks 0 data = some done →
      done.parser.httpErrno ≠ .ok ∨ done.nparsed = data.length →
      Transducer.after (byteStep settings) p data = done.parser ∧
        ∃ tail, Leftover done.parser tail ∧
          joined (marks.flush ++ Transducer.emits (byteStep settings) p data) =
            joined (done.calls ++ tail) := by
  induction data with
  | nil =>
      intro p marks sound done here _
      rw [executeFrom, finish_flush sound] at here
      cases here
      exact ⟨rfl, [], ⟨Nat.zero_le 1, fun _ => rfl⟩, rfl⟩
  | cons ch rest ih =>
      intro p marks sound done here all
      rw [Transducer.after_cons, Transducer.emits_cons]
      have alone : byteStep settings p ch =
          match executeFrom settings p (startMarks p.state) 0 [ch] with
          | some done => (done.parser, done.calls)
          | none => (p, []) := by
        rw [byteStep, httpParserExecute, if_neg (not_not.mpr sound.ok), if_neg (List.cons_ne_nil ch [])]
      by_cases full : p.counted.overflows
      · rw [executeFrom, if_pos full] at here
        cases here
        have failed : { p.counted with httpErrno := .headerOverflow }.httpErrno ≠ .ok := by
          exact fun ok => HttpErrno.noConfusion ok
        rw [executeFrom, if_pos full] at alone
        rw [alone]
        obtain ⟨after, emits⟩ := bytes_failed settings failed rest
        rw [after, emits]
        refine ⟨rfl, marks.flush, ⟨flush_short sound, fun ok => absurd ok failed⟩, ?_⟩
        rw [List.append_nil, List.append_nil]
        rfl
      · rw [executeFrom_byte settings p _ ch _ full] at here alone
        obtain ⟨t, t', whole, cut, sound', sound'', same⟩ := turn_cut good sound ch
        rw [whole, Option.bind_some] at here
        rw [cut, Option.bind_some] at alone
        cases same with
        | fails p' calls quiet =>
            cases here
            have one : byteStep settings p ch = (p', calls) := alone
            obtain ⟨after, emits⟩ := bytes_failed settings sound'.1 rest
            rw [one, after, emits, List.append_nil]
            rcases quiet with none | none
            · rw [none]
              refine ⟨rfl, [], ⟨Nat.zero_le 1, fun _ => rfl⟩, ?_⟩
              rw [List.append_nil, List.nil_append]
            · rw [none, List.append_nil]
              exact ⟨rfl, marks.flush, ⟨flush_short sound, fun ok => absurd ok sound'.1⟩, rfl⟩
        | leaves p' calls quiet =>
            cases here
            have last : rest = [] := by
              rcases all with failed | taken
              · exact absurd sound'.1.ok failed
              · exact List.eq_nil_of_length_eq_zero (Nat.succ.inj taken).symm
            have one : byteStep settings p ch = (p', calls) := alone
            rw [one, last, quiet]
            exact ⟨rfl, [], ⟨Nat.zero_le 1, fun _ => rfl⟩, rfl⟩
        | goes p' marks' cut' calls calls' told =>
            obtain ⟨done', later, rfl⟩ := Option.map_eq_some_iff.mp here
            obtain ⟨sound₁, -, -⟩ := sound'
            obtain ⟨sound₂, -, -⟩ := sound''
            have one : byteStep settings p ch = (p', calls' ++ (cut'.advance ch).flush) := by
              rw [resume, executeFrom, finish_flush (sound₂.advance ch)] at alone
              exact alone
            obtain ⟨after, tail, left, same⟩ := ih p' _ (sound₁.advance ch) done' later
              (all.imp_right fun taken => Nat.succ.inj taken)
            rw [one]
            refine ⟨after, tail, left, ?_⟩
            have begun := told (Transducer.emits (byteStep settings) p' rest)
            have ended := joined_append_congr calls same
            simp only [List.append_assoc] at begun ended ⊢
            rw [begun, ended]
            show joined (calls ++ (done'.calls ++ tail)) = joined ((calls ++ done'.calls) ++ tail)
            rw [List.append_assoc]

/-- The first piece of a word that began in an earlier segment. -/
theorem emits_begins {p : Parser} (sound : Sound p (startMarks p.state)) {kind : DataKind}
    (marked : p.state.marked = some kind) (ch : UInt8) (rest : Bytes) :
    (∃ p', httpParserExecute settings p (ch :: rest) = some ⟨p', [], 0⟩ ∧
      byteStep settings p ch = (p', []) ∧ p'.httpErrno ≠ .ok) ∨
      ∃ piece later, Transducer.emits (byteStep settings) p (ch :: rest) =
        .data kind piece :: later := by
  have here : ∀ rest, httpParserExecute settings p (ch :: rest) =
      executeFrom settings p (startMarks p.state) 0 (ch :: rest) := by
    intro rest
    rw [httpParserExecute, if_neg (not_not.mpr sound.ok), if_neg (by simp)]
  rw [byteStep, here, here]
  by_cases full : p.counted.overflows
  · left
    refine ⟨{ p.counted with httpErrno := .headerOverflow }, ?_, ?_, ?_⟩
    · rw [executeFrom, if_pos full]
    · rw [executeFrom, if_pos full]
    · exact fun ok => HttpErrno.noConfusion ok
  · obtain ⟨t, here', sound'⟩ := turn_sound good sound ch
    have within : Within kind [] t t := by
      rw [startMarks_word kind marked] at here'
      exact word_within kind (by rw [counted_state, marked]) [] ch here' here'
    have code : ∀ rest, executeFrom settings p (startMarks p.state) 0 (ch :: rest) =
        resume settings ch rest t := by
      intro rest
      rw [executeFrom_byte settings p _ ch rest full, here', Option.bind_some]
    rw [code, code]
    rcases within.begins kind [] ch with ⟨p', rfl⟩ | ⟨p', marks, calls, rfl, piece, later, first⟩
    · exact Or.inl ⟨p', rfl, rfl, sound'.1⟩
    · right
      have alone : byteStep settings p ch = (p', .data kind piece :: later) := by
        rw [byteStep, here, code, resume, executeFrom, finish_flush (sound'.1.advance ch),
          ← first]
        rfl
      refine ⟨piece, later ++ Transducer.emits (byteStep settings) p' rest, ?_⟩
      rw [Transducer.emits_cons, alone]
      rfl

/-- A segment is read as its bytes are, each in a segment of its own: the parser ends the
same, and its callbacks bring the same. -/
theorem httpParserExecute_bytes {p : Parser} (ready : p.Ready) {data : Bytes} (filled : data ≠ [])
    {done : Parsed} (here : httpParserExecute settings p data = some done)
    (all : done.parser.httpErrno ≠ .ok ∨ done.nparsed = data.length) :
    Transducer.after (byteStep settings) p data = done.parser ∧
      ∃ tail, Leftover done.parser tail ∧
        joined (Transducer.emits (byteStep settings) p data) = joined (done.calls ++ tail) := by
  by_cases ok : p.httpErrno = .ok
  · have sound := ready ok
    have code := here
    rw [httpParserExecute, if_neg (not_not.mpr ok), if_neg filled] at code
    obtain ⟨after, tail, left, same⟩ := executeFrom_bytes good data p _ sound done code all
    cases marked : p.state.marked with
    | none =>
        rw [startMarks_none marked] at same
        exact ⟨after, tail, left, same⟩
    | some kind =>
        obtain ⟨ch, rest, rfl⟩ := List.exists_cons_of_ne_nil filled
        rcases emits_begins good sound marked ch rest with ⟨p', whole, one, failed⟩ |
          ⟨piece, later, first⟩
        · obtain ⟨after', emits⟩ := bytes_failed settings failed rest
          cases here.symm.trans whole
          refine ⟨after, [], ⟨Nat.zero_le 1, fun _ => rfl⟩, ?_⟩
          rw [Transducer.emits_cons, one, emits]
        · refine ⟨after, tail, left, ?_⟩
          rw [startMarks_word kind marked, flush_word, first, List.cons_append, List.nil_append,
            joined_pieces, List.nil_append] at same
          rw [first, same]
  · rw [httpParserExecute, if_pos ok] at here
    cases here
    obtain ⟨after, emits⟩ := bytes_failed settings ok data
    rw [after, emits]
    exact ⟨rfl, [], ⟨Nat.zero_le 1, fun _ => rfl⟩, rfl⟩

/-- The parser returns behind this byte. -/
def Leaves (settings : Settings) (p : Parser) (ch : UInt8) : Prop :=
  p.httpErrno = .ok ∧ ¬ p.counted.overflows ∧
    ∃ p' calls, turn settings p.counted (startMarks p.state) ch [] = some (.leaves p' calls)

/-- The parser returns behind the last byte at the earliest. -/
def Unbroken (settings : Settings) : Parser → Bytes → Prop
  | _, [] => True
  | p, ch :: rest =>
      (Leaves settings p ch → rest = []) ∧ Unbroken settings (byteStep settings p ch).1 rest

omit good in
theorem unbroken_failed {p : Parser} (failed : p.httpErrno ≠ .ok) (data : Bytes) :
    Unbroken settings p data := by
  induction data with
  | nil => trivial
  | cons ch rest ih =>
      rw [Unbroken, byteStep_failed settings failed]
      exact ⟨fun leaves => absurd leaves.1 failed, ih⟩

omit good in
theorem Unbroken.append (data later : Bytes) :
    ∀ p : Parser, Unbroken settings p (data ++ later) →
      Unbroken settings p data ∧
        Unbroken settings (Transducer.after (byteStep settings) p data) later := by
  induction data with
  | nil => exact fun p unbroken => ⟨trivial, unbroken⟩
  | cons ch rest ih =>
      intro p unbroken
      obtain ⟨last, next⟩ := unbroken
      obtain ⟨front, back⟩ := ih _ next
      exact ⟨⟨fun leaves => (List.append_eq_nil_iff.mp (last leaves)).1, front⟩, back⟩

/-- A segment is read to its end, or to an error in it, if nothing makes the parser return
before. -/
theorem executeFrom_unbroken (data : Bytes) :
    ∀ (p : Parser) (marks : Marks), Sound p marks → ∀ done,
      executeFrom settings p marks 0 data = some done →
      ((done.parser.httpErrno ≠ .ok ∨ done.nparsed = data.length) ↔
        Unbroken settings p data) := by
  induction data with
  | nil =>
      intro p marks sound done here
      rw [executeFrom, finish_flush sound] at here
      cases here
      exact iff_of_true (Or.inr rfl) trivial
  | cons ch rest ih =>
      intro p marks sound done here
      have alone : byteStep settings p ch =
          match executeFrom settings p (startMarks p.state) 0 [ch] with
          | some done => (done.parser, done.calls)
          | none => (p, []) := by
        rw [byteStep, httpParserExecute, if_neg (not_not.mpr sound.ok), if_neg (by simp)]
      rw [Unbroken]
      by_cases full : p.counted.overflows
      · have failed : { p.counted with httpErrno := .headerOverflow }.httpErrno ≠ .ok := by
          exact fun ok => HttpErrno.noConfusion ok
        rw [executeFrom, if_pos full] at here alone
        cases here
        rw [alone]
        exact iff_of_true (Or.inl failed)
          ⟨fun leaves => absurd full leaves.2.1, unbroken_failed failed rest⟩
      · rw [executeFrom_byte settings p _ ch _ full] at here alone
        obtain ⟨t, t', whole, cut, sound', sound'', same⟩ := turn_cut good sound ch
        rw [whole, Option.bind_some] at here
        rw [cut, Option.bind_some] at alone
        have returns : Leaves settings p ch ↔ ∃ p' calls, t' = .leaves p' calls := by
          rw [Leaves, cut]
          simp [sound.ok, full]
        rw [returns]
        cases same with
        | fails p' calls quiet =>
            cases here
            have one : byteStep settings p ch = (p', calls) := alone
            rw [one]
            apply iff_of_true (Or.inl sound'.1)
            refine ⟨?_, unbroken_failed sound'.1 rest⟩
            rintro ⟨_, _, other⟩
            exact Turn.noConfusion other
        | leaves p' calls quiet =>
            cases here
            have ok : p'.httpErrno = .ok := sound'.1.ok
            constructor
            · rintro (failed | taken)
              · exact absurd ok failed
              · rw [List.eq_nil_of_length_eq_zero (Nat.succ.inj taken).symm]
                exact ⟨fun _ => rfl, trivial⟩
            · rintro ⟨last, -⟩
              rw [last ⟨p', calls, rfl⟩]
              exact Or.inr rfl
        | goes p' marks' cut' calls calls' told =>
            obtain ⟨done', later, rfl⟩ := Option.map_eq_some_iff.mp here
            obtain ⟨sound₁, -, -⟩ := sound'
            obtain ⟨sound₂, -, -⟩ := sound''
            have one : byteStep settings p ch = (p', calls' ++ (cut'.advance ch).flush) := by
              rw [resume, executeFrom, finish_flush (sound₂.advance ch)] at alone
              exact alone
            have next := ih p' _ (sound₁.advance ch) done' later
            have stays : ¬ ∃ q calls'', Turn.goes p' cut' calls' 0 = .leaves q calls'' := by
              rintro ⟨_, _, other⟩
              exact Turn.noConfusion other
            have count : (Parsed.behind calls done').nparsed = (ch :: rest).length ↔
                done'.nparsed = rest.length := by
              show done'.nparsed + 1 = rest.length + 1 ↔ _
              omega
            rw [one, count]
            show (done'.parser.httpErrno ≠ .ok ∨ _) ↔ _
            rw [next]
            exact ⟨fun unbroken => ⟨fun returned => absurd returned stays, unbroken⟩, And.right⟩

theorem httpParserExecute_unbroken {p : Parser} (ready : p.Ready) {data : Bytes}
    (filled : data ≠ []) {done : Parsed} (here : httpParserExecute settings p data = some done) :
    (done.parser.httpErrno ≠ .ok ∨ done.nparsed = data.length) ↔ Unbroken settings p data := by
  rw [httpParserExecute] at here
  by_cases ok : p.httpErrno = .ok
  · rw [if_neg (not_not.mpr ok), if_neg filled] at here
    exact executeFrom_unbroken good data p _ (ready ok) done here
  · rw [if_pos ok] at here
    cases here
    exact iff_of_true (Or.inl ok) (unbroken_failed ok data)

omit good in
theorem joined_congr {front front' back back' : List HttpCallback}
    (first : joined front = joined front') (second : joined back = joined back') :
    joined (front ++ back) = joined (front' ++ back') :=
  Joining.join_congr mergeCalls mergeCalls_associates first second

omit good in
theorem httpRun_failed {p : Parser} (failed : p.httpErrno ≠ .ok) (segments : List Bytes) :
    httpRun settings p segments = some (p, []) := by
  induction segments with
  | nil => rfl
  | cons data rest ih =>
      rw [httpRun, httpParserExecute, if_pos failed, Option.bind_eq_bind, Option.bind_some, ih]
      rfl

/-- Any number of segments are read as their bytes are. -/
theorem httpRun_bytes (segments : List Bytes) :
    ∀ p : Parser, p.Ready → (∀ data ∈ segments, data ≠ []) →
      Unbroken settings p segments.flatten →
      ∃ p' calls, httpRun settings p segments = some (p', calls) ∧
        Transducer.after (byteStep settings) p segments.flatten = p' ∧
        ∃ tail, Leftover p' tail ∧
          joined (Transducer.emits (byteStep settings) p segments.flatten) =
            joined (calls ++ tail) := by
  induction segments with
  | nil => exact fun p _ _ _ => ⟨p, [], rfl, rfl, [], ⟨Nat.zero_le 1, fun _ => rfl⟩, rfl⟩
  | cons data rest ih =>
      intro p ready filled unbroken
      have here := filled data List.mem_cons_self
      obtain ⟨front, back⟩ := unbroken.append data rest.flatten p
      obtain ⟨done, run, ready', -, -⟩ := httpParserExecute_sound good ready data here
      have all := (httpParserExecute_unbroken good ready here run).mpr front
      obtain ⟨after, tail, left, same⟩ := httpParserExecute_bytes good ready here run all
      rw [List.flatten_cons, Transducer.after_append, Transducer.emits_append]
      rw [after] at back ⊢
      simp only [httpRun, run, Option.bind_eq_bind, Option.bind_some]
      by_cases ok : done.parser.httpErrno = .ok
      · obtain ⟨p', later, run', after', tail', left', same'⟩ := ih done.parser ready'
          (fun other inside => filled other (List.mem_cons_of_mem data inside)) back
        rw [run']
        refine ⟨p', done.calls ++ later, rfl, after', tail', left', ?_⟩
        rw [left.2 ok, List.append_nil] at same
        rw [joined_congr same same', List.append_assoc]
      · obtain ⟨after', emits'⟩ := bytes_failed settings ok rest.flatten
        rw [httpRun_failed ok rest, after', emits', List.append_nil]
        refine ⟨done.parser, done.calls, ?_, rfl, tail, left, same⟩
        rw [Option.bind_some, List.append_nil]
        rfl

/-- In any number of segments the parser reads what it reads whole in one. -/
theorem httpRun_whole {p : Parser} (ready : p.Ready) (segments : List Bytes)
    (stretch : segments.flatten ≠ []) (filled : ∀ data ∈ segments, data ≠ []) {done : Parsed}
    (here : httpParserExecute settings p segments.flatten = some done)
    (ok : done.parser.httpErrno = .ok) (all : done.nparsed = segments.flatten.length) :
    ∃ calls, httpRun settings p segments = some (done.parser, calls) ∧
      joined calls = joined done.calls := by
  have unbroken := (httpParserExecute_unbroken good ready stretch here).mp (Or.inr all)
  obtain ⟨after, tail, left, same⟩ := httpParserExecute_bytes good ready stretch here (Or.inr all)
  obtain ⟨p', calls, run, after', tail', left', same'⟩ :=
    httpRun_bytes good segments p ready filled unbroken
  have ends : p' = done.parser := after'.symm.trans after
  rw [ends] at run left'
  rw [left.2 ok, List.append_nil] at same
  rw [left'.2 ok, List.append_nil] at same'
  exact ⟨calls, run, same'.symm.trans same⟩

/-- However a stretch of the stream comes in segments: if the parser reads it whole as one
segment, or fails in it, then it ends the same, and its callbacks bring the same, but for
a last piece that it does not bring when it fails. -/
theorem httpRun_segments {p : Parser} (ready : p.Ready) (segments : List Bytes)
    (arrived : segments ≠ []) (filled : ∀ data ∈ segments, data ≠ []) {done : Parsed}
    (here : httpParserExecute settings p segments.flatten = some done)
    (all : done.parser.httpErrno ≠ .ok ∨ done.nparsed = segments.flatten.length) :
    ∃ calls, httpRun settings p segments = some (done.parser, calls) ∧
      ∃ tail tail', Leftover done.parser tail ∧ Leftover done.parser tail' ∧
        joined (calls ++ tail) = joined (done.calls ++ tail') := by
  have stretch : segments.flatten ≠ [] := by
    obtain ⟨data, rest, rfl⟩ := List.exists_cons_of_ne_nil arrived
    rw [List.flatten_cons]
    exact List.append_ne_nil_of_left_ne_nil (filled data List.mem_cons_self) _
  have unbroken := (httpParserExecute_unbroken good ready stretch here).mp all
  obtain ⟨after, tail', left', same'⟩ := httpParserExecute_bytes good ready stretch here all
  obtain ⟨p', calls, run, after', tail, left, same⟩ :=
    httpRun_bytes good segments p ready filled unbroken
  have ends : p' = done.parser := after'.symm.trans after
  rw [ends] at run left
  exact ⟨calls, run, tail, tail', left, left', same.symm.trans same'⟩

end Bytes

/-- The beginning of a request, cut within its method, its URL and a name. -/
def cutRequest : List Bytes :=
  [[71, 69], [84, 32, 47, 97], [98, 32, 72, 84, 84, 80, 47, 49, 46, 49, 13, 10, 72, 111], [115, 116, 58]]

theorem httpRun_segments_cut : ∃ p calls,
    httpRun clientParserSettings (httpParserInit .request) cutRequest = some (p, calls) ∧
      joined calls =
        [.messageBegin, .data .url [47, 97, 98], .data .headerField [72, 111, 115, 116]] := by
  let done := (httpParserExecute clientParserSettings (httpParserInit .request)
    cutRequest.flatten).get (by decide +kernel)
  have here : httpParserExecute clientParserSettings (httpParserInit .request)
      cutRequest.flatten = some done := (Option.some_get _).symm
  have ok : done.parser.httpErrno = .ok := by decide +kernel
  obtain ⟨calls, run, tail, tail', left, left', same⟩ := httpRun_segments
    clientParserSettings_sound (httpParserInit_ready .request) cutRequest (by decide) (by decide)
    here (Or.inr (by decide +kernel))
  refine ⟨done.parser, calls, run, ?_⟩
  rw [left.2 ok, left'.2 ok, List.append_nil, List.append_nil] at same
  rw [same]
  decide +kernel

end Bscope.Http
