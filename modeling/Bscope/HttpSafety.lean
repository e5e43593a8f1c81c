import Bscope.HttpBytes
import Mathlib.Tactic.Common

set_option autoImplicit false

/- The parser on any bytes: its assertions hold, and it never reads outside a word. -/
namespace Bscope.Http

/-- The states of a name in which the parser may be within it. -/
def HeaderState.ofField : HeaderState → Bool
  | .matchingTransferEncodingChunked | .matchingConnectionKeepAlive => false
  | .matchingConnectionClose | .transferEncodingChunked => false
  | .connectionKeepAlive | .connectionClose => false
  | _ => true

/-- What a state relies on. -/
def Parser.Fits (p : Parser) : Prop :=
  match p.state with
  | .reqMethod => p.index ≤ (httpMethodStr p.method).bytes.length
  | .headerField => p.headerState.ofField = true
  | .headerValue => p.headerState ≠ .connection ∧ p.headerState ≠ .transferEncoding
  | .chunkSizeStart => p.flags.chunked = true ∧ p.nread = 0
  | .chunkSize | .chunkParameters | .chunkSizeAlmostDone =>
      p.flags.chunked = true ∧ p.contentLength ≠ ULLONG_MAX
  | .chunkData => p.flags.chunked = true ∧ p.contentLength ≠ 0 ∧ p.contentLength ≠ ULLONG_MAX
  | .chunkDataAlmostDone => p.flags.chunked = true ∧ p.contentLength = 0
  | .chunkDataDone => p.flags.chunked = true
  | .bodyIdentity => p.contentLength ≠ 0 ∧ p.contentLength ≠ ULLONG_MAX
  | _ => True

/-- The mark that may be set in a state. -/
def State.holds : State → Option DataKind
  | .bodyIdentity | .bodyIdentityEof | .chunkData | .chunkDataAlmostDone => some .body
  | s => s.marked

structure Sound (p : Parser) (marks : Marks) : Prop where
  ok : p.httpErrno = .ok
  code : p.statusCode ≤ 999
  fits : p.Fits
  held : ∀ kind, (marks kind).isSome → p.state.holds = some kind
  set : ∀ kind, p.state.marked = some kind → (marks kind).isSome

/-- The status that a callback reads is one of three digits. -/
def HttpCallback.Coded : HttpCallback → Prop
  | .headersComplete _ _ _ statusCode => statusCode ≤ 999
  | .messageComplete statusCode => statusCode ≤ 999
  | _ => True

def Turn.Sound : Turn → Prop
  | .goes p marks calls skip => Http.Sound p marks ∧ skip = 0 ∧ ∀ call ∈ calls, call.Coded
  | .fails p calls => p.httpErrno ≠ .ok ∧ ∀ call ∈ calls, call.Coded
  | .leaves p calls => Http.Sound p (fun _ => none) ∧ ∀ call ∈ calls, call.Coded

/-- The callbacks leave the parser alone, or begin anew with it. -/
def Settings.Sound (settings : Settings) : Prop :=
  ∀ p, settings.onMessageComplete p = p ∨ ∃ t, settings.onMessageComplete p = httpParserInit t

theorem State.marked_holds (s : State) (kind : DataKind) (marked : s.marked = some kind) :
    s.holds = some kind := by
  cases s <;> first | exact marked | exact nomatch marked

theorem error_sound (p : Parser) (e : HttpErrno) (failed : e ≠ .ok) : (Turn.error p e).Sound :=
  ⟨failed, fun _ member => absurd member List.not_mem_nil⟩

/-- A state that relies on nothing and starts with no mark. -/
def State.free : State → Bool
  | .reqMethod | .headerField | .headerValue | .chunkSizeStart | .chunkSize | .chunkParameters => false
  | .chunkSizeAlmostDone | .chunkData | .chunkDataAlmostDone | .chunkDataDone => false
  | .bodyIdentity => false
  | s => s.marked.isNone

theorem State.free_marked (s : State) (free : s.free = true) : s.marked = none := by
  cases s <;> first | rfl | exact nomatch free

theorem Parser.fits_free (p : Parser) (free : p.state.free = true) : p.Fits := by
  unfold Fits
  split <;> first | trivial | simp [State.free, *] at free

theorem lineEnd_free (almost whole : State) (ch : UInt8) (free : almost.free = true)
    (free' : whole.free = true) : ∀ next ∈ lineEnd almost whole ch, next.free = true := by
  intro next member
  unfold lineEnd at member
  split at member
  · cases member
    exact free
  · split at member
    · cases member
      exact free'
    · exact nomatch member

theorem digit_small (ch : UInt8) : digit ch ≤ 999 := by
  have byte : ch.toNat < 256 := UInt8.toNat_lt ch
  unfold digit
  omega

theorem method_long (method : HttpMethod) : 3 ≤ (httpMethodStr method).bytes.length := by
  cases method <;> decide

/-- Another method is long enough for what was read of it. -/
theorem otherMethod_fits {method method' : HttpMethod} {index : Nat} {ch : UInt8}
    (other : otherMethod method index ch = .ok method') :
    index + 1 ≤ (httpMethodStr method').bytes.length := by
  have long := method_long method'
  have longer : 5 ≤ (httpMethodStr .proppatch).bytes.length := by decide
  unfold otherMethod at other
  split_ifs at other <;> cases other <;> omega

theorem otherMethod_fails {method : HttpMethod} {index : Nat} {ch : UInt8} {e : HttpErrno}
    (other : otherMethod method index ch = .error e) : e ≠ .ok := by
  unfold otherMethod at other
  split_ifs at other <;> cases other <;> exact nofun

section States

variable {p : Parser} {marks : Marks} (sound : Sound p marks)
include sound

/-- A state that holds no mark. -/
theorem Sound.unmarked (was : p.state.holds = none) : marks = fun _ => none := by
  funext kind
  cases mark : marks kind with
  | none => rfl
  | some held =>
      have impossible := sound.held kind (by rw [mark]; rfl)
      rw [was] at impossible
      exact nomatch impossible

variable (was : p.state.holds = none)
include was

theorem Sound.moves {p' : Parser} (ok : p'.httpErrno = .ok) (code : p'.statusCode ≤ 999)
    (fits : p'.Fits) (plain : p'.state.marked = none) : Sound p' marks := by
  rw [sound.unmarked was]
  refine ⟨ok, code, fits, ?_, ?_⟩
  · intro kind set
    exact nomatch set
  · intro kind marked
    rw [plain] at marked
    exact nomatch marked

theorem Sound.next {p' : Parser} (ok : p'.httpErrno = .ok) (code : p'.statusCode ≤ 999)
    (free : p'.state.free = true) : (Turn.next p' marks).Sound :=
  ⟨sound.moves was ok code (p'.fits_free free) (State.free_marked _ free), rfl,
    fun _ member => absurd member List.not_mem_nil⟩

variable (ch : UInt8)

theorem strictly_sound (want : UInt8) (next : State) (free : next.free = true) :
    (strictly want next p marks ch).Sound := by
  unfold strictly
  split
  · exact error_sound p .strict nofun
  · exact sound.next was sound.ok sound.code free

theorem firstMajor_sound (least : UInt8) (next : State) (free : next.free = true) :
    (firstMajor least next p marks ch).Sound := by
  unfold firstMajor
  split
  · exact error_sound p .invalidVersion nofun
  · exact sound.next was sound.ok sound.code free

theorem moreMajor_sound (next : State) (free : next.free = true) (same : p.state.free = true) :
    (moreMajor next p marks ch).Sound := by
  unfold moreMajor
  split
  · exact sound.next was sound.ok sound.code free
  · split
    · exact error_sound p .invalidVersion nofun
    · dsimp only
      split
      · exact error_sound _ .invalidVersion nofun
      · exact sound.next was sound.ok sound.code same

theorem firstMinor_sound (next : State) (free : next.free = true) :
    (firstMinor next p marks ch).Sound := by
  unfold firstMinor
  split
  · exact error_sound p .invalidVersion nofun
  · exact sound.next was sound.ok sound.code free

theorem moreMinor_sound (stops : UInt8 → Option State)
    (free : ∀ next ∈ stops ch, next.free = true) (same : p.state.free = true) :
    (moreMinor stops p marks ch).Sound := by
  unfold moreMinor
  split
  case h_1 next stop => exact sound.next was sound.ok sound.code (free next stop)
  case h_2 =>
    split
    · exact error_sound p .invalidVersion nofun
    · dsimp only
      split
      · exact error_sound _ .invalidVersion nofun
      · exact sound.next was sound.ok sound.code same

theorem resFirstStatusCode_sound (same : p.state.free = true) :
    (resFirstStatusCode p marks ch).Sound := by
  unfold resFirstStatusCode
  split
  · split
    · exact sound.next was sound.ok sound.code same
    · exact error_sound p .invalidStatus nofun
  · exact sound.next was sound.ok (digit_small ch) rfl

theorem resStatusCode_sound (same : p.state.free = true) : (resStatusCode p marks ch).Sound := by
  unfold resStatusCode
  split
  · split
    · exact sound.next was sound.ok sound.code rfl
    · split
      case h_1 next stop =>
        exact sound.next was sound.ok sound.code (lineEnd_free _ _ ch rfl rfl next stop)
      case h_2 => exact error_sound p .invalidStatus nofun
  · dsimp only
    split
    case isTrue => exact error_sound _ .invalidStatus nofun
    case isFalse small => exact sound.next was sound.ok (Nat.le_of_not_lt small) same

theorem resStatus_sound (same : p.state.free = true) : (resStatus p marks ch).Sound := by
  unfold resStatus
  split
  case h_1 next stop =>
    exact sound.next was sound.ok sound.code (lineEnd_free _ _ ch rfl rfl next stop)
  case h_2 => exact sound.next was sound.ok sound.code same

theorem begins_sound {p' : Parser} (ok : p'.httpErrno = .ok) (code : p'.statusCode ≤ 999)
    (fits : p'.Fits) (plain : p'.state.marked = none) :
    (Turn.goes p' marks [.messageBegin] 0).Sound := by
  refine ⟨sound.moves was ok code fits plain, rfl, ?_⟩
  intro call member
  cases List.mem_singleton.mp member
  trivial

theorem startRes_sound (state : p.state = .startRes) : (startRes p marks ch).Sound := by
  unfold startRes
  split
  · exact begins_sound sound was sound.ok sound.code trivial rfl
  · split
    · refine begins_sound sound was sound.ok sound.code ?_ ?_
      · apply Parser.fits_free
        show p.state.free = true
        rw [state]
        rfl
      · show p.state.marked = none
        rw [state]
        rfl
    · exact error_sound _ .invalidConstant nofun

theorem startReq_sound (same : p.state.free = true) : (startReq p marks ch).Sound := by
  unfold startReq
  split
  · exact sound.next was sound.ok sound.code same
  · dsimp only
    split
    · exact error_sound _ .invalidMethod nofun
    · split
      case h_1 => exact error_sound _ .invalidMethod nofun
      case h_2 method _ =>
        refine begins_sound sound was sound.ok sound.code ?_ rfl
        have long := method_long method
        show 1 ≤ (httpMethodStr method).bytes.length
        omega

theorem startReqOrRes_sound (same : p.state.free = true) : (startReqOrRes p marks ch).Sound := by
  unfold startReqOrRes
  split
  · exact sound.next was sound.ok sound.code same
  · dsimp only
    split
    · exact begins_sound sound was sound.ok sound.code trivial rfl
    · have moved : Http.Sound
          { p with flags := .none, contentLength := ULLONG_MAX, type := .request, state := .startReq }
          marks := sound.moves was sound.ok sound.code trivial rfl
      exact startReq_sound moved rfl ch rfl

theorem resOrRespH_sound : (resOrRespH p marks ch).Sound := by
  unfold resOrRespH
  split
  · exact sound.next was sound.ok sound.code rfl
  · split
    · exact error_sound p .invalidConstant nofun
    · refine ⟨sound.moves was sound.ok sound.code ?_ rfl, rfl,
        fun _ member => absurd member List.not_mem_nil⟩
      exact Nat.le_of_succ_le (method_long .head)

theorem reqMethod_sound (state : p.state = .reqMethod) :
    ∃ t, reqMethod p marks ch = some t ∧ t.Sound := by
  have fits : p.index ≤ (httpMethodStr p.method).bytes.length := by
    simpa only [Parser.Fits, state] using sound.fits
  have goes : ∀ (method : HttpMethod), p.index + 1 ≤ (httpMethodStr method).bytes.length →
      (Turn.next { p with method := method, index := p.index + 1 } marks).Sound := by
    intro method inside
    refine ⟨sound.moves was sound.ok sound.code ?_ ?_, rfl,
      fun _ member => absurd member List.not_mem_nil⟩
    · show Parser.Fits { p with method := method, index := p.index + 1 }
      rw [Parser.Fits, state]
      exact inside
    · rw [state]
      rfl
  unfold reqMethod
  split
  case isTrue => exact ⟨_, rfl, error_sound p .invalidMethod nofun⟩
  case isFalse filled =>
    dsimp only
    rw [if_neg (Nat.not_lt.mpr fits)]
    split
    case isTrue => exact ⟨_, rfl, sound.next was sound.ok sound.code rfl⟩
    case isFalse =>
      split
      case isTrue same =>
        refine ⟨_, rfl, goes p.method ?_⟩
        apply Nat.lt_of_not_le
        intro behind
        rw [List.getD_eq_getElem?_getD, List.getElem?_eq_none behind] at same
        exact filled same
      case isFalse =>
        split
        case h_1 method other => exact ⟨_, rfl, goes method (otherMethod_fits other)⟩
        case h_2 e other => exact ⟨_, rfl, error_sound p e (otherMethod_fails other)⟩

theorem deadByte_sound (same : p.state.free = true) : (deadByte p marks ch).Sound := by
  unfold deadByte
  split
  · exact sound.next was sound.ok sound.code same
  · exact error_sound p .closedConnection nofun

theorem reqHttpStart_sound (same : p.state.free = true) : (reqHttpStart p marks ch).Sound := by
  unfold reqHttpStart
  split
  · exact sound.next was sound.ok sound.code rfl
  · split
    · exact sound.next was sound.ok sound.code same
    · exact error_sound p .invalidConstant nofun

theorem reqLineAlmostDone_sound : (reqLineAlmostDone p marks ch).Sound := by
  unfold reqLineAlmostDone
  split
  · exact error_sound p .lfExpected nofun
  · exact sound.next was sound.ok sound.code rfl

end States

/-- A URL goes on in a state of a URL. -/
theorem parseUrlChar_url (s : State) (ch : UInt8) :
    parseUrlChar s ch = .dead ∨ (parseUrlChar s ch).marked = some .url := by
  unfold parseUrlChar
  split
  · exact Or.inl rfl
  · cases s <;>
      first
      | exact Or.inl rfl
      | dsimp only; split_ifs <;> first | exact Or.inl rfl | exact Or.inr rfl

theorem State.fits_marked (p : Parser) (url : p.state.marked = some .url) : p.Fits := by
  unfold Parser.Fits
  split <;> first | trivial | simp [State.marked, *] at url

section Words

variable {p : Parser} {marks : Marks} (ch : UInt8)

theorem urlChar_sound (ok : p.httpErrno = .ok) (code : p.statusCode ≤ 999)
    (only : ∀ kind, (marks kind).isSome ↔ kind = .url) : (urlChar p marks ch).Sound := by
  unfold urlChar
  dsimp only
  split
  case isTrue => exact error_sound _ .invalidUrl nofun
  case isFalse alive =>
    have url := (parseUrlChar_url p.state ch).resolve_left alive
    refine ⟨⟨ok, code, State.fits_marked _ url, ?_, ?_⟩, rfl,
      fun _ member => absurd member List.not_mem_nil⟩
    · intro kind set
      rw [(only kind).mp set]
      exact State.marked_holds _ .url url
    · intro kind marked
      rw [Option.some.inj (marked.symm.trans url)]
      exact (only .url).mpr rfl

variable (sound : Sound p marks)
include sound

/-- The mark of a word is set in the states of the word, and no other. -/
theorem Sound.only {kind : DataKind} (marked : p.state.marked = some kind) (other : DataKind) :
    (marks other).isSome ↔ other = kind := by
  constructor
  · intro set
    have held := sound.held other set
    rw [State.marked_holds _ kind marked] at held
    exact (Option.some.inj held).symm
  · intro same
    rw [same]
    exact sound.set kind marked

/-- The end of a word. -/
theorem Sound.tells {kind : DataKind} (marked : p.state.marked = some kind) {p' : Parser}
    (ok : p'.httpErrno = .ok) (code : p'.statusCode ≤ 999) (free : p'.state.free = true) :
    (Turn.goes p' (marks.clear kind) (marks.calls kind) 0).Sound := by
  have cleared : marks.clear kind = fun _ => none := by
    funext other
    by_cases same : other = kind
    · rw [same, Marks.clear_self]
    · rw [Marks.clear, Function.update_of_ne same]
      cases set : marks other with
      | none => rfl
      | some held => exact absurd ((sound.only marked other).mp (by rw [set]; rfl)) same
  refine ⟨⟨ok, code, p'.fits_free free, ?_, ?_⟩, rfl, ?_⟩
  · intro other set
    rw [cleared] at set
    cases set
  · intro other set
    rw [State.free_marked _ free] at set
    cases set
  · intro call member
    unfold Marks.calls at member
    split at member
    · cases List.mem_singleton.mp member
      trivial
    · exact absurd member List.not_mem_nil

theorem reqSpacesBeforeUrl_sound (state : p.state = .reqSpacesBeforeUrl) :
    (reqSpacesBeforeUrl p marks ch).Sound := by
  have was : p.state.holds = none := by
    rw [state]
    rfl
  unfold reqSpacesBeforeUrl
  split
  case isTrue =>
    refine sound.next was sound.ok sound.code ?_
    rw [state]
    rfl
  case isFalse =>
    have only : ∀ kind, (marks.mark .url kind).isSome ↔ kind = .url := by
      intro kind
      rw [sound.unmarked was]
      by_cases same : kind = .url
      · rw [same, Marks.mark_self]
        simp
      · rw [Marks.mark, Function.update_of_ne same]
        simp [same]
    split
    · exact urlChar_sound ch sound.ok sound.code only
    · exact urlChar_sound ch sound.ok sound.code only

theorem urlFront_sound (url : p.state.marked = some .url) : (urlFront p marks ch).Sound := by
  unfold urlFront
  split
  · exact error_sound p .invalidUrl nofun
  · exact urlChar_sound ch sound.ok sound.code (sound.only url)

theorem urlBack_sound (url : p.state.marked = some .url) : (urlBack p marks ch).Sound := by
  unfold urlBack
  split
  · exact sound.tells url sound.ok sound.code rfl
  · split
    case h_1 next stop =>
      exact sound.tells url sound.ok sound.code (lineEnd_free _ _ ch rfl rfl next stop)
    case h_2 => exact urlChar_sound ch sound.ok sound.code (sound.only url)

end Words

theorem Turn.Sound.behind {t : Turn} (sound : t.Sound) {calls : List HttpCallback}
    (coded : ∀ call ∈ calls, call.Coded) : (t.behind calls).Sound := by
  have both : ∀ later : List HttpCallback, (∀ call ∈ later, call.Coded) →
      ∀ call ∈ calls ++ later, call.Coded := by
    intro later coded' call member
    rcases List.mem_append.mp member with first | second
    · exact coded call first
    · exact coded' call second
  cases t with
  | goes p marks later skip => exact ⟨sound.1, sound.2.1, both later sound.2.2⟩
  | fails p later => exact ⟨sound.1, both later sound.2⟩
  | leaves p later => exact ⟨sound.1, both later sound.2⟩

/-- No mark is set. -/
def noMarks : Marks := fun _ => none

theorem sound_bare {p : Parser} (ok : p.httpErrno = .ok) (code : p.statusCode ≤ 999)
    (fits : p.Fits) (plain : p.state.marked = none) : Sound p noMarks := by
  refine ⟨ok, code, fits, ?_, ?_⟩
  · intro kind set
    exact nomatch set
  · intro kind marked
    rw [plain] at marked
    exact nomatch marked

theorem bare_next {p : Parser} (ok : p.httpErrno = .ok) (code : p.statusCode ≤ 999)
    (fits : p.Fits) (plain : p.state.marked = none) : (Turn.next p noMarks).Sound :=
  ⟨sound_bare ok code fits plain, rfl, fun _ member => absurd member List.not_mem_nil⟩

theorem newMessage_free (p : Parser) : p.newMessage.free = true := by
  unfold Parser.newMessage Parser.startState
  split
  · split <;> rfl
  · rfl

section Ends

variable {settings : Settings} (good : settings.Sound) {p : Parser} (ok : p.httpErrno = .ok)
  (code : p.statusCode ≤ 999) (ch : UInt8)
include good ok code

theorem messageComplete_sound : Sound (messageComplete settings p) noMarks := by
  unfold messageComplete
  rcases good { p with state := p.newMessage } with same | ⟨t, anew⟩
  · rw [same]
    exact sound_bare ok code (Parser.fits_free _ (newMessage_free p))
      (State.free_marked _ (newMessage_free p))
  · rw [anew]
    apply sound_bare rfl (Nat.zero_le 999)
    · apply Parser.fits_free
      cases t <;> rfl
    · cases t <;> rfl

theorem completed_sound : (completed settings p noMarks).Sound := by
  refine ⟨messageComplete_sound good ok code, rfl, ?_⟩
  intro call member
  cases List.mem_singleton.mp member
  exact code

theorem headersDone_sound : (headersDone settings p noMarks ch).Sound := by
  have ends : (completed settings { p with nread := 0 } noMarks).Sound :=
    completed_sound good ok code
  unfold headersDone
  split
  case isTrue => exact error_sound p .strict nofun
  case isFalse =>
    dsimp only
    split
    case isTrue => exact ⟨messageComplete_sound good ok code, ends.2.2⟩
    case isFalse =>
      split
      case isTrue => exact ends
      case isFalse =>
        split
        case isTrue chunked => exact bare_next ok code ⟨chunked, rfl⟩ rfl
        case isFalse =>
          split
          case isTrue => exact ends
          case isFalse filled =>
            split
            case isTrue known => exact bare_next ok code ⟨filled, known⟩ rfl
            case isFalse =>
              split
              case isTrue => exact ends
              case isFalse => exact bare_next ok code trivial rfl

theorem headersAlmostDone_sound : (headersAlmostDone settings p noMarks ch).Sound := by
  unfold headersAlmostDone
  split
  case isTrue => exact error_sound p .strict nofun
  case isFalse =>
    split
    case isTrue => exact completed_sound good ok code
    case isFalse =>
      have coded : ∀ call ∈ [HttpCallback.headersComplete p.method p.httpMajor p.httpMinor
          p.statusCode], call.Coded := by
        intro call member
        cases List.mem_singleton.mp member
        exact code
      dsimp only
      split
      case isTrue =>
        apply Turn.Sound.behind _ coded
        apply headersDone_sound good
        · exact ok
        · exact code
      case isFalse =>
        split
        case isTrue =>
          apply Turn.Sound.behind _ coded
          apply headersDone_sound good
          · exact ok
          · exact code
        case isFalse => exact ⟨nofun, coded⟩

theorem headerFieldStart_sound : (headerFieldStart settings p noMarks ch).Sound := by
  unfold headerFieldStart
  split
  case isTrue => exact bare_next ok code trivial rfl
  case isFalse =>
    split
    case isTrue =>
      apply headersAlmostDone_sound good
      · exact ok
      · exact code
    case isFalse =>
      dsimp only
      split
      case isTrue => exact error_sound p .invalidHeaderToken (by decide)
      case isFalse =>
        refine ⟨⟨ok, code, ?_, ?_, ?_⟩, rfl, fun _ member => absurd member List.not_mem_nil⟩
        · show HeaderState.ofField _ = true
          split_ifs <;> rfl
        · intro kind set
          by_cases same : kind = .headerField
          · rw [same]
            rfl
          · rw [Marks.mark, Function.update_of_ne same] at set
            cases set
        · intro kind marked
          cases marked
          rw [Marks.mark_self]
          rfl

theorem headerValueLws_sound : (headerValueLws settings p noMarks ch).Sound := by
  unfold headerValueLws
  split
  · exact bare_next ok code trivial rfl
  · apply headerFieldStart_sound good
    · exact ok
    · exact code

omit good in
theorem headerAlmostDone_sound : (headerAlmostDone p noMarks ch).Sound := by
  unfold headerAlmostDone
  split
  · exact error_sound p .strict nofun
  · dsimp only
    split <;> exact bare_next ok code trivial rfl

end Ends

/-- A word either goes on, or is complete, or is another. -/
theorem matchLetter_word (word : Bytes) (whole : HeaderState) (p : Parser) (c : UInt8) :
    ∃ headerState, matchLetter word whole p c =
        { p with index := p.index + 1, headerState := headerState } ∧
      (headerState = .general ∨ headerState = whole ∨ headerState = p.headerState) := by
  unfold matchLetter
  dsimp only
  split
  · exact ⟨_, rfl, Or.inl rfl⟩
  · split
    · exact ⟨_, rfl, Or.inr (Or.inl rfl)⟩
    · exact ⟨_, rfl, Or.inr (Or.inr rfl)⟩

theorem fieldLetter_field (p : Parser) (ch c : UInt8) (within : p.headerState.ofField = true) :
    ∃ index headerState, fieldLetter p ch c =
        some { p with index := index, headerState := headerState } ∧
      headerState.ofField = true := by
  have word : ∀ (word : Bytes) (whole : HeaderState), whole.ofField = true →
      ∃ index headerState, some (matchLetter word whole p c) =
          some { p with index := index, headerState := headerState } ∧
        headerState.ofField = true := by
    intro word whole kept
    obtain ⟨headerState, same, which⟩ := matchLetter_word word whole p c
    refine ⟨_, headerState, congrArg some same, ?_⟩
    rcases which with other | done | more
    · rw [other]
      rfl
    · rw [done]
      exact kept
    · rw [more]
      exact within
  have ended : ∃ index headerState,
      some (if ch ≠ SP then { p with headerState := .general } else p) =
        some { p with index := index, headerState := headerState } ∧
      headerState.ofField = true := by
    split
    · exact ⟨p.index, .general, rfl, rfl⟩
    · exact ⟨p.index, p.headerState, rfl, within⟩
  unfold fieldLetter
  cases state : p.headerState with
  | general => exact ⟨p.index, p.headerState, rfl, within⟩
  | c => exact ⟨_, _, rfl, by split <;> rfl⟩
  | co => exact ⟨_, _, rfl, by split <;> rfl⟩
  | con => exact ⟨_, _, rfl, by split_ifs <;> rfl⟩
  | matchingConnection => exact word _ _ rfl
  | matchingProxyConnection => exact word _ _ rfl
  | matchingContentLength => exact word _ _ rfl
  | matchingTransferEncoding => exact word _ _ rfl
  | matchingUpgrade => exact word _ _ rfl
  | connection => exact ended
  | contentLength => exact ended
  | transferEncoding => exact ended
  | upgrade => exact ended
  | _ =>
      rw [state] at within
      exact nomatch within

/-- What a letter of a value changes, in no state that has not seen the first one. -/
structure Parser.Values (p p' : Parser) : Prop where
  same : p' = { p with
    index := p'.index, contentLength := p'.contentLength, headerState := p'.headerState }
  seen : p'.headerState ≠ .connection ∧ p'.headerState ≠ .transferEncoding

theorem valueLetter_value (p : Parser) (ch c : UInt8) (state : p.state = .headerValue)
    (seen : p.headerState ≠ .connection ∧ p.headerState ≠ .transferEncoding) :
    (∃ p', valueLetter p ch c = some (.error p') ∧ p'.httpErrno ≠ .ok) ∨
      ∃ p', valueLetter p ch c = some (.ok p') ∧ p.Values p' := by
  have goes : ∀ p' : Parser, p.Values p' →
      ∃ p'' : Parser, (some (.ok p') : Option (Except Parser Parser)) = some (.ok p'') ∧
        p.Values p'' := fun p' values => ⟨p', rfl, values⟩
  have word : ∀ (word : Bytes) (whole : HeaderState),
      whole ≠ .connection ∧ whole ≠ .transferEncoding →
      p.Values (matchLetter word whole p c) := by
    intro word whole kept
    obtain ⟨headerState, same, which⟩ := matchLetter_word word whole p c
    rw [same]
    refine ⟨rfl, ?_⟩
    rcases which with other | done | more
    · rw [other]
      exact ⟨nofun, nofun⟩
    · rw [done]
      exact kept
    · rw [more]
      exact seen
  have ended : p.Values (if ch ≠ SP then { p with headerState := .general } else p) := by
    split
    · exact ⟨rfl, nofun, nofun⟩
    · exact ⟨rfl, seen⟩
  have other : p.Values { p with state := .headerValue, headerState := .general } := by
    refine ⟨?_, nofun, nofun⟩
    rw [← state]
  unfold valueLetter
  cases which : p.headerState with
  | general => exact Or.inr (goes p ⟨rfl, seen⟩)
  | connection => exact absurd which seen.1
  | transferEncoding => exact absurd which seen.2
  | contentLength =>
      dsimp only
      split
      · exact Or.inr (goes p ⟨rfl, seen⟩)
      · split
        · exact Or.inl ⟨_, rfl, nofun⟩
        · unfold moreLength
          dsimp only
          split
          · exact Or.inl ⟨_, rfl, nofun⟩
          · exact Or.inr (goes _ ⟨rfl, seen⟩)
  | matchingTransferEncodingChunked => exact Or.inr (goes _ (word _ _ ⟨nofun, nofun⟩))
  | matchingConnectionKeepAlive => exact Or.inr (goes _ (word _ _ ⟨nofun, nofun⟩))
  | matchingConnectionClose => exact Or.inr (goes _ (word _ _ ⟨nofun, nofun⟩))
  | transferEncodingChunked => exact Or.inr (goes _ ended)
  | connectionKeepAlive => exact Or.inr (goes _ ended)
  | connectionClose => exact Or.inr (goes _ ended)
  | _ => exact Or.inr (goes _ other)

section Headers

variable {p : Parser} {marks : Marks} (ch : UInt8) (sound : Sound p marks)
include sound

/-- The parser stays within a word. -/
theorem Sound.stays {p' : Parser} (same : p'.state = p.state) (ok : p'.httpErrno = .ok)
    (code : p'.statusCode ≤ 999) (fits : p'.Fits) : (Turn.next p' marks).Sound := by
  refine ⟨⟨ok, code, fits, ?_, ?_⟩, rfl, fun _ member => absurd member List.not_mem_nil⟩
  · intro kind set
    rw [same]
    exact sound.held kind set
  · intro kind marked
    rw [same] at marked
    exact sound.set kind marked

theorem headerField_sound (state : p.state = .headerField) :
    ∃ t, headerField p marks ch = some t ∧ t.Sound := by
  have marked : p.state.marked = some .headerField := by
    rw [state]
    rfl
  unfold headerField
  split
  case isTrue =>
    have within : p.headerState.ofField = true := by
      simpa only [Parser.Fits, state] using sound.fits
    obtain ⟨index, headerState, letter, within'⟩ := fieldLetter_field p ch (tokens ch) within
    rw [letter]
    refine ⟨_, rfl, sound.stays rfl sound.ok sound.code ?_⟩
    rw [Parser.Fits, state]
    exact within'
  case isFalse =>
    dsimp only
    split
    · exact ⟨_, rfl, sound.tells marked sound.ok sound.code rfl⟩
    · split
      · exact ⟨_, rfl, sound.tells marked sound.ok sound.code rfl⟩
      · split
        · exact ⟨_, rfl, sound.tells marked sound.ok sound.code rfl⟩
        · exact ⟨_, rfl, error_sound p .invalidHeaderToken nofun⟩

theorem headerValue_sound (state : p.state = .headerValue) :
    ∃ t, headerValue p marks ch = some t ∧ t.Sound := by
  have marked : p.state.marked = some .headerValue := by
    rw [state]
    rfl
  unfold headerValue
  split
  case isTrue => exact ⟨_, rfl, sound.tells marked sound.ok sound.code rfl⟩
  case isFalse =>
    split
    case isTrue =>
      have told : (Turn.goes { p with state := .headerAlmostDone } (marks.clear .headerValue)
          (marks.calls .headerValue) 0).Sound := sound.tells marked sound.ok sound.code rfl
      have cleared := told.1.unmarked rfl
      refine ⟨_, rfl, Turn.Sound.behind ?_ told.2.2⟩
      rw [cleared]
      apply headerAlmostDone_sound
      · exact sound.ok
      · exact sound.code
    case isFalse =>
      have seen : p.headerState ≠ .connection ∧ p.headerState ≠ .transferEncoding := by
        simpa only [Parser.Fits, state] using sound.fits
      rcases valueLetter_value p ch (lower ch) state seen with ⟨p', letter, failed⟩ | found
      · rw [letter]
        exact ⟨_, rfl, failed, fun _ member => absurd member List.not_mem_nil⟩
      · obtain ⟨p', letter, values⟩ := found
        rw [letter, values.same]
        refine ⟨_, rfl, sound.stays rfl sound.ok sound.code ?_⟩
        rw [Parser.Fits, state]
        exact values.seen

end Headers

theorem headerValueStart_sound {p : Parser} (ok : p.httpErrno = .ok) (code : p.statusCode ≤ 999)
    (state : p.state = .headerValueStart) (ch : UInt8) :
    (headerValueStart p noMarks ch).Sound := by
  have begun : ∀ p' : Parser, p'.state = .headerValue → p'.httpErrno = .ok → p'.statusCode ≤ 999 →
      (p'.headerState ≠ .connection ∧ p'.headerState ≠ .transferEncoding) →
      (Turn.next p' (noMarks.mark .headerValue)).Sound := by
    intro p' state' ok' code' seen
    refine ⟨⟨ok', code', ?_, ?_, ?_⟩, rfl, fun _ member => absurd member List.not_mem_nil⟩
    · rw [Parser.Fits, state']
      exact seen
    · intro kind set
      rw [state']
      by_cases same : kind = .headerValue
      · rw [same]
        rfl
      · rw [Marks.mark, Function.update_of_ne same] at set
        cases set
    · intro kind marked
      rw [state'] at marked
      cases marked
      rw [Marks.mark_self]
      rfl
  have empty : ∀ p' : Parser, p'.state.free = true → p'.httpErrno = .ok → p'.statusCode ≤ 999 →
      (Turn.goes p' ((noMarks.mark .headerValue).clear .headerValue)
        ((noMarks.mark .headerValue).calls .headerValue) 0).Sound := by
    intro p' free ok' code'
    have cleared : (noMarks.mark .headerValue).clear .headerValue = noMarks := by
      rw [Marks.clear_mark]
      exact Function.update_eq_self DataKind.headerValue noMarks
    rw [cleared]
    refine ⟨sound_bare ok' code' (p'.fits_free free) (State.free_marked _ free), rfl, ?_⟩
    intro call member
    cases List.mem_singleton.mp member
    trivial
  unfold headerValueStart
  split
  case isTrue => exact bare_next ok code (Parser.fits_free p (by rw [state]; rfl)) (by rw [state]; rfl)
  case isFalse =>
    dsimp only
    split
    case isTrue => exact empty _ rfl ok code
    case isFalse =>
      split
      case isTrue => exact empty _ rfl ok code
      case isFalse =>
        split
        case isTrue length =>
          split
          · exact error_sound _ .invalidContentLength (by decide)
          · refine begun _ rfl ok code ?_
            rw [length]
            constructor <;> exact fun same => HeaderState.noConfusion same
        case isFalse =>
          unfold valueStart
          split
          · exact begun _ rfl ok code (by constructor <;> exact fun same => HeaderState.noConfusion same)
          · refine begun _ rfl ok code ?_
            split <;> constructor <;> exact fun same => HeaderState.noConfusion same
          · refine begun _ rfl ok code ?_
            split_ifs <;> constructor <;> exact fun same => HeaderState.noConfusion same
          · exact begun _ rfl ok code (by constructor <;> exact fun same => HeaderState.noConfusion same)

theorem unhex_small (ch : UInt8) (value : Nat) (digit : unhex ch = some value) : value < 16 := by
  have byte : ch.toNat < 256 := UInt8.toNat_lt ch
  unfold unhex at digit
  simp only [UInt8.le_iff_toNat_le, UInt8.toNat_ofNat] at digit
  split_ifs at digit <;> cases digit <;> omega

section Bodies

variable {settings : Settings} (good : settings.Sound) {p : Parser} {marks : Marks}
  (sound : Sound p marks) (ch : UInt8)
include sound

/-- The mark of a body goes with any state that may hold it. -/
theorem Sound.body {p' : Parser} (held : p.state.holds = some .body)
    (held' : p'.state.holds = some .body) (ok : p'.httpErrno = .ok) (code : p'.statusCode ≤ 999)
    (fits : p'.Fits) (plain : p'.state.marked = none) :
    (Turn.goes p' (marks.mark .body) [] 0).Sound := by
  refine ⟨⟨ok, code, fits, ?_, ?_⟩, rfl, fun _ member => absurd member List.not_mem_nil⟩
  · intro kind set
    by_cases same : kind = .body
    · rw [same]
      exact held'
    · rw [Marks.mark, Function.update_of_ne same] at set
      have was := sound.held kind set
      rw [held] at was
      exact absurd (Option.some.inj was).symm same
  · intro kind marked
    rw [plain] at marked
    cases marked

/-- The mark of a body that is over. -/
theorem Sound.cleared (held : p.state.holds = some .body) : marks.clear .body = noMarks := by
  funext kind
  by_cases same : kind = .body
  · rw [same, Marks.clear_self]
    rfl
  · rw [Marks.clear, Function.update_of_ne same]
    cases set : marks kind with
    | none => rfl
    | some bytes =>
        have was := sound.held kind (by rw [set]; rfl)
        rw [held] at was
        exact absurd (Option.some.inj was).symm same

include good in
theorem bodyIdentity_sound (state : p.state = .bodyIdentity) :
    ∃ t, bodyIdentity settings p marks ch [] = some t ∧ t.Sound := by
  have fits : p.contentLength ≠ 0 ∧ p.contentLength ≠ ULLONG_MAX := by
    simpa only [Parser.Fits, state] using sound.fits
  have held : p.state.holds = some .body := by
    rw [state]
    rfl
  unfold bodyIdentity
  rw [if_neg (not_or.mpr fits), toRead_one p fits.1]
  dsimp only
  split
  case isTrue =>
    refine ⟨_, rfl, ?_⟩
    rw [Marks.clear_mark, sound.cleared held]
    have ends : (completed settings { readBody p [] with state := .messageDone } noMarks).Sound :=
      completed_sound good sound.ok sound.code
    have coded : ∀ call ∈ [HttpCallback.data .body (((marks.mark .body) .body).getD [] ++ [ch])],
        call.Coded := by
      intro call member
      cases List.mem_singleton.mp member
      trivial
    have told := ends.behind coded
    exact ⟨told.1, rfl, told.2.2⟩
  case isFalse last =>
    have same : (readBody p []).state = .bodyIdentity := state
    refine ⟨_, rfl, sound.body held held sound.ok sound.code ?_ ?_⟩
    · rw [Parser.Fits, same]
      exact ⟨last, readBody_known p last fits.1⟩
    · rw [same]
      rfl

theorem bodyIdentityEof_sound (state : p.state = .bodyIdentityEof) :
    (bodyIdentityEof p marks []).Sound := by
  have held : p.state.holds = some .body := by
    rw [state]
    rfl
  apply sound.body held held sound.ok sound.code sound.fits
  rw [state]
  rfl

theorem chunkSizeStart_sound (state : p.state = .chunkSizeStart) :
    ∃ t, chunkSizeStart p.counted marks ch = some t ∧ t.Sound := by
  have fits : p.flags.chunked = true ∧ p.nread = 0 := by
    simpa only [Parser.Fits, state] using sound.fits
  have counted : p.counted = { p with nread := 1 } := by
    rw [Parser.counted, if_pos (by rw [state]; rfl), fits.2]
  rw [counted]
  unfold chunkSizeStart
  rw [if_neg (by simp [fits.1])]
  split
  case h_1 => exact ⟨_, rfl, error_sound _ .invalidChunkSize (by decide)⟩
  case h_2 value digit =>
    refine ⟨_, rfl, sound.moves (by rw [state]; rfl) sound.ok sound.code ?_ rfl, rfl,
      fun _ member => absurd member List.not_mem_nil⟩
    refine ⟨fits.1, ?_⟩
    have small := unhex_small ch value digit
    intro top
    have value' := congrArg UInt64.toNat top
    rw [Nat.toUInt64, UInt64.toNat_ofNat_of_lt' (by show value < 2 ^ 64; omega)] at value'
    have max : ULLONG_MAX.toNat = 2 ^ 64 - 1 := rfl
    omega

theorem chunkSize_sound (state : p.state = .chunkSize) :
    ∃ t, chunkSize p marks ch = some t ∧ t.Sound := by
  have fits : p.flags.chunked = true ∧ p.contentLength ≠ ULLONG_MAX := by
    simpa only [Parser.Fits, state] using sound.fits
  have was : p.state.holds = none := by
    rw [state]
    rfl
  have goes : ∀ p' : Parser, p'.httpErrno = .ok → p'.statusCode ≤ 999 → p'.Fits →
      p'.state.marked = none → (Turn.next p' marks).Sound :=
    fun p' ok code fits plain =>
      ⟨sound.moves was ok code fits plain, rfl, fun _ member => absurd member List.not_mem_nil⟩
  unfold chunkSize
  rw [if_neg (by simp [fits.1])]
  split
  case isTrue => exact ⟨_, rfl, goes _ sound.ok sound.code fits rfl⟩
  case isFalse =>
    split
    case h_1 =>
      split
      · exact ⟨_, rfl, goes _ sound.ok sound.code fits rfl⟩
      · exact ⟨_, rfl, error_sound p .invalidChunkSize nofun⟩
    case h_2 value _ =>
      unfold moreLength
      dsimp only
      split
      case h_1 p' more =>
        split at more
        case isTrue => exact nomatch more
        case isFalse round =>
          cases more
          refine ⟨_, rfl, goes _ sound.ok sound.code ?_ ?_⟩
          · rw [Parser.Fits, state]
            exact ⟨fits.1, fun top => round (Or.inr top)⟩
          · show p.state.marked = none
            rw [state]
            rfl
      case h_2 p' failed =>
        split at failed
        case isTrue =>
          cases failed
          exact ⟨_, rfl, nofun, fun _ member => absurd member List.not_mem_nil⟩
        case isFalse => exact nomatch failed

theorem chunkParameters_sound (state : p.state = .chunkParameters) :
    ∃ t, chunkParameters p marks ch = some t ∧ t.Sound := by
  have fits : p.flags.chunked = true ∧ p.contentLength ≠ ULLONG_MAX := by
    simpa only [Parser.Fits, state] using sound.fits
  have was : p.state.holds = none := by
    rw [state]
    rfl
  unfold chunkParameters
  rw [if_neg (by simp [fits.1])]
  split
  · exact ⟨_, rfl, sound.moves was sound.ok sound.code fits rfl, rfl,
      fun _ member => absurd member List.not_mem_nil⟩
  · exact ⟨_, rfl, sound.stays rfl sound.ok sound.code sound.fits⟩

theorem chunkSizeAlmostDone_sound (state : p.state = .chunkSizeAlmostDone) :
    ∃ t, chunkSizeAlmostDone p marks ch = some t ∧ t.Sound := by
  have fits : p.flags.chunked = true ∧ p.contentLength ≠ ULLONG_MAX := by
    simpa only [Parser.Fits, state] using sound.fits
  have was : p.state.holds = none := by
    rw [state]
    rfl
  unfold chunkSizeAlmostDone
  rw [if_neg (by simp [fits.1])]
  split
  case isTrue => exact ⟨_, rfl, error_sound p .strict nofun⟩
  case isFalse =>
    dsimp only
    split
    case isTrue => exact ⟨_, rfl, sound.next was sound.ok sound.code rfl⟩
    case isFalse filled =>
      exact ⟨_, rfl, sound.moves was sound.ok sound.code ⟨fits.1, filled, fits.2⟩ rfl, rfl,
        fun _ member => absurd member List.not_mem_nil⟩

theorem chunkData_sound (state : p.state = .chunkData) :
    ∃ t, chunkData p marks [] = some t ∧ t.Sound := by
  have fits : p.flags.chunked = true ∧ p.contentLength ≠ 0 ∧ p.contentLength ≠ ULLONG_MAX := by
    simpa only [Parser.Fits, state] using sound.fits
  have held : p.state.holds = some .body := by
    rw [state]
    rfl
  have same : (readBody p []).state = .chunkData := state
  unfold chunkData
  rw [if_neg (by simp [fits.1, fits.2]), toRead_one p fits.2.1]
  refine ⟨_, rfl, ?_⟩
  split
  case isTrue last => exact sound.body held rfl sound.ok sound.code ⟨fits.1, last⟩ rfl
  case isFalse last =>
    refine sound.body held held sound.ok sound.code ?_ ?_
    · rw [Parser.Fits, same]
      exact ⟨fits.1, last, readBody_known p last fits.2.1⟩
    · rw [same]
      rfl

theorem chunkDataAlmostDone_sound (state : p.state = .chunkDataAlmostDone) :
    ∃ t, chunkDataAlmostDone p marks ch = some t ∧ t.Sound := by
  have fits : p.flags.chunked = true ∧ p.contentLength = 0 := by
    simpa only [Parser.Fits, state] using sound.fits
  have held : p.state.holds = some .body := by
    rw [state]
    rfl
  unfold chunkDataAlmostDone
  rw [if_neg (by simp [fits.1, fits.2])]
  split
  case isTrue => exact ⟨_, rfl, error_sound p .strict nofun⟩
  case isFalse =>
    rw [sound.cleared held]
    refine ⟨_, rfl, sound_bare sound.ok sound.code fits.1 rfl, rfl, ?_⟩
    intro call member
    unfold Marks.calls at member
    split at member
    · cases List.mem_singleton.mp member
      trivial
    · exact absurd member List.not_mem_nil

theorem chunkDataDone_sound (state : p.state = .chunkDataDone) :
    ∃ t, chunkDataDone p marks ch = some t ∧ t.Sound := by
  have fits : p.flags.chunked = true := by
    simpa only [Parser.Fits, state] using sound.fits
  have was : p.state.holds = none := by
    rw [state]
    rfl
  unfold chunkDataDone
  rw [if_neg (by simp [fits])]
  split
  · exact ⟨_, rfl, error_sound p .strict nofun⟩
  · exact ⟨_, rfl, sound.moves was sound.ok sound.code ⟨fits, rfl⟩ rfl, rfl,
      fun _ member => absurd member List.not_mem_nil⟩

end Bodies

section Runs

variable {settings : Settings} (good : settings.Sound) {p : Parser} {marks : Marks}

/-- Only one state counts on the bytes that were read. -/
theorem fits_nread (n : Nat) (state : p.state ≠ .chunkSizeStart) (fits : p.Fits) :
    { p with nread := n }.Fits := by
  unfold Parser.Fits at fits ⊢
  cases here : p.state <;> simp only [here] at fits ⊢ <;> trivial

theorem counted_sound (sound : Sound p marks) (state : p.state ≠ .chunkSizeStart) :
    Sound p.counted marks := by
  unfold Parser.counted
  split
  case isFalse => exact sound
  case isTrue =>
    exact ⟨sound.ok, sound.code, fits_nread (p.nread + 1) state sound.fits, sound.held, sound.set⟩

theorem Sound.advance (sound : Sound p marks) (ch : UInt8) : Sound p (marks.advance ch) := by
  refine ⟨sound.ok, sound.code, sound.fits, ?_, ?_⟩
  · intro kind set
    apply sound.held kind
    rw [Marks.advance, Option.isSome_map] at set
    exact set
  · intro kind marked
    rw [Marks.advance, Option.isSome_map]
    exact sound.set kind marked

/-- The marks at the start of a segment are those that a state has. -/
theorem Sound.start (sound : Sound p marks) : Sound p (startMarks p.state) := by
  refine ⟨sound.ok, sound.code, sound.fits, ?_, ?_⟩
  · intro kind set
    apply State.marked_holds
    unfold startMarks at set
    split at set
    case isTrue marked => exact marked
    case isFalse => exact nomatch set
  · intro kind marked
    rw [startMarks, if_pos marked]
    rfl

include good

/-- No state fails on any byte. -/
theorem turn_sound (sound : Sound p marks) (ch : UInt8) :
    ∃ t, turn settings p.counted marks ch [] = some t ∧ t.Sound := by
  by_cases start : p.state = .chunkSizeStart
  · have here : p.counted.state = .chunkSizeStart := by
      rw [Parser.counted]
      split <;> exact start
    rw [turn, here]
    exact chunkSizeStart_sound sound ch start
  · have sound' := counted_sound sound start
    have here : p.counted.state ≠ .chunkSizeStart := by
      rw [Parser.counted]
      split <;> exact start
    clear start sound
    generalize p.counted = p at sound' here
    have was : ∀ s : State, p.state = s → s.holds = none → p.state.holds = none := by
      intro s state none
      rw [state]
      exact none
    have same : ∀ s : State, p.state = s → s.free = true → p.state.free = true := by
      intro s state free
      rw [state]
      exact free
    have bare : ∀ s : State, p.state = s → s.holds = none → marks = noMarks :=
      fun s state none => sound'.unmarked (was s state none)
    have done : ∀ t : Turn, t.Sound → ∃ t', some t = some t' ∧ t'.Sound :=
      fun t good => ⟨t, rfl, good⟩
    unfold turn
    cases state : p.state with
    | chunkSizeStart => exact absurd state here
    | dead => exact done _ (deadByte_sound sound' (was _ state rfl) ch (same _ state rfl))
    | startReqOrRes =>
        exact done _ (startReqOrRes_sound sound' (was _ state rfl) ch (same _ state rfl))
    | resOrRespH => exact done _ (resOrRespH_sound sound' (was _ state rfl) ch)
    | startRes => exact done _ (startRes_sound sound' (was _ state rfl) ch state)
    | resH => exact done _ (strictly_sound sound' (was _ state rfl) ch _ _ rfl)
    | resHT => exact done _ (strictly_sound sound' (was _ state rfl) ch _ _ rfl)
    | resHTT => exact done _ (strictly_sound sound' (was _ state rfl) ch _ _ rfl)
    | resHTTP => exact done _ (strictly_sound sound' (was _ state rfl) ch _ _ rfl)
    | resFirstHttpMajor => exact done _ (firstMajor_sound sound' (was _ state rfl) ch _ _ rfl)
    | resHttpMajor =>
        exact done _ (moreMajor_sound sound' (was _ state rfl) ch _ rfl (same _ state rfl))
    | resFirstHttpMinor => exact done _ (firstMinor_sound sound' (was _ state rfl) ch _ rfl)
    | resHttpMinor =>
        refine done _ (moreMinor_sound sound' (was _ state rfl) ch _ ?_ (same _ state rfl))
        intro next stop
        split at stop
        · cases stop
          rfl
        · cases stop
    | resFirstStatusCode =>
        exact done _ (resFirstStatusCode_sound sound' (was _ state rfl) ch (same _ state rfl))
    | resStatusCode =>
        exact done _ (resStatusCode_sound sound' (was _ state rfl) ch (same _ state rfl))
    | resStatus => exact done _ (resStatus_sound sound' (was _ state rfl) ch (same _ state rfl))
    | resLineAlmostDone => exact done _ (strictly_sound sound' (was _ state rfl) ch _ _ rfl)
    | startReq => exact done _ (startReq_sound sound' (was _ state rfl) ch (same _ state rfl))
    | reqMethod => exact reqMethod_sound sound' (was _ state rfl) ch state
    | reqSpacesBeforeUrl => exact done _ (reqSpacesBeforeUrl_sound ch sound' state)
    | reqSchema => exact done _ (urlFront_sound ch sound' (by rw [state]; rfl))
    | reqSchemaSlash => exact done _ (urlFront_sound ch sound' (by rw [state]; rfl))
    | reqSchemaSlashSlash => exact done _ (urlFront_sound ch sound' (by rw [state]; rfl))
    | reqServerStart => exact done _ (urlFront_sound ch sound' (by rw [state]; rfl))
    | reqServer => exact done _ (urlBack_sound ch sound' (by rw [state]; rfl))
    | reqServerWithAt => exact done _ (urlBack_sound ch sound' (by rw [state]; rfl))
    | reqPath => exact done _ (urlBack_sound ch sound' (by rw [state]; rfl))
    | reqQueryStringStart => exact done _ (urlBack_sound ch sound' (by rw [state]; rfl))
    | reqQueryString => exact done _ (urlBack_sound ch sound' (by rw [state]; rfl))
    | reqFragmentStart => exact done _ (urlBack_sound ch sound' (by rw [state]; rfl))
    | reqFragment => exact done _ (urlBack_sound ch sound' (by rw [state]; rfl))
    | reqHttpStart =>
        exact done _ (reqHttpStart_sound sound' (was _ state rfl) ch (same _ state rfl))
    | reqHttpH => exact done _ (strictly_sound sound' (was _ state rfl) ch _ _ rfl)
    | reqHttpHT => exact done _ (strictly_sound sound' (was _ state rfl) ch _ _ rfl)
    | reqHttpHTT => exact done _ (strictly_sound sound' (was _ state rfl) ch _ _ rfl)
    | reqHttpHTTP => exact done _ (strictly_sound sound' (was _ state rfl) ch _ _ rfl)
    | reqFirstHttpMajor => exact done _ (firstMajor_sound sound' (was _ state rfl) ch _ _ rfl)
    | reqHttpMajor =>
        exact done _ (moreMajor_sound sound' (was _ state rfl) ch _ rfl (same _ state rfl))
    | reqFirstHttpMinor => exact done _ (firstMinor_sound sound' (was _ state rfl) ch _ rfl)
    | reqHttpMinor =>
        exact done _ (moreMinor_sound sound' (was _ state rfl) ch _ (lineEnd_free _ _ ch rfl rfl)
          (same _ state rfl))
    | reqLineAlmostDone => exact done _ (reqLineAlmostDone_sound sound' (was _ state rfl) ch)
    | headerFieldStart =>
        rw [bare _ state rfl]
        exact done _ (headerFieldStart_sound good sound'.ok sound'.code ch)
    | headerField => exact headerField_sound ch sound' state
    | headerValueStart =>
        rw [bare _ state rfl]
        exact done _ (headerValueStart_sound sound'.ok sound'.code state ch)
    | headerValue => exact headerValue_sound ch sound' state
    | headerValueLws =>
        rw [bare _ state rfl]
        exact done _ (headerValueLws_sound good sound'.ok sound'.code ch)
    | headerAlmostDone =>
        rw [bare _ state rfl]
        exact done _ (headerAlmostDone_sound sound'.ok sound'.code ch)
    | headersAlmostDone =>
        rw [bare _ state rfl]
        exact done _ (headersAlmostDone_sound good sound'.ok sound'.code ch)
    | headersDone =>
        rw [bare _ state rfl]
        exact done _ (headersDone_sound good sound'.ok sound'.code ch)
    | chunkSize => exact chunkSize_sound sound' ch state
    | chunkParameters => exact chunkParameters_sound sound' ch state
    | chunkSizeAlmostDone => exact chunkSizeAlmostDone_sound sound' ch state
    | chunkData => exact chunkData_sound sound' state
    | chunkDataAlmostDone => exact chunkDataAlmostDone_sound sound' ch state
    | chunkDataDone => exact chunkDataDone_sound sound' ch state
    | bodyIdentity => exact bodyIdentity_sound good sound' ch state
    | bodyIdentityEof => exact done _ (bodyIdentityEof_sound sound' state)
    | messageDone =>
        rw [bare _ state rfl]
        exact done _ (completed_sound good sound'.ok sound'.code)

omit good in
theorem length_alike {α : Type} (xs : List α) (distinct : xs.Nodup)
    (alike : ∀ a ∈ xs, ∀ b ∈ xs, a = b) : xs.length ≤ 1 := by
  match xs with
  | [] => exact Nat.zero_le 1
  | [_] => exact Nat.le_refl 1
  | a :: b :: rest =>
      have same := alike a List.mem_cons_self b (List.mem_cons_of_mem a List.mem_cons_self)
      apply absurd _ (List.nodup_cons.mp distinct).1
      rw [same]
      exact List.mem_cons_self

omit good in
/-- At most one mark is left over. -/
theorem finish_sound (sound : Sound p marks) :
    ∃ calls, finish p marks = some ⟨p, calls, 0⟩ ∧ ∀ call ∈ calls, call.Coded := by
  have one : ∀ kinds : List DataKind, kinds.Nodup →
      (kinds.filter fun kind => (marks kind).isSome).length ≤ 1 := by
    intro kinds distinct
    have all : ∀ a ∈ kinds.filter (fun kind => (marks kind).isSome),
        ∀ b ∈ kinds.filter (fun kind => (marks kind).isSome), a = b := by
      intro a inA b inB
      have heldA := sound.held a (List.mem_filter.mp inA).2
      have heldB := sound.held b (List.mem_filter.mp inB).2
      exact Option.some.inj (heldA.symm.trans heldB)
    have distinct' := distinct.filter fun kind => (marks kind).isSome
    exact length_alike _ distinct' all
  refine ⟨_, if_pos (one _ (by decide)), ?_⟩
  intro call member
  obtain ⟨kind, -, told⟩ := List.mem_flatMap.mp member
  unfold Marks.calls at told
  split at told
  · cases List.mem_singleton.mp told
    trivial
  · exact absurd told List.not_mem_nil

/-- A parser that may be given a segment: it has failed, or is in good order. -/
def Parser.Ready (p : Parser) : Prop := p.httpErrno = .ok → Sound p (startMarks p.state)

theorem executeFrom_sound (data : Bytes) : ∀ (p : Parser) (marks : Marks), Sound p marks →
    ∃ done, executeFrom settings p marks 0 data = some done ∧ done.parser.Ready ∧
      done.nparsed ≤ data.length ∧ ∀ call ∈ done.calls, call.Coded := by
  induction data with
  | nil =>
      intro p marks sound
      obtain ⟨calls, done, coded⟩ := finish_sound sound
      exact ⟨_, done, fun _ => sound.start, Nat.le_refl 0, coded⟩
  | cons ch rest ih =>
      intro p marks sound
      by_cases full : p.counted.overflows
      · refine ⟨_, by rw [executeFrom, if_pos full], ?_, Nat.zero_le _, ?_⟩
        · exact fun ok => HttpErrno.noConfusion ok
        · exact fun _ member => absurd member List.not_mem_nil
      · rw [executeFrom_byte settings p marks ch rest full]
        obtain ⟨t, here, good'⟩ := turn_sound good sound ch
        rw [here, Option.bind_some]
        cases t with
        | goes p' marks' calls skip =>
            obtain ⟨sound', none, coded⟩ := good'
            obtain ⟨done, later, ready, parsed, coded'⟩ := ih p' _ (sound'.advance ch)
            refine ⟨done.behind calls, ?_, ready, Nat.succ_le_succ parsed, ?_⟩
            · rw [resume, none, later]
              rfl
            · intro call member
              rcases List.mem_append.mp member with first | second
              · exact coded call first
              · exact coded' call second
        | fails p' calls =>
            exact ⟨_, rfl, fun ok => absurd ok good'.1, Nat.zero_le _, good'.2⟩
        | leaves p' calls =>
            exact ⟨_, rfl, fun _ => good'.1.start, Nat.succ_le_succ (Nat.zero_le _), good'.2⟩

theorem httpParserExecute_sound (ready : p.Ready) (data : Bytes) (filled : data ≠ []) :
    ∃ done, httpParserExecute settings p data = some done ∧ done.parser.Ready ∧
      done.nparsed ≤ data.length ∧ ∀ call ∈ done.calls, call.Coded := by
  unfold httpParserExecute
  split
  case isTrue => exact ⟨_, rfl, ready, Nat.zero_le _, fun _ member => absurd member List.not_mem_nil⟩
  case isFalse ok =>
    exact executeFrom_sound good data p _ (ready (not_not.mp ok))

omit good in
theorem httpParserInit_ready (t : ParserType) : (httpParserInit t).Ready := by
  have bare : Sound (httpParserInit t) noMarks := by
    apply sound_bare
    · rfl
    · exact Nat.zero_le 999
    · cases t <;> trivial
    · cases t <;> rfl
  exact fun _ => bare.start

/-- Any number of segments. -/
theorem httpRun_sound (segments : List Bytes) :
    ∀ p : Parser, p.Ready → (∀ data ∈ segments, data ≠ []) →
      ∃ p' calls, httpRun settings p segments = some (p', calls) ∧ p'.Ready ∧
        ∀ call ∈ calls, call.Coded := by
  induction segments with
  | nil => exact fun p ready _ => ⟨p, [], rfl, ready, fun _ member => absurd member List.not_mem_nil⟩
  | cons data rest ih =>
      intro p ready filled
      obtain ⟨done, here, ready', -, coded⟩ :=
        httpParserExecute_sound good ready data (filled data List.mem_cons_self)
      obtain ⟨p', later, there, ready'', coded'⟩ := ih done.parser ready'
        fun other inside => filled other (List.mem_cons_of_mem data inside)
      refine ⟨p', done.calls ++ later, ?_, ready'', ?_⟩
      · simp only [httpRun, here, there, Option.bind_eq_bind, Option.bind_some]
        rfl
      · intro call member
        rcases List.mem_append.mp member with first | second
        · exact coded call first
        · exact coded' call second

end Runs

theorem clientParserSettings_sound : clientParserSettings.Sound := fun _ => Or.inl rfl

theorem serverParserSettings_sound : serverParserSettings.Sound := by
  intro p
  unfold serverParserSettings
  dsimp only
  split
  · exact Or.inr ⟨.response, rfl⟩
  · exact Or.inl rfl

end Bscope.Http
