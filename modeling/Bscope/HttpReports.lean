import Bscope.HttpSafety

set_option autoImplicit false

/- The parser of the responses begins anew at the callbacks at which `session_report` makes
a report, and at no others. -/
namespace Bscope.Http

/-- Whether a report is still owed behind these callbacks: a final response makes it. -/
def owedBehind (owed : Bool) (calls : List HttpCallback) : Bool :=
  calls.foldl (fun owed call =>
    match call with
    | .messageComplete statusCode => owed && decide (statusCode / 100 = 1)
    | _ => owed) owed

/-- What the code for a byte leaves of it. -/
def Turn.Owes (owed : Bool) : Turn → Prop
  | .goes p _ calls _ => p.needReport = owedBehind owed calls
  | .fails p calls => p.needReport = owedBehind owed calls
  | .leaves p calls => p.needReport = owedBehind owed calls

/-- The callbacks of these settings go by `need_report`. -/
def Settings.Reports (settings : Settings) : Prop :=
  ∀ p, (settings.onMessageComplete p).needReport =
    (p.needReport && decide (p.statusCode / 100 = 1))

theorem serverParserSettings_reports : serverParserSettings.Reports := by
  intro p
  show (if p.statusCode / 100 ≠ 1 ∧ p.needReport = true then httpParserInit .response
    else p).needReport = _
  split
  case isTrue anew => simp [httpParserInit, anew.1]
  case isFalse kept =>
    cases owed : p.needReport with
    | false => rfl
    | true => simpa [owed] using kept

theorem owedBehind_append (owed : Bool) (first second : List HttpCallback) :
    owedBehind owed (first ++ second) = owedBehind (owedBehind owed first) second :=
  List.foldl_append

section Turns

variable {settings : Settings} (reports : settings.Reports) (p : Parser) (marks : Marks) (ch : UInt8)
  (rest : Bytes)

theorem calls_owe (kind : DataKind) (owed : Bool) : owedBehind owed (marks.calls kind) = owed := by
  unfold Marks.calls
  split <;> rfl

theorem tells_owe (p' : Parser) (same : p'.needReport = p.needReport) (marks' : Marks)
    (kind : DataKind) (n : Nat) : (Turn.goes p' marks' (marks.calls kind) n).Owes p.needReport :=
  same.trans (calls_owe marks kind p.needReport).symm

theorem Turn.Owes.behind {owed : Bool} {t : Turn} (owes : t.Owes owed) (calls : List HttpCallback)
    (quiet : owedBehind owed calls = owed) : (t.behind calls).Owes owed := by
  have same : ∀ later, owedBehind owed (calls ++ later) = owedBehind owed later := by
    intro later
    rw [owedBehind_append, quiet]
  cases t with
  | goes p marks later skip => exact owes.trans (same later).symm
  | fails p later => exact owes.trans (same later).symm
  | leaves p later => exact owes.trans (same later).symm

theorem strictly_owes (want : UInt8) (next : State) :
    (strictly want next p marks ch).Owes p.needReport := by
  unfold strictly
  split <;> rfl

theorem firstMajor_owes (least : UInt8) (next : State) :
    (firstMajor least next p marks ch).Owes p.needReport := by
  unfold firstMajor
  split <;> rfl

theorem moreMajor_owes (next : State) : (moreMajor next p marks ch).Owes p.needReport := by
  unfold moreMajor
  dsimp only
  split_ifs <;> rfl

theorem firstMinor_owes (next : State) : (firstMinor next p marks ch).Owes p.needReport := by
  unfold firstMinor
  split_ifs <;> rfl

theorem moreMinor_owes (stops : UInt8 → Option State) :
    (moreMinor stops p marks ch).Owes p.needReport := by
  unfold moreMinor
  dsimp only
  split
  · rfl
  · split_ifs <;> rfl

theorem resFirstStatusCode_owes : (resFirstStatusCode p marks ch).Owes p.needReport := by
  unfold resFirstStatusCode
  split_ifs <;> rfl

theorem resStatusCode_owes : (resStatusCode p marks ch).Owes p.needReport := by
  unfold resStatusCode
  dsimp only
  split_ifs <;> first | rfl | (split <;> rfl)

theorem resStatus_owes : (resStatus p marks ch).Owes p.needReport := by
  unfold resStatus
  split <;> rfl

theorem startRes_owes : (startRes p marks ch).Owes p.needReport := by
  unfold startRes
  dsimp only
  split_ifs <;> rfl

theorem startReq_owes : (startReq p marks ch).Owes p.needReport := by
  unfold startReq
  dsimp only
  split_ifs <;> first | rfl | (split <;> rfl)

theorem startReqOrRes_owes : (startReqOrRes p marks ch).Owes p.needReport := by
  unfold startReqOrRes
  dsimp only
  split_ifs <;> first | rfl | exact startReq_owes _ _ _

theorem resOrRespH_owes : (resOrRespH p marks ch).Owes p.needReport := by
  unfold resOrRespH
  split_ifs <;> rfl

theorem reqMethod_owes : ∀ t ∈ reqMethod p marks ch, t.Owes p.needReport := by
  unfold reqMethod
  dsimp only
  intro t made
  split_ifs at made <;>
    first | (cases made; rfl) | (split at made <;> cases made <;> rfl) | cases made

theorem deadByte_owes : (deadByte p marks ch).Owes p.needReport := by
  unfold deadByte
  split_ifs <;> rfl

theorem urlChar_owes : (urlChar p marks ch).Owes p.needReport := by
  unfold urlChar
  dsimp only
  split_ifs <;> rfl

theorem reqSpacesBeforeUrl_owes : (reqSpacesBeforeUrl p marks ch).Owes p.needReport := by
  unfold reqSpacesBeforeUrl
  split_ifs <;> first | rfl | exact urlChar_owes _ _ _

theorem urlFront_owes : (urlFront p marks ch).Owes p.needReport := by
  unfold urlFront
  split_ifs <;> first | rfl | exact urlChar_owes _ _ _

theorem urlBack_owes : (urlBack p marks ch).Owes p.needReport := by
  unfold urlBack
  split_ifs
  · exact tells_owe p marks { p with state := .reqHttpStart } rfl (marks.clear .url) .url 0
  · split
    case h_1 next _ =>
      exact tells_owe p marks { p with httpMajor := 0, httpMinor := 9, state := next } rfl
        (marks.clear .url) .url 0
    case h_2 => exact urlChar_owes p marks ch

theorem reqHttpStart_owes : (reqHttpStart p marks ch).Owes p.needReport := by
  unfold reqHttpStart
  split_ifs <;> rfl

theorem reqLineAlmostDone_owes : (reqLineAlmostDone p marks ch).Owes p.needReport := by
  unfold reqLineAlmostDone
  split_ifs <;> rfl

include reports in
theorem completed_owes : (completed settings p marks).Owes p.needReport :=
  reports { p with state := p.newMessage }

include reports in
theorem headersDone_owes : (headersDone settings p marks ch).Owes p.needReport := by
  unfold headersDone
  dsimp only
  split_ifs <;> first | rfl | exact completed_owes reports _ _ | exact reports _

include reports in
theorem headersAlmostDone_owes : (headersAlmostDone settings p marks ch).Owes p.needReport := by
  unfold headersAlmostDone
  dsimp only
  split_ifs
  · rfl
  · exact completed_owes reports p marks
  · exact (headersDone_owes reports _ _ _).behind _ rfl
  · exact (headersDone_owes reports _ _ _).behind _ rfl
  · rfl

include reports in
theorem headerFieldStart_owes : (headerFieldStart settings p marks ch).Owes p.needReport := by
  unfold headerFieldStart
  dsimp only
  split_ifs <;> first | rfl | exact headersAlmostDone_owes reports _ _ _

include reports in
theorem headerValueLws_owes : (headerValueLws settings p marks ch).Owes p.needReport := by
  unfold headerValueLws
  split_ifs <;> first | rfl | exact headerFieldStart_owes reports _ _ _

theorem headerAlmostDone_owes : (headerAlmostDone p marks ch).Owes p.needReport := by
  unfold headerAlmostDone
  dsimp only
  split_ifs <;> first | rfl | (split <;> rfl)

theorem headerValueStart_owes : (headerValueStart p marks ch).Owes p.needReport := by
  unfold headerValueStart
  dsimp only
  split_ifs
  · rfl
  · exact (calls_owe _ .headerValue _).symm
  · exact (calls_owe _ .headerValue _).symm
  · rfl
  · rfl
  · unfold valueStart
    dsimp only
    split <;> rfl

theorem matchLetter_report (word : Bytes) (whole : HeaderState) (c : UInt8) :
    (matchLetter word whole p c).needReport = p.needReport := by
  unfold matchLetter
  dsimp only
  split_ifs <;> rfl

theorem fieldLetter_report (c : UInt8) :
    ∀ p' ∈ fieldLetter p ch c, p'.needReport = p.needReport := by
  intro p' made
  unfold fieldLetter at made
  split at made <;> cases made <;>
    first | rfl | exact matchLetter_report p _ _ c | (split_ifs <;> rfl)

theorem headerField_owes : ∀ t ∈ headerField p marks ch, t.Owes p.needReport := by
  unfold headerField
  dsimp only
  intro t made
  split_ifs at made
  · obtain ⟨p', letter, rfl⟩ := Option.map_eq_some_iff.mp made
    exact fieldLetter_report p ch _ p' letter
  · cases made
    exact (calls_owe marks .headerField _).symm
  · cases made
    exact (calls_owe marks .headerField _).symm
  · cases made
    exact (calls_owe marks .headerField _).symm
  · cases made
    rfl

/-- A letter of a value leaves it alone, an error too. -/
theorem moreLength_report (base value : Nat) :
    match moreLength p base value with
    | .ok p' => p'.needReport = p.needReport
    | .error p' => p'.needReport = p.needReport := by
  unfold moreLength
  dsimp only
  split_ifs <;> rfl

theorem valueLetter_report (c : UInt8) : ∀ done ∈ valueLetter p ch c,
    match done with
    | .ok p' => p'.needReport = p.needReport
    | .error p' => p'.needReport = p.needReport := by
  intro done made
  unfold valueLetter at made
  split at made <;> first
    | (cases made; first | rfl | exact matchLetter_report p _ _ c | (split_ifs <;> rfl))
    | cases made
    | skip
  split_ifs at made <;> cases made <;> first | rfl | exact moreLength_report p 10 _

theorem headerValue_owes : ∀ t ∈ headerValue p marks ch, t.Owes p.needReport := by
  unfold headerValue
  intro t made
  split_ifs at made
  · cases made
    exact (calls_owe marks .headerValue _).symm
  · cases made
    exact (headerAlmostDone_owes _ _ _).behind _ (calls_owe marks .headerValue _)
  · obtain ⟨done, letter, rfl⟩ := Option.map_eq_some_iff.mp made
    have kept := valueLetter_report p ch _ done letter
    cases done <;> exact kept

theorem chunkSizeStart_owes : ∀ t ∈ chunkSizeStart p marks ch, t.Owes p.needReport := by
  unfold chunkSizeStart
  intro t made
  split_ifs at made
  · cases made
  · split at made <;> cases made <;> rfl

theorem chunkSize_owes : ∀ t ∈ chunkSize p marks ch, t.Owes p.needReport := by
  unfold chunkSize
  intro t made
  split at made
  · cases made
  · split at made
    · cases made
      rfl
    · split at made
      case h_1 => split_ifs at made <;> cases made <;> rfl
      case h_2 value _ =>
        have kept := moreLength_report p 16 value
        split at made
        case h_1 p' longer =>
          rw [longer] at kept
          cases made
          exact kept
        case h_2 p' longer =>
          rw [longer] at kept
          cases made
          exact kept

theorem chunkParameters_owes : ∀ t ∈ chunkParameters p marks ch, t.Owes p.needReport := by
  unfold chunkParameters
  intro t made
  split_ifs at made <;> cases made <;> rfl

theorem chunkSizeAlmostDone_owes : ∀ t ∈ chunkSizeAlmostDone p marks ch, t.Owes p.needReport := by
  unfold chunkSizeAlmostDone
  dsimp only
  intro t made
  split_ifs at made <;> cases made <;> rfl

theorem chunkData_owes : ∀ t ∈ chunkData p marks rest, t.Owes p.needReport := by
  unfold chunkData
  dsimp only
  intro t made
  split_ifs at made <;> cases made <;> rfl

theorem chunkDataAlmostDone_owes : ∀ t ∈ chunkDataAlmostDone p marks ch, t.Owes p.needReport := by
  unfold chunkDataAlmostDone
  intro t made
  split_ifs at made
  · cases made
  · cases made
    rfl
  · cases made
    exact (calls_owe marks .body _).symm

theorem chunkDataDone_owes : ∀ t ∈ chunkDataDone p marks ch, t.Owes p.needReport := by
  unfold chunkDataDone
  intro t made
  split_ifs at made <;> cases made <;> rfl

theorem Turn.Owes.skipping {owed : Bool} {t : Turn} (owes : t.Owes owed) (n : Nat) :
    (t.skipping n).Owes owed := by
  cases t <;> exact owes

include reports in
theorem bodyIdentity_owes : ∀ t ∈ bodyIdentity settings p marks ch rest, t.Owes p.needReport := by
  unfold bodyIdentity
  dsimp only
  intro t made
  split_ifs at made
  · cases made
  · cases made
    exact ((completed_owes reports _ _).behind _ rfl).skipping _
  · cases made
    rfl

include reports in
/-- What the code for a byte does to it, in every state. -/
theorem turn_owes : ∀ t ∈ turn settings p marks ch rest, t.Owes p.needReport := by
  have one : ∀ t' : Turn, t'.Owes p.needReport → ∀ t ∈ some t', t.Owes p.needReport := by
    intro t' owes t made
    cases made
    exact owes
  unfold turn
  cases p.state with
  | dead => exact one _ (deadByte_owes p marks ch)
  | startReqOrRes => exact one _ (startReqOrRes_owes p marks ch)
  | resOrRespH => exact one _ (resOrRespH_owes p marks ch)
  | startRes => exact one _ (startRes_owes p marks ch)
  | resFirstHttpMajor | reqFirstHttpMajor => exact one _ (firstMajor_owes p marks ch _ _)
  | resHttpMajor | reqHttpMajor => exact one _ (moreMajor_owes p marks ch _)
  | resFirstHttpMinor | reqFirstHttpMinor => exact one _ (firstMinor_owes p marks ch _)
  | resHttpMinor | reqHttpMinor => exact one _ (moreMinor_owes p marks ch _)
  | resFirstStatusCode => exact one _ (resFirstStatusCode_owes p marks ch)
  | resStatusCode => exact one _ (resStatusCode_owes p marks ch)
  | resStatus => exact one _ (resStatus_owes p marks ch)
  | startReq => exact one _ (startReq_owes p marks ch)
  | reqMethod => exact reqMethod_owes p marks ch
  | reqSpacesBeforeUrl => exact one _ (reqSpacesBeforeUrl_owes p marks ch)
  | reqSchema | reqSchemaSlash | reqSchemaSlashSlash | reqServerStart =>
      exact one _ (urlFront_owes p marks ch)
  | reqServer | reqServerWithAt | reqPath | reqQueryStringStart | reqQueryString
  | reqFragmentStart | reqFragment => exact one _ (urlBack_owes p marks ch)
  | reqHttpStart => exact one _ (reqHttpStart_owes p marks ch)
  | reqLineAlmostDone => exact one _ (reqLineAlmostDone_owes p marks ch)
  | headerFieldStart => exact one _ (headerFieldStart_owes reports p marks ch)
  | headerField => exact headerField_owes p marks ch
  | headerValueStart => exact one _ (headerValueStart_owes p marks ch)
  | headerValue => exact headerValue_owes p marks ch
  | headerValueLws => exact one _ (headerValueLws_owes reports p marks ch)
  | headerAlmostDone => exact one _ (headerAlmostDone_owes p marks ch)
  | headersAlmostDone => exact one _ (headersAlmostDone_owes reports p marks ch)
  | headersDone => exact one _ (headersDone_owes reports p marks ch)
  | chunkSizeStart => exact chunkSizeStart_owes p marks ch
  | chunkSize => exact chunkSize_owes p marks ch
  | chunkParameters => exact chunkParameters_owes p marks ch
  | chunkSizeAlmostDone => exact chunkSizeAlmostDone_owes p marks ch
  | chunkData => exact chunkData_owes p marks rest
  | chunkDataAlmostDone => exact chunkDataAlmostDone_owes p marks ch
  | chunkDataDone => exact chunkDataDone_owes p marks ch
  | bodyIdentity => exact bodyIdentity_owes reports p marks ch rest
  | bodyIdentityEof => exact one _ rfl
  | messageDone => exact one _ (completed_owes reports p marks)
  | _ => exact one _ (strictly_owes p marks ch _ _)

end Turns

section Execute

variable {settings : Settings} (reports : settings.Reports)
include reports

theorem executeFrom_owes (data : Bytes) : ∀ (p : Parser) (marks : Marks) (skip : Nat) (done : Parsed),
    executeFrom settings p marks skip data = some done →
    done.parser.needReport = owedBehind p.needReport done.calls := by
  induction data with
  | nil =>
      intro p marks skip done here
      rw [executeFrom, finish] at here
      split at here
      case isTrue =>
        cases here
        have quiet : ∀ kinds : List DataKind,
            owedBehind p.needReport (kinds.flatMap marks.calls) = p.needReport := by
          intro kinds
          induction kinds with
          | nil => rfl
          | cons kind kinds ih => rw [List.flatMap_cons, owedBehind_append, calls_owe, ih]
        exact (quiet _).symm
      case isFalse => cases here
  | cons ch rest ih =>
      intro p marks skip done here
      have counts : p.counted.needReport = p.needReport := by
        unfold Parser.counted
        split <;> rfl
      cases skip with
      | succ skip =>
          rw [executeFrom] at here
          obtain ⟨done', later, rfl⟩ := Option.map_eq_some_iff.mp here
          exact ih _ _ _ done' later
      | zero =>
          rw [executeFrom] at here
          split at here
          case isTrue =>
            cases here
            exact counts
          case isFalse =>
            obtain ⟨t, made, here⟩ := Option.bind_eq_some_iff.mp here
            have owes := turn_owes reports p.counted marks ch rest t made
            rw [counts] at owes
            cases t with
            | goes p' marks' calls skip' =>
                obtain ⟨done', later, rfl⟩ := Option.map_eq_some_iff.mp here
                have rest := ih _ _ _ done' later
                have owes' : p'.needReport = owedBehind p.needReport calls := owes
                rw [owes', ← owedBehind_append] at rest
                exact rest
            | fails p' calls =>
                cases here
                exact owes
            | leaves p' calls =>
                cases here
                exact owes

/-- A segment leaves a report owed where its callbacks do. -/
theorem httpParserExecute_owes {p : Parser} {data : Bytes} (filled : data ≠ []) {done : Parsed}
    (here : httpParserExecute settings p data = some done) :
    done.parser.needReport = owedBehind p.needReport done.calls := by
  rw [httpParserExecute] at here
  split at here
  case isTrue =>
    cases here
    rfl
  case isFalse => exact executeFrom_owes reports data p _ 0 done here

end Execute

end Bscope.Http
