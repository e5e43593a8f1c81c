import Bscope.Filings
import Bscope.ReportPairs

set_option autoImplicit false

namespace Bscope

/-- The pairs written into a message; a pair is two objects. -/
def MsgReport.pairCount (rp : MsgReport) : Nat := rp.objects.length / 2

theorem pairs_objects (pairs : List (CStr × Packed)) :
    (pairs.flatMap fun p => [packStr p.1, p.2]).length = 2 * pairs.length := by
  induction pairs with
  | nil => rfl
  | cons p pairs ih =>
      have two : [packStr p.1, p.2].length = 2 := rfl
      rw [List.flatMap_cons, List.length_append, ih, two, List.length_cons]
      omega

theorem report_pairCount (ctx : Context) (f : Filing) :
    (f.report ctx).pairCount = (reportPairs ctx f.s f.type f.now).length := by
  rw [MsgReport.pairCount, Filing.report, buildReport_objects, pairs_objects]
  omega

theorem reportPairs_length (ctx : Context) (s : Session) (type : CloseType) (now : Moment) :
    (reportPairs ctx s type now).length =
      17 + (refererPairs s).length + s.proplist.length + (bodyPairs s).length := by
  simp only [reportPairs, List.length_append, List.length_map]
  rfl

theorem refererPairs_length_le (s : Session) : (refererPairs s).length ≤ 2 := by
  unfold refererPairs
  cases s.referer with
  | none => exact Nat.zero_le 2
  | some referer => cases found : refererHost referer <;> simp [found]

theorem bodyPairs_length_le (s : Session) : (bodyPairs s).length ≤ 2 := by
  unfold bodyPairs
  split
  · exact Nat.le_refl 2
  · exact Nat.zero_le 2

/-- How many entries the callbacks of a run capture. -/
def captureCount (ctx : Context) (c : Conn) (run : List (Moment × Event)) : Nat :=
  match run with
  | [] => 0
  | e :: run => (captures ctx.cfg c.s e.2).length + captureCount ctx (step ctx c e).1 run

/-- One exchange: at most its last callback is a final response complete. -/
def OneExchange (run : List (Moment × Event)) : Prop :=
  ∀ e ∈ run.dropLast, e.2.isFinal = false

theorem oneExchange_tail (e : Moment × Event) (run : List (Moment × Event))
    (one : OneExchange (e :: run)) : OneExchange run := by
  intro e' member
  cases run with
  | nil => cases member
  | cons next run => exact one e' (List.mem_cons_of_mem e member)

theorem oneExchange_end (e : Moment × Event) (run : List (Moment × Event))
    (one : OneExchange (e :: run)) (final : e.2.isFinal = true) : run = [] := by
  cases run with
  | nil => rfl
  | cons next run =>
      have passes := one e List.mem_cons_self
      rw [final] at passes
      cases passes

/-- What an exchange files is what it captured, on top of what was there. -/
theorem filed_count (ctx : Context) (c : Conn) (run : List (Moment × Event)) (type : CloseType)
    (now : Moment) (room : Room c) (one : OneExchange run) (f : Filing)
    (filed : f ∈ filings ctx c run type now) :
    f.s.proplist.length = c.s.proplist.length + captureCount ctx c run := by
  induction run generalizing c with
  | nil =>
      rw [filings, Option.mem_toList] at filed
      rw [filing_session _ _ _ f filed]
      rfl
  | cons e run ih =>
      rw [filings, List.mem_append, Option.mem_toList] at filed
      rw [captureCount]
      cases answer : c.filing e with
      | none =>
          rw [answer] at filed
          have later := filed.resolve_left (Option.not_mem_none f)
          have quiet : (step ctx c e).2 = none := by rw [step_filing, answer]; rfl
          have added : (step ctx c e).1.s.proplist.length =
              (captures ctx.cfg c.s e.2).length + c.s.proplist.length := by
            rw [step_proplist ctx c e.1 e.2 room quiet, List.length_append]
          rw [ih (step ctx c e).1 (step_room ctx c e.1 e.2 room) (oneExchange_tail e run one) later]
          omega
      | some f' =>
          have final := filing_final c e f' answer
          obtain rfl := oneExchange_end e run one final
          have done : f ∉ filings ctx (step ctx c e).1 [] type now := by
            rw [filings, step_filed ctx c e f' answer]
            exact List.not_mem_nil
          rw [filing_proplist c e f (filed.resolve_right done), captures_final ctx.cfg c.s e.2 final]
          rfl

/-- The pairs of an exchange stay below the width of the map header exactly when
its callbacks capture few enough entries. -/
theorem pairCount_below (ctx : Context) (stat : Status) (run : List (Moment × Event))
    (type : CloseType) (now : Moment) (one : OneExchange run) (f : Filing)
    (filed : f ∈ filings ctx (connStart stat) run type now) :
    (f.report ctx).pairCount < 65535 ↔
      17 + (refererPairs f.s).length + captureCount ctx (connStart stat) run +
        (bodyPairs f.s).length < 65535 := by
  have count := filed_count ctx (connStart stat) run type now (room_start stat) one f filed
  change f.s.proplist.length = 0 + _ at count
  rw [report_pairCount, reportPairs_length, count, Nat.zero_add]

/-- A POST of one parameter, answered. -/
def smallPostRun : List (Moment × Event) :=
  ([.requestBegin, .requestUrl (asc "/"), .requestHeadersComplete .post 1 1,
    .requestBody (asc "KEY=v"), .requestComplete, .responseBegin, .responseHeadersComplete 200,
    .responseComplete 200] : List Event).map (default, ·)

theorem pairCount_below_small :
    ∃ f ∈ filings localContext (connStart statusInit) smallPostRun .close default,
      (f.report localContext).pairCount < 65535 := by
  have one : OneExchange smallPostRun := by unfold OneExchange; decide
  have filed : ∃ f, f ∈ filings localContext (connStart statusInit) smallPostRun .close default :=
    ⟨_, List.mem_cons_self⟩
  obtain ⟨f, filed⟩ := filed
  refine ⟨f, filed, (pairCount_below localContext statusInit smallPostRun .close default one f
    filed).mpr ?_⟩
  have referer := refererPairs_length_le f.s
  have body := bodyPairs_length_le f.s
  have count : captureCount localContext (connStart statusInit) smallPostRun = 1 := by decide
  omega

/-- A parameter that its chunk closes is scanned three times: once with the chunk
it came in, and twice with the next. -/
def closedChunk : Bytes := asc "B=&"

theorem closedChunk_repeats (s : Session) (plain : s.requestMultipart ≠ IS_MULTIPART)
    (carried : s.postBuf = closedChunk) :
    ∃ proplist, requestBody catchAll s closedChunk = { s with proplist := proplist } ∧
      proplist.length = s.proplist.length + 3 := by
  have moves : ¬ (0 ∉ joined closedChunk closedChunk ∧
      keyStart (postGrammar catchAll) (joined closedChunk closedChunk) = some 0) := by decide
  have again : carry (postGrammar catchAll)
      (rescanned (postGrammar catchAll) closedChunk closedChunk) = closedChunk := by decide
  have three : (captured (postGrammar catchAll) false (joined closedChunk closedChunk) ++
      captured (postGrammar catchAll) false
        (rescanned (postGrammar catchAll) closedChunk closedChunk)).length = 3 := by decide
  rw [requestBody_eq catchAll s closedChunk (by decide) plain (by rw [carried]; decide), carried,
    if_neg (by decide), if_neg moves, again]
  refine ⟨recorded .post (captured (postGrammar catchAll) false (joined closedChunk closedChunk) ++
    captured (postGrammar catchAll) false
      (rescanned (postGrammar catchAll) closedChunk closedChunk)) ++ s.proplist, ?_, ?_⟩
  · rw [← carried]
    rfl
  · rw [List.length_append, recorded_length, three, Nat.add_comm]

/-- A body that comes in as `m + 1` such chunks. -/
def closedChunkRun (m : Nat) : List (Moment × Event) :=
  (default, .requestBegin) :: List.replicate (m + 1) (default, .requestBody closedChunk)

theorem closedChunks_repeat (c : Conn) (m : Nat)
    (plain : c.s.requestMultipart ≠ IS_MULTIPART) (carried : c.s.postBuf = closedChunk) :
    ∃ proplist, (after localContext c
        (List.replicate m (default, .requestBody closedChunk))).s =
      { c.s with proplist := proplist } ∧ proplist.length = c.s.proplist.length + 3 * m := by
  induction m generalizing c with
  | zero => exact ⟨c.s.proplist, rfl, rfl⟩
  | succ m ih =>
      obtain ⟨proplist, once, three⟩ := closedChunk_repeats c.s plain carried
      have taken : (step localContext c (default, .requestBody closedChunk)).1.s =
          { c.s with proplist := proplist } := once
      obtain ⟨proplist', rest, count⟩ := ih (step localContext c (default, .requestBody closedChunk)).1
        (by rw [taken]; exact plain) (by rw [taken]; exact carried)
      rw [taken] at rest count
      refine ⟨proplist', rest, count.trans ?_⟩
      rw [three]
      omega

theorem filings_quiet (ctx : Context) (c : Conn) (run : List (Moment × Event)) (type : CloseType)
    (now : Moment) (quiet : ∀ e ∈ run, e.2.isFinal = false) :
    filings ctx c run type now = ((after ctx c run).s.filing type now).toList := by
  induction run generalizing c with
  | nil => rfl
  | cons e run ih =>
      rw [filings, Conn.filing, quiet e List.mem_cons_self,
        ih (step ctx c e).1 (fun e' member => quiet e' (List.mem_cons_of_mem e member))]
      rfl

/-- 21,840 chunks of three bytes make 65,518 entries, and 65,535 pairs. -/
theorem closedChunks_outgrow :
    OneExchange (closedChunkRun 21839) ∧
      ∃ f ∈ filings localContext (connStart statusInit) (closedChunkRun 21839) .close default,
        ¬ (f.report localContext).pairCount < 65535 := by
  have quiet : ∀ e ∈ closedChunkRun 21839, e.2.isFinal = false := by
    intro e member
    rcases List.mem_cons.mp member with rfl | body
    · rfl
    · rw [List.eq_of_mem_replicate body]
      rfl
  refine ⟨fun e member => quiet e (List.dropLast_subset _ member), ?_⟩
  rw [filings_quiet _ _ _ _ _ quiet]
  obtain ⟨proplist, taken, count⟩ := closedChunks_repeat
    (after localContext (connStart statusInit) (closedChunkRun 0)) 21839 (by decide) (by decide)
  have one : (after localContext (connStart statusInit) (closedChunkRun 0)).s.proplist.length = 1 := by
    decide
  have split : closedChunkRun 21839 = closedChunkRun 0 ++
      List.replicate 21839 (default, .requestBody closedChunk) := by
    rw [closedChunkRun, closedChunkRun, List.replicate_succ]
    rfl
  rw [split]
  unfold after at taken one count ⊢
  rw [Runs.after_append, taken]
  refine ⟨_, List.mem_singleton_self _, ?_⟩
  rw [report_pairCount, reportPairs_length]
  change ¬ 17 + _ + proplist.length + _ < 65535
  omega

end Bscope
