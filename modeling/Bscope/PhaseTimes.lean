import Bscope.Filings
import Bscope.Interleaves
import Bscope.ReportPairs
import Bscope.Stopwatch
import Mathlib.Data.Rat.Cast.Order

set_option autoImplicit false

/- The three times of an exchange: how they are measured and how they are reported. -/
namespace Bscope

instance phaseFintype : Fintype Phase where
  elems := {.reqTime, .serverTime, .repTime}
  complete := by
    intro r
    cases r <;> decide

def micros (tv : Timeval) : Int := tv.sec * 1000000 + tv.usec

def Session.spent (s : Session) : Phase → Int
  | .reqTime => s.reqTime
  | .serverTime => s.serverTime
  | .repTime => s.repTime

/-- The mark and the three times of a session, in microseconds. -/
def Session.watch (s : Session) : Stopwatch.Watch Phase Int where
  mark := micros s.statusTime
  spent := s.spent

/-- The time that an event short of a final response marks. -/
def Event.phase : Event → Option Phase
  | .requestComplete => some .reqTime
  | .responseBegin => some .serverTime
  | _ => none

theorem Session.watch_total (s : Session) : s.watch.total = s.reqTime + s.serverTime + s.repTime := by
  have phases : (Finset.univ : Finset Phase) = {.reqTime, .serverTime, .repTime} := rfl
  unfold Stopwatch.Watch.total
  rw [phases, Finset.sum_insert (by decide), Finset.sum_insert (by decide), Finset.sum_singleton,
    ← add_assoc]
  rfl

theorem sessionTimeMark_watch (s : Session) (r : Phase) (now : Timeval) :
    (sessionTimeMark s (some r) now).watch = s.watch.lap r (micros now) := by
  have passed : (now.sec - s.statusTime.sec) * 1000000 + (now.usec - s.statusTime.usec) =
      micros now - micros s.statusTime := by
    unfold micros
    omega
  have spent : (sessionTimeMark s (some r) now).spent =
      Function.update s.spent r (s.spent r + (micros now - micros s.statusTime)) := by
    funext k
    unfold sessionTimeMark
    rw [passed]
    cases r <;> cases k <;> rfl
  have mark : (sessionTimeMark s (some r) now).statusTime = now := by cases r <;> rfl
  unfold Session.watch Stopwatch.Watch.lap
  rw [spent, mark]

section Steps

variable (ctx : Context)

/-- Between the request's begin and the final response an event takes the time it
marks and nothing else. -/
theorem step_watch (c : Conn) (now : Moment) (e : Event) (begun : e.isBegin = false)
    (running : e.isFinal = false) :
    (step ctx c (now, e)).1.s.watch =
        e.phase.elim c.s.watch (fun r => c.s.watch.lap r (micros now.tv)) ∧
      (step ctx c (now, e)).1.s.needReport = c.s.needReport := by
  have piece : e.brings = true →
      (step ctx c (now, e)).1.s.watch = c.s.watch ∧
        (step ctx c (now, e)).1.s.needReport = c.s.needReport := by
    intro brings
    have same := step_brings ctx c now e brings
    exact ⟨(congrArg Session.watch same).trans rfl, (congrArg Session.needReport same).trans rfl⟩
  cases e with
  | requestBegin => exact absurd begun.symm Bool.false_ne_true
  | requestComplete =>
      have marked := sessionTimeMark_watch c.s .reqTime now.tv
      have needs : (sessionTimeMark c.s (some .reqTime) now.tv).needReport = c.s.needReport := rfl
      change (requestComplete ctx.cfg c.s now).watch = c.s.watch.lap .reqTime (micros now.tv) ∧
        (requestComplete ctx.cfg c.s now).needReport = _
      unfold requestComplete
      dsimp only
      split
      · exact ⟨marked, needs⟩
      · exact ⟨marked, needs⟩
  | responseBegin => exact ⟨sessionTimeMark_watch c.s .serverTime now.tv, rfl⟩
  | requestHeadersComplete method httpMajor httpMinor => exact ⟨rfl, rfl⟩
  | responseHeadersComplete statusCode => exact ⟨rfl, rfl⟩
  | responseComplete statusCode =>
      have interim : ¬ statusCode.val / 100 ≠ 1 := by simpa [Event.isFinal] using running
      change (responseComplete ctx c statusCode now).1.s.watch = c.s.watch ∧
        (responseComplete ctx c statusCode now).1.s.needReport = _
      rw [responseComplete, if_neg interim]
      exact ⟨rfl, rfl⟩
  | _ => exact piece rfl

/-- The times that a run marks, in order. -/
def marks (run : List (Moment × Event)) : List (Phase × Int) :=
  run.filterMap fun e => e.2.phase.map fun r => (r, micros e.1.tv)

theorem after_watch (c : Conn) (run : List (Moment × Event))
    (within : ∀ e ∈ run, e.2.isBegin = false ∧ e.2.isFinal = false) :
    (after ctx c run).s.watch = c.s.watch.laps (marks run) ∧
      (after ctx c run).s.needReport = c.s.needReport := by
  induction run generalizing c with
  | nil => exact ⟨rfl, rfl⟩
  | cons e run ih =>
      obtain ⟨now, e⟩ := e
      have here := within (now, e) List.mem_cons_self
      have rest := ih (step ctx c (now, e)).1 fun e' member =>
        within e' (List.mem_cons_of_mem _ member)
      obtain ⟨taken, owed⟩ := step_watch ctx c now e here.1 here.2
      unfold after at rest ⊢
      rw [Runs.after_cons, rest.1, rest.2, taken, owed]
      apply And.intro _ rfl
      unfold marks
      cases marked : e.phase with
      | none =>
          rw [List.filterMap_cons_none (by rw [marked]; rfl)]
          rfl
      | some r =>
          rw [List.filterMap_cons_some (b := (r, micros now.tv)) (by rw [marked]; rfl)]
          rfl

end Steps

/-- A clock shows microseconds below a second, and it does not go back. -/
def Timeval.Valid (tv : Timeval) : Prop := 0 ≤ tv.usec ∧ tv.usec < 1000000

def Timeval.Upto (a b : Timeval) : Prop := a.sec < b.sec ∨ a.sec = b.sec ∧ a.usec ≤ b.usec

theorem micros_le (a b : Timeval) (valid_a : a.Valid) (valid_b : b.Valid) (upto : a.Upto b) :
    micros a ≤ micros b := by
  unfold Timeval.Valid at valid_a valid_b
  unfold Timeval.Upto at upto
  unfold micros
  omega

theorem marks_sublist (run : List (Moment × Event)) :
    ((marks run).map Prod.snd).Sublist (run.map fun e => micros e.1.tv) := by
  induction run with
  | nil => exact List.Sublist.refl []
  | cons e run ih =>
      rw [List.map_cons]
      cases marked : e.2.phase with
      | none =>
          have skipped : marks (e :: run) = marks run :=
            List.filterMap_cons_none (by rw [marked]; rfl)
          rw [skipped]
          exact ih.cons _
      | some r =>
          have taken : marks (e :: run) = (r, micros e.1.tv) :: marks run :=
            List.filterMap_cons_some (by rw [marked]; rfl)
          rw [taken, List.map_cons]
          exact ih.cons_cons _

/-- What the clock shows over one exchange. -/
def shown (first : Moment) (middle : List (Moment × Event)) (last : Moment) : List Timeval :=
  first.tv :: middle.map (fun e => e.1.tv) ++ [last.tv]

section Exchange

variable (ctx : Context) (stat : Status) (first last : Moment) (middle : List (Moment × Event))
  (statusCode : StatusCode) (complete : statusCode.val / 100 ≠ 1)
  (within : ∀ e ∈ middle, e.2.isBegin = false ∧ e.2.isFinal = false)

include complete within in
/-- The session that is reported has been timed from the request's begin on. -/
theorem filing_watch :
    ∃ f, (after ctx (connStart stat) ((first, .requestBegin) :: middle)).filing
        (last, .responseComplete statusCode) = some f ∧
      f.s.watch = Stopwatch.Watch.laps ⟨micros first.tv, fun _ => 0⟩
        (marks middle ++ [(.repTime, micros last.tv)]) := by
  let started := (step ctx (connStart stat) (first, .requestBegin)).1
  obtain ⟨timed, owed⟩ := after_watch ctx started middle within
  have zero : started.s.watch = ⟨micros first.tv, fun _ => 0⟩ := by
    apply congrArg (Stopwatch.Watch.mk (micros first.tv))
    funext r
    cases r <;> rfl
  have owes : (after ctx started middle).s.needReport = true := owed
  have final : Event.isFinal (.responseComplete statusCode) = true := by
    simpa [Event.isFinal] using complete
  have marked := sessionTimeMark_watch (after ctx started middle).s .repTime last.tv
  refine ⟨⟨{ sessionTimeMark (after ctx started middle).s (some .repTime) last.tv with
    needReport := false }, .success, last⟩, ?_, ?_⟩
  · change Conn.filing (after ctx started middle) _ = _
    unfold Conn.filing
    rw [if_pos final]
    unfold Session.filing
    exact if_pos owes
  · change (sessionTimeMark (after ctx started middle).s (some .repTime) last.tv).watch = _
    rw [marked, timed, zero]
    unfold Stopwatch.Watch.laps
    rw [List.foldl_append]
    rfl

variable (valid : ∀ tv ∈ shown first middle last, tv.Valid)
  (forward : (shown first middle last).Pairwise Timeval.Upto)

include valid forward in
theorem marks_forward :
    (micros first.tv :: (marks middle ++ [(Phase.repTime, micros last.tv)]).map Prod.snd).Pairwise
      (· ≤ ·) := by
  have clock : ((shown first middle last).map micros).Pairwise (· ≤ ·) := by
    rw [List.pairwise_map]
    apply List.Pairwise.imp_of_mem _ forward
    intro a b member_a member_b upto
    exact micros_le a b (valid a member_a) (valid b member_b) upto
  have times : (shown first middle last).map micros =
      micros first.tv :: middle.map (fun e => micros e.1.tv) ++ [micros last.tv] := by
    unfold shown
    rw [List.map_append, List.map_cons, List.map_map]
    rfl
  rw [times] at clock
  apply List.Pairwise.sublist _ clock
  rw [List.map_append, ← List.cons_append]
  apply List.Sublist.append
  · exact (marks_sublist middle).cons_cons _
  · exact List.Sublist.refl _

include complete within valid forward in
/-- The three times of a reported exchange add up to the time from its begin to its
final response, and none of them is negative. -/
theorem phaseTimes_telescope :
    ∃ f, (after ctx (connStart stat) ((first, .requestBegin) :: middle)).filing
        (last, .responseComplete statusCode) = some f ∧
      0 ≤ f.s.reqTime ∧ 0 ≤ f.s.serverTime ∧ 0 ≤ f.s.repTime ∧
      f.s.reqTime + f.s.serverTime + f.s.repTime = micros last.tv - micros first.tv := by
  obtain ⟨f, filed, timed⟩ := filing_watch ctx stat first last middle statusCode complete within
  have nonneg := Stopwatch.Watch.laps_nonneg ⟨micros first.tv, fun _ => 0⟩
    (marks middle ++ [(.repTime, micros last.tv)])
    (marks_forward first last middle valid forward) (fun _ => Int.le_refl 0)
  have total := Stopwatch.Watch.laps_total ⟨micros first.tv, fun _ => 0⟩
    (marks middle ++ [(.repTime, micros last.tv)])
  have mark : (Stopwatch.Watch.laps ⟨micros first.tv, fun _ => 0⟩
      (marks middle ++ [(Phase.repTime, micros last.tv)])).mark = micros last.tv := by
    unfold Stopwatch.Watch.laps
    rw [List.foldl_append]
    rfl
  have none_yet : (Stopwatch.Watch.mk (micros first.tv) fun _ : Phase => (0 : Int)).total = 0 := by
    unfold Stopwatch.Watch.total
    exact Finset.sum_const_zero
  rw [← timed] at nonneg mark total
  rw [mark, none_yet, Session.watch_total, zero_add] at total
  exact ⟨f, filed, nonneg .reqTime, nonneg .serverTime, nonneg .repTime, total⟩

end Exchange

/-- A moment at this time of the clock. -/
def tick (sec usec : Int) : Moment := { (default : Moment) with tv := ⟨sec, usec⟩ }

/-- An interim response while the request is still on its way. -/
theorem phaseTimes_telescope_interim :
    ∃ f, (after localContext (connStart statusInit) [(tick 10 900000, .requestBegin),
        (tick 11 100000, .responseBegin), (tick 11 100000, .responseComplete 100),
        (tick 12 50, .requestComplete), (tick 12 999999, .responseBegin)]).filing
        (tick 13 0, .responseComplete 200) = some f ∧
      f.s.reqTime + f.s.serverTime + f.s.repTime = 2100000 := by
  obtain ⟨f, filed, -, -, -, total⟩ := phaseTimes_telescope localContext statusInit
    (tick 10 900000) (tick 13 0) [(tick 11 100000, .responseBegin),
      (tick 11 100000, .responseComplete 100), (tick 12 50, .requestComplete),
      (tick 12 999999, .responseBegin)] 200 (by decide) (by decide)
    (by unfold Timeval.Valid; decide) (by unfold Timeval.Upto; decide)
  exact ⟨f, filed, total⟩

/-- The keys under which the times are reported. -/
def timeKey : Phase → CStr
  | .reqTime => lit "net-req-time"
  | .serverTime => lit "server-time"
  | .repTime => lit "net-rep-time"

/-- The number handed to `msgpack_pack_float`. -/
def Packed.number : Packed → Option ℚ
  | .float v => some v
  | _ => none

/-- Whole seconds, as many as an int holds. -/
def WholeSeconds (v : Int) : Prop :=
  1000000 ∣ v ∧ -(2 ^ 31 * 1000000) ≤ v ∧ v < 2 ^ 31 * 1000000

theorem timeArgument_exact (v : Int) :
    ((toInt (v.tdiv 1000000) : Int) : ℚ) = (v : ℚ) / 1000000 ↔ WholeSeconds v := by
  have seconds : toInt (v.tdiv 1000000) * 1000000 = v ↔ WholeSeconds v := by
    unfold toInt WholeSeconds
    rw [Int.bmod_def, Int.tdiv_eq_ediv]
    split <;> split <;> omega
  rw [← seconds, eq_div_iff (by decide)]
  exact_mod_cast Iff.rfl

theorem report_time (ctx : Context) (f : Filing) (r : Phase) :
    (f.report ctx).value (timeKey r) = some (.float (toInt ((f.s.spent r).tdiv 1000000))) := by
  cases r with
  | reqTime => exact buildReport_value ctx f.s f.type f.now 14 _ _ rfl (by decide +kernel)
  | serverTime => exact buildReport_value ctx f.s f.type f.now 15 _ _ rfl (by decide +kernel)
  | repTime => exact buildReport_value ctx f.s f.type f.now 16 _ _ rfl (by decide +kernel)

/-- A report gives the times exactly when they are whole seconds. -/
theorem reportedTimes_exact_iff (ctx : Context) (f : Filing) :
    (∀ r, ((f.report ctx).value (timeKey r)).bind Packed.number =
        some ((f.s.spent r : ℚ) / 1000000)) ↔
      ∀ r, WholeSeconds (f.s.spent r) := by
  apply forall_congr'
  intro r
  rw [report_time, Option.bind_some, Packed.number, Option.some_inj]
  exact timeArgument_exact (f.s.spent r)

/-- A request of half a second. -/
def halfSecond : List (Moment × Event) :=
  [(tick 1 0, .requestBegin), (tick 1 500000, .requestComplete), (tick 1 500000, .responseBegin),
    (tick 1 500000, .responseComplete 200)]

/-- It is reported as no time at all. -/
theorem reportedTimes_half_second :
    ¬ ∀ f ∈ filings localContext (connStart statusInit) halfSecond .close default, ∀ r,
      ((f.report localContext).value (timeKey r)).bind Packed.number =
        some ((f.s.spent r : ℚ) / 1000000) := by
  have times : (filings localContext (connStart statusInit) halfSecond .close default).map
      (fun f => f.s.spent .reqTime) = [500000] := by decide
  obtain ⟨f, filed, half⟩ := List.mem_map.mp (times ▸ List.mem_singleton_self 500000)
  intro exact_all
  have exact_time := exact_all f filed .reqTime
  rw [report_time, Option.bind_some, Packed.number, Option.some_inj, timeArgument_exact, half]
    at exact_time
  exact absurd exact_time.1 (by decide)

end Bscope
