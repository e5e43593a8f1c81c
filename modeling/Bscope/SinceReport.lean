import Bscope.Filings
import Bscope.Interleaves

set_option autoImplicit false

/- What has been called on a connection since its last report. -/
namespace Bscope

/-- `part` is what was called since the last report: `e` makes the next one. -/
def reported (part : List Event) (e : Event) : Bool := e.isFinal && part.any Event.isBegin

/-- The callbacks that the present session has seen. -/
def sinceReport (events : List Event) : List Event :=
  events.foldl (fun part e => if reported part e then [] else part ++ [e]) []

theorem sinceReport_snoc (events : List Event) (e : Event) :
    sinceReport (events ++ [e]) =
      if reported (sinceReport events) e then [] else sinceReport events ++ [e] := by
  unfold sinceReport
  rw [List.foldl_append, List.foldl_cons, List.foldl_nil]

def Event.head : Event → Option HttpMethod
  | .requestHeadersComplete method _ _ => some method
  | _ => none

theorem ledger_next (l : Ledger) (e : Event) (quiet : (e.isFinal && l.owes) = false) :
    (Ledger.step l e).1.owes = (l.owes || e.isBegin) ∧
      (Ledger.step l e).1.method = e.head.getD l.method := by
  cases e with
  | requestBegin => exact ⟨(Bool.or_true _).symm, rfl⟩
  | responseComplete statusCode =>
      have same : Ledger.step l (.responseComplete statusCode) = (l, none) := by
        change (if statusCode.val / 100 ≠ 1 then l.settle .success else (l, none)) = (l, none)
        split
        · rename_i final
          have unowed : l.owes = false := by
            simpa [Event.isFinal, final] using quiet
          unfold Ledger.settle
          rw [unowed]
          rfl
        · rfl
      rw [same]
      exact ⟨(Bool.or_false _).symm, rfl⟩
  | _ => exact ⟨(Bool.or_false _).symm, rfl⟩

section Owing

variable {c : Conn} {part : List Event} (now : Moment) {e : Event}
variable (owes : c.s.needReport = part.any Event.isBegin)
include owes

theorem filing_reported (made : reported part e = true) :
    ∃ f, c.filing (now, e) = some f ∧ f.s.method = c.s.method := by
  unfold reported at made
  rw [Bool.and_eq_true] at made
  obtain ⟨final, owed⟩ := made
  have owing : (sessionTimeMark c.s (some .repTime) now.tv).needReport = true := owes.trans owed
  refine ⟨⟨{ sessionTimeMark c.s (some .repTime) now.tv with needReport := false }, .success,
    now⟩, ?_, rfl⟩
  unfold Conn.filing Session.filing
  rw [if_pos final, if_pos owing]

theorem filing_quiet (quiet : reported part e = false) : c.filing (now, e) = none := by
  unfold reported at quiet
  unfold Conn.filing Session.filing
  split
  · rename_i final
    have unowed : part.any Event.isBegin = false := by
      have final' : e.isFinal = true := final
      rwa [final', Bool.true_and] at quiet
    have owing : (sessionTimeMark c.s (some .repTime) now.tv).needReport = false :=
      owes.trans unowed
    exact if_neg (by rw [owing]; exact Bool.false_ne_true)
  · rfl

variable (ctx : Context)

theorem step_reported (made : reported part e = true) :
    (step ctx c (now, e)).1.s = sessionInit := by
  obtain ⟨f, filed, -⟩ := filing_reported now owes made
  exact step_filed ctx c (now, e) f filed

theorem step_quiet (quiet : reported part e = false) : (step ctx c (now, e)).2 = none := by
  rw [step_filing, filing_quiet now owes quiet]
  rfl

/-- Without a report the debt and the method are those of the ledger. -/
theorem step_next (quiet : reported part e = false) :
    (step ctx c (now, e)).1.s.needReport = (part ++ [e]).any Event.isBegin ∧
      (step ctx c (now, e)).1.s.method = e.head.getD c.s.method := by
  have simulated := congrArg Prod.fst (ledger_simulates ctx c (now, e))
  have next := ledger_next c.ledger e (by
    rw [show c.ledger.owes = part.any Event.isBegin from owes]
    exact quiet)
  constructor
  · have kept : (step ctx c (now, e)).1.s.needReport = (c.s.needReport || e.isBegin) :=
      (congrArg Ledger.owes simulated).symm.trans next.1
    rw [kept, owes, List.any_append, List.any_cons, List.any_nil, Bool.or_false]
  · exact (congrArg Ledger.method simulated).symm.trans next.2

end Owing

/-- A report is owed when a request has begun since the last one. -/
theorem after_owes (ctx : Context) (stat : Status) (run : List (Moment × Event)) :
    (after ctx (connStart stat) run).s.needReport =
      (sinceReport (run.map Prod.snd)).any Event.isBegin := by
  unfold after
  induction run using List.reverseRecOn with
  | nil => rfl
  | append_singleton run call ih =>
      obtain ⟨now, e⟩ := call
      rw [Runs.after_snoc, List.map_append, List.map_singleton, sinceReport_snoc]
      cases made : reported (sinceReport (run.map Prod.snd)) e with
      | true =>
          rw [if_pos rfl, step_reported now ih ctx made]
          rfl
      | false =>
          rw [if_neg Bool.false_ne_true]
          exact (step_next now ih ctx made).1

end Bscope
