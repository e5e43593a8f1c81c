import Bscope.Filings
import Bscope.ReportPairs

set_option autoImplicit false

/- The byte counts of the reports of one connection. The counters that a report
reads are libnids' own and run from the start of the connection. -/
namespace Bscope

theorem buildReport_reqBytes (ctx : Context) (s : Session) (type : CloseType) (now : Moment) :
    (buildReport ctx s type now).value (lit "req-bytes") =
      some (.int (toInt now.serverCount)) :=
  buildReport_value ctx s type now 12 _ _ rfl (by decide +kernel)

theorem buildReport_repBytes (ctx : Context) (s : Session) (type : CloseType) (now : Moment) :
    (buildReport ctx s type now).value (lit "rep-bytes") =
      some (.int (toInt now.clientCount)) :=
  buildReport_value ctx s type now 13 _ _ rfl (by decide +kernel)

/-- Each report counts the bytes received since the one before it, or since the
start; `reqs` and `reps` are the totals at that one. -/
def BytesPerReport (ctx : Context) (reqs reps : Nat) : List Filing → Prop
  | [] => True
  | f :: filed =>
      (f.report ctx).value (lit "req-bytes") =
          some (.int (toInt (f.now.serverCount - reqs))) ∧
        (f.report ctx).value (lit "rep-bytes") =
          some (.int (toInt (f.now.clientCount - reps))) ∧
        BytesPerReport ctx f.now.serverCount f.now.clientCount filed

/-- Taking off what was counted before shows, unless it is a multiple of the width. -/
theorem packed_since_iff (total before : Nat) :
    some (Packed.int (toInt total)) = some (Packed.int (toInt (total - before))) ↔
      2 ^ 32 ∣ before := by
  rw [Option.some_inj, Packed.int.injEq, toInt, toInt, Int.bmod_eq_bmod_iff_bmod_sub_eq_zero,
    ← Int.dvd_iff_bmod_eq_zero, show (total : Int) - (total - before) = before by omega,
    Int.natCast_dvd_natCast]
  rfl

theorem bytesPerReport_cons (ctx : Context) (reqs reps : Nat) (f : Filing) (filed : List Filing) :
    BytesPerReport ctx reqs reps (f :: filed) ↔
      (2 ^ 32 ∣ reqs ∧ 2 ^ 32 ∣ reps) ∧
        BytesPerReport ctx f.now.serverCount f.now.clientCount filed := by
  have sent := packed_since_iff f.now.serverCount reqs
  have replied := packed_since_iff f.now.clientCount reps
  rw [BytesPerReport, Filing.report, buildReport_reqBytes, buildReport_repBytes, sent, replied,
    and_assoc]

/-- The reports count their own bytes exactly when the totals at every report but the
last are multiples of the width. -/
theorem bytesPerReport_iff (ctx : Context) (reqs reps : Nat) (filed : List Filing)
    (width : 2 ^ 32 ∣ reqs ∧ 2 ^ 32 ∣ reps) :
    BytesPerReport ctx reqs reps filed ↔
      ∀ f ∈ filed.dropLast, 2 ^ 32 ∣ f.now.serverCount ∧ 2 ^ 32 ∣ f.now.clientCount := by
  induction filed generalizing reqs reps with
  | nil => exact iff_of_true trivial (List.forall_mem_nil _)
  | cons f filed ih =>
      rw [bytesPerReport_cons, and_iff_right width]
      cases filed with
      | nil => exact iff_of_true trivial (List.forall_mem_nil _)
      | cons g filed =>
          rw [List.dropLast_cons_of_ne_nil (List.cons_ne_nil g filed), List.forall_mem_cons]
          constructor
          · intro own
            have here := ((bytesPerReport_cons ctx _ _ g filed).mp own).1
            exact ⟨here, (ih _ _ here).mp own⟩
          · rintro ⟨here, later⟩
            exact (ih _ _ here).mpr later

/-- On every connection each report counts the bytes since the one before exactly
when both totals are multiples of the width at every report but the last; so, below
the width, exactly when there is at most one report. -/
theorem reports_bytes (ctx : Context) (stat : Status) (run : List (Moment × Event))
    (type : CloseType) (now : Moment) :
    (BytesPerReport ctx 0 0 (filings ctx (connStart stat) run type now) ↔
      ∀ f ∈ (filings ctx (connStart stat) run type now).dropLast,
        2 ^ 32 ∣ f.now.serverCount ∧ 2 ^ 32 ∣ f.now.clientCount) ∧
    ((∀ f ∈ filings ctx (connStart stat) run type now,
        0 < f.now.serverCount ∧ f.now.serverCount < 2 ^ 32) →
      (BytesPerReport ctx 0 0 (filings ctx (connStart stat) run type now) ↔
        (filings ctx (connStart stat) run type now).length ≤ 1)) := by
  have exactly := bytesPerReport_iff ctx 0 0 (filings ctx (connStart stat) run type now)
    ⟨Nat.dvd_zero _, Nat.dvd_zero _⟩
  refine ⟨exactly, ?_⟩
  intro some_bytes
  rw [exactly]
  constructor
  · intro multiples
    by_contra more
    have several : (filings ctx (connStart stat) run type now).dropLast ≠ [] := by
      intro none
      have sizes := congrArg List.length none
      rw [List.length_dropLast, List.length_nil] at sizes
      omega
    obtain ⟨f, rest, first⟩ := List.exists_cons_of_ne_nil several
    have member : f ∈ (filings ctx (connStart stat) run type now).dropLast := by
      rw [first]
      exact List.mem_cons_self
    obtain ⟨positive, small⟩ := some_bytes f (List.mem_of_mem_dropLast member)
    have wide := Nat.le_of_dvd positive (multiples f member).1
    omega
  · intro few f member
    have sizes := List.length_pos_of_mem member
    rw [List.length_dropLast] at sizes
    omega

/-- Two exchanges on one connection: 100 and then 50 bytes of requests. -/
def countedExchanges : List (Moment × Event) :=
  [(⟨1, ⟨1, 0⟩, 0, 100⟩, .requestBegin), (⟨1, ⟨1, 0⟩, 700, 100⟩, .responseComplete 200),
    (⟨2, ⟨2, 0⟩, 700, 150⟩, .requestBegin), (⟨2, ⟨2, 0⟩, 900, 150⟩, .responseComplete 200)]

/-- The second report counts the first exchange again. -/
theorem reports_bytes_twice :
    (allReports localContext (connStart statusInit) countedExchanges .close default).map
      (fun rp => (rp.value (lit "req-bytes"), rp.value (lit "rep-bytes"))) =
        [(some (.int 100), some (.int 700)), (some (.int 150), some (.int 900))] ∧
      ¬ BytesPerReport localContext 0 0
        (filings localContext (connStart statusInit) countedExchanges .close default) := by
  constructor
  · decide +kernel
  · rw [bytesPerReport_iff _ _ _ _ ⟨Nat.dvd_zero _, Nat.dvd_zero _⟩]
    decide +kernel

end Bscope
