import Bscope.Debts
import Bscope.Ledger

set_option autoImplicit false

/- Reports against requests on one connection, up to its end. -/
namespace Bscope

/-- What happens on a connection: the callbacks of its parsers, and `session_close`. -/
inductive Happening where
  | callback (e : Event)
  | close (type : CloseType)
deriving DecidableEq

def happen (ctx : Context) (c : Conn) : Moment × Happening → Conn × Option MsgReport
  | (now, .callback e) => step ctx c (now, e)
  | (now, .close type) =>
      let (s, stat, sent) := sessionReport ctx c.s c.stat type now
      (⟨s, stat⟩, sent)

/-- A run of callbacks with the end of the connection behind it. -/
def closedRun (run : List (Moment × Event)) (type : CloseType) (now : Moment) :
    List (Moment × Happening) :=
  run.map (fun e => (e.1, .callback e.2)) ++ [(now, .close type)]

/-- Its reports are those of the connection. -/
theorem closedRun_reports (ctx : Context) (c : Conn) (run : List (Moment × Event))
    (type : CloseType) (now : Moment) :
    Runs.outputs (happen ctx) c (closedRun run type now) = allReports ctx c run type now := by
  induction run generalizing c with
  | nil => exact (Runs.outputs_cons (happen ctx) c (now, .close type) []).trans (List.append_nil _)
  | cons e run ih =>
      have rest := ih (step ctx c e).1
      unfold allReports reports after at rest ⊢
      rw [Runs.outputs_cons, Runs.after_cons, List.append_assoc, ← rest]
      exact Runs.outputs_cons (happen ctx) c (e.1, .callback e.2) (closedRun run type now)

/-- How often `request_begin` found no report owed. -/
def freshBegins (ctx : Context) (c : Conn) : List (Moment × Happening) → Nat
  | [] => 0
  | e :: run =>
      (if e.2 = .callback .requestBegin ∧ c.s.needReport = false then 1 else 0) +
        freshBegins ctx (happen ctx c e).1 run

/-- A request owes a report, and a final response or the end pays it. -/
def Happening.act : Happening → Debts.Act
  | .callback .requestBegin => .incur
  | .callback e => if e.isFinal then .pay else .pass
  | .close _ => .pay

theorem settle_debts (l : Ledger) (type : CloseType) :
    Debts.step l.owes .pay = ((l.settle type).1.owes, (l.settle type).2.map fun _ => ()) := by
  unfold Ledger.settle
  cases owes : l.owes
  · simp [Debts.step, owes]
  · simp [Debts.step, Ledger.blank]

theorem ledger_debts (l : Ledger) (e : Event) :
    Debts.step l.owes (Happening.callback e).act =
      ((l.step e).1.owes, (l.step e).2.map fun _ => ()) := by
  cases e with
  | responseComplete statusCode =>
      have act : (Happening.callback (.responseComplete statusCode)).act =
          if statusCode.val / 100 ≠ 1 then .pay else .pass := by
        change (if decide (statusCode.val / 100 ≠ 1) = true then Debts.Act.pay else .pass) = _
        by_cases final : statusCode.val / 100 ≠ 1 <;> simp [final]
      have said : l.step (.responseComplete statusCode) =
          if statusCode.val / 100 ≠ 1 then l.settle .success else (l, none) := rfl
      rw [act, said]
      split
      · exact settle_debts l .success
      · rfl
  | _ => rfl

/-- The guard `need_report` is such a debt. -/
theorem debts_simulates (ctx : Context) :
    Runs.Simulates (fun c : Conn => c.s.needReport) (fun e : Moment × Happening => e.2.act)
      (fun _ => ()) (happen ctx) Debts.step := by
  rintro c ⟨now, e | type⟩
  · have kept := ledger_simulates ctx c (now, e)
    have debt := ledger_debts c.ledger e
    dsimp only at kept
    rw [kept] at debt
    rw [Option.map_map] at debt
    exact debt
  · have settled := sessionReport_ledger ctx c.s c.stat type now
    have debt := settle_debts c.s.ledger type
    rw [settled, Option.map_map] at debt
    exact debt

theorem act_incur (h : Happening) : h = .callback .requestBegin ↔ h.act = .incur := by
  cases h with
  | close type => exact iff_of_false nofun nofun
  | callback e =>
      cases e with
      | requestBegin => exact iff_of_true rfl rfl
      | responseComplete statusCode =>
          apply iff_of_false nofun
          change (if decide (statusCode.val / 100 ≠ 1) = true then Debts.Act.pay else .pass) ≠ _
          split <;> exact nofun
      | _ => exact iff_of_false nofun nofun

theorem freshBegins_debts (ctx : Context) (c : Conn) (run : List (Moment × Happening)) :
    freshBegins ctx c run = Debts.fresh c.s.needReport (run.map fun e => e.2.act) := by
  induction run generalizing c with
  | nil => rfl
  | cons e run ih =>
      have next := congrArg Prod.fst (debts_simulates ctx c e)
      rw [freshBegins, List.map_cons, Debts.fresh, ih, next]
      simp only [act_incur]

/-- A report is made where the debt is paid. -/
theorem made_iff (ctx : Context) (c : Conn) (front : List (Moment × Happening))
    (e : Moment × Happening) :
    (happen ctx (Runs.after (happen ctx) c front) e).2 ≠ none ↔
      (Debts.step (Runs.after Debts.step c.s.needReport (front.map fun e => e.2.act))
        e.2.act).2 ≠ none := by
  have place := (debts_simulates ctx).after c front
  have answer := congrArg Prod.snd (debts_simulates ctx (Runs.after (happen ctx) c front) e)
  dsimp only at place answer
  rw [place, answer, ne_eq, ne_eq, Option.map_eq_none_iff]

/-- The end of the connection lies behind every callback. -/
theorem close_behind (run : List (Moment × Event)) (type : CloseType) (now : Moment)
    (front back : List (Moment × Happening)) (e : Moment × Happening)
    (split : closedRun run type now = front ++ e :: back) :
    e = (now, .close type) ∨ (∃ e', e.2 = .callback e') ∧ (now, .close type) ∈ back := by
  rcases List.eq_nil_or_concat back with rfl | ⟨rest, last, rfl⟩
  · obtain ⟨-, same⟩ := List.append_inj' split rfl
    exact Or.inl (List.singleton_inj.mp same).symm
  · rw [List.concat_eq_append] at split ⊢
    have whole : closedRun run type now = (front ++ e :: rest) ++ [last] := by
      rw [split, List.append_assoc, List.cons_append]
    obtain ⟨callbacks, same⟩ := List.append_inj' whole rfl
    apply Or.inr
    constructor
    · have member : e ∈ run.map fun e => (e.1, Happening.callback e.2) := by
        rw [callbacks]
        exact List.mem_append_right front List.mem_cons_self
      obtain ⟨e', -, rfl⟩ := List.mem_map.mp member
      exact ⟨e'.2, rfl⟩
    · rw [List.singleton_inj.mp same]
      exact List.mem_append_right rest (List.mem_singleton_self _)

/-- Only a final response and the end are answered, each with its own status. -/
theorem happen_status (ctx : Context) (c : Conn) (e : Moment × Happening) (rp : MsgReport)
    (made : (happen ctx c e).2 = some rp) :
    (∃ statusCode, e.2 = .callback (.responseComplete statusCode) ∧ statusCode.val / 100 ≠ 1 ∧
        rp.value (lit "status") = some (packStr (closeStatus .success))) ∨
      ∃ type, e.2 = .close type ∧ rp.value (lit "status") = some (packStr (closeStatus type)) := by
  have status : ∀ (s : Session) (stat : Status) (type : CloseType) (now : Moment),
      (sessionReport ctx s stat type now).2.2 = some rp →
        rp.value (lit "status") = some (packStr (closeStatus type)) := by
    intro s stat type now sent
    unfold sessionReport at sent
    split at sent
    · rw [← Option.some.inj sent]
      exact buildReport_status ctx _ type now
    · cases sent
  obtain ⟨now, e | type⟩ := e
  · apply Or.inl
    cases e with
    | responseComplete statusCode =>
        change (responseComplete ctx c statusCode now).2 = some rp at made
        unfold responseComplete at made
        split at made
        · rename_i final
          exact ⟨statusCode, rfl, final, status _ _ _ _ made⟩
        · cases made
    | _ => cases made
  · exact Or.inr ⟨type, rfl, status _ _ _ _ made⟩

theorem closedRun_count (ctx : Context) (stat : Status) (run : List (Moment × Event))
    (type : CloseType) (now : Moment) :
    (Runs.outputs (happen ctx) (connStart stat) (closedRun run type now)).length =
      freshBegins ctx (connStart stat) (closedRun run type now) := by
  have balance := Debts.balance false ((closedRun run type now).map fun e => e.2.act)
  have sent := congrArg List.length
    ((debts_simulates ctx).outputs (connStart stat) (closedRun run type now))
  -- the end of the connection pays whatever is still owed
  have cleared : Runs.after Debts.step false
      ((closedRun run type now).map fun e => e.2.act) = false := by
    rw [closedRun, List.map_append, List.map_singleton, Runs.after_snoc]
    rfl
  have begins := freshBegins_debts ctx (connStart stat) (closedRun run type now)
  rw [List.length_map] at sent
  rw [cleared] at balance
  rw [← sent, begins]
  exact balance

/-- Between two reports a request begins. -/
theorem made_apart (ctx : Context) (c : Conn) (front mid : List (Moment × Happening))
    (e e' : Moment × Happening) (first : (happen ctx (Runs.after (happen ctx) c front) e).2 ≠ none)
    (second : (happen ctx (Runs.after (happen ctx) c (front ++ e :: mid)) e').2 ≠ none) :
    ∃ begun ∈ mid, begun.2 = .callback .requestBegin := by
  rw [made_iff] at first second
  rw [List.map_append, List.map_cons] at second
  have begun := Debts.incurred_between _ _ _ _ _ first second
  obtain ⟨b, member, act⟩ := List.mem_map.mp begun
  exact ⟨b, member, (act_incur b.2).mpr act⟩

/-- Of the two the end is the last thing that happens, with its own type. -/
theorem made_status (ctx : Context) (c : Conn) (run : List (Moment × Event)) (type : CloseType)
    (now : Moment) (front back : List (Moment × Happening)) (e : Moment × Happening)
    (rp : MsgReport) (split : closedRun run type now = front ++ e :: back)
    (made : (happen ctx c e).2 = some rp) :
    (∃ statusCode, e.2 = .callback (.responseComplete statusCode) ∧ statusCode.val / 100 ≠ 1 ∧
        rp.value (lit "status") = some (packStr (lit "success"))) ∨
      e = (now, .close type) ∧ rp.value (lit "status") = some (packStr (closeStatus type)) := by
  rcases happen_status ctx c e rp made with final | ⟨type', ended, status⟩
  · exact Or.inl final
  · rcases close_behind run type now front back e split with same | ⟨⟨e', callback⟩, _⟩
    · subst same
      obtain rfl := Happening.close.inj ended
      exact Or.inr ⟨rfl, status⟩
    · rw [callback] at ended
      cases ended

/-- A request that began is reported, at the latest when the connection ends. -/
theorem begun_made (ctx : Context) (c : Conn) (run : List (Moment × Event)) (type : CloseType)
    (now : Moment) (front back : List (Moment × Happening)) (e : Moment × Happening)
    (split : closedRun run type now = front ++ e :: back)
    (begin : e.2 = .callback .requestBegin) :
    ∃ mid e' rest, back = mid ++ e' :: rest ∧
      (happen ctx (Runs.after (happen ctx) c (front ++ e :: mid)) e').2 ≠ none := by
  rcases close_behind run type now front back e split with same | ⟨-, ends⟩
  · rw [same] at begin
    cases begin
  · have pays : Debts.Act.pay ∈ back.map fun e => e.2.act := List.mem_map.mpr ⟨_, ends, rfl⟩
    obtain ⟨mid, a, rest, acts, paid⟩ := Debts.paid_later _ pays
    obtain ⟨mid', tail, rfl, rfl, behind⟩ := List.map_eq_append_iff.mp acts
    obtain ⟨e', rest', rfl, rfl, -⟩ := List.map_eq_cons_iff.mp behind
    refine ⟨mid', e', rest', rfl, ?_⟩
    rw [made_iff, List.map_append, List.map_cons, Runs.after_append, Runs.after_cons,
      (act_incur e.2).mp begin]
    exact paid

/-- On every connection the reports are as many as the requests that found none
owed; two reports have a request between them; each is made by a final response or
by the end, with the status of that; and each request is followed by a report. -/
theorem reports_balance (ctx : Context) (stat : Status) (run : List (Moment × Event))
    (type : CloseType) (now : Moment) :
    (Runs.outputs (happen ctx) (connStart stat) (closedRun run type now)).length =
        freshBegins ctx (connStart stat) (closedRun run type now) ∧
      (∀ front e mid e' back, closedRun run type now = front ++ e :: mid ++ e' :: back →
        (happen ctx (Runs.after (happen ctx) (connStart stat) front) e).2 ≠ none →
        (happen ctx (Runs.after (happen ctx) (connStart stat) (front ++ e :: mid)) e').2 ≠ none →
        ∃ begun ∈ mid, begun.2 = .callback .requestBegin) ∧
      (∀ front e back rp, closedRun run type now = front ++ e :: back →
        (happen ctx (Runs.after (happen ctx) (connStart stat) front) e).2 = some rp →
        (∃ statusCode, e.2 = .callback (.responseComplete statusCode) ∧ statusCode.val / 100 ≠ 1 ∧
            rp.value (lit "status") = some (packStr (lit "success"))) ∨
          e = (now, .close type) ∧ rp.value (lit "status") = some (packStr (closeStatus type))) ∧
      ∀ front e back, closedRun run type now = front ++ e :: back →
        e.2 = .callback .requestBegin →
        ∃ mid e' rest, back = mid ++ e' :: rest ∧
          (happen ctx (Runs.after (happen ctx) (connStart stat) (front ++ e :: mid)) e').2 ≠
            none := by
  refine ⟨closedRun_count ctx stat run type now, ?_, ?_, ?_⟩
  · intro front e mid e' back _ first second
    exact made_apart ctx (connStart stat) front mid e e' first second
  · intro front e back rp split made
    exact made_status ctx _ run type now front back e rp split made
  · intro front e back split begin
    exact begun_made ctx (connStart stat) run type now front back e split begin

end Bscope
