import Bscope.Captures

set_option autoImplicit false

/- The sessions that `session_report` makes a message of. -/
namespace Bscope

/-- What a message is made of: the session that owes it, why, and when. -/
structure Filing where
  s : Session
  type : CloseType
  now : Moment

def Filing.report (ctx : Context) (f : Filing) : MsgReport := buildReport ctx f.s f.type f.now

def Session.filing (s : Session) (type : CloseType) (now : Moment) : Option Filing :=
  if s.needReport then some ⟨{ s with needReport := false }, type, now⟩ else none

def Conn.filing (c : Conn) (e : Moment × Event) : Option Filing :=
  if e.2.isFinal then (sessionTimeMark c.s (some .repTime) e.1.tv).filing .success e.1 else none

/-- All that is filed on a connection, when it ends included. -/
def filings (ctx : Context) (c : Conn) (run : List (Moment × Event)) (type : CloseType)
    (now : Moment) : List Filing :=
  match run with
  | [] => (c.s.filing type now).toList
  | e :: run => (c.filing e).toList ++ filings ctx (step ctx c e).1 run type now

theorem sessionReport_filing (ctx : Context) (s : Session) (stat : Status) (type : CloseType)
    (now : Moment) :
    (sessionReport ctx s stat type now).2.2 = (s.filing type now).map (Filing.report ctx) := by
  unfold sessionReport Session.filing
  split_ifs <;> rfl

theorem step_filing (ctx : Context) (c : Conn) (e : Moment × Event) :
    (step ctx c e).2 = (c.filing e).map (Filing.report ctx) := by
  obtain ⟨now, e⟩ := e
  unfold Conn.filing
  cases final : e.isFinal
  · rw [step_not_final ctx c now e final]
    rfl
  · cases e with
    | responseComplete statusCode =>
        have code : statusCode.val / 100 ≠ 1 := by simpa [Event.isFinal] using final
        change (responseComplete ctx c statusCode now).2 = _
        rw [responseComplete, if_pos code]
        exact sessionReport_filing ctx _ c.stat .success now
    | _ => cases final

/-- The reports of a connection are its filings, each made into a message. -/
theorem allReports_filings (ctx : Context) (c : Conn) (run : List (Moment × Event))
    (type : CloseType) (now : Moment) :
    allReports ctx c run type now = (filings ctx c run type now).map (Filing.report ctx) := by
  induction run generalizing c with
  | nil =>
      change (sessionClose ctx c type now).toList = (c.s.filing type now).toList.map _
      rw [sessionClose, sessionReport_filing]
      cases c.s.filing type now <;> rfl
  | cons e run ih =>
      have rest := ih (step ctx c e).1
      unfold allReports reports after at *
      rw [Runs.outputs_cons, Runs.after_cons, List.append_assoc, rest, filings, List.map_append,
        step_filing]
      cases c.filing e <;> rfl

theorem filing_session (s : Session) (type : CloseType) (now : Moment) (f : Filing)
    (filed : s.filing type now = some f) : f.s = { s with needReport := false } := by
  unfold Session.filing at filed
  split at filed
  · rw [← Option.some.inj filed]
  · cases filed

theorem filing_proplist (c : Conn) (e : Moment × Event) (f : Filing)
    (filed : c.filing e = some f) : f.s.proplist = c.s.proplist := by
  unfold Conn.filing at filed
  split at filed
  · rw [filing_session _ _ _ f filed]
    exact sessionTimeMark_proplist _ _ _
  · cases filed

theorem filing_final (c : Conn) (e : Moment × Event) (f : Filing) (filed : c.filing e = some f) :
    e.2.isFinal = true := by
  unfold Conn.filing at filed
  split at filed
  · assumption
  · cases filed

/-- A session that was filed starts afresh. -/
theorem step_filed (ctx : Context) (c : Conn) (e : Moment × Event) (f : Filing)
    (filed : c.filing e = some f) : (step ctx c e).1.s = sessionInit := by
  refine step_answered ctx c e.1 e.2 ?_
  change (step ctx c e).2 ≠ none
  rw [step_filing, filed]
  exact Option.some_ne_none _

/-- An entry that is filed was there at the start, or was captured by an event
after which it was filed. -/
theorem filed_captured (ctx : Context) (c : Conn) (run : List (Moment × Event)) (type : CloseType)
    (now : Moment) (room : Room c) (f : Filing) (filed : f ∈ filings ctx c run type now) :
    ∀ kv ∈ f.s.proplist, kv ∈ c.s.proplist ∨ ∃ front e back, run = front ++ e :: back ∧
      kv ∈ captures ctx.cfg (after ctx c front).s e.2 ∧
      f ∈ filings ctx (after ctx c (front ++ [e])) back type now := by
  intro kv member
  induction run generalizing c with
  | nil =>
      rw [filings, Option.mem_toList] at filed
      rw [filing_session _ _ _ f filed] at member
      exact Or.inl member
  | cons e run ih =>
      rw [filings, List.mem_append, Option.mem_toList] at filed
      rcases filed with here | later
      · exact Or.inl (filing_proplist c e f here ▸ member)
      · rcases ih (step ctx c e).1 (step_room ctx c e.1 e.2 room) later with
          inside | ⟨front, e', back, split, found, after_it⟩
        · cases answer : c.filing e with
          | some f' =>
              rw [step_filed ctx c e f' answer] at inside
              cases inside
          | none =>
              have quiet : (step ctx c e).2 = none := by rw [step_filing, answer]; rfl
              rw [step_proplist ctx c e.1 e.2 room quiet, List.mem_append] at inside
              rcases inside with new | old
              · exact Or.inr ⟨[], e, run, rfl, new, later⟩
              · exact Or.inl old
        · exact Or.inr ⟨e :: front, e', back, congrArg (e :: ·) split, found, after_it⟩

/-- An entry in the list is filed with the next report. -/
theorem entry_filed (ctx : Context) (c : Conn) (run : List (Moment × Event)) (type : CloseType)
    (now : Moment) (room : Room c) (some_filed : filings ctx c run type now ≠ []) (kv : Kv)
    (member : kv ∈ c.s.proplist) : ∃ f ∈ filings ctx c run type now, kv ∈ f.s.proplist := by
  induction run generalizing c with
  | nil =>
      rw [filings] at some_filed ⊢
      cases filed : c.s.filing type now with
      | none =>
          rw [filed] at some_filed
          exact absurd rfl some_filed
      | some f => exact ⟨f, by simp, by rw [filing_session _ _ _ f filed]; exact member⟩
  | cons e run ih =>
      rw [filings] at some_filed ⊢
      cases filed : c.filing e with
      | some f => exact ⟨f, by simp, by rw [filing_proplist c e f filed]; exact member⟩
      | none =>
          rw [filed] at some_filed
          have quiet : (step ctx c e).2 = none := by rw [step_filing, filed]; rfl
          have kept : kv ∈ (step ctx c e).1.s.proplist := by
            rw [step_proplist ctx c e.1 e.2 room quiet]
            exact List.mem_append_right _ member
          exact ih (step ctx c e).1 (step_room ctx c e.1 e.2 room) some_filed kept

theorem filings_later (ctx : Context) (c : Conn) (front : List (Moment × Event))
    (e : Moment × Event) (back : List (Moment × Event)) (type : CloseType) (now : Moment)
    (f : Filing) (filed : f ∈ filings ctx (after ctx c (front ++ [e])) back type now) :
    f ∈ filings ctx c (front ++ e :: back) type now := by
  induction front generalizing c with
  | nil => exact List.mem_append_right _ filed
  | cons e' front ih => exact List.mem_append_right _ (ih (step ctx c e').1 filed)

/-- An event that captures something is not answered. -/
theorem captures_quiet (ctx : Context) (c : Conn) (e : Moment × Event) (kv : Kv)
    (found : kv ∈ captures ctx.cfg c.s e.2) : (step ctx c e).2 = none := by
  obtain ⟨now, e⟩ := e
  cases e with
  | responseComplete statusCode => cases found
  | _ => rfl

theorem captures_final (cfg : Configuration) (s : Session) (e : Event) (final : e.isFinal = true) :
    captures cfg s e = [] := by
  cases e <;> first | rfl | cases final

/-- A filed session is one that the run reached, but for its marks. -/
theorem filed_reached (ctx : Context) (c : Conn) (run : List (Moment × Event)) (type : CloseType)
    (now : Moment) (f : Filing) (filed : f ∈ filings ctx c run type now) :
    ∃ front back, run = front ++ back ∧ f.s.proplist = (after ctx c front).s.proplist ∧
      Kept .responseBegin (after ctx c front).s f.s := by
  have plain : ∀ s s' : Session, Kept .responseBegin s s' →
      Kept .responseBegin s { s' with needReport := false } :=
    fun _ _ kept => ⟨kept.path, kept.heads, kept.postBuf, kept.body⟩
  induction run generalizing c with
  | nil =>
      rw [filings, Option.mem_toList] at filed
      rw [filing_session _ _ _ f filed]
      exact ⟨[], [], rfl, rfl, plain _ _ (kept_rfl _ c.s)⟩
  | cons e run ih =>
      rw [filings, List.mem_append, Option.mem_toList] at filed
      rcases filed with here | later
      · refine ⟨[], e :: run, rfl, filing_proplist c e f here, ?_⟩
        unfold Conn.filing at here
        split at here
        · rw [filing_session _ _ _ f here]
          exact plain _ _ (kept_mark .responseBegin c.s (some .repTime) e.1.tv)
        · cases here
      · obtain ⟨front, back, split, same, kept⟩ := ih (step ctx c e).1 later
        exact ⟨e :: front, back, congrArg (e :: ·) split, same, kept⟩

end Bscope
