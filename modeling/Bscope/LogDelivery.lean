import Bscope.LogReader

set_option autoImplicit false

namespace Bscope

open Laps

/-- The writer is in the reader's lap, or one lap further and not past the reader. -/
def NotOvertaken (s : LogState) : Prop :=
  s.w.log.lap = s.r.lap ∨ s.w.log.lap = s.r.lap + 1 ∧ s.w.stat.p ≤ s.r.p

def texts (ms : List LogMsg) : List Bytes := ms.map fun m => m.text.bytes

/-- The reader stands in its lap, and the lines printed are all that was pushed
from lap `first` on up to where it stands. -/
def Delivering (first : Nat) (s : LogState) (lines : List Bytes) : Prop :=
  ∃ seen rest later shown, Placed s.w s.r seen rest later ∧ lines = texts shown ∧
    s.w.log.Delivered first s.r.lap seen shown

theorem placed_cases {s : LogState} {seen rest : List LogMsg} {later : List (List LogMsg)}
    (placed : Placed s.w s.r seen rest later) (near : NotOvertaken s) :
    later = [] ∨ ∃ cur, later = [cur] ∧ s.w.stat.p ≤ s.r.p := by
  have laps := placed.stands.lap_eq
  rcases near with same | ⟨next, kept⟩
  · exact Or.inl (List.length_eq_zero_iff.mp (by omega))
  · obtain ⟨cur, one⟩ := List.length_eq_one_iff.mp (show later.length = 1 by omega)
    exact Or.inr ⟨cur, one, kept⟩

theorem push_delivering (first : Nat) (s : LogState) (lines : List Bytes) (m : LogMsg)
    (delivering : Delivering first s lines) :
    Delivering first { s with w := s.w.push m } lines := by
  obtain ⟨seen, rest, later, shown, placed, shows, order, whole⟩ := delivering
  have inside : s.r.lap ≤ s.w.log.lap := by
    have laps := placed.stands.lap_eq
    omega
  obtain ⟨rest', later', stands⟩ := push_stands s.w m s.r.lap seen rest later placed.stands
  refine ⟨seen, rest', later', shown, ⟨stands, placed.offset, placed.counter⟩, shows, order, ?_⟩
  rw [whole]
  unfold Writer.push
  by_cases full : Wraps s.w.stat m
  · simp only [full, ↓reduceIte, Log.take_pushLap s.w.log m s.r.lap inside]
  · simp only [full, ↓reduceIte, Log.take_push s.w.log m s.r.lap inside]

/-- A record that is printed is the next one in order. -/
theorem line_delivering (first : Nat) (s : LogState) (lines : List Bytes) (m : LogMsg)
    (seen rest : List LogMsg) (later : List (List LogMsg)) (shown : List LogMsg)
    (placed : Placed s.w s.r seen (m :: rest) later) (shows : lines = texts shown)
    (delivered : s.w.log.Delivered first s.r.lap seen shown) :
    Delivering first ⟨s.w, s.r.i, s.r.p + (record m).length, s.r.lap⟩ (lines ++ [m.text.bytes]) := by
  refine ⟨seen ++ [m], rest, later, shown ++ [m], placed.next, by simp [shows, texts],
    delivered.1, ?_⟩
  dsimp only
  rw [delivered.2, List.append_assoc]

/-- What a look finds: the end of the log, the next record, or the end of its lap. -/
theorem look_finds {s : LogState} {seen rest : List LogMsg} {later : List (List LogMsg)}
    (written : Written s.w) (placed : Placed s.w s.r seen rest later) (near : NotOvertaken s) :
    (rest = [] ∧ later = [] ∧ showLog s.w.stat s.r.i s.r.p = .wait) ∨
      (∃ m rest', rest = m :: rest' ∧ showLog s.w.stat s.r.i s.r.p =
        .line m.text.bytes s.r.i (s.r.p + (record m).length)) ∨
      (rest = [] ∧ (∃ cur, later = [cur]) ∧
        showLog s.w.stat s.r.i s.r.p = .restart s.w.stat.life 0) := by
  rcases placed_cases placed near with rfl | ⟨cur, rfl, kept⟩
  · cases rest with
    | nil => exact Or.inl ⟨rfl, rfl, look_waits written placed⟩
    | cons m rest => exact Or.inr (Or.inl ⟨m, rest, rfl, look_here written m placed⟩)
  · cases rest with
    | nil => exact Or.inr (Or.inr ⟨rfl, ⟨cur, rfl⟩, look_turns written placed kept⟩)
    | cons m rest => exact Or.inr (Or.inl ⟨m, rest, rfl, look_behind written m placed kept⟩)

theorem look_delivering (first : Nat) (s : LogState) (lines : List Bytes) (written : Written s.w)
    (delivering : Delivering first s lines) (near : NotOvertaken s) :
    Delivering first (logStep s .look).1 (lines ++ (logStep s .look).2.toList) := by
  obtain ⟨seen, rest, later, shown, placed, shows, delivered⟩ := delivering
  rcases look_finds written placed near with ⟨rfl, rfl, waits⟩ | ⟨m, rest, rfl, line⟩ |
    ⟨rfl, ⟨cur, rfl⟩, turns⟩
  · obtain ⟨-, lap⟩ := placed.stands.last
    rw [logStep, waits]
    simp only [Option.toList_none, List.append_nil, Log.lap, lap]
    exact ⟨seen, [], [], shown, placed, shows, delivered⟩
  · rw [logStep, line]
    exact line_delivering first s lines m seen rest later shown placed shows delivered
  · have next := delivered.next_lap (by simpa using placed.stands)
    rw [logStep, turns]
    simp only [Option.toList_none, List.append_nil]
    exact ⟨[], s.w.log.cur, [], shown, placed_start written, shows, next⟩

/-- What a look has to do when `lines` of `all` are printed: sleep if that is all of it, print
the next of it, or start over in the writer's lap behind the last line of its own. -/
def LooksOn (s : LogState) (lines all : List Bytes) : Prop :=
  (showLog s.w.stat s.r.i s.r.p = .wait ∧ lines = all) ∨
    (∃ text, showLog s.w.stat s.r.i s.r.p = .line text s.r.i (s.r.p + text.length + 3) ∧
      lines ++ [text] <+: all) ∨
    (showLog s.w.stat s.r.i s.r.p = .restart s.w.stat.life 0 ∧ s.r.lap < s.w.log.lap)

theorem look_on (first : Nat) (s : LogState) (lines : List Bytes) (written : Written s.w)
    (delivering : Delivering first s lines) (near : NotOvertaken s) :
    LooksOn s lines (texts (s.w.log.since first)) := by
  obtain ⟨seen, rest, later, shown, placed, shows, delivered⟩ := delivering
  have whole := delivered.prefix_since placed.stands
  rcases look_finds written placed near with ⟨rfl, rfl, waits⟩ | ⟨m, rest, rfl, line⟩ |
    ⟨rfl, ⟨cur, rfl⟩, turns⟩
  · exact Or.inl ⟨waits, by simp [shows, whole]⟩
  · refine Or.inr (Or.inl ⟨m.text.bytes, ?_, ?_⟩)
    · rw [line, record_length]
      rfl
    · rw [whole, shows]
      exact ⟨texts (rest ++ later.flatten), by simp [texts]⟩
  · have laps := placed.stands.lap_eq
    exact Or.inr (Or.inr ⟨turns, by simp only [List.length_singleton] at laps; omega⟩)

/-- In the writer's lap, one look after the other prints the rest of it. -/
theorem drained_here (s : LogState) (seen rest : List LogMsg) (written : Written s.w)
    (placed : Placed s.w s.r seen rest []) :
    printed s (List.replicate rest.length .look) = texts rest := by
  induction rest generalizing s seen with
  | nil => rfl
  | cons m rest ih =>
      have line := look_here written m placed
      rw [List.length_cons, List.replicate_succ, printed, Runs.outputs_cons, logStep, line]
      exact congrArg _ (ih _ (seen ++ [m]) written placed.next)

theorem drained_behind (s : LogState) (seen rest cur : List LogMsg) (written : Written s.w)
    (placed : Placed s.w s.r seen rest [cur]) (kept : s.w.stat.p ≤ s.r.p) :
    printed s (List.replicate (rest.length + (cur.length + 1)) .look) = texts (rest ++ cur) := by
  induction rest generalizing s seen with
  | nil =>
      have turns := look_turns written placed kept
      obtain ⟨-, rfl, -⟩ := placed.stands.previous
      rw [List.length_nil, Nat.zero_add, List.replicate_succ, printed, Runs.outputs_cons, logStep,
        turns]
      exact drained_here _ [] _ written (placed_start written)
  | cons m rest ih =>
      have line := look_behind written m placed kept
      rw [List.length_cons, Nat.add_right_comm, List.replicate_succ, printed, Runs.outputs_cons,
        logStep, line]
      exact congrArg _ (ih _ (seen ++ [m]) written placed.next (Nat.le_add_right_of_le kept))

/-- A reader that is let alone prints everything. -/
theorem drained (first : Nat) (s : LogState) (lines : List Bytes) (written : Written s.w)
    (delivering : Delivering first s lines) (near : NotOvertaken s) :
    ∃ n, lines ++ printed s (List.replicate n .look) = texts (s.w.log.since first) := by
  obtain ⟨seen, rest, later, shown, placed, shows, delivered⟩ := delivering
  rw [delivered.prefix_since placed.stands, shows]
  rcases placed_cases placed near with rfl | ⟨cur, rfl, kept⟩
  · exact ⟨rest.length, by rw [drained_here s seen rest written placed]; simp [texts]⟩
  · exact ⟨rest.length + (cur.length + 1), by
      rw [drained_behind s seen rest cur written placed kept]; simp [texts]⟩

theorem run_delivering (s : LogState) (first : Nat) (events : List LogEvent) (written : Written s.w)
    (initial : Delivering first s [])
    (near : ∀ front back, events = front ++ .look :: back → NotOvertaken (logAfter s front)) :
    Delivering first (logAfter s events) (printed s events) := by
  induction events using List.reverseRecOn with
  | nil => exact initial
  | append_singleton events event ih =>
      have so_far := ih (fun front back split =>
        near front (back ++ [event]) (by rw [split, List.append_assoc, List.cons_append]))
      unfold logAfter printed
      rw [Runs.after_snoc, Runs.outputs_snoc]
      cases event with
      | push m => simpa [logStep] using push_delivering first _ _ m so_far
      | look =>
          exact look_delivering first _ _ (written_after s events written) so_far
            (near events [] rfl)

theorem records_eq_nil (ms : List LogMsg) (empty : (records ms).length = 0) : ms = [] := by
  cases ms with
  | nil => rfl
  | cons m ms =>
      rw [records_cons, List.length_append, record_length] at empty
      omega

/-- A reader at the writer's offset in the writer's lap has printed everything. -/
theorem delivering_all (first : Nat) (s : LogState) (lines : List Bytes) (written : Written s.w)
    (delivering : Delivering first s lines) (near : NotOvertaken s) (counter : s.r.i = s.w.stat.life)
    (offset : s.r.p = s.w.stat.p) : lines = texts (s.w.log.since first) := by
  obtain ⟨seen, rest, later, shown, placed, shows, delivered⟩ := delivering
  have order := delivered.prefix_since placed.stands
  rcases placed_cases placed near with rfl | ⟨cur, rfl, -⟩
  · obtain ⟨cur, -⟩ := placed.stands.last
    rw [placed.offset, written.offset, cur, records_append, List.length_append] at offset
    obtain rfl := records_eq_nil rest (by omega)
    rw [shows, order]
    simp
  · exact absurd counter (behind_counter written placed)

/-- What a reader that is never overtaken prints is a beginning of what was pushed since the
lap it started in, and all of it whenever it waits. Every look gets on with it, and looks
alone, at any moment, print all that is there. -/
theorem printed_prefix (before : List LogMsg) (events : List LogEvent)
    (near : ∀ front back, events = front ++ .look :: back →
      NotOvertaken (logAfter (logStart before) front)) :
    printed (logStart before) events <+:
        texts ((logStart before).w.log.cur ++ pushed events) ∧
      ∀ front back, events = front ++ .look :: back →
        ((logAfter (logStart before) front).r.i = (logAfter (logStart before) front).w.stat.life →
          (logAfter (logStart before) front).r.p = (logAfter (logStart before) front).w.stat.p →
          printed (logStart before) front =
            texts ((logStart before).w.log.cur ++ pushed front)) ∧
        LooksOn (logAfter (logStart before) front) (printed (logStart before) front)
          (texts ((logStart before).w.log.cur ++ pushed front)) ∧
        ∃ n, printed (logStart before) (front ++ List.replicate n .look) =
          texts ((logStart before).w.log.cur ++ pushed front) := by
  have written : Written (logStart before).w := written_pushes before writerStart written_start
  have initial : Delivering (logStart before).w.log.lap (logStart before) [] := by
    refine ⟨[], _, [], [], placed_start written, rfl, Nat.le_refl _, ?_⟩
    rw [List.append_nil, List.drop_take, show (logStart before).r.lap = (logStart before).w.log.lap
      from rfl, Nat.sub_self]
    rfl
  constructor
  · obtain ⟨seen, rest, later, shown, placed, shows, delivered⟩ :=
      run_delivering _ _ events written initial near
    rw [shows, ← Log.since_lap, ← (since_run _ events _ (Nat.le_refl _)).2,
      delivered.prefix_since placed.stands, List.append_assoc, texts, texts, List.map_append]
    exact List.prefix_append _ _
  · intro front back split
    have so_far := run_delivering _ _ front written initial (fun front' back' split' =>
      near front' (back' ++ .look :: back) (by rw [split, split', List.append_assoc, List.cons_append]))
    have here := near front back split
    have held := written_after _ front written
    rw [← Log.since_lap, ← (since_run _ front _ (Nat.le_refl _)).2]
    refine ⟨?_, look_on _ _ _ held so_far here, ?_⟩
    · intro counter offset
      exact delivering_all _ _ _ held so_far here counter offset
    · obtain ⟨n, all⟩ := drained _ _ _ held so_far here
      exact ⟨n, by rw [printed, Runs.outputs_append]; exact all⟩

/-- `"a"` is there when the reader starts, `"b"` comes between its looks. -/
theorem printed_prefix_two :
    printed (logStart [⟨lit "a", by decide⟩]) [.look, .push ⟨lit "b", by decide⟩, .look] <+:
        texts ((logStart [⟨lit "a", by decide⟩]).w.log.cur ++
          pushed [.look, .push ⟨lit "b", by decide⟩, .look]) ∧
      ∀ front back, [.look, .push ⟨lit "b", by decide⟩, .look] = front ++ .look :: back →
        ((logAfter (logStart [⟨lit "a", by decide⟩]) front).r.i =
            (logAfter (logStart [⟨lit "a", by decide⟩]) front).w.stat.life →
          (logAfter (logStart [⟨lit "a", by decide⟩]) front).r.p =
            (logAfter (logStart [⟨lit "a", by decide⟩]) front).w.stat.p →
          printed (logStart [⟨lit "a", by decide⟩]) front =
            texts ((logStart [⟨lit "a", by decide⟩]).w.log.cur ++ pushed front)) ∧
        LooksOn (logAfter (logStart [⟨lit "a", by decide⟩]) front)
          (printed (logStart [⟨lit "a", by decide⟩]) front)
          (texts ((logStart [⟨lit "a", by decide⟩]).w.log.cur ++ pushed front)) ∧
        ∃ n, printed (logStart [⟨lit "a", by decide⟩]) (front ++ List.replicate n .look) =
          texts ((logStart [⟨lit "a", by decide⟩]).w.log.cur ++ pushed front) := by
  refine printed_prefix [⟨lit "a", by decide⟩] [.look, .push ⟨lit "b", by decide⟩, .look] ?_
  intro front back split
  rcases front with _ | ⟨first, _ | ⟨second, _ | ⟨third, front⟩⟩⟩
  · exact Or.inl rfl
  · simp at split
  · simp only [List.cons_append, List.nil_append, List.cons.injEq] at split
    obtain ⟨rfl, rfl, -⟩ := split
    exact Or.inl (by decide)
  · simp at split

end Bscope
