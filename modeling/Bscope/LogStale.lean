import Bscope.LogDelivery

set_option autoImplicit false

namespace Bscope

open Memory Laps

/-- The reader is two laps behind or more, and the tests of `show_log` neither see
it nor take it to be at the writer's offset. -/
def Misled (s : LogState) : Prop :=
  s.r.lap + 2 ≤ s.w.log.lap ∧ ¬ (s.r.i = s.w.stat.life ∧ s.r.p = s.w.stat.p) ∧
    ¬ (loadShort s.w.stat.data s.r.p > LOG_BUF_SIZE ∨
      s.r.i ≠ s.w.stat.life ∧ s.w.stat.p > s.r.p)

theorem showLog_wait (stat : Status) (i : Int) (p : Nat) (waits : showLog stat i p = .wait) :
    i = stat.life ∧ p = stat.p := by
  unfold showLog at waits
  split at waits
  · assumption
  · dsimp only at waits
    split at waits <;> cases waits

theorem showLog_restart (stat : Status) (i i' : Int) (p p' : Nat)
    (restarts : showLog stat i p = .restart i' p') : i' = stat.life ∧ p' = 0 := by
  unfold showLog at restarts
  split at restarts
  · split at restarts <;> cases restarts
  · dsimp only at restarts
    split at restarts
    · simpa using restarts.symm
    · cases restarts

theorem showLog_line (stat : Status) (i i' : Int) (p p' : Nat) (text : Bytes)
    (prints : showLog stat i p = .line text i' p') :
    ¬ (i = stat.life ∧ p = stat.p) ∧
      ¬ (loadShort stat.data p > LOG_BUF_SIZE ∨ i ≠ stat.life ∧ stat.p > p) := by
  unfold showLog at prints
  split at prints
  · split at prints <;> cases prints
  · rename_i apart
    dsimp only at prints
    split at prints
    · cases prints
    · rename_i unseen
      exact ⟨apart, unseen⟩

/-- A reader that is not misled prints the next record of its lap. -/
theorem line_next (s : LogState) (seen rest : List LogMsg) (later : List (List LogMsg)) (text : Bytes)
    (i : Int) (p : Nat) (written : Written s.w) (placed : Placed s.w s.r seen rest later)
    (prints : showLog s.w.stat s.r.i s.r.p = .line text i p) (seeing : ¬ Misled s) :
    ∃ m rest', rest = m :: rest' ∧ text = m.text.bytes ∧ i = s.r.i ∧
      p = s.r.p + (record m).length := by
  have laps := placed.stands.lap_eq
  have unseen := showLog_line _ _ _ _ _ _ prints
  rcases later with _ | ⟨cur, _ | ⟨next, later⟩⟩
  · cases rest with
    | nil =>
        rw [look_waits written placed] at prints
        cases prints
    | cons m rest =>
        rw [look_here written m placed] at prints
        simp only [LogStep.line.injEq] at prints
        exact ⟨m, rest, rfl, prints.1.symm, prints.2.1.symm, prints.2.2.symm⟩
  · have kept : s.w.stat.p ≤ s.r.p := by
      by_contra passed
      exact unseen.2 (Or.inr ⟨behind_counter written placed, by omega⟩)
    cases rest with
    | nil =>
        rw [look_turns written placed kept] at prints
        cases prints
    | cons m rest =>
        rw [look_behind written m placed kept] at prints
        simp only [LogStep.line.injEq] at prints
        exact ⟨m, rest, rfl, prints.1.symm, prints.2.1.symm, prints.2.2.symm⟩
  · refine absurd ⟨?_, unseen⟩ seeing
    simp only [List.length_cons] at laps
    omega

/-- The reader stands at a record of its lap, and every line it printed was pushed. -/
def Honest (s : LogState) (lines : List Bytes) : Prop :=
  (∃ seen rest later, Placed s.w s.r seen rest later) ∧ ∀ line ∈ lines, line ∈ texts (s.w.log.since 0)

theorem push_honest (s : LogState) (lines : List Bytes) (m : LogMsg) (honest : Honest s lines) :
    Honest { s with w := s.w.push m } lines := by
  obtain ⟨⟨seen, rest, later, placed⟩, shown⟩ := honest
  obtain ⟨rest', later', stands⟩ := push_stands s.w m s.r.lap seen rest later placed.stands
  refine ⟨⟨seen, rest', later', stands, placed.offset, placed.counter⟩, ?_⟩
  intro line member
  rw [since_writer_push s.w m 0 (Nat.zero_le _), texts, List.map_append]
  exact List.mem_append_left _ (shown line member)

theorem look_honest (s : LogState) (lines : List Bytes) (written : Written s.w)
    (honest : Honest s lines) (seeing : ¬ Misled s) :
    Honest (logStep s .look).1 (lines ++ (logStep s .look).2.toList) := by
  obtain ⟨⟨seen, rest, later, placed⟩, shown⟩ := honest
  unfold logStep
  cases result : showLog s.w.stat s.r.i s.r.p with
  | wait =>
      obtain ⟨counter, offset⟩ := showLog_wait _ _ _ result
      refine ⟨⟨s.w.log.cur, [], [], ?_, ?_, ?_⟩, by simpa using shown⟩
      · exact ⟨s.w.log.done, by simp [Log.laps], rfl⟩
      · rw [← written.offset]
        exact offset
      · rw [← written.life]
        exact counter
  | shutdown => exact ⟨⟨seen, rest, later, placed⟩, by simpa using shown⟩
  | restart i p =>
      obtain ⟨rfl, rfl⟩ := showLog_restart _ _ _ _ _ result
      exact ⟨⟨[], s.w.log.cur, [], placed_start written⟩, by simpa using shown⟩
  | line text i p =>
      obtain ⟨m, rest, rfl, rfl, rfl, rfl⟩ :=
        line_next s seen rest later text i p written placed result seeing
      refine ⟨⟨seen ++ [m], rest, later, placed.next⟩, ?_⟩
      intro line member
      simp only [Option.toList_some, List.mem_append, List.mem_singleton] at member
      rcases member with old | rfl
      · exact shown line old
      · obtain ⟨old, whole, -⟩ := placed.stands
        refine List.mem_map.mpr ⟨m, ?_, rfl⟩
        simp [Log.since, whole]

theorem run_honest (s : LogState) (events : List LogEvent) (written : Written s.w)
    (initial : Honest s [])
    (seeing : ∀ front back, events = front ++ .look :: back → ¬ Misled (logAfter s front)) :
    Honest (logAfter s events) (printed s events) := by
  induction events using List.reverseRecOn with
  | nil => exact initial
  | append_singleton events event ih =>
      have so_far := ih (fun front back split =>
        seeing front (back ++ [event]) (by rw [split, List.append_assoc, List.cons_append]))
      unfold logAfter printed
      rw [Runs.after_snoc, Runs.outputs_snoc]
      cases event with
      | push m => simpa [logStep] using push_honest _ _ m so_far
      | look =>
          exact look_honest _ _ (written_after s events written) so_far (seeing events [] rfl)

theorem since_pushes (before : List LogMsg) (w : Writer) :
    (before.foldl Writer.push w).log.since 0 = w.log.since 0 ++ before := by
  induction before generalizing w with
  | nil => simp
  | cons m before ih =>
      rw [List.foldl_cons, ih, since_writer_push w m 0 (Nat.zero_le _), List.append_assoc]
      rfl

/-- A reader that is never misled prints nothing but messages that were pushed. -/
theorem printed_pushed (before : List LogMsg) (events : List LogEvent)
    (seeing : ∀ front back, events = front ++ .look :: back →
      ¬ Misled (logAfter (logStart before) front)) :
    ∀ line ∈ printed (logStart before) events, ∃ m ∈ before ++ pushed events, line = m.text.bytes := by
  have written : Written (logStart before).w := written_pushes before writerStart written_start
  have initial : Honest (logStart before) [] := ⟨⟨[], _, [], placed_start written⟩, nofun⟩
  obtain ⟨-, shown⟩ := run_honest _ events written initial seeing
  intro line member
  have found := shown line member
  rw [(since_run _ events 0 (Nat.zero_le _)).2, texts, List.mem_map] at found
  obtain ⟨m, inside, rfl⟩ := found
  refine ⟨m, ?_, rfl⟩
  have all : (logStart before).w.log.since 0 = before := since_pushes before writerStart
  rwa [all] at inside

theorem printed_pushed_two :
    (printed (logStart [⟨lit "a", by decide⟩])
        [.look, .push ⟨lit "b", by decide⟩, .look]).length = 2 ∧
      ∀ line ∈ printed (logStart [⟨lit "a", by decide⟩])
          [.look, .push ⟨lit "b", by decide⟩, .look],
        ∃ m ∈ [⟨lit "a", by decide⟩] ++ pushed [.look, .push ⟨lit "b", by decide⟩, .look],
          line = m.text.bytes := by
  refine ⟨by decide,
    printed_pushed [⟨lit "a", by decide⟩] [.look, .push ⟨lit "b", by decide⟩, .look] ?_⟩
  intro front back split
  rcases front with _ | ⟨first, _ | ⟨second, _ | ⟨third, front⟩⟩⟩
  · exact fun misled => absurd misled.1 (by decide)
  · simp at split
  · simp only [List.cons_append, List.nil_append, List.cons.injEq] at split
    obtain ⟨rfl, rfl, -⟩ := split
    exact fun misled => absurd misled.1 (by decide)
  · simp at split

section Stale

/-- A message of `n` letters. -/
def letters (n : Nat) (fits : n < LOG_BUF_SIZE) : LogMsg where
  text := ⟨List.replicate n 97, by simp⟩
  fits := by simpa [CStr.strlen] using fits

@[irreducible] def longMsg : LogMsg := letters 8191 (by decide)

@[irreducible] def midMsg : LogMsg := letters 5000 (by decide)

@[irreducible] def shortMsg : LogMsg := letters 3190 (by decide)

def fillers : List LogMsg := List.replicate 1021 longMsg

/-- The rest of the reader's lap, a lap with other boundaries, and the first record
of the lap after that. -/
def staleMsgs : List LogMsg := fillers ++ [midMsg, shortMsg] ++ fillers ++ [longMsg]

/-- The reader prints one line, and looks again when all of that was pushed. -/
def staleRun : List LogEvent := [.push longMsg, .look] ++ staleMsgs.map .push ++ [.look]

theorem letters_strlen (n : Nat) (fits : n < LOG_BUF_SIZE) : (letters n fits).text.strlen = n :=
  List.length_replicate

theorem record_letters_end (n : Nat) (fits : n + 1 < LOG_BUF_SIZE) :
    record (letters (n + 1) fits) = shortBytes (n + 2) ++ List.replicate n 97 ++ [97, 0] := by
  rw [record, letters_strlen]
  simp [letters, List.replicate_succ']

theorem record_longMsg : (record longMsg).length = 8194 := by
  rw [record_length, longMsg, letters_strlen]

theorem record_midMsg : (record midMsg).length = 5003 := by
  rw [record_length, midMsg, letters_strlen]

theorem record_shortMsg : (record shortMsg).length = 3193 := by
  rw [record_length, shortMsg, letters_strlen]

theorem records_fillers : (records fillers).length = 8366074 := by
  have repeated : ∀ k, (records (List.replicate k longMsg)).length = k * 8194 := by
    intro k
    induction k with
    | zero => simp
    | succ k ih =>
        rw [List.replicate_succ, records_cons, List.length_append, ih, record_longMsg]
        omega
  exact repeated 1021

theorem log_space : SHMEM_SIZE - DATA_OFFSET = 8378994 := rfl

/-- Pushes that fit the space left stay in the writer's lap. -/
theorem pushes_stay (ms : List LogMsg) (w : Writer) (written : Written w)
    (fits : (records w.log.cur).length + (records ms).length + 2 ≤ SHMEM_SIZE - DATA_OFFSET) :
    (ms.foldl Writer.push w).log = ⟨w.log.done, w.log.cur ++ ms⟩ := by
  induction ms generalizing w with
  | nil => simp
  | cons m ms ih =>
      have offset := written.offset
      rw [records_cons, List.length_append, record_length] at fits
      have stays : ¬ Wraps w.stat m := by
        unfold Wraps
        omega
      have logged : (w.push m).log = w.log.push m := if_neg stays
      have rest := ih (w.push m) (push_written w m written) (by
        rw [logged, Log.push, records_append, List.length_append, records_cons, records_nil,
          List.append_nil, record_length]
        omega)
      rw [List.foldl_cons, rest, logged]
      simp [Log.push]

/-- A push that does not fit begins a lap, and the next ones go on in it. -/
theorem pushes_turn (m : LogMsg) (ms : List LogMsg) (w : Writer) (written : Written w)
    (full : (records w.log.cur).length + (record m).length + 2 > SHMEM_SIZE - DATA_OFFSET)
    (fits : (record m).length + (records ms).length + 2 ≤ SHMEM_SIZE - DATA_OFFSET) :
    ((m :: ms).foldl Writer.push w).log = ⟨w.log.done ++ [w.log.cur], m :: ms⟩ := by
  have offset := written.offset
  rw [record_length] at full
  have wraps : Wraps w.stat m := by
    unfold Wraps
    omega
  have logged : (w.push m).log = w.log.pushLap m := if_pos wraps
  have rest := pushes_stay ms (w.push m) (push_written w m written) (by
    rw [logged, Log.pushLap, records_cons, records_nil, List.append_nil]
    exact fits)
  rw [List.foldl_cons, rest, logged]
  rfl

theorem stale_lap0_length : (records (longMsg :: fillers)).length = 8374268 := by
  rw [records_cons, List.length_append, records_fillers, record_longMsg]

theorem stale_lap1_length : (records (midMsg :: shortMsg :: fillers)).length = 8374270 := by
  rw [records_cons, records_cons, List.length_append, List.length_append, records_fillers,
    record_shortMsg, record_midMsg]

theorem stale_lap0 :
    ((longMsg :: fillers).foldl Writer.push writerStart).log = ⟨[], longMsg :: fillers⟩ :=
  pushes_stay (longMsg :: fillers) writerStart written_start (by
    have size := stale_lap0_length
    have space := log_space
    rw [show writerStart.log.cur = [] from rfl, records_nil, List.length_nil]
    omega)

theorem stale_lap1 (w : Writer) (written : Written w) (laps : w.log = ⟨[], longMsg :: fillers⟩) :
    ((midMsg :: shortMsg :: fillers).foldl Writer.push w).log =
      ⟨[longMsg :: fillers], midMsg :: shortMsg :: fillers⟩ := by
  have turned := pushes_turn midMsg (shortMsg :: fillers) w written
    (by
      have size := stale_lap0_length
      have next := record_midMsg
      have space := log_space
      simp only [laps]
      omega)
    (by
      have size := stale_lap1_length
      have space := log_space
      rw [records_cons, List.length_append] at size
      omega)
  rw [turned, laps]
  rfl

theorem stale_lap2 (w : Writer) (written : Written w)
    (laps : w.log = ⟨[longMsg :: fillers], midMsg :: shortMsg :: fillers⟩) :
    ([longMsg].foldl Writer.push w).log =
      ⟨[longMsg :: fillers, midMsg :: shortMsg :: fillers], [longMsg]⟩ := by
  have turned := pushes_turn longMsg [] w written
    (by
      have size := stale_lap1_length
      have next := record_longMsg
      have space := log_space
      simp only [laps]
      omega)
    (by
      have next := record_longMsg
      have space := log_space
      rw [records_nil, List.length_nil]
      omega)
  rw [turned, laps]
  rfl

theorem stale_laps :
    ((longMsg :: staleMsgs).foldl Writer.push writerStart).log =
      ⟨[longMsg :: fillers, midMsg :: shortMsg :: fillers], [longMsg]⟩ := by
  have split : longMsg :: staleMsgs =
      (longMsg :: fillers) ++ ((midMsg :: shortMsg :: fillers) ++ [longMsg]) := by simp [staleMsgs]
  have written0 := written_pushes (longMsg :: fillers) writerStart written_start
  have written1 := written_pushes (midMsg :: shortMsg :: fillers) _ written0
  rw [split, List.foldl_append, List.foldl_append]
  exact stale_lap2 _ written1 (stale_lap1 _ written0 stale_lap0)

/-- The bytes at the reader's offset: the last letter of a record and its NUL, then
the length of the next record, whose low byte is zero. -/
theorem stale_bytes (w : Writer) (written : Written w)
    (laps : w.log = ⟨[longMsg :: fillers, midMsg :: shortMsg :: fillers], [longMsg]⟩) :
    w.stat.p = 8194 ∧ Holds w.stat.data 8194 [97, 0, 0] := by
  have offset : w.stat.p = 8194 := by
    rw [written.offset, laps, records_cons, records_nil, List.append_nil, record_longMsg]
  obtain ⟨held, -⟩ := written.before (midMsg :: shortMsg :: fillers) (by rw [laps]; rfl)
  obtain ⟨more, next⟩ : ∃ more, records fillers ++ endMarker = 0 :: more := by
    rw [fillers, List.replicate_succ, records_cons, record, longMsg, letters_strlen]
    exact ⟨_, rfl⟩
  have lap : records (midMsg :: shortMsg :: fillers) ++ endMarker =
      (record midMsg ++ (shortBytes 3191 ++ List.replicate 3189 97)) ++ ([97, 0, 0] ++ more) := by
    rw [records_cons, records_cons, List.append_assoc, List.append_assoc, next, shortMsg,
      record_letters_end 3189]
    simp only [List.append_assoc, List.cons_append, List.nil_append]
  have size : (record midMsg ++ (shortBytes 3191 ++ List.replicate 3189 97)).length = 8194 := by
    rw [List.length_append, List.length_append, record_midMsg, List.length_replicate]
    rfl
  rw [offset, lap, List.drop_left' size, holds_append] at held
  exact ⟨offset, held.1⟩

theorem stale_reads (w : Writer) (written : Written w)
    (laps : w.log = ⟨[longMsg :: fillers, midMsg :: shortMsg :: fillers], [longMsg]⟩) :
    showLog w.stat 0 8194 = .line [] 0 8293 := by
  obtain ⟨offset, held⟩ := stale_bytes w written laps
  have first : w.stat.data 8194 = 97 := held 0 (by decide)
  have second : w.stat.data 8195 = 0 := held 1 (by decide)
  have third : w.stat.data 8196 = 0 := held 2 (by decide)
  have counter : w.stat.life = 2 := by
    rw [written.life, laps]
    rfl
  have size : loadShort w.stat.data 8194 = 97 := by
    rw [loadShort, first, second]
    rfl
  have text : ∀ fuel, loadString w.stat.data fuel (8194 + 2) = [] := by
    intro fuel
    cases fuel with
    | zero => rfl
    | succ fuel => exact if_pos third
  unfold showLog
  rw [counter, offset, if_neg (by decide)]
  simp only [size, text]
  rw [if_neg (by decide)]

/-- The first of the two looks prints the message, as it should. -/
theorem stale_first :
    logAfter (logStart []) [.push longMsg, .look] = ⟨writerStart.push longMsg, 0, 8194, 0⟩ := by
  have written := push_written writerStart longMsg written_start
  have logged : (writerStart.push longMsg).log = ⟨[], [longMsg]⟩ :=
    pushes_stay [longMsg] writerStart written_start (by
      rw [log_space, records_cons, records_nil, List.append_nil, record_longMsg]
      decide)
  have placed : Placed (writerStart.push longMsg) ⟨0, 0, 0⟩ [] [longMsg] [] :=
    ⟨⟨[], by rw [Log.laps, logged]; rfl, rfl⟩, rfl, rfl⟩
  have prints := look_here written longMsg placed
  change (logStep ⟨writerStart.push longMsg, 0, 0, 0⟩ .look).1 = _
  rw [logStep, prints, record_longMsg]

theorem after_pushes (s : LogState) (ms : List LogMsg) :
    logAfter s (ms.map .push) = ⟨ms.foldl Writer.push s.w, s.r⟩ := by
  induction ms generalizing s with
  | nil => rfl
  | cons m ms ih => exact ih ⟨s.w.push m, s.r⟩

theorem staleRun_letters (m : LogMsg) (member : m ∈ pushed staleRun) : m.text.bytes ≠ [] := by
  have kinds : m = longMsg ∨ m = midMsg ∨ m = shortMsg := by
    rw [pushed, List.mem_filterMap] at member
    obtain ⟨event, inside, found⟩ := member
    simp only [staleRun, staleMsgs, fillers, List.mem_append, List.mem_map, List.mem_replicate,
      List.mem_cons, List.not_mem_nil, or_false] at inside
    cases event with
    | look => cases found
    | push m' =>
        obtain rfl := Option.some.inj found
        simp only [LogEvent.push.injEq, reduceCtorEq, exists_eq_right] at inside
        tauto
  have letters_ne_nil : ∀ n fits, (letters (n + 1) fits).text.bytes ≠ [] :=
    fun n fits => List.cons_ne_nil _ _
  rcases kinds with rfl | rfl | rfl
  · rw [longMsg]
    exact letters_ne_nil 8190 _
  · rw [midMsg]
    exact letters_ne_nil 4999 _
  · rw [shortMsg]
    exact letters_ne_nil 3189 _

theorem stale_state :
    logAfter (logStart []) ([.push longMsg, .look] ++ staleMsgs.map .push) =
      ⟨(longMsg :: staleMsgs).foldl Writer.push writerStart, 0, 8194, 0⟩ := by
  have split := Runs.after_append logStep (logStart []) [.push longMsg, .look] (staleMsgs.map .push)
  have first : Runs.after logStep (logStart []) [.push longMsg, .look] = _ := stale_first
  rw [first] at split
  rw [List.foldl_cons]
  exact split.trans (after_pushes ⟨writerStart.push longMsg, 0, 8194, 0⟩ staleMsgs)

/-- The look that follows prints what stands behind the stale record. -/
theorem stale_look (w : Writer) (written : Written w)
    (laps : w.log = ⟨[longMsg :: fillers, midMsg :: shortMsg :: fillers], [longMsg]⟩) :
    (logStep ⟨w, 0, 8194, 0⟩ .look).2 = some [] := by
  have reads := stale_reads w written laps
  rw [logStep, reads]

theorem stale_printed : printed (logStart []) staleRun =
    printed (logStart []) ([.push longMsg, .look] ++ staleMsgs.map .push) ++ [[]] := by
  have written := written_pushes (longMsg :: staleMsgs) writerStart written_start
  have line := stale_look ((longMsg :: staleMsgs).foldl Writer.push writerStart) written stale_laps
  have lines := Runs.outputs_snoc logStep (logStart [])
    ([.push longMsg, .look] ++ staleMsgs.map .push) .look
  have state : Runs.after logStep (logStart []) _ = _ := stale_state
  rw [state, line] at lines
  exact lines

/-- A line that nobody pushed: the writer is two laps ahead, and no test tells. -/
theorem stale_line :
    ∃ line ∈ printed (logStart []) staleRun, ∀ m ∈ pushed staleRun, line ≠ m.text.bytes := by
  have shown : [] ∈ printed (logStart []) staleRun := by
    rw [stale_printed, List.mem_append]
    exact Or.inr (List.mem_singleton.mpr rfl)
  refine ⟨[], shown, ?_⟩
  intro m member same
  exact staleRun_letters m member same.symm

end Stale

end Bscope
