import Bscope.Laps
import Bscope.Status

set_option autoImplicit false

namespace Bscope

open Memory Laps

/-- A message the writer accepts: it fits the buffer the log line is printed to. -/
structure LogMsg where
  text : CStr
  fits : text.strlen < LOG_BUF_SIZE

/-- The record a push writes: the length with its NUL, the text, the NUL. -/
def record (m : LogMsg) : Bytes := shortBytes (m.text.strlen + 1) ++ (m.text.bytes ++ [0])

def records (ms : List LogMsg) : Bytes := ms.flatMap record

/-- The length that no record has. -/
def endMarker : Bytes := shortBytes 65535

@[simp] theorem record_length (m : LogMsg) : (record m).length = m.text.strlen + 3 := by
  simp only [record, shortBytes, CStr.strlen, List.length_append, List.length_cons, List.length_nil]
  omega

@[simp] theorem endMarker_length : endMarker.length = 2 := rfl

@[simp] theorem records_nil : records [] = [] := rfl

@[simp] theorem records_append (first second : List LogMsg) :
    records (first ++ second) = records first ++ records second := List.flatMap_append

@[simp] theorem records_cons (m : LogMsg) (ms : List LogMsg) :
    records (m :: ms) = record m ++ records ms := rfl

/-- The segment together with the laps its writer has made. -/
structure Writer where
  stat : Status
  log : Log LogMsg

/-- The test `status_logpush` wraps on. -/
def Wraps (stat : Status) (m : LogMsg) : Prop :=
  m.text.strlen + stat.p + 4 ≥ SHMEM_SIZE - DATA_OFFSET

instance (stat : Status) (m : LogMsg) : Decidable (Wraps stat m) :=
  inferInstanceAs (Decidable (_ ≥ _))

def Writer.push (w : Writer) (m : LogMsg) : Writer where
  stat := statusLogpush w.stat (m.text.bytes ++ [0]) m.text.strlen
  log := if Wraps w.stat m then w.log.pushLap m else w.log.push m

def writerStart : Writer := ⟨statusInit, ⟨[], []⟩⟩

/-- The segment holds the lap being written, and of the lap before it everything
from the write offset on, with the marker behind its last record. -/
structure Written (w : Writer) : Prop where
  offset : w.stat.p = (records w.log.cur).length
  life : w.stat.life = toChar w.log.lap
  alive : w.stat.alive = true
  inside : w.stat.p + 2 ≤ SHMEM_SIZE - DATA_OFFSET
  here : Holds w.stat.data 0 (records w.log.cur)
  before : ∀ old, w.log.done.getLast? = some old →
    Holds w.stat.data w.stat.p ((records old ++ endMarker).drop w.stat.p) ∧
      (records old).length + 2 ≤ SHMEM_SIZE - DATA_OFFSET

theorem toChar_bounds (v : Int) : -128 ≤ toChar v ∧ toChar v < 128 :=
  ⟨Int.le_bmod (by decide), Int.bmod_lt (by decide)⟩

/-- The modulus 255 of the counter never bites: the signed char wraps first. -/
theorem toChar_next (lap : Nat) : toChar ((toChar lap + 1).tmod 255) = toChar ((lap + 1 : Nat)) := by
  have bounds := toChar_bounds lap
  have small : (toChar lap + 1).tmod 255 = toChar lap + 1 := by
    rcases Int.le_total 0 (toChar lap + 1) with up | down
    · exact Int.tmod_eq_of_lt up (by omega)
    · rw [← Int.neg_neg (toChar lap + 1), Int.neg_tmod, Int.tmod_eq_of_lt (by omega) (by omega)]
  rw [small]
  exact Int.bmod_add_bmod

theorem toChar_succ_ne (lap : Nat) : toChar ((lap + 1 : Nat)) ≠ toChar lap := by
  intro same
  have cancel := (Int.bmod_add_cancel_left (n := 256) (x := 1) (y := 0) lap).mp (by
    simpa [toChar] using same)
  simp at cancel

theorem pushData_eq (stat : Status) (base : Nat) (m : LogMsg) :
    pushData stat base (m.text.bytes ++ [0]) ((m.text.strlen + 1) % 65536) =
      { stat with data := storeBytes stat.data base (record m), p := stat.p + (record m).length } := by
  have fits := m.fits
  unfold LOG_BUF_SIZE at fits
  have whole : (m.text.bytes ++ [0]).take (m.text.strlen + 1) = m.text.bytes ++ [0] :=
    List.take_of_length_le (by simp [CStr.strlen])
  rw [Nat.mod_eq_of_lt (by omega), pushData, whole, record_length]
  congr 1
  exact storeBytes_append stat.data base (shortBytes (m.text.strlen + 1)) _

/-- A block written over the bytes below `base'` leaves what stood above them. -/
theorem holds_above (m : Mem) (base base' : Nat) (bs new : List UInt8)
    (held : Holds m base (bs.drop base)) (above : base ≤ base') (lo : Nat)
    (apart : lo + new.length ≤ base') :
    Holds (storeBytes m lo new) base' (bs.drop base') :=
  (held.later base' above).store lo new (Or.inr apart)

theorem push_stays (w : Writer) (m : LogMsg) (written : Written w) (fits : ¬ Wraps w.stat m) :
    Written (w.push m) := by
  obtain ⟨offset, life, alive, inside, here, before⟩ := written
  have room : ¬ m.text.strlen + w.stat.p + 4 ≥ SHMEM_SIZE - DATA_OFFSET := fits
  have stepped : (w.push m).stat = { w.stat with
      data := storeBytes w.stat.data w.stat.p (record m)
      p := w.stat.p + (record m).length } := by
    rw [Writer.push, statusLogpush, if_neg room, pushData_eq]
  have logged : (w.push m).log = w.log.push m := if_neg fits
  refine ⟨?_, ?_, ?_, ?_, ?_, ?_⟩
  · rw [stepped, logged, Log.push, records_append, List.length_append, ← offset]
    simp
  · rw [stepped, logged]
    exact life
  · rw [stepped]
    exact alive
  · rw [stepped, record_length]
    dsimp only
    omega
  · rw [stepped, logged, Log.push, records_append, holds_append, Nat.zero_add, ← offset]
    refine ⟨here.store _ _ (Or.inl (by rw [← offset]; omega)), ?_⟩
    simpa using storeBytes_holds w.stat.data w.stat.p (record m)
  · intro old previous
    rw [logged] at previous
    obtain ⟨intact, size⟩ := before old previous
    rw [stepped]
    exact ⟨holds_above _ _ _ _ _ intact (Nat.le_add_right _ _) _ (Nat.le_refl _), size⟩

theorem push_wraps (w : Writer) (m : LogMsg) (written : Written w) (full : Wraps w.stat m) :
    Written (w.push m) := by
  obtain ⟨offset, life, alive, inside, here, before⟩ := written
  have room : m.text.strlen + w.stat.p + 4 ≥ SHMEM_SIZE - DATA_OFFSET := full
  have small := m.fits
  have stepped : (w.push m).stat = { w.stat with
      data := storeBytes (storeBytes w.stat.data w.stat.p endMarker) 0 (record m)
      p := (record m).length
      life := toChar ((w.stat.life + 1).tmod 255) } := by
    rw [Writer.push, statusLogpush, if_pos room, pushData_eq, Nat.zero_add]
    rfl
  have logged : (w.push m).log = w.log.pushLap m := if_pos full
  refine ⟨?_, ?_, ?_, ?_, ?_, ?_⟩
  · rw [stepped, logged]
    simp [Log.pushLap]
  · rw [stepped, logged]
    dsimp only
    rw [life, toChar_next]
    congr 2
    simp [Log.lap, Log.pushLap]
  · rw [stepped]
    exact alive
  · rw [stepped, record_length]
    unfold LOG_BUF_SIZE at small
    unfold SHMEM_SIZE DATA_OFFSET RPS_N
    dsimp only
    omega
  · rw [stepped, logged]
    simpa [Log.pushLap] using storeBytes_holds _ 0 (record m)
  · intro old previous
    rw [logged] at previous
    obtain rfl : w.log.cur = old := by simpa [Log.pushLap] using previous
    have whole : Holds (storeBytes w.stat.data w.stat.p endMarker) 0
        ((records w.log.cur ++ endMarker).drop 0) := by
      rw [List.drop_zero, holds_append, Nat.zero_add, ← offset]
      exact ⟨here.store _ _ (Or.inl (by rw [← offset]; omega)), storeBytes_holds _ _ _⟩
    rw [stepped]
    refine ⟨holds_above _ _ _ _ _ whole (Nat.zero_le _) 0 (by simp), ?_⟩
    rw [← offset]
    exact inside

theorem written_start : Written writerStart := by
  refine ⟨rfl, by decide, rfl, ?_, ?_, ?_⟩
  · simp only [writerStart, statusInit, SHMEM_SIZE, DATA_OFFSET, RPS_N]
    omega
  · intro i impossible
    simp [writerStart] at impossible
  · intro old previous
    simp [writerStart] at previous

/-- Every push keeps the segment as the laps describe it. -/
theorem push_written (w : Writer) (m : LogMsg) (written : Written w) : Written (w.push m) := by
  by_cases full : Wraps w.stat m
  · exact push_wraps w m written full
  · exact push_stays w m written full

theorem push_stands (w : Writer) (m : LogMsg) (lap : Nat) (seen rest : List LogMsg)
    (later : List (List LogMsg)) (stands : w.log.Stands lap seen rest later) :
    ∃ rest' later', (w.push m).log.Stands lap seen rest' later' := by
  unfold Writer.push
  by_cases full : Wraps w.stat m
  · simp only [full, ↓reduceIte]
    exact ⟨rest, _, stands.pushLap m⟩
  · simp only [full, ↓reduceIte]
    exact stands.push m

end Bscope
