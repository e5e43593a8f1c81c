import Bscope.Filings

set_option autoImplicit false

namespace Bscope

/-- The longest name that fits `join_buff` behind its prefix. -/
def keyRoom (type : KvType) : Nat := JOIN_BUFF_SIZE - 1 - (kvPrefix type).strlen

/-- The property name of an entry stays inside `join_buff`. -/
def Kv.Fits (kv : Kv) : Prop := (joinBuff (kvPrefix kv.type) kv.key).length ≤ JOIN_BUFF_SIZE

instance (kv : Kv) : Decidable kv.Fits := inferInstanceAs (Decidable (_ ≤ _))

theorem joinBuff_length (left right : CStr) :
    (joinBuff left right).length = left.strlen + min JOIN_BUFF_SIZE right.strlen + 1 := by
  simp [joinBuff, CStr.strlen, Nat.add_assoc]

/-- `strncat` bounds what it appends, not what the buffer holds then. -/
theorem fits_iff (kv : Kv) : kv.Fits ↔ kv.key.strlen ≤ keyRoom kv.type := by
  have prefixed : (kvPrefix kv.type).strlen ≤ 7 ∧ 0 < (kvPrefix kv.type).strlen := by
    cases kv.type <;> decide
  rw [Kv.Fits, joinBuff_length, keyRoom, JOIN_BUFF_SIZE]
  omega

/-- Every property name of every report fits the buffer exactly when every name
captured before a report is short enough for its prefix. -/
theorem names_fit (ctx : Context) (stat : Status) (run : List (Moment × Event))
    (type : CloseType) (now : Moment) :
    (∀ f ∈ filings ctx (connStart stat) run type now, ∀ kv ∈ f.s.proplist, kv.Fits) ↔
      ∀ front e back, run = front ++ e :: back →
        filings ctx (after ctx (connStart stat) (front ++ [e])) back type now ≠ [] →
        ∀ kv ∈ captures ctx.cfg (after ctx (connStart stat) front).s e.2,
          kv.key.strlen ≤ keyRoom kv.type := by
  constructor
  · intro fit front e back split later kv found
    have room := room_after ctx (connStart stat) front (room_start stat)
    have quiet := captures_quiet ctx (after ctx (connStart stat) front) e kv found
    have entered : kv ∈ (after ctx (connStart stat) (front ++ [e])).s.proplist := by
      unfold after
      rw [Runs.after_snoc, step_proplist ctx _ e.1 e.2 room quiet]
      exact List.mem_append_left _ found
    obtain ⟨f, filed, member⟩ := entry_filed ctx _ back type now
      (room_after ctx (connStart stat) (front ++ [e]) (room_start stat)) later kv entered
    refine (fits_iff kv).mp (fit f ?_ kv member)
    rw [split]
    exact filings_later ctx (connStart stat) front e back type now f filed
  · intro short f filed kv member
    rcases filed_captured ctx (connStart stat) run type now (room_start stat) f filed kv member with
      inside | ⟨front, e, back, split, found, later⟩
    · cases inside
    · exact (fits_iff kv).mpr (short front e back split (List.ne_nil_of_mem later) kv found)

/-- A request header whose name is one byte too long. -/
def longNameRun : List (Moment × Event) :=
  ([.requestBegin, .requestHeaderField (List.replicate 124 97), .requestHeaderValue (asc "v")] :
    List Event).map (default, ·)

theorem long_name_overflows :
    ¬ ∀ f ∈ filings localContext (connStart statusInit) longNameRun .close default,
      ∀ kv ∈ f.s.proplist, kv.Fits := by
  decide +kernel

end Bscope
