import Bscope.Runs
import Bscope.Status

set_option autoImplicit false

/- Every byte that the log writer stores. -/
namespace Bscope

open Memory

/-- What `push_data` writes: the length, and the copy behind it. -/
def pushDataStores (base : Nat) (data : Bytes) (size : Nat) : List Store :=
  [⟨base, shortBytes size⟩, ⟨base + 2, data.take size⟩]

/-- What `status_logpush` writes, the marker of a wrap first. -/
def statusLogpushStores (stat : Status) (msg : Bytes) (size : Nat) : List Store :=
  if size + stat.p + 4 ≥ SHMEM_SIZE - DATA_OFFSET then
    ⟨stat.p, shortBytes 65535⟩ :: pushDataStores 0 msg ((size + 1) % 65536)
  else pushDataStores stat.p msg ((size + 1) % 65536)

/-- The arguments of a call: a buffer that has a byte, its NUL, behind the given size. -/
structure PushCall where
  msg : Bytes
  size : Nat
  small : size ≤ LOG_BUF_SIZE - 1
  closed : size < msg.length

/-- One call, answered with its stores. -/
def pushStep (stat : Status) (call : PushCall) : Status × Option (List Store) :=
  (statusLogpush stat call.msg call.size, some (statusLogpushStores stat call.msg call.size))

abbrev pushAfter : Status → List PushCall → Status := Runs.after pushStep

/-- The stores of a run of calls, in order. -/
def pushStores (stat : Status) (calls : List PushCall) : List Store :=
  (Runs.outputs pushStep stat calls).flatten

/-- The data area changes by these stores and no others. -/
theorem statusLogpush_replay (stat : Status) (msg : Bytes) (size : Nat) :
    (statusLogpush stat msg size).data = replay stat.data (statusLogpushStores stat msg size) := by
  unfold statusLogpush statusLogpushStores
  split <;> rfl

theorem pushAfter_replay (stat : Status) (calls : List PushCall) :
    (pushAfter stat calls).data = replay stat.data (pushStores stat calls) := by
  induction calls using List.reverseRecOn with
  | nil => rfl
  | append_singleton calls call ih =>
      unfold pushAfter pushStores at ih ⊢
      rw [Runs.after_snoc, Runs.outputs_snoc, List.flatten_append, replay_append, ← ih]
      simpa [pushStep] using statusLogpush_replay _ call.msg call.size

section Step

variable (stat : Status) (call : PushCall)

/-- The length that is stored counts the NUL, and does not wrap. -/
theorem call_size : (call.size + 1) % 65536 = call.size + 1 ∧
    (call.msg.take (call.size + 1)).length = call.size + 1 := by
  have small := call.small
  have closed := call.closed
  unfold LOG_BUF_SIZE at small
  constructor
  · apply Nat.mod_eq_of_lt
    omega
  · rw [List.length_take]
    omega

theorem pushDataStores_inside (base : Nat)
    (fits : base + call.size + 3 ≤ SHMEM_SIZE - DATA_OFFSET) :
    ∀ store ∈ pushDataStores base call.msg ((call.size + 1) % 65536),
      store.Inside (SHMEM_SIZE - DATA_OFFSET) := by
  obtain ⟨size, copied⟩ := call_size call
  rw [size]
  intro store member
  apply store_inside
  rcases List.mem_pair.mp member with rfl | rfl
  · change base + 2 ≤ _
    omega
  · change base + 2 + (call.msg.take (call.size + 1)).length ≤ _
    rw [copied]
    omega

/-- Two bytes are kept free behind the offset: those of the next marker. -/
theorem pushStep_inside (reserved : stat.p + 2 ≤ SHMEM_SIZE - DATA_OFFSET) :
    (∀ store ∈ statusLogpushStores stat call.msg call.size,
        store.Inside (SHMEM_SIZE - DATA_OFFSET)) ∧
      (pushStep stat call).1.p + 2 ≤ SHMEM_SIZE - DATA_OFFSET := by
  have small := call.small
  have size := (call_size call).1
  change _ ∧ (statusLogpush stat call.msg call.size).p + 2 ≤ _
  unfold statusLogpushStores statusLogpush
  split
  · rename_i full
    have room : 0 + call.size + 5 ≤ SHMEM_SIZE - DATA_OFFSET := by
      unfold LOG_BUF_SIZE at small
      unfold SHMEM_SIZE DATA_OFFSET RPS_N
      omega
    constructor
    · intro store member
      rcases List.mem_cons.mp member with rfl | pushed
      · apply store_inside
        exact reserved
      · exact pushDataStores_inside call 0 (by omega) store pushed
    · rw [size]
      change 0 + (call.size + 1) + 2 + 2 ≤ _
      omega
  · rename_i fits
    constructor
    · exact pushDataStores_inside call stat.p (by omega)
    · rw [size]
      change stat.p + (call.size + 1) + 2 + 2 ≤ _
      omega

end Step

theorem pushAfter_reserved (calls : List PushCall) :
    (pushAfter statusInit calls).p + 2 ≤ SHMEM_SIZE - DATA_OFFSET := by
  apply Runs.after_induction pushStep (fun stat => stat.p + 2 ≤ SHMEM_SIZE - DATA_OFFSET)
  · change 0 + 2 ≤ _
    unfold SHMEM_SIZE DATA_OFFSET RPS_N
    omega
  · intro front call back _ reserved
    exact (pushStep_inside _ call reserved).2

/-- Whatever is pushed, no byte is stored outside the data area, two bytes stay free
behind the offset, and these stores are all that changes the area. -/
theorem statusLogpush_inside (calls : List PushCall) :
    (∀ store ∈ pushStores statusInit calls, store.Inside (SHMEM_SIZE - DATA_OFFSET)) ∧
      (∀ front, front <+: calls →
        (pushAfter statusInit front).p + 2 ≤ SHMEM_SIZE - DATA_OFFSET) ∧
      (pushAfter statusInit calls).data = replay statusInit.data (pushStores statusInit calls) := by
  refine ⟨?_, fun front _ => pushAfter_reserved front, pushAfter_replay statusInit calls⟩
  induction calls using List.reverseRecOn with
  | nil => exact List.forall_mem_nil _
  | append_singleton calls call ih =>
      intro store member
      unfold pushStores at ih member
      rw [Runs.outputs_snoc, List.flatten_append, List.mem_append] at member
      rcases member with earlier | last
      · exact ih store earlier
      · apply (pushStep_inside _ call (pushAfter_reserved calls)).1
        simpa [pushStep] using last

/-- As many bytes as the buffer for a line holds. -/
def longestCall : PushCall where
  msg := List.replicate (LOG_BUF_SIZE - 1) 65 ++ [0]
  size := LOG_BUF_SIZE - 1
  small := Nat.le_refl _
  closed := by simp

def emptyCall : PushCall where
  msg := [0]
  size := 0
  small := by decide
  closed := by decide

/-- The longest line and the shortest, each with the two stores of its record. -/
theorem statusLogpush_inside_two :
    (pushStores statusInit [longestCall, emptyCall]).length = 4 ∧
      ∀ store ∈ pushStores statusInit [longestCall, emptyCall],
        store.Inside (SHMEM_SIZE - DATA_OFFSET) :=
  ⟨by decide +kernel, (statusLogpush_inside [longestCall, emptyCall]).1⟩

end Bscope
