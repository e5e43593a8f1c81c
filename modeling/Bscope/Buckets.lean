import Mathlib.Data.List.Induction
import Mathlib.Data.Nat.Init

set_option autoImplicit false

/- Counters for the seconds of a clock, in a ring that is never swept: a bucket is
started again when a second comes that it does not hold. -/
namespace Bscope.Buckets

structure Bucket where
  stamp : Nat
  count : Nat
deriving DecidableEq

/-- One more event at second `t`, on a counter that holds numbers below `w`. -/
def Bucket.hit (w : Nat) (b : Bucket) (t : Nat) : Bucket :=
  if b.stamp = t then ⟨b.stamp, (b.count + 1) % w⟩ else ⟨t, 1⟩

/-- What a reader finds who asks for second `t`. -/
def Bucket.at (b : Bucket) (t : Nat) : Nat := if b.stamp = t then b.count else 0

abbrev Ring := Nat → Bucket

def record (n w : Nat) (ring : Ring) (t : Nat) : Ring :=
  fun k => if k = t % n then (ring k).hit w t else ring k

/-- The ring after events at these seconds. -/
def recorded (n w : Nat) (ts : List Nat) : Ring := ts.foldl (record n w) fun _ => ⟨0, 0⟩

/-- The last of the seconds that fall on bucket `k`. -/
def latest (n k : Nat) (ts : List Nat) : Option Nat := (ts.filter (· % n = k)).getLast?

section Recorded

variable {n w : Nat}

theorem recorded_snoc (ts : List Nat) (t : Nat) :
    recorded n w (ts ++ [t]) = record n w (recorded n w ts) t := by
  rw [recorded, List.foldl_append]
  rfl

theorem latest_snoc (k : Nat) (ts : List Nat) (t : Nat) :
    latest n k (ts ++ [t]) = if t % n = k then some t else latest n k ts := by
  unfold latest
  rw [List.filter_append]
  by_cases here : t % n = k
  · have kept : [t].filter (· % n = k) = [t] := by simp [here]
    rw [if_pos here, kept, List.getLast?_concat]
  · have dropped : [t].filter (· % n = k) = [] := by simp [here]
    rw [if_neg here, dropped, List.append_nil]

theorem latest_mem {k t : Nat} {ts : List Nat} (last : latest n k ts = some t) :
    t ∈ ts ∧ t % n = k := by
  have member := List.mem_of_getLast? last
  rw [List.mem_filter, decide_eq_true_eq] at member
  exact member

/-- In order of time the last one is the latest. -/
theorem le_latest {k t : Nat} {ts : List Nat} (ordered : ts.Pairwise (· ≤ ·))
    (last : latest n k ts = some t) : ∀ u ∈ ts, u % n = k → u ≤ t := by
  induction ts using List.reverseRecOn with
  | nil => exact absurd last nofun
  | append_singleton ts v ih =>
      rw [List.pairwise_append] at ordered
      obtain ⟨front, -, behind⟩ := ordered
      rw [latest_snoc] at last
      intro u member class_u
      rw [List.mem_append, List.mem_singleton] at member
      split at last
      · obtain rfl : v = t := Option.some.inj last
        rcases member with earlier | same
        · exact behind u earlier v (List.mem_singleton_self v)
        · exact Nat.le_of_eq same
      · rename_i other
        rcases member with earlier | same
        · exact ih front last u earlier class_u
        · exact absurd (same ▸ class_u) other

theorem latest_isSome {k t : Nat} {ts : List Nat} (member : t ∈ ts) (class_t : t % n = k) :
    ∃ u, latest n k ts = some u := by
  have found : t ∈ ts.filter (· % n = k) :=
    List.mem_filter.mpr ⟨member, decide_eq_true class_t⟩
  rw [← Option.isSome_iff_exists]
  unfold latest
  rw [List.getLast?_isSome]
  exact List.ne_nil_of_mem found

/-- A bucket holds the latest second that falls on it and the number of its events. -/
theorem recorded_apply (wide : 1 < w) (ts : List Nat) (ordered : ts.Pairwise (· ≤ ·)) (k : Nat) :
    recorded n w ts k = (latest n k ts).elim ⟨0, 0⟩ fun t => ⟨t, ts.count t % w⟩ := by
  induction ts using List.reverseRecOn with
  | nil => rfl
  | append_singleton ts t ih =>
      rw [List.pairwise_append] at ordered
      obtain ⟨front, -, behind⟩ := ordered
      have before := ih front
      rw [recorded_snoc, latest_snoc, record]
      by_cases here : t % n = k
      · rw [if_pos here.symm, if_pos here, before, Option.elim_some, List.count_append,
          List.count_singleton_self, Bucket.hit]
        by_cases seen : t ∈ ts
        · -- the bucket holds `t` already: nothing behind it falls on the bucket
          obtain ⟨u, last⟩ := latest_isSome seen here
          have above := le_latest front last t seen here
          have below := behind u (latest_mem last).1 t (List.mem_singleton_self t)
          obtain rfl : u = t := Nat.le_antisymm below above
          rw [last, Option.elim_some, if_pos rfl, Nat.mod_add_mod]
        · have none_yet : ts.count t = 0 := List.count_eq_zero.mpr seen
          rw [none_yet, Nat.zero_add, Nat.mod_eq_of_lt wide]
          cases last : latest n k ts with
          | none =>
              rw [Option.elim_none]
              split
              · rename_i zero
                rw [← zero, Nat.zero_add, Nat.mod_eq_of_lt wide]
              · rfl
          | some u =>
              rw [Option.elim_some, if_neg]
              rintro rfl
              exact seen (latest_mem last).1
      · rw [if_neg (Ne.symm here), if_neg here, before]
        cases last : latest n k ts with
        | none => rfl
        | some u =>
            have apart : t ≠ u := by
              rintro rfl
              exact here (latest_mem last).2
            rw [Option.elim_some, Option.elim_some, List.count_append,
              List.count_singleton, if_neg (by simpa using apart), Nat.add_zero]

/-- Within the last `n` seconds the time stamp tells the events of a second from
the ones that its bucket held before. -/
theorem recorded_at (wide : 1 < w) (ts : List Nat) (ordered : ts.Pairwise (· ≤ ·)) (c t : Nat)
    (now : ∀ u ∈ ts, u ≤ c) (begun : 0 < t) (recent : c < t + n) :
    (recorded n w ts (t % n)).at t = ts.count t % w := by
  rw [recorded_apply wide ts ordered, Bucket.at]
  by_cases seen : t ∈ ts
  · obtain ⟨u, last⟩ := latest_isSome seen rfl
    have above := le_latest ordered last t seen rfl
    have below := now u (latest_mem last).1
    have same : u % n = t % n := (latest_mem last).2
    obtain rfl : u = t := by
      have apart : (u - t) % n = 0 := by
        rw [← Nat.sub_mod_eq_zero_of_mod_eq same]
      rw [Nat.mod_eq_of_lt (by omega)] at apart
      omega
    rw [last, Option.elim_some, if_pos rfl]
  · rw [List.count_eq_zero.mpr seen, Nat.zero_mod]
    cases last : latest n (t % n) ts with
    | none => rw [Option.elim_none, ite_self]
    | some u =>
        rw [Option.elim_some, if_neg]
        rintro rfl
        exact seen (latest_mem last).1

end Recorded

/-- The events of the last `m` seconds before `c`. -/
def within (ts : List Nat) (c m : Nat) : Nat := ts.countP fun t => c ≤ t + m ∧ t < c

theorem within_zero (ts : List Nat) (c : Nat) : within ts c 0 = 0 := by
  rw [within, List.countP_eq_zero]
  intro t _ inside
  simp only [decide_eq_true_eq] at inside
  omega

/-- One second more at the far end. -/
theorem within_succ (ts : List Nat) (c m : Nat) (room : m < c) :
    within ts c (m + 1) = within ts c m + ts.count (c - (m + 1)) := by
  induction ts with
  | nil => rfl
  | cons t ts ih =>
      unfold within at ih ⊢
      rw [List.countP_cons, List.countP_cons, List.count_cons, ih]
      by_cases far : t = c - (m + 1)
      · have outside : ¬ (c ≤ t + m ∧ t < c) := by omega
        have inside : c ≤ t + (m + 1) ∧ t < c := by omega
        rw [if_pos (decide_eq_true inside), if_neg (by simpa using outside), far,
          if_pos (beq_self_eq_true _)]
        omega
      · have same : (c ≤ t + (m + 1) ∧ t < c) ↔ (c ≤ t + m ∧ t < c) := by omega
        simp only [same, beq_iff_eq, far, if_false]
        omega

end Bscope.Buckets
