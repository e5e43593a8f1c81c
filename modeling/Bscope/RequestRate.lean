import Bscope.Buckets
import Bscope.Interleaves
import Mathlib.Data.List.Nodup

set_option autoImplicit false

/- The request rates that `status_mon` reads from the shared segment, against the
requests that began. -/
namespace Bscope

/-- The counters of the loop of `status_mon`, unsigned ints. -/
structure MonSums where
  miniteN : Nat
  allN : Nat
  miniteV : Nat
  allV : Nat
deriving DecidableEq

/-- One round of the loop; `t2` is an unsigned int, the time in the bucket is not. -/
def monRound (stat : Status) (ctime : Nat) (sums : MonSums) (i : Nat) : MonSums :=
  let t2 := (((ctime : Int) - i) % 2 ^ 32).toNat
  let bucket := stat.rps (t2 % RPS_N)
  if bucket.time = t2 then
    let sums := if i < 61 then
        { sums with
          miniteV := (sums.miniteV + bucket.value) % 2 ^ 32, miniteN := sums.miniteN + 1 }
      else sums
    { sums with allV := (sums.allV + bucket.value) % 2 ^ 32, allN := sums.allN + 1 }
  else sums

/-- A read of `rps[k].value`, where `k` lies in the array. -/
def rpsValue (stat : Status) (k : Int) : Option Nat :=
  if 0 ≤ k ∧ k < RPS_N then some (stat.rps k.toNat).value else none

/-- What `status_mon` prints: two unsigned ints with `%d`, and the sums, one over 60
and the other over `RPS_N`. -/
structure MonOutput where
  connection : Int
  rps : Option Int
  sums : MonSums
deriving DecidableEq

def statusMon (stat : Status) (ctime : Nat) : MonOutput where
  connection := toInt stat.conn
  rps := (rpsValue stat (((ctime : Int) - 1).tmod RPS_N)).map fun value : Nat => toInt value
  sums := (List.range' 1 (RPS_N - 1)).foldl (monRound stat ctime) ⟨0, 0, 0, 0⟩

/-- The segment after callbacks of any sessions, each with the session it works on. -/
def callbacks (ctx : Context) (stat : Status) (calls : List (Session × Moment × Event)) : Status :=
  calls.foldl (fun stat call => (step ctx ⟨call.1, stat⟩ call.2).1.stat) stat

/-- The seconds in which requests began. -/
def begun (calls : List (Session × Moment × Event)) : List Nat :=
  (calls.filter fun call => call.2.2.isBegin).map fun call => call.2.1.time

/-- The array `rps` as a ring of buckets. -/
def Status.ring (stat : Status) : Buckets.Ring := fun k => ⟨(stat.rps k).time, (stat.rps k).value⟩

section Ring

theorem countRequest_ring (stat : Status) (now : Moment) :
    (countRequest stat now).ring = Buckets.record RPS_N (2 ^ 32) stat.ring now.time := by
  funext k
  unfold countRequest Status.ring Buckets.record Buckets.Bucket.hit
  dsimp only
  by_cases here : k = now.time % RPS_N
  · subst here
    rw [if_pos rfl, if_pos rfl]
    split <;> rfl
  · rw [if_neg here, if_neg here]

theorem statusLogpush_rps (stat : Status) (msg : Bytes) (size : Nat) :
    (statusLogpush stat msg size).rps = stat.rps := by
  unfold statusLogpush
  split <;> rfl

theorem sessionReport_rps (ctx : Context) (s : Session) (stat : Status) (type : CloseType)
    (now : Moment) : (sessionReport ctx s stat type now).2.1.rps = stat.rps := by
  unfold sessionReport
  split
  · apply statusLogpush_rps
  · rfl

/-- Only `request_begin` writes the array. -/
theorem step_rps (ctx : Context) (c : Conn) (now : Moment) (e : Event) (other : e.isBegin = false) :
    (step ctx c (now, e)).1.stat.rps = c.stat.rps := by
  cases e with
  | requestBegin => exact absurd other (by decide)
  | responseComplete statusCode =>
      change (responseComplete ctx c statusCode now).1.stat.rps = _
      unfold responseComplete
      split
      · apply sessionReport_rps
      · rfl
  | _ => rfl

theorem callbacks_snoc (ctx : Context) (stat : Status) (calls : List (Session × Moment × Event))
    (call : Session × Moment × Event) :
    callbacks ctx stat (calls ++ [call]) =
      (step ctx ⟨call.1, callbacks ctx stat calls⟩ call.2).1.stat := by
  rw [callbacks, List.foldl_append]
  rfl

theorem begun_append (front back : List (Session × Moment × Event)) :
    begun (front ++ back) = begun front ++ begun back := by
  rw [begun, List.filter_append, List.map_append]
  rfl

theorem callbacks_ring (ctx : Context) (calls : List (Session × Moment × Event)) :
    (callbacks ctx statusInit calls).ring = Buckets.recorded RPS_N (2 ^ 32) (begun calls) := by
  induction calls using List.reverseRecOn with
  | nil => rfl
  | append_singleton calls call ih =>
      obtain ⟨s, now, e⟩ := call
      rw [callbacks_snoc, begun_append]
      by_cases starts : e.isBegin = true
      · obtain rfl : e = .requestBegin := by
          cases e with
          | requestBegin => rfl
          | _ => exact absurd starts Bool.false_ne_true
        change (countRequest (callbacks ctx statusInit calls) now).ring = _
        rw [countRequest_ring, ih, ← Buckets.recorded_snoc]
        rfl
      · have quiet : begun [(s, now, e)] = [] := by
          simp [begun, starts]
        have same := step_rps ctx ⟨s, callbacks ctx statusInit calls⟩ now e (by simpa using starts)
        rw [quiet, List.append_nil, ← ih]
        funext k
        unfold Status.ring
        dsimp only at same ⊢
        rw [same]

end Ring

section Window

variable (ctx : Context) (calls : List (Session × Moment × Event)) (c : Nat)
  (ordered : (begun calls).Pairwise (· ≤ ·)) (past : ∀ t ∈ begun calls, t ≤ c)

include ordered past

/-- Round `i` finds the requests of the second `c - i`. -/
theorem monRound_eq (i : Nat) (sums : MonSums) (x y : Nat) (first : 0 < i) (last : i < RPS_N)
    (late : RPS_N ≤ c) (small : c < 2 ^ 32) (all : sums.allV = x % 2 ^ 32)
    (minite : sums.miniteV = y % 2 ^ 32) :
    (monRound (callbacks ctx statusInit calls) c sums i).allV =
        (x + (begun calls).count (c - i)) % 2 ^ 32 ∧
      (monRound (callbacks ctx statusInit calls) c sums i).miniteV =
        (y + if i < 61 then (begun calls).count (c - i) else 0) % 2 ^ 32 := by
  have size : RPS_N = 600 := rfl
  have second : (((c : Int) - i) % 2 ^ 32).toNat = c - i := by omega
  have bucket := Buckets.recorded_at (n := RPS_N) (w := 2 ^ 32) (by decide) (begun calls) ordered
    c (c - i) past (by omega) (by omega)
  rw [← callbacks_ring ctx calls] at bucket
  unfold Buckets.Bucket.at Status.ring at bucket
  unfold monRound
  rw [second]
  dsimp only at bucket ⊢
  split at bucket
  · rename_i held
    rw [if_pos held, bucket]
    split <;> constructor <;> dsimp only <;> omega
  · rename_i stale
    rw [if_neg stale]
    split <;> constructor <;> omega

/-- The first `m` rounds have summed up the last `m` seconds. -/
theorem monRounds_eq (m : Nat) (last : m < RPS_N) (late : RPS_N ≤ c) (small : c < 2 ^ 32) :
    ((List.range' 1 m).foldl (monRound (callbacks ctx statusInit calls) c) ⟨0, 0, 0, 0⟩).allV =
        Buckets.within (begun calls) c m % 2 ^ 32 ∧
      ((List.range' 1 m).foldl (monRound (callbacks ctx statusInit calls) c) ⟨0, 0, 0, 0⟩).miniteV =
        Buckets.within (begun calls) c (min m 60) % 2 ^ 32 := by
  induction m with
  | zero =>
      rw [Nat.zero_min, Buckets.within_zero]
      exact ⟨rfl, rfl⟩
  | succ m ih =>
      obtain ⟨all, minite⟩ := ih (by omega)
      have round := monRound_eq ctx calls c ordered past (1 + m) _ _ _ (by omega) (by omega) late
        small all minite
      have next := Buckets.within_succ (begun calls) c m (by omega)
      rw [List.range'_1_concat, List.foldl_append, List.foldl_cons, List.foldl_nil, next, round.1,
        round.2, Nat.add_comm 1 m]
      apply And.intro rfl
      by_cases near : m + 1 < 61
      · rw [if_pos near, Nat.min_eq_left (by omega), Nat.min_eq_left (by omega), next]
      · rw [if_neg near, Nat.min_eq_right (by omega), Nat.min_eq_right (by omega), Nat.add_zero]

/-- The sums are the numbers of requests that began in the last minute and in the last
599 seconds, as far as an unsigned int holds them. -/
theorem statusMon_window (late : 600 ≤ c) (small : c < 2 ^ 32) :
    (statusMon (callbacks ctx statusInit calls) c).sums.miniteV =
        ((begun calls).countP fun t => c - 60 ≤ t ∧ t ≤ c - 1) % 2 ^ 32 ∧
      (statusMon (callbacks ctx statusInit calls) c).sums.allV =
        ((begun calls).countP fun t => c - 599 ≤ t ∧ t ≤ c - 1) % 2 ^ 32 := by
  obtain ⟨all, minite⟩ := monRounds_eq ctx calls c ordered past (RPS_N - 1) (by decide) late small
  have window : ∀ m ≤ 599, Buckets.within (begun calls) c m =
      (begun calls).countP fun t => c - m ≤ t ∧ t ≤ c - 1 := by
    intro m inside
    unfold Buckets.within
    apply List.countP_congr
    intro t _
    simp only [decide_eq_true_eq]
    omega
  rw [window _ (by decide)] at all minite
  exact ⟨minite, all⟩

end Window

/-- So many requests in one second. -/
def rush (k second : Nat) : List (Session × Moment × Event) :=
  List.replicate k (sessionInit, { (default : Moment) with time := second }, .requestBegin)

theorem begun_rush (k second : Nat) : begun (rush k second) = List.replicate k second := by
  induction k with
  | zero => rfl
  | succ k ih =>
      have first : rush (k + 1) second = rush 1 second ++ rush k second := rfl
      rw [first, begun_append, ih]
      rfl

theorem statusMon_window_rush :
    (statusMon (callbacks localContext statusInit (rush 1 541 ++ rush 1 542 ++ rush 1 601))
        602).sums.miniteV = 2 ∧
      (statusMon (callbacks localContext statusInit (rush 1 541 ++ rush 1 542 ++ rush 1 601))
        602).sums.allV = 3 :=
  statusMon_window localContext (rush 1 541 ++ rush 1 542 ++ rush 1 601) 602 (by decide) (by decide)
    (by decide) (by decide)

theorem begun_rushes (j k first second : Nat) (later : first ≤ second) :
    (begun (rush j first ++ rush k second)).Pairwise (· ≤ ·) ∧
      ∀ t ∈ begun (rush j first ++ rush k second), first ≤ t ∧ t ≤ second := by
  rw [begun_append, begun_rush, begun_rush]
  constructor
  · rw [List.pairwise_append]
    refine ⟨?_, ?_, ?_⟩
    · exact List.pairwise_replicate.mpr (Or.inr (Nat.le_refl first))
    · exact List.pairwise_replicate.mpr (Or.inr (Nat.le_refl second))
    · intro t front u back
      rw [List.eq_of_mem_replicate front, List.eq_of_mem_replicate back]
      exact later
  · intro t member
    rw [List.mem_append] at member
    rcases member with front | back
    · rw [List.eq_of_mem_replicate front]
      exact ⟨Nat.le_refl first, later⟩
    · rw [List.eq_of_mem_replicate back]
      exact ⟨later, Nat.le_refl second⟩

/-- A minute with so many requests that an unsigned int is back at zero. -/
theorem statusMon_window_wraps :
    ∃ calls, (begun calls).Pairwise (· ≤ ·) ∧ (∀ t, (begun calls).count t < 2 ^ 32) ∧
      (∀ t ∈ begun calls, t ≤ 602) ∧
      ((begun calls).countP fun t => 602 - 60 ≤ t ∧ t ≤ 602 - 1) = 2 ^ 32 ∧
      (statusMon (callbacks localContext statusInit calls) 602).sums.miniteV = 0 := by
  obtain ⟨ordered, inside⟩ := begun_rushes (2 ^ 31) (2 ^ 31) 600 601 (by decide)
  have past : ∀ t ∈ begun (rush (2 ^ 31) 600 ++ rush (2 ^ 31) 601), t ≤ 602 := by
    intro t member
    have bounds := inside t member
    omega
  have minite := (monRounds_eq localContext _ 602 ordered past (RPS_N - 1) (by decide) (by decide)
    (by decide)).2
  have total : (begun (rush (2 ^ 31) 600 ++ rush (2 ^ 31) 601)).length = 2 ^ 32 := by
    rw [begun_append, begun_rush, begun_rush, List.length_append, List.length_replicate,
      List.length_replicate, ← Nat.two_mul, ← Nat.pow_succ']
  have near : Buckets.within (begun (rush (2 ^ 31) 600 ++ rush (2 ^ 31) 601)) 602
      (min (RPS_N - 1) 60) = 2 ^ 32 := by
    rw [← total]
    apply List.countP_eq_length.mpr
    intro t member
    have bounds := inside t member
    rw [decide_eq_true_eq]
    change 602 ≤ t + 60 ∧ t < 602
    omega
  refine ⟨rush (2 ^ 31) 600 ++ rush (2 ^ 31) 601, ordered, ?_, past, ?_, ?_⟩
  · intro t
    rw [begun_append, begun_rush, begun_rush, List.count_append, List.count_replicate,
      List.count_replicate]
    split
    · rename_i here
      rw [if_neg (by simp at here ⊢; omega)]
      decide
    · split <;> decide
  · rw [← total]
    apply List.countP_eq_length.mpr
    intro t member
    have bounds := inside t member
    rw [decide_eq_true_eq]
    omega
  · rw [near] at minite
    exact minite

/-- The bucket of the last second holds that second, or has never held one; or it
holds an older second with a number of requests that an unsigned int takes for none. -/
def LastSecondHeld (seconds : List Nat) (c : Nat) : Prop :=
  ∀ t, Buckets.latest RPS_N ((c - 1) % RPS_N) seconds = some t →
    if t = c - 1 then seconds.count t < 2 ^ 31 else 2 ^ 32 ∣ seconds.count t

/-- A number kept in an unsigned int and printed as an int. -/
theorem toInt_wrapped (n : Nat) : toInt (n % 2 ^ 32 : Nat) = n ↔ n < 2 ^ 31 := by
  unfold toInt
  rw [Int.bmod_def]
  omega

theorem toInt_wrapped_zero (n : Nat) : toInt (n % 2 ^ 32 : Nat) = 0 ↔ 2 ^ 32 ∣ n := by
  unfold toInt
  rw [Int.bmod_def]
  omega

theorem rpsValue_last (stat : Status) (c : Nat) (some_second : 0 < c) :
    rpsValue stat (((c : Int) - 1).tmod RPS_N) = some (stat.rps ((c - 1) % RPS_N)).value := by
  have index : ((c : Int) - 1).tmod RPS_N = ((c - 1) % RPS_N : Nat) := by
    have size : RPS_N = 600 := rfl
    rw [Int.tmod_eq_emod_of_nonneg (by omega), size]
    omega
  have below : (c - 1) % RPS_N < RPS_N := Nat.mod_lt _ (by decide)
  unfold rpsValue
  rw [index, if_pos ⟨by omega, by omega⟩, Int.toNat_natCast]

/-- An event of the last second would be the latest one of its bucket. -/
theorem latest_last_second (seconds : List Nat) (c t : Nat) (ordered : seconds.Pairwise (· ≤ ·))
    (past : ∀ t ∈ seconds, t ≤ c) (held : Buckets.latest RPS_N ((c - 1) % RPS_N) seconds = some t)
    (stale : t ≠ c - 1) : seconds.count (c - 1) = 0 := by
  rw [List.count_eq_zero]
  intro member
  have size : RPS_N = 600 := rfl
  have above := Buckets.le_latest ordered held (c - 1) member rfl
  have found := Buckets.latest_mem held
  have below := past t found.1
  have same := found.2
  rw [size] at same
  omega

/-- A bucket shows the requests of the latest second that fell on it. -/
theorem callbacks_value (ctx : Context) (calls : List (Session × Moment × Event))
    (ordered : (begun calls).Pairwise (· ≤ ·)) (k : Nat) :
    ((callbacks ctx statusInit calls).rps k).value =
      (Buckets.latest RPS_N k (begun calls)).elim 0 fun t => (begun calls).count t % 2 ^ 32 := by
  have bucket := congrFun (callbacks_ring ctx calls) k
  rw [Buckets.recorded_apply (by decide) (begun calls) ordered] at bucket
  apply (congrArg Buckets.Bucket.count bucket).trans
  cases Buckets.latest RPS_N k (begun calls) <;> rfl

/-- No second of the list falls on a bucket that nothing falls on. -/
theorem latest_none_count (seconds : List Nat) (c : Nat)
    (empty : Buckets.latest RPS_N (c % RPS_N) seconds = none) : seconds.count c = 0 := by
  rw [List.count_eq_zero]
  intro member
  obtain ⟨u, found⟩ := Buckets.latest_isSome (n := RPS_N) member rfl
  rw [empty] at found
  cases found

/-- The first number behind `RPS:` is the number of requests of the last second
exactly when its bucket holds that second. -/
theorem statusMon_rate_iff (ctx : Context) (calls : List (Session × Moment × Event)) (c : Nat)
    (ordered : (begun calls).Pairwise (· ≤ ·)) (past : ∀ t ∈ begun calls, t ≤ c) :
    (statusMon (callbacks ctx statusInit calls) c).rps =
        some (((begun calls).countP fun t => t + 1 = c : Nat) : Int) ↔
      0 < c ∧ LastSecondHeld (begun calls) c := by
  by_cases some_second : 0 < c
  · have last : (begun calls).countP (fun t => t + 1 = c) = (begun calls).count (c - 1) := by
      unfold List.count
      apply List.countP_congr
      intro t _
      simp only [decide_eq_true_eq, beq_iff_eq]
      omega
    unfold statusMon LastSecondHeld
    dsimp only
    rw [rpsValue_last _ c some_second, last, Option.map_some, Option.some_inj,
      callbacks_value ctx calls ordered]
    cases held : Buckets.latest RPS_N ((c - 1) % RPS_N) (begun calls) with
    | none =>
        rw [Option.elim_none, latest_none_count (begun calls) (c - 1) held]
        exact ⟨fun _ => ⟨some_second, nofun⟩, fun _ => rfl⟩
    | some t =>
        have only : ∀ P : Nat → Prop, (0 < c ∧ ∀ u, some t = some u → P u) ↔ P t := by
          intro P
          constructor
          · rintro ⟨-, holds⟩
            exact holds t rfl
          · intro holds
            refine ⟨some_second, ?_⟩
            rintro u ⟨⟩
            exact holds
        rw [Option.elim_some, only]
        by_cases fresh : t = c - 1
        · rw [if_pos fresh, ← fresh]
          exact toInt_wrapped _
        · have absent := latest_last_second (begun calls) c t ordered past held fresh
          rw [if_neg fresh, absent]
          exact toInt_wrapped_zero _
  · have before : rpsValue (callbacks ctx statusInit calls) (((c : Int) - 1).tmod RPS_N) =
        none := by
      obtain rfl : c = 0 := by omega
      rfl
    constructor
    · intro shown
      unfold statusMon at shown
      dsimp only at shown
      rw [before] at shown
      exact absurd shown nofun
    · rintro ⟨later, -⟩
      exact absurd later some_second

/-- A request of ten minutes ago, and none in the last second. -/
theorem statusMon_rate_stale :
    (statusMon (callbacks localContext statusInit (rush 1 1000)) 1601).rps = some 1 ∧
      ((begun (rush 1 1000)).countP fun t => t + 1 = 1601) = 0 := by
  decide

theorem statusMon_rate_held :
    (statusMon (callbacks localContext statusInit (rush 1 1000 ++ rush 1 1600)) 1601).rps =
      some (((begun (rush 1 1000 ++ rush 1 1600)).countP fun t => t + 1 = 1601 : Nat) : Int) := by
  refine (statusMon_rate_iff localContext _ 1601 (by decide) (by decide)).mpr ⟨by decide, ?_⟩
  intro t held
  obtain rfl : 1600 = t := Option.some.inj held
  decide

end Bscope
