import Bscope.ParseString
import Bscope.ScannerSegments

set_option autoImplicit false

namespace Bscope

open Scanner

/-- The grammar that `parse_string` scans for a delimiter such as `'&'` or `';'`. -/
def paramGrammar (split : UInt8) (tester : List CStr)
    (plain : ¬ split.toInt8 > 65 ∧ split ≠ 61) : Grammar UInt8 where
  starts := fun c => c.toInt8 > 65
  eq := 61
  split := split
  accepts := fun name => isInList name name.length tester
  starts_eq := by decide
  starts_split := by simpa using plain.1
  split_ne_eq := plain.2

@[simp] theorem paramGrammar_eq (split : UInt8) (tester : List CStr)
    (plain : ¬ split.toInt8 > 65 ∧ split ≠ 61) : (paramGrammar split tester plain).eq = 61 := rfl

@[simp] theorem paramGrammar_split (split : UInt8) (tester : List CStr)
    (plain : ¬ split.toInt8 > 65 ∧ split ≠ 61) : (paramGrammar split tester plain).split = split :=
  rfl

/-- The entry recorded for a key and a value of the scanned text. -/
def paramKv (type : KvType) (found : Bytes × Bytes) : Kv where
  key := (cstr found.1).strtolower
  value := cstr found.2
  type := type

/-- Where the last key of a text begins. -/
def keyStart (g : Grammar UInt8) (t : Bytes) : Option Nat :=
  if since g (scan g start t) = [] then none
  else some (t.length - (since g (scan g start t)).length)

theorem strncasecmp_take (p1 p2 : Bytes) (n : Nat) :
    strncasecmp (p1.take n) p2 n = strncasecmp p1 p2 n := by
  induction n generalizing p1 p2 with
  | zero => rfl
  | succ n ih =>
      cases p1 with
      | nil => rfl
      | cons c rest => simp [strncasecmp, ih]

theorem isInList_take (test : Bytes) (n : Nat) (list : List CStr) :
    isInList (test.take n) n list = isInList test n list := by
  simp only [isInList, strncasecmp_take]

section Tracking

variable (split : UInt8) (tester : List CStr) (plain : ¬ split.toInt8 > 65 ∧ split ≠ 61)
variable (type : KvType) (old : List Kv)

/-- The locals of the loop hold what the scanner's place after `t` says. -/
structure Tracks (t : Bytes) (v : ScanVars) : Prop where
  keys : v.ks = keyStart (paramGrammar split tester plain) t
  place : match scan (paramGrammar split tester plain) start t with
    | .ready _ => v.k = .inReady
    | .key name => v.k = .inKey ∧ v.j + name.length = t.length
    | .value name text => v.j + text.length = t.length ∧
        if isInList name name.length tester then v.k = .inValue ∧ v.kl = name.length
        else v.k = .inValueIgnore
  items : v.proplist =
    ((emits (paramGrammar split tester plain) start t).map (paramKv type)).reverse ++ old
  bound : v.reads ≤ t.length

variable {split tester plain type old}

theorem charAt_here (t rest : Bytes) (a : UInt8) : charAt (t ++ a :: rest) t.length = a := by
  simp [charAt]

theorem slice (front middle rest : Bytes) :
    ((front ++ middle ++ rest).drop front.length).take middle.length = middle := by
  rw [List.append_assoc, List.drop_left, List.take_left]

theorem keyStart_snoc (g : Grammar UInt8) (t : Bytes) (a : UInt8)
    (carried : since g (scan g start (t ++ [a])) = since g (scan g start t) ++ [a])
    (begun : since g (scan g start t) ≠ []) : keyStart g (t ++ [a]) = keyStart g t := by
  have fits := (since_suffix g t).length_le
  unfold keyStart
  rw [carried, if_neg (by simp), if_neg begun]
  simp

/-- While a value is open its key and its text are slices of the scanned block. -/
theorem Tracks.item {t : Bytes} {v : ScanVars} (tracks : Tracks split tester plain type old t v)
    (name text more rest : Bytes)
    (here : scan (paramGrammar split tester plain) start t = .value name text)
    (wanted : isInList name name.length tester = true) (at_end : v.i = t.length + more.length) :
    scanItem (t ++ more ++ rest) type v = paramKv type (name, text ++ more) := by
  obtain ⟨front, whole⟩ := since_suffix (paramGrammar split tester plain) t
  have keys := tracks.keys
  have place := tracks.place
  rw [here] at whole place
  simp only [since] at whole
  simp only [wanted, if_true] at place
  obtain ⟨text_start, -, name_length⟩ := place
  have size := congrArg List.length whole
  simp only [List.length_append, List.length_cons] at size
  have key_at : v.ks = some front.length := by
    rw [keys, keyStart, here, since, if_neg (by simp)]
    simp only [List.length_append, List.length_cons]
    congr 1
    omega
  have name_slice : ((t ++ more ++ rest).drop front.length).take name.length = name := by
    have cut := slice front name (61 :: text ++ more ++ rest)
    rw [← whole]
    simpa only [paramGrammar_eq, List.append_assoc, List.cons_append] using cut
  have text_slice : ((t ++ more ++ rest).drop v.j).take (v.i - v.j) = text ++ more := by
    have cut := slice (front ++ name ++ [61]) (text ++ more) rest
    have at_j : (front ++ name ++ [61]).length = v.j := by
      simp only [List.length_append, List.length_singleton]
      omega
    have span : (text ++ more).length = v.i - v.j := by
      simp only [List.length_append]
      omega
    rw [at_j, span] at cut
    rw [← whole]
    simpa only [paramGrammar_eq, List.append_assoc, List.cons_append, List.nil_append] using cut
  unfold scanItem paramKv strndup
  rw [key_at, name_length, Option.getD_some, name_slice, text_slice]

theorem Tracks.snoc_ready {t : Bytes} {v : ScanVars} (tracks : Tracks split tester plain type old t v)
    (trail rest : Bytes) (a : UInt8) (l : Nat) (ce : Bool) (at_t : v.i = t.length)
    (here : scan (paramGrammar split tester plain) start t = .ready trail) :
    (scanSwitch split (t ++ a :: rest) l type tester ce v).i = t.length ∧
      Tracks split tester plain type old (t ++ [a])
        (scanSwitch split (t ++ a :: rest) l type tester ce v) := by
  have place := tracks.place
  have items := tracks.items
  have keys := tracks.keys
  have bound := tracks.bound
  have silent : emits (paramGrammar split tester plain) start (t ++ [a]) =
      emits (paramGrammar split tester plain) start t := by
    rw [emits_snoc, here]
    simp
  have moved : scan (paramGrammar split tester plain) start (t ++ [a]) =
      next (paramGrammar split tester plain) (.ready trail) a := by rw [scan_snoc, here]
  rw [here] at place
  unfold scanSwitch
  rw [place]
  simp only [at_t, charAt_here]
  by_cases begins : a.toInt8 > 65
  · have moved' : scan (paramGrammar split tester plain) start (t ++ [a]) = .key [a] := by
      rw [moved, next_ready, if_pos (by simpa [paramGrammar] using begins)]
    rw [if_pos begins]
    refine ⟨rfl, ?_, ?_, by rw [silent]; exact items, ?_⟩
    · simp [keyStart, moved', since]
    · rw [moved']
      exact ⟨rfl, by simp⟩
    · simp only [List.length_append, List.length_singleton]
      omega
  · have moved' : scan (paramGrammar split tester plain) start (t ++ [a]) =
        if trail = [] then .ready [] else .ready (trail ++ [a]) := by
      rw [moved, next_ready, if_neg (by simpa [paramGrammar] using begins)]
    rw [if_neg begins]
    refine ⟨rfl, ?_, ?_, by rw [silent]; exact items, ?_⟩
    · by_cases empty : trail = []
      · rw [keyStart, moved', if_pos empty]
        rw [keyStart, here] at keys
        simpa [since, empty] using keys
      · rw [keyStart_snoc _ t a (by rw [moved', if_neg empty, here]; rfl) (by rw [here]; exact empty)]
        exact keys
    · rw [moved']
      split <;> rename_i reached
      · split at reached <;> rfl
      all_goals split at reached <;> cases reached
    · simp only [List.length_append, List.length_singleton]
      omega

/-- Inside a key the key start stays where it is. -/
theorem keyStart_key (t name : Bytes) (a : UInt8)
    (here : scan (paramGrammar split tester plain) start t = .key name) :
    keyStart (paramGrammar split tester plain) (t ++ [a]) =
      keyStart (paramGrammar split tester plain) t := by
  have nonempty : name ≠ [] := by
    have reached := reached (paramGrammar split tester plain) t
    rw [here] at reached
    exact reached.2.1
  apply keyStart_snoc _ t a _ (by rw [here]; exact nonempty)
  rw [scan_snoc, here, next_key]
  split
  · rename_i eq
    simp only [since, eq]
  · split <;> rfl

theorem keyStart_value (t name text : Bytes) (a : UInt8)
    (here : scan (paramGrammar split tester plain) start t = .value name text) :
    keyStart (paramGrammar split tester plain) (t ++ [a]) =
      keyStart (paramGrammar split tester plain) t := by
  apply keyStart_snoc _ t a _ (by rw [here]; simp [since])
  rw [scan_snoc, here, next_value]
  split
  · rfl
  · simp [since]

/-- While a key is open it is a slice of the scanned block. -/
theorem Tracks.name {t : Bytes} {v : ScanVars} (tracks : Tracks split tester plain type old t v)
    (name rest : Bytes) (here : scan (paramGrammar split tester plain) start t = .key name) :
    ((t ++ rest).drop v.j).take (t.length - v.j) = name ∧ v.j + name.length = t.length := by
  obtain ⟨front, whole⟩ := since_suffix (paramGrammar split tester plain) t
  have place := tracks.place
  rw [here] at place whole
  simp only [since] at whole
  obtain ⟨-, key_start⟩ := place
  have size := congrArg List.length whole
  rw [List.length_append] at size
  have cut := slice front name rest
  rw [whole] at cut
  rw [show v.j = front.length by omega, show t.length - front.length = name.length by omega]
  exact ⟨cut, by omega⟩

/-- The name that is looked up in the list is the key. -/
theorem Tracks.listed {t : Bytes} {v : ScanVars} (tracks : Tracks split tester plain type old t v)
    (name rest : Bytes) (here : scan (paramGrammar split tester plain) start t = .key name) :
    isInList ((t ++ rest).drop v.j) (t.length - v.j) tester = isInList name name.length tester := by
  obtain ⟨name_slice, key_start⟩ := tracks.name name rest here
  rw [← isInList_take, name_slice]
  congr 1
  omega

theorem Tracks.snoc_key {t : Bytes} {v : ScanVars} (tracks : Tracks split tester plain type old t v)
    (name rest : Bytes) (a : UInt8) (l : Nat) (ce : Bool) (at_t : v.i = t.length)
    (here : scan (paramGrammar split tester plain) start t = .key name) :
    (scanSwitch split (t ++ a :: rest) l type tester ce v).i = t.length ∧
      Tracks split tester plain type old (t ++ [a])
        (scanSwitch split (t ++ a :: rest) l type tester ce v) := by
  have place := tracks.place
  have items := tracks.items
  have keys := tracks.keys
  have bound := tracks.bound
  have silent : emits (paramGrammar split tester plain) start (t ++ [a]) =
      emits (paramGrammar split tester plain) start t := by
    rw [emits_snoc, here]
    simp
  have moved : scan (paramGrammar split tester plain) start (t ++ [a]) =
      next (paramGrammar split tester plain) (.key name) a := by rw [scan_snoc, here]
  have same_keys := keyStart_key t name a here
  have key_start := (tracks.name name (a :: rest) here).2
  rw [here] at place
  have in_key := place.1
  unfold scanSwitch
  rw [in_key]
  simp only [at_t, charAt_here]
  by_cases eq : a = 61
  · have moved' : scan (paramGrammar split tester plain) start (t ++ [a]) = .value name [] := by
      rw [moved, next_key, paramGrammar_eq, if_pos eq]
    rw [if_pos eq, tracks.listed name (a :: rest) here]
    cases wanted : isInList name name.length tester
    · refine ⟨rfl, by rw [same_keys]; exact keys, ?_, by rw [silent]; exact items, ?_⟩
      · rw [moved']
        simp [wanted]
      · simp only [Bool.false_eq_true, ↓reduceIte, List.length_append, List.length_singleton]
        omega
    · refine ⟨rfl, by rw [same_keys]; exact keys, ?_, by rw [silent]; exact items, ?_⟩
      · rw [moved']
        simp only [List.length_nil, Nat.add_zero, List.length_append, List.length_singleton, wanted,
          ↓reduceIte, true_and]
        omega
      · simp only [↓reduceIte, List.length_append, List.length_singleton]
        omega
  · rw [if_neg eq]
    by_cases closes : a = split
    · have moved' : scan (paramGrammar split tester plain) start (t ++ [a]) =
          .ready (name ++ [a]) := by
        rw [moved, next_key, paramGrammar_eq, paramGrammar_split, if_neg eq, if_pos closes]
      rw [if_pos closes]
      refine ⟨rfl, by rw [same_keys]; exact keys, by rw [moved'], by rw [silent]; exact items, ?_⟩
      simp only [List.length_append, List.length_singleton]
      omega
    · have moved' : scan (paramGrammar split tester plain) start (t ++ [a]) =
          .key (name ++ [a]) := by
        rw [moved, next_key, paramGrammar_eq, paramGrammar_split, if_neg eq, if_neg closes]
      rw [if_neg closes]
      refine ⟨rfl, by rw [same_keys]; exact keys, ?_, by rw [silent]; exact items, ?_⟩
      · rw [moved']
        simp only [List.length_append, List.length_singleton, true_and]
        omega
      · simp only [List.length_append, List.length_singleton]
        omega

theorem nonzero_index_of_value (t name text : Bytes)
    (here : scan (paramGrammar split tester plain) start t = .value name text) :
    t.length ≠ 0 := by
  have fits := (since_suffix (paramGrammar split tester plain) t).length_le
  rw [here] at fits
  simp only [since, List.length_append, List.length_cons] at fits
  omega

/-- A value is scanned the same way whether it is wanted or not. -/
theorem Tracks.switch_value {t : Bytes} {v : ScanVars}
    (tracks : Tracks split tester plain type old t v) (name text p : Bytes) (l : Nat) (ce : Bool)
    (here : scan (paramGrammar split tester plain) start t = .value name text) :
    scanSwitch split p l type tester ce v = scanValue split p l type ce v := by
  have place := tracks.place
  rw [here] at place
  unfold scanSwitch
  cases wanted : isInList name name.length tester <;>
    simp only [wanted, Bool.false_eq_true, ↓reduceIte] at place <;>
    simp only [place.2]

/-- The pair that a value open behind `t` gives once it ends. -/
def valuePair (tester : List CStr) (name text : Bytes) : List (Bytes × Bytes) :=
  if isInList name name.length tester then [(name, text)] else []

/-- Recording at the end of a value, which may take `more` of the text with it. -/
theorem Tracks.record {t : Bytes} {v : ScanVars} (tracks : Tracks split tester plain type old t v)
    (name text more rest : Bytes) (i reads : Nat)
    (here : scan (paramGrammar split tester plain) start t = .value name text)
    (at_end : i = t.length + more.length) :
    let r := scanRecord (t ++ more ++ rest) type { v with i := i, reads := reads }
    r.proplist = ((emits (paramGrammar split tester plain) start t ++
        valuePair tester name (text ++ more)).map (paramKv type)).reverse ++ old ∧
      r.i = i ∧ r.ks = v.ks ∧ r.k = .inReady ∧ r.reads ≤ max reads i := by
  have place := tracks.place
  rw [here] at place
  unfold scanRecord valuePair
  cases wanted : isInList name name.length tester
  · simp only [wanted, Bool.false_eq_true, ↓reduceIte] at place
    simp only [place.2, reduceCtorEq, ↓reduceIte, Bool.false_eq_true, List.append_nil]
    exact ⟨tracks.items, trivial, trivial, trivial, Nat.le_max_left _ _⟩
  · simp only [wanted, ↓reduceIte] at place
    simp only [place.2.1, ↓reduceIte]
    have moved : Tracks split tester plain type old t { v with i := i } :=
      ⟨tracks.keys, tracks.place, tracks.items, tracks.bound⟩
    have item := moved.item name text more rest here wanted at_end
    refine ⟨?_, trivial, trivial, trivial, Nat.le_refl _⟩
    rw [List.map_append, List.reverse_append, List.map_singleton, List.reverse_singleton,
      List.singleton_append, List.cons_append, ← tracks.items, ← item]
    rfl

theorem emits_value (t name text : Bytes) (a : UInt8)
    (here : scan (paramGrammar split tester plain) start t = .value name text) :
    emits (paramGrammar split tester plain) start (t ++ [a]) =
      emits (paramGrammar split tester plain) start t ++
        if a = split then valuePair tester name text else [] := by
  rw [emits_snoc, here, emit, paramGrammar_split]
  congr 1
  split
  · cases wanted : isInList name name.length tester <;>
      simp [flush, paramGrammar, valuePair, wanted]
  · rfl

/-- A plain byte in a value: the delimiter records the item, another byte extends the text. -/
theorem Tracks.snoc_value {t : Bytes} {v : ScanVars} (tracks : Tracks split tester plain type old t v)
    (name text rest : Bytes) (a : UInt8) (l : Nat) (ce : Bool) (at_t : v.i = t.length)
    (here : scan (paramGrammar split tester plain) start t = .value name text)
    (present : a ≠ 0) (inner : t.length + 1 = l → ce = false) :
    (scanSwitch split (t ++ a :: rest) l type tester ce v).i = t.length ∧
      Tracks split tester plain type old (t ++ [a])
        (scanSwitch split (t ++ a :: rest) l type tester ce v) := by
  have place := tracks.place
  have bound := tracks.bound
  have moved : scan (paramGrammar split tester plain) start (t ++ [a]) =
      next (paramGrammar split tester plain) (.value name text) a := by rw [scan_snoc, here]
  have same_keys := keyStart_value t name text a here
  have emitted := emits_value t name text a here
  have not_last : ¬ (v.i + 1 = l ∧ ce = true) := by
    rintro ⟨last, ending⟩
    rw [inner (by omega)] at ending
    cases ending
  rw [tracks.switch_value name text _ l ce here, scanValue, if_neg not_last]
  unfold scanCompare
  simp only [at_t, charAt_here, present, or_false]
  by_cases closes : a = split
  · have moved' : scan (paramGrammar split tester plain) start (t ++ [a]) =
        .ready (name ++ 61 :: text ++ [a]) := by
      rw [moved, next_value, paramGrammar_split, paramGrammar_eq, if_pos closes]
    obtain ⟨items, stays, same, ready, few⟩ := tracks.record name text [] (a :: rest) t.length
      (max v.reads (t.length + 1)) here rfl
    simp only [List.append_nil] at items stays same ready few
    rw [if_pos closes] at emitted ⊢
    refine ⟨stays, by rw [same_keys]; exact same.trans tracks.keys, ?_, ?_, ?_⟩
    · rw [moved']
      exact ready
    · rw [emitted]
      exact items
    · rw [List.length_append, List.length_singleton]
      apply Nat.le_trans few
      omega
  · have moved' : scan (paramGrammar split tester plain) start (t ++ [a]) =
        .value name (text ++ [a]) := by
      rw [moved, next_value, paramGrammar_split, if_neg closes]
    rw [if_neg closes] at emitted ⊢
    refine ⟨rfl, by rw [same_keys]; exact tracks.keys, ?_, ?_, ?_⟩
    · rw [here] at place
      rw [moved']
      simp only [List.length_append, List.length_singleton]
      exact ⟨by omega, place.2⟩
    · rw [emitted, List.append_nil]
      exact tracks.items
    · simp only [List.length_append, List.length_singleton]
      omega

/-- One iteration of the `switch` on a byte that neither ends the string nor,
with `catch_end_of_length`, ends an open value. -/
theorem Tracks.snoc {t : Bytes} {v : ScanVars} (tracks : Tracks split tester plain type old t v)
    (rest : Bytes) (a : UInt8) (l : Nat) (ce : Bool) (at_t : v.i = t.length) (present : a ≠ 0)
    (inner : t.length + 1 = l → ce = true → ∀ name text,
      scan (paramGrammar split tester plain) start t ≠ .value name text) :
    (scanSwitch split (t ++ a :: rest) l type tester ce v).i = t.length ∧
      Tracks split tester plain type old (t ++ [a])
        (scanSwitch split (t ++ a :: rest) l type tester ce v) := by
  cases here : scan (paramGrammar split tester plain) start t with
  | ready trail => exact tracks.snoc_ready trail rest a l ce at_t here
  | key name => exact tracks.snoc_key name rest a l ce at_t here
  | value name text =>
      refine tracks.snoc_value name text rest a l ce at_t here present ?_
      intro last
      cases ce with
      | false => rfl
      | true => exact absurd here (inner last rfl name text)

end Tracking

end Bscope
