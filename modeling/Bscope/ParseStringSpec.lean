import Bscope.ParseStringScan

set_option autoImplicit false

namespace Bscope

open Scanner

section Tracking

variable {split : UInt8} {tester : List CStr} {plain : ¬ split.toInt8 > 65 ∧ split ≠ 61}
variable {type : KvType} {old : List Kv}

theorem scanLoop_stop (p : Bytes) (l : Nat) (ce : Bool) (fuel : Nat) (v w : ScanVars)
    (inside : v.i < l) (switched : scanSwitch split p l type tester ce v = w)
    (still : w.i < l) (nul : charAt p w.i = 0) :
    scanLoop split p l type tester ce (fuel + 1) v = (w.proplist, none, w.reads) := by
  rw [scanLoop, if_pos inside, switched]
  exact if_pos ⟨still, nul⟩

theorem scanLoop_finish (p : Bytes) (l : Nat) (ce : Bool) (fuel : Nat) (v w : ScanVars)
    (inside : v.i < l) (switched : scanSwitch split p l type tester ce v = w)
    (present : charAt p w.i ≠ 0) (last : w.i + 1 = l) :
    scanLoop split p l type tester ce (fuel + 1) v = (w.proplist, w.ks, w.reads) := by
  rw [scanLoop, if_pos inside, switched]
  exact (if_neg (fun stop => present stop.2)).trans (if_pos last)

theorem scanLoop_step (p : Bytes) (l : Nat) (ce : Bool) (fuel : Nat) (v w : ScanVars)
    (inside : v.i < l) (switched : scanSwitch split p l type tester ce v = w)
    (goes : ¬ (w.i < l ∧ charAt p w.i = 0)) (inner : w.i + 1 ≠ l) :
    scanLoop split p l type tester ce (fuel + 1) v =
      scanLoop split p l type tester ce fuel { w with i := w.i + 1 } := by
  rw [scanLoop, if_pos inside, switched]
  exact (if_neg goes).trans (if_neg inner)

/-- The loop over bytes that are neither NUL nor the last of the text. -/
theorem scanLoop_inner (t u rest : Bytes) (l : Nat) (ce : Bool) (fuel : Nat) (v : ScanVars)
    (tracks : Tracks split tester plain type old t v) (at_t : v.i = t.length) (free : 0 ∉ u)
    (inside : t.length + u.length < l) (enough : u.length ≤ fuel) :
    ∃ v', v'.i = (t ++ u).length ∧ Tracks split tester plain type old (t ++ u) v' ∧
      scanLoop split (t ++ u ++ rest) l type tester ce fuel v =
        scanLoop split (t ++ u ++ rest) l type tester ce (fuel - u.length) v' := by
  induction u generalizing t v fuel with
  | nil => exact ⟨v, by simpa using at_t, by simpa using tracks, by simp⟩
  | cons a u ih =>
      cases fuel with
      | zero => simp at enough
      | succ fuel =>
          simp only [List.length_cons] at inside enough
          have present : a ≠ 0 := by
            rintro rfl
            exact free List.mem_cons_self
          have shape : t ++ a :: u ++ rest = t ++ a :: (u ++ rest) := by simp
          obtain ⟨stays, tracks'⟩ := tracks.snoc (u ++ rest) a l ce at_t present (by omega)
          obtain ⟨v', at_end, tracked, same⟩ := ih (t ++ [a]) fuel
            { scanSwitch split (t ++ a :: (u ++ rest)) l type tester ce v with
              i := (scanSwitch split (t ++ a :: (u ++ rest)) l type tester ce v).i + 1 }
            ⟨tracks'.keys, tracks'.place, tracks'.items, tracks'.bound⟩ (by simp [stays])
            (fun member => free (List.mem_cons_of_mem a member))
            (by simp only [List.length_append, List.length_singleton]; omega) (by omega)
          refine ⟨v', by simpa using at_end, by simpa using tracked, ?_⟩
          rw [shape, scanLoop_step _ l ce fuel v _ (by omega) rfl
            (by rw [stays, charAt_here]; exact fun stop => present stop.2) (by omega)]
          simpa using same

theorem scanLoop_done (p : Bytes) (l : Nat) (ce : Bool) (fuel : Nat) (v : ScanVars)
    (past : l ≤ v.i) :
    scanLoop split p l type tester ce fuel v = (v.proplist, none, v.reads) := by
  cases fuel with
  | zero => rfl
  | succ fuel => rw [scanLoop, if_neg (by omega)]

/-- The last byte, compared like any other. -/
theorem scanLoop_last (t rest : Bytes) (a : UInt8) (ce : Bool) (fuel : Nat) (v : ScanVars)
    (tracks : Tracks split tester plain type old t v) (at_t : v.i = t.length) (present : a ≠ 0)
    (closed_end : ce = true → ∀ name text,
      scan (paramGrammar split tester plain) start t ≠ .value name text) :
    ∃ reads ≤ t.length + 1, scanLoop split (t ++ a :: rest) (t.length + 1) type tester ce (fuel + 1) v =
      (((emits (paramGrammar split tester plain) start (t ++ [a])).map (paramKv type)).reverse ++ old,
        keyStart (paramGrammar split tester plain) (t ++ [a]), reads) := by
  obtain ⟨stays, tracks'⟩ := tracks.snoc rest a (t.length + 1) ce at_t present
    (fun _ => closed_end)
  refine ⟨_, by simpa using tracks'.bound, ?_⟩
  rw [scanLoop_finish _ _ ce fuel v _ (by omega) rfl (by rw [stays, charAt_here]; exact present)
    (by omega), tracks'.items, tracks'.keys]

/-- With `catch_end_of_length` the last byte belongs to an open value, whatever it is. -/
theorem scanLoop_end (t rest name text : Bytes) (a : UInt8) (fuel : Nat) (v : ScanVars)
    (tracks : Tracks split tester plain type old t v) (at_t : v.i = t.length)
    (here : scan (paramGrammar split tester plain) start t = .value name text) :
    ∃ reads ≤ t.length + 1,
      scanLoop split (t ++ a :: rest) (t.length + 1) type tester true (fuel + 1) v =
        (((emits (paramGrammar split tester plain) start t ++
          if isInList name name.length tester then [(name, text ++ [a])] else []).map
            (paramKv type)).reverse ++ old, none, reads) := by
  have bound := tracks.bound
  have started := nonzero_index_of_value t name text here
  have switched : scanSwitch split (t ++ a :: rest) (t.length + 1) type tester true v =
      scanRecord (t ++ a :: rest) type { v with i := t.length + 1 } := by
    rw [tracks.switch_value name text _ _ true here]
    simp only [scanValue, at_t, and_self, ↓reduceIte, if_pos started]
  have record := tracks.record name text [a] rest (t.length + 1) v.reads here rfl
  rw [List.append_assoc, List.singleton_append] at record
  obtain ⟨items, passed, -, -, few⟩ := record
  rw [scanLoop_step _ _ true fuel v _ (by omega) switched (fun stop => by omega) (by omega),
    scanLoop_done _ _ _ _ _ (by simp only [passed]; omega)]
  refine ⟨_, Nat.le_trans few (by omega), ?_⟩
  rw [items]
  rfl

/-- A NUL inside the text ends the scan, and an open value with it. -/
theorem scanLoop_nul (t rest : Bytes) (l : Nat) (ce : Bool) (fuel : Nat) (v : ScanVars)
    (tracks : Tracks split tester plain type old t v) (at_t : v.i = t.length) (inside : t.length < l) :
    ∃ reads ≤ t.length + 1, scanLoop split (t ++ 0 :: rest) l type tester ce (fuel + 1) v =
      (((emits (paramGrammar split tester plain) start t ++
        (flush (paramGrammar split tester plain)
          (scan (paramGrammar split tester plain) start t)).toList).map
            (paramKv type)).reverse ++ old, none, reads) := by
  have place := tracks.place
  have bound := tracks.bound
  have items := tracks.items
  cases here : scan (paramGrammar split tester plain) start t with
  | ready trail =>
      rw [here] at place
      have switched : scanSwitch split (t ++ 0 :: rest) l type tester ce v =
          { v with reads := max v.reads (v.i + 1) } := by
        unfold scanSwitch
        simp only [place, at_t, charAt_here]
        rw [if_neg (by decide)]
      refine ⟨max v.reads (v.i + 1), by omega, ?_⟩
      rw [scanLoop_stop _ l ce fuel v _ (by omega) switched (by simpa [at_t] using inside)
        (by simp [at_t, charAt_here])]
      simp [flush, items]
  | key name =>
      rw [here] at place
      obtain ⟨w, switched, same_items, same_reads, same_i⟩ : ∃ w,
          scanSwitch split (t ++ 0 :: rest) l type tester ce v = w ∧ w.proplist = v.proplist ∧
            w.reads = max v.reads (v.i + 1) ∧ w.i = v.i := by
        refine ⟨_, rfl, ?_⟩
        unfold scanSwitch
        simp only [place.1, at_t, charAt_here]
        rw [if_neg (by decide)]
        split <;> exact ⟨rfl, rfl, rfl⟩
      refine ⟨max v.reads (v.i + 1), by omega, ?_⟩
      rw [scanLoop_stop _ l ce fuel v w (by omega) switched (by omega)
        (by rw [same_i, at_t, charAt_here]), same_items, same_reads]
      simp [flush, items]
  | value name text =>
      have flushed : (flush (paramGrammar split tester plain) (.value name text)).toList =
          valuePair tester name text := by
        cases wanted : isInList name name.length tester <;>
          simp [flush, paramGrammar, valuePair, wanted]
      rw [flushed]
      by_cases last : t.length + 1 = l ∧ ce = true
      · obtain ⟨rfl, rfl⟩ := last
        obtain ⟨reads, few, done⟩ := scanLoop_end t rest name text 0 fuel v tracks at_t here
        refine ⟨reads, few, ?_⟩
        rw [done]
        unfold valuePair
        cases isInList name name.length tester
        · rfl
        · simp [paramKv, cstr_append_nul]
      · have switched : scanSwitch split (t ++ 0 :: rest) l type tester ce v =
            scanRecord (t ++ 0 :: rest) type
              { v with i := t.length, reads := max v.reads (t.length + 1) } := by
          rw [tracks.switch_value name text _ l ce here]
          simp only [scanValue, at_t, last, ↓reduceIte, scanCompare, charAt_here, or_true]
        obtain ⟨items, stays, -, -, few⟩ := tracks.record name text [] (0 :: rest) t.length
          (max v.reads (t.length + 1)) here rfl
        simp only [List.append_nil] at items stays few
        rw [scanLoop_stop _ l ce fuel v _ (by omega) switched (by omega)
          (by rw [stays, charAt_here])]
        exact ⟨_, Nat.le_trans few (by omega), by rw [items]⟩

end Tracking

/-- The wanted pairs that `parse_string` finds in a text: those that a delimiter
closes, the one a NUL closes, and with `catch_end_of_length` the one that is
still open before the last byte, which then is part of its value. -/
def captured (g : Grammar UInt8) (catchEndOfLength : Bool) (text : Bytes) : List (Bytes × Bytes) :=
  if 0 ∈ text then
    let t := text.takeWhile (· ≠ 0)
    emits g start t ++ (flush g (scan g start t)).toList
  else if catchEndOfLength then
    match scan g start text.dropLast with
    | .value name v =>
        emits g start text.dropLast ++
          if g.accepts name then [(name, v ++ text.getLast?.toList)] else []
    | _ => emits g start text
  else emits g start text

theorem captured_of_free (g : Grammar UInt8) (text : Bytes) (free : 0 ∉ text) :
    captured g false text = emits g start text := by
  simp [captured, free]

theorem captured_nul (g : Grammar UInt8) (ce : Bool) (t rest : Bytes) (free : 0 ∉ t) :
    captured g ce (t ++ 0 :: rest) = emits g start t ++ (flush g (scan g start t)).toList := by
  have cut : (t ++ 0 :: rest).takeWhile (· ≠ 0) = t := by
    rw [List.takeWhile_append_of_pos (fun c member => by
      simpa using fun zero : c = 0 => free (zero ▸ member))]
    simp
  simp only [captured, List.mem_append, List.mem_cons, true_or, or_true, ↓reduceIte, cut]

section Parse

variable (split : UInt8) (tester : List CStr) (plain : ¬ split.toInt8 > 65 ∧ split ≠ 61)
variable (type : KvType) (s : Session)

theorem tracks_start : Tracks split tester plain type s.proplist []
    { i := 0, j := 0, kl := 0, k := .inReady, ks := none, proplist := s.proplist, reads := 0 } :=
  ⟨rfl, rfl, rfl, Nat.le_refl 0⟩

/-- What a scan does, with everything it returns: `g` is its grammar and `text`
the part of the block that the given length covers. -/
structure ParseSpec (g : Grammar UInt8) (type : KvType) (s : Session) (ce : Bool) (text : Bytes)
    (r : Parsed) : Prop where
  session : r.s = { s with
    proplist := ((captured g ce text).map (paramKv type)).reverse ++ s.proplist }
  ret : ce = false → r.ret = if 0 ∈ text then none else keyStart g text
  reads : r.reads ≤ text.length
  reads_nul : ∀ t rest, text = t ++ 0 :: rest → 0 ∉ t → r.reads ≤ t.length + 1

theorem parseString_nul (t rest : Bytes) (l : Nat) (ce : Bool) (free : 0 ∉ t)
    (inside : t.length < l) :
    ParseSpec (paramGrammar split tester plain) type s ce ((t ++ 0 :: rest).take l)
      (parseString split (t ++ 0 :: rest) l type tester s ce) := by
  obtain ⟨v, at_end, tracks, reached⟩ := scanLoop_inner [] t (0 :: rest) l ce l _
    (tracks_start split tester plain type s) rfl free (by simpa using inside) (by omega)
  obtain ⟨fuel, enough⟩ := Nat.exists_eq_add_of_lt inside
  obtain ⟨reads, few, done⟩ := scanLoop_nul t rest l ce fuel v tracks at_end inside
  have shape : (t ++ 0 :: rest).take l = t ++ 0 :: rest.take fuel := by
    rw [List.take_append, List.take_of_length_le (by omega),
      show l - t.length = fuel + 1 by omega, List.take_succ_cons]
  have whole : scanLoop split (t ++ 0 :: rest) l type tester ce l
      { i := 0, j := 0, kl := 0, k := .inReady, ks := none, proplist := s.proplist, reads := 0 } =
      (((captured (paramGrammar split tester plain) ce ((t ++ 0 :: rest).take l)).map
        (paramKv type)).reverse ++ s.proplist, none, reads) := by
    rw [shape, captured_nul _ ce t _ free, ← done, show fuel + 1 = l - t.length by omega]
    exact reached
  unfold parseString
  rw [whole]
  refine ⟨rfl, fun _ => ?_, ?_, ?_⟩
  · rw [shape, if_pos (by simp)]
  · rw [shape, List.length_append, List.length_cons]
    dsimp only
    omega
  · intro t' rest' same free'
    rw [shape] at same
    have cut := congrArg (List.takeWhile (· ≠ 0)) same
    rw [List.takeWhile_append_of_pos (fun c member => by
        simpa using fun zero : c = 0 => free (zero ▸ member)),
      List.takeWhile_append_of_pos (fun c member => by
        simpa using fun zero : c = 0 => free' (zero ▸ member))] at cut
    simp only [ne_eq, not_true_eq_false, decide_false, Bool.false_eq_true, not_false_eq_true,
      List.takeWhile_cons_of_neg, List.append_nil] at cut
    rw [← cut]
    exact few

theorem parseString_free (t rest : Bytes) (ce : Bool) (free : 0 ∉ t) :
    ParseSpec (paramGrammar split tester plain) type s ce t
      (parseString split (t ++ rest) t.length type tester s ce) := by
  suffices ∃ ret reads, reads ≤ t.length ∧
      (ce = false → ret = keyStart (paramGrammar split tester plain) t) ∧
      scanLoop split (t ++ rest) t.length type tester ce t.length
        { i := 0, j := 0, kl := 0, k := .inReady, ks := none, proplist := s.proplist, reads := 0 } =
      (((captured (paramGrammar split tester plain) ce t).map (paramKv type)).reverse ++ s.proplist,
        ret, reads) by
    obtain ⟨ret, reads, few, key, whole⟩ := this
    unfold parseString
    rw [whole]
    refine ⟨rfl, fun plain_end => ?_, few, ?_⟩
    · rw [if_neg free]
      exact key plain_end
    · intro t' rest' same _
      exact absurd (by simp [same]) free
  rcases List.eq_nil_or_concat t with rfl | ⟨u, a, rfl⟩
  · refine ⟨none, 0, Nat.le_refl 0, fun _ => rfl, ?_⟩
    cases ce <;> rfl
  · rw [List.concat_eq_append] at free ⊢
    have present : a ≠ 0 := by
      rintro rfl
      exact free (by simp)
    have shape : u ++ [a] ++ rest = u ++ a :: rest := by simp
    have size : (u ++ [a]).length = u.length + 1 := by simp
    obtain ⟨v, at_end, tracks, reached⟩ := scanLoop_inner [] u (a :: rest) (u.length + 1) ce
      (u.length + 1) _ (tracks_start split tester plain type s) rfl
      (fun member => free (List.mem_append_left [a] member)) (by simp) (by omega)
    rw [shape, size]
    rw [show u.length + 1 - u.length = 0 + 1 by omega] at reached
    by_cases ends : ce = true ∧ ∃ name text,
        scan (paramGrammar split tester plain) start u = .value name text
    · obtain ⟨rfl, name, text, here⟩ := ends
      obtain ⟨reads, few, done⟩ := scanLoop_end u rest name text a 0 v tracks at_end here
      refine ⟨none, reads, few, nofun, ?_⟩
      rw [captured, if_neg free, if_pos rfl, List.dropLast_concat, here]
      rw [List.getLast?_concat]
      exact reached.trans done
    · have closed_end : ce = true → ∀ name text,
          scan (paramGrammar split tester plain) start u ≠ .value name text :=
        fun ending name text here => ends ⟨ending, name, text, here⟩
      obtain ⟨reads, few, done⟩ := scanLoop_last u rest a ce 0 v tracks at_end present closed_end
      refine ⟨_, reads, few, fun _ => rfl, ?_⟩
      have same : captured (paramGrammar split tester plain) ce (u ++ [a]) =
          emits (paramGrammar split tester plain) start (u ++ [a]) := by
        rw [captured, if_neg free]
        split
        · rename_i ending
          rw [List.dropLast_concat]
          split
          · rename_i name text here
            exact absurd here (closed_end ending name text)
          · rfl
        · rfl
      rw [same]
      exact reached.trans done

/-- The scan of a text that the block holds, or that a NUL ends inside the block. -/
theorem parseString_spec (p : Bytes) (l : Nat) (ce : Bool) (fits : l ≤ p.length ∨ 0 ∈ p.take l) :
    ParseSpec (paramGrammar split tester plain) type s ce (p.take l)
      (parseString split p l type tester s ce) := by
  by_cases nul : 0 ∈ p.take l
  · obtain ⟨t, rest, first, free⟩ := List.eq_append_cons_of_mem nul
    have whole : p = t ++ 0 :: (rest ++ p.drop l) := by
      rw [← List.cons_append, ← List.append_assoc, ← first, List.take_append_drop]
    have inside : t.length < l := by
      have size := congrArg List.length first
      simp only [List.length_take, List.length_append, List.length_cons] at size
      omega
    rw [whole]
    exact parseString_nul split tester plain type s t _ l ce free inside
  · have inside : l ≤ p.length := fits.resolve_right nul
    have size : (p.take l).length = l := by rw [List.length_take]; omega
    have parsed := parseString_free split tester plain type s (p.take l) (p.drop l) ce nul
    rwa [List.take_append_drop, size] at parsed

end Parse

end Bscope
