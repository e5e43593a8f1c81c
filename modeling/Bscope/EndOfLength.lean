import Bscope.PostBody

set_option autoImplicit false

/- `catch_end_of_length` against a delimiter written behind the text. -/
namespace Bscope

open Scanner

/-- The last byte is the delimiter behind a wanted pair, or the '=' behind a
wanted key: the two bytes that the rule for the end takes for part of a value,
or does not see at all. -/
def Dangling (g : Grammar UInt8) (s : Bytes) : Prop :=
  ∃ t, s = t ++ [g.split] ∧ (pair g (param g (current g t))).isSome = true ∨
    s = t ++ [g.eq] ∧ g.eq ∉ param g (current g t) ∧ param g (current g t) ≠ [] ∧
      g.accepts (param g (current g t)) = true

theorem dangling_snoc (g : Grammar UInt8) (t : Bytes) (a : UInt8) :
    Dangling g (t ++ [a]) ↔
      a = g.split ∧ (pair g (param g (current g t))).isSome = true ∨
        a = g.eq ∧ g.eq ∉ param g (current g t) ∧ param g (current g t) ≠ [] ∧
          g.accepts (param g (current g t)) = true := by
  unfold Dangling
  constructor
  · rintro ⟨t', ⟨same, wanted⟩ | ⟨same, wanted⟩⟩
    · obtain ⟨rfl, last⟩ := List.append_inj' same rfl
      exact Or.inl ⟨List.singleton_inj.mp last, wanted⟩
    · obtain ⟨rfl, last⟩ := List.append_inj' same rfl
      exact Or.inr ⟨List.singleton_inj.mp last, wanted⟩
  · rintro (⟨rfl, wanted⟩ | ⟨rfl, wanted⟩)
    · exact ⟨t, Or.inl ⟨rfl, wanted⟩⟩
    · exact ⟨t, Or.inr ⟨rfl, wanted⟩⟩

/-- A text with its delimiter behind it: the closed pairs and the open one. -/
theorem captured_delimited (g : Grammar UInt8) (s : Bytes) (free : 0 ∉ s) (mark : g.split ≠ 0) :
    captured g false (s ++ [g.split]) = emits g start s ++ (flush g (scan g start s)).toList := by
  have clean : 0 ∉ s ++ [g.split] := by
    rw [List.mem_append, List.mem_singleton]
    exact not_or.mpr ⟨free, Ne.symm mark⟩
  rw [captured_of_free g _ clean, emits_snoc, emit, if_pos rfl]

theorem captured_end (g : Grammar UInt8) (t : Bytes) (a : UInt8) (free : 0 ∉ t ++ [a]) :
    captured g true (t ++ [a]) =
      match scan g start t with
      | .value name text => emits g start t ++
          if g.accepts name then [(name, text ++ [a])] else []
      | _ => emits g start (t ++ [a]) := by
  unfold captured
  rw [if_neg free, if_pos rfl, List.dropLast_concat, List.getLast?_concat]
  rfl

theorem flush_next_ready (g : Grammar UInt8) (trail : Bytes) (a : UInt8) :
    flush g (next g (.ready trail) a) = none := by
  rw [next_ready]
  split
  · rfl
  · split <;> rfl

/-- Elsewhere the end of the text and a delimiter behind it are the same. -/
theorem captured_end_eq (g : Grammar UInt8) (s : Bytes) (free : 0 ∉ s) (mark : g.split ≠ 0)
    (settled : ¬ Dangling g s) : captured g true s = captured g false (s ++ [g.split]) := by
  rw [captured_delimited g s free mark]
  induction s using List.reverseRecOn with
  | nil => rfl
  | append_singleton t a _ =>
      rw [dangling_snoc, not_or] at settled
      obtain ⟨unclosed, unassigned⟩ := settled
      have place := reached g t
      rw [captured_end g t a free, scan_snoc]
      cases here : scan g start t with
      | ready trail => rw [flush_next_ready, Option.toList_none, List.append_nil]
      | key name =>
          rw [here] at place
          obtain ⟨inside, nonempty, absent, -⟩ := place
          have silent : flush g (next g (.key name) a) = none := by
            rw [next_key]
            split
            · rename_i assigns
              rw [inside] at unassigned
              apply if_neg
              intro wanted
              exact unassigned ⟨assigns, absent, nonempty, wanted⟩
            · split <;> rfl
          rw [silent, Option.toList_none, List.append_nil]
      | value name text =>
          rw [here] at place
          obtain ⟨inside, nonempty, absent, -⟩ := place
          rw [inside, pair_of_value g name text absent] at unclosed
          rw [emits_snoc, here, next_value, emit]
          by_cases closes : a = g.split
          · have unwanted : ¬ g.accepts name = true := by
              intro wanted
              exact unclosed ⟨closes, by rw [if_pos wanted]; rfl⟩
            simp [closes, flush, unwanted]
          · rw [if_neg closes, if_neg closes, Option.toList_none, List.append_nil, flush]
            by_cases wanted : g.accepts name = true <;> simp [wanted]

/-- A delimiter at the very end becomes the last byte of the value. -/
theorem captured_end_delimiter (g : Grammar UInt8) (t name text : Bytes)
    (free : 0 ∉ t ++ [g.split]) (mark : g.split ≠ 0)
    (wanted : pair g (param g (current g t)) = some (name, text)) :
    captured g true (t ++ [g.split]) = emits g start t ++ [(name, text ++ [g.split])] ∧
      captured g false (t ++ [g.split] ++ [g.split]) = emits g start t ++ [(name, text)] := by
  have open_value : flush g (scan g start t) = some (name, text) := by
    rw [flush_eq_current, wanted]
  rw [captured_delimited g _ free mark, captured_end g t g.split free, scan_snoc, emits_snoc]
  cases here : scan g start t with
  | ready trail => rw [here] at open_value; cases open_value
  | key name' => rw [here] at open_value; cases open_value
  | value name' text' =>
      rw [here, flush] at open_value
      split at open_value
      · rename_i accepted
        obtain ⟨rfl, rfl⟩ := Prod.ext_iff.mp (Option.some.inj open_value)
        simp [emit, flush, next_value, accepted]
      · cases open_value

/-- An '=' at the very end loses its key. -/
theorem captured_end_eq_sign (g : Grammar UInt8) (t : Bytes) (free : 0 ∉ t ++ [g.eq])
    (mark : g.split ≠ 0) (absent : g.eq ∉ param g (current g t))
    (nonempty : param g (current g t) ≠ []) (wanted : g.accepts (param g (current g t)) = true) :
    captured g true (t ++ [g.eq]) = emits g start t ∧
      captured g false (t ++ [g.eq] ++ [g.split]) =
        emits g start t ++ [(param g (current g t), [])] := by
  have place := reached g t
  have silent : emit g (scan g start t) g.eq = none := if_neg (Ne.symm g.split_ne_eq)
  rw [captured_delimited g _ free mark, captured_end g t g.eq free, scan_snoc, emits_snoc, silent]
  cases here : scan g start t with
  | ready trail =>
      rw [here] at place
      exact absurd place.1 nonempty
  | key name =>
      rw [here] at place
      rw [place.1] at wanted ⊢
      simp [next_key, flush, wanted]
  | value name text =>
      rw [here] at place
      rw [place.1] at absent
      exact absurd (List.mem_append_right name List.mem_cons_self) absent

/-- Read to its end, a text gives the pairs of its closed segments, and that of the
last one when the '=' there is not the last byte. -/
theorem captured_end_segments (g : Grammar UInt8) (t : Bytes) (a : UInt8) (free : 0 ∉ t ++ [a])
    (other : a ≠ g.split) :
    captured g true (t ++ [a]) =
      (closed g (t ++ [a])).filterMap (fun segment => pair g (param g segment)) ++
        (if g.eq ∈ (param g (current g (t ++ [a]))).dropLast then
          pair g (param g (current g (t ++ [a]))) else none).toList := by
  have place := reached g t
  have closed_pairs : emits g start (t ++ [a]) = emits g start t := by
    rw [emits_snoc, emit, if_neg other]
    exact List.append_nil _
  rw [captured_end g t a free, closed_pairs, ← emits_eq_segments, closed_pairs,
    current_snoc_other g t a other, param_snoc]
  cases here : scan g start t with
  | ready trail =>
      rw [here] at place
      rw [if_pos place.1]
      have short : g.eq ∉ (if g.starts a then [a] else []).dropLast := by
        split
        · exact List.not_mem_nil
        · exact List.not_mem_nil
      rw [if_neg short, Option.toList_none, List.append_nil]
  | key name =>
      rw [here] at place
      obtain ⟨inside, nonempty, absent, -⟩ := place
      rw [inside, if_neg nonempty, List.dropLast_concat, if_neg absent, Option.toList_none,
        List.append_nil]
  | value name text =>
      rw [here] at place
      obtain ⟨inside, -, absent, -⟩ := place
      have longer : name ++ g.eq :: text ++ [a] = name ++ g.eq :: (text ++ [a]) :=
        List.append_assoc name (g.eq :: text) [a]
      have assigned : g.eq ∈ name ++ g.eq :: text := List.mem_append_right name List.mem_cons_self
      rw [inside, if_neg (List.append_ne_nil_of_right_ne_nil name (List.cons_ne_nil g.eq text)),
        List.dropLast_concat, if_pos assigned, longer, pair_of_value g name _ absent]
      by_cases wanted : g.accepts name = true <;> simp [wanted]

section Entries

variable (split : UInt8) (tester : List CStr) (plain : ¬ split.toInt8 > 65 ∧ split ≠ 61)
variable (type : KvType) (s : Session) (text : Bytes)

/-- The entries differ just where the text ends with a dangling byte. -/
theorem recorded_end_iff (g : Grammar UInt8) (free : 0 ∉ text) (mark : g.split ≠ 0) :
    recorded type (captured g true text) = recorded type (captured g false (text ++ [g.split])) ↔
      ¬ Dangling g text := by
  constructor
  · rintro same ⟨t, ⟨rfl, closed⟩ | ⟨rfl, absent, nonempty, wanted⟩⟩
    · obtain ⟨⟨name, value⟩, found⟩ := Option.isSome_iff_exists.mp closed
      obtain ⟨ended, delimited⟩ := captured_end_delimiter g t name value free mark found
      have values : (cstr (value ++ [g.split])).bytes = (cstr value).bytes := by
        rw [ended, delimited, recorded_append, recorded_append] at same
        have heads := List.cons.inj same
        exact congrArg (fun kv => kv.value.bytes) heads.1
      have inside : name ++ g.eq :: value <:+ t :=
        (flush_spec g t name value (by rw [flush_eq_current, found])).1
      have value_free : 0 ∉ value := by
        intro nul
        apply free
        apply List.mem_append_left
        exact inside.mem (List.mem_append_right name (List.mem_cons_of_mem g.eq nul))
      have whole_free : 0 ∉ value ++ [g.split] := by
        rw [List.mem_append, List.mem_singleton]
        exact not_or.mpr ⟨value_free, Ne.symm mark⟩
      rw [cstr_bytes_of_free _ whole_free, cstr_bytes_of_free _ value_free] at values
      have sizes := congrArg List.length values
      rw [List.length_append, List.length_singleton] at sizes
      omega
    · obtain ⟨ended, delimited⟩ := captured_end_eq_sign g t free mark absent nonempty wanted
      have sizes := congrArg List.length same
      rw [ended, delimited, recorded_length, recorded_length, List.length_append,
        List.length_singleton] at sizes
      omega
  · intro settled
    rw [captured_end_eq g text free mark settled]

/-- The end of the text acts as a delimiter exactly when no byte dangles there. -/
theorem parseString_end_iff (free : 0 ∉ text) (mark : split ≠ 0) :
    (parseString split text text.length type tester s true).s.proplist =
        (parseString split (text ++ [split]) (text ++ [split]).length type tester s
          false).s.proplist ↔
      ¬ Dangling (paramGrammar split tester plain) text := by
  have ended := (scan_block split tester plain type s true text).session
  have delimited := (scan_block split tester plain type s false (text ++ [split])).session
  rw [ended, delimited, ← recorded_end_iff type text (paramGrammar split tester plain) free mark]
  exact List.append_left_inj s.proplist

end Entries

theorem parseString_end_closed :
    (parseString semicolon (asc "bb=1;cc=2") 9 .cookie [lit "*"] sessionInit true).s.proplist =
      (parseString semicolon (asc "bb=1;cc=2;") 10 .cookie [lit "*"] sessionInit
        false).s.proplist := by
  apply (parseString_end_iff semicolon [lit "*"] (by decide) .cookie sessionInit
    (asc "bb=1;cc=2") (by decide) (by decide)).mpr
  rw [show asc "bb=1;cc=2" = asc "bb=1;cc=" ++ [50] from rfl, dangling_snoc]
  decide

/-- An empty last value is lost, and a delimiter at the end becomes part of the value. -/
theorem parseString_end_dangling :
    (parseString amp (asc "bb=") 3 .post [lit "*"] sessionInit true).s.proplist = [] ∧
      (parseString amp (asc "bb=&") 4 .post [lit "*"] sessionInit false).s.proplist =
        [⟨lit "bb", lit "", .post⟩] ∧
      (parseString amp (asc "bb=1&") 5 .post [lit "*"] sessionInit true).s.proplist =
        [⟨lit "bb", lit "1&", .post⟩] ∧
      (parseString amp (asc "bb=1&&") 6 .post [lit "*"] sessionInit false).s.proplist =
        [⟨lit "bb", lit "1", .post⟩] := by
  decide

end Bscope
