import Bscope.Utils

set_option autoImplicit false

/- What `is_in_list` accepts against the names that are listed. -/
namespace Bscope

/-- The list has `"*"`, or the name itself in any case. -/
def Listed (name : Bytes) (list : List CStr) : Prop :=
  lit "*" ∈ list ∨
    ∃ c ∈ list, c.bytes.length = name.length ∧ c.bytes.map tolower = name.map tolower

instance (name : Bytes) (list : List CStr) : Decidable (Listed name list) :=
  inferInstanceAs (Decidable (_ ∨ _))

/-- The comparison looks no further than the tested name, and no further than a
NUL in it: a configured name may go on behind the one, or end at the other. -/
def Mistaken (name : Bytes) (c : CStr) : Prop :=
  (0 ∉ name ∧ name.length < c.bytes.length ∧ name.map tolower <+: c.bytes.map tolower) ∨
    (0 ∈ name ∧ (cstr name).bytes.map tolower = c.bytes.map tolower)

instance (name : Bytes) (c : CStr) : Decidable (Mistaken name c) :=
  inferInstanceAs (Decidable (_ ∨ _))

theorem strncasecmp_step (a b : UInt8) (p q : Bytes) (n : Nat) :
    strncasecmp (a :: p) (b :: q) (n + 1) =
      if ((tolower a).toNat : Int) - (tolower b).toNat ≠ 0 ∨ a = 0 then
        ((tolower a).toNat : Int) - (tolower b).toNat
      else strncasecmp p q n := rfl

theorem strncasecmp_cons (a b : UInt8) (p q : Bytes) (n : Nat) :
    strncasecmp (a :: p) (b :: q) (n + 1) = 0 ↔
      tolower a = tolower b ∧ (a = 0 ∨ strncasecmp p q n = 0) := by
  have differ : ((tolower a).toNat : Int) - (tolower b).toNat = 0 ↔ tolower a = tolower b := by
    rw [← UInt8.toNat_inj]
    omega
  rw [strncasecmp_step]
  simp only [ne_eq, differ]
  split
  · rename_i stops
    rw [differ]
    constructor
    · intro same
      exact ⟨same, Or.inl (stops.resolve_left (not_not.mpr same))⟩
    · exact And.left
  · rename_i goes
    rw [not_or, not_not] at goes
    simp [goes.1, goes.2]

/-- A string that is at its end is compared by its terminator. -/
theorem strncasecmp_nil (a : UInt8) (p : Bytes) (n : Nat) :
    strncasecmp (a :: p) [] (n + 1) = 0 ↔ a = 0 := by
  change strncasecmp (a :: p) (0 :: []) (n + 1) = 0 ↔ a = 0
  rw [strncasecmp_cons, show tolower 0 = 0 from rfl, tolower_eq_zero]
  constructor
  · exact And.left
  · intro nul
    exact ⟨nul, Or.inl nul⟩

/-- Over its own length a name without a NUL is only compared with the beginning of
another. -/
theorem strncasecmp_front (name rest c : Bytes) (free : 0 ∉ name) :
    strncasecmp (name ++ rest) c name.length = 0 ↔ name.map tolower <+: c.map tolower := by
  induction name generalizing c with
  | nil => simp [strncasecmp]
  | cons a name ih =>
      rw [List.mem_cons, not_or] at free
      have present : a ≠ 0 := Ne.symm free.1
      cases c with
      | nil => simp [strncasecmp_nil, present]
      | cons b c =>
          rw [List.cons_append, List.length_cons, strncasecmp_cons, ih c free.2]
          simp [present, List.cons_prefix_cons]

/-- A NUL in the name ends the comparison, and the other name must end there too. -/
theorem strncasecmp_cut (name rest c : Bytes) (n : Nat) (free : 0 ∉ name) (free' : 0 ∉ c)
    (inside : name.length < n) :
    strncasecmp (name ++ 0 :: rest) c n = 0 ↔ name.map tolower = c.map tolower := by
  induction name generalizing c n with
  | nil =>
      obtain ⟨n, rfl⟩ := Nat.exists_eq_add_one_of_ne_zero (Nat.ne_of_gt inside)
      cases c with
      | nil => simp [strncasecmp_nil]
      | cons b c =>
          have present : b ≠ 0 := by
            rintro rfl
            exact free' List.mem_cons_self
          have apart : tolower b ≠ 0 := fun h => present ((tolower_eq_zero b).mp h)
          rw [List.nil_append, strncasecmp_cons]
          simp [show tolower 0 = 0 from rfl, Ne.symm apart]
  | cons a name ih =>
      obtain ⟨n, rfl⟩ := Nat.exists_eq_add_one_of_ne_zero (Nat.ne_of_gt (Nat.zero_lt_of_lt inside))
      rw [List.mem_cons, not_or] at free
      have present : a ≠ 0 := Ne.symm free.1
      cases c with
      | nil => simp [strncasecmp_nil, present]
      | cons b c =>
          rw [List.mem_cons, not_or] at free'
          rw [List.cons_append, strncasecmp_cons,
            ih c n free.2 free'.2 (by simpa using inside)]
          simp [present]

theorem listed_star (list : List CStr) : lit "*" ∈ list ↔ ∃ c ∈ list, c.bytes = [42] := by
  constructor
  · intro member
    exact ⟨lit "*", member, rfl⟩
  · rintro ⟨c, member, star⟩
    rwa [show lit "*" = c from CStr.ext star.symm]

theorem isInList_iff (test : Bytes) (n : Nat) (list : List CStr) :
    isInList test n list = true ↔
      lit "*" ∈ list ∨ ∃ c ∈ list, strncasecmp test c.bytes n = 0 := by
  rw [listed_star]
  simp only [isInList, List.any_eq_true, Bool.or_eq_true, decide_eq_true_eq]
  constructor
  · rintro ⟨c, member, star | same⟩
    · exact Or.inl ⟨c, member, star⟩
    · exact Or.inr ⟨c, member, same⟩
  · rintro (⟨c, member, star⟩ | ⟨c, member, same⟩)
    · exact ⟨c, member, Or.inl star⟩
    · exact ⟨c, member, Or.inr same⟩

/-- One configured name: it is compared alike when it is the name in any case, and
when it is mistaken for it. -/
theorem strncasecmp_name (name rest : Bytes) (c : CStr) :
    strncasecmp (name ++ rest) c.bytes name.length = 0 ↔
      (c.bytes.length = name.length ∧ c.bytes.map tolower = name.map tolower) ∨
        Mistaken name c := by
  unfold Mistaken
  by_cases nul : 0 ∈ name
  · obtain ⟨front, back, split, free⟩ := List.eq_append_cons_of_mem nul
    have cut : (cstr name).bytes = front := by
      rw [split, cstr_append_nul, cstr_bytes_of_free front free]
    have inside : front.length < name.length := by
      rw [split, List.length_append, List.length_cons]
      omega
    have whole : name ++ rest = front ++ 0 :: (back ++ rest) := by
      rw [split, List.append_assoc, List.cons_append]
    rw [whole, strncasecmp_cut front _ c.bytes _ free c.nulFree inside, cut]
    simp only [nul, not_true_eq_false, false_and, true_and, false_or]
    constructor
    · exact Or.inr
    · rintro (⟨-, same⟩ | same)
      · -- the configured name has no NUL
        have zero : tolower 0 ∈ c.bytes.map tolower := same ▸ List.mem_map_of_mem nul
        obtain ⟨a, member, lower⟩ := List.mem_map.mp zero
        rw [(tolower_eq_zero a).mp lower] at member
        exact absurd member c.nulFree
      · exact same
  · rw [strncasecmp_front name rest c.bytes nul]
    simp only [nul, not_false_eq_true, true_and, false_and, or_false]
    constructor
    · intro starts
      have fits := starts.length_le
      rw [List.length_map, List.length_map] at fits
      rcases Nat.lt_or_eq_of_le fits with shorter | same
      · exact Or.inr ⟨shorter, starts⟩
      · exact Or.inl ⟨same.symm, (starts.eq_of_length (by simpa using same)).symm⟩
    · rintro (⟨-, same⟩ | ⟨-, starts⟩)
      · exact same ▸ List.prefix_rfl
      · exact starts

theorem isInList_listed (name rest : Bytes) (list : List CStr) :
    isInList (name ++ rest) name.length list = true ↔
      Listed name list ∨ ∃ c ∈ list, Mistaken name c := by
  rw [isInList_iff]
  simp only [strncasecmp_name]
  unfold Listed
  constructor
  · rintro (star | ⟨c, member, same | mistaken⟩)
    · exact Or.inl (Or.inl star)
    · exact Or.inl (Or.inr ⟨c, member, same⟩)
    · exact Or.inr ⟨c, member, mistaken⟩
  · rintro ((star | ⟨c, member, same⟩) | ⟨c, member, mistaken⟩)
    · exact Or.inl star
    · exact Or.inr ⟨c, member, Or.inl same⟩
    · exact Or.inr ⟨c, member, Or.inr mistaken⟩

/-- The filter is exact when no configured name is mistaken for the tested one, or
the name is listed all the same. -/
theorem isInList_exact_iff (name rest : Bytes) (list : List CStr) :
    (isInList (name ++ rest) name.length list = true ↔ Listed name list) ↔
      Listed name list ∨ ∀ c ∈ list, ¬ Mistaken name c := by
  rw [isInList_listed]
  constructor
  · intro exact_here
    by_cases listed : Listed name list
    · exact Or.inl listed
    · apply Or.inr
      intro c member mistaken
      exact listed (exact_here.mp (Or.inr ⟨c, member, mistaken⟩))
  · rintro (listed | apart)
    · exact iff_of_true (Or.inl listed) listed
    · apply or_iff_left
      rintro ⟨c, member, mistaken⟩
      exact apart c member mistaken

/-- `acc` passes for `accept`, and so does the empty name. -/
theorem isInList_exact_prefix :
    isInList (asc "acc: x") 3 [lit "accept"] = true ∧ isInList [] 0 [lit "accept"] = true ∧
      ¬ (isInList (asc "acc" ++ asc ": x") (asc "acc").length [lit "accept"] = true ↔
        Listed (asc "acc") [lit "accept"]) := by
  decide

end Bscope
