import Bscope.EndOfLength
import Bscope.QueryString

set_option autoImplicit false

/- A Cookie header, and what the scanner reads in it. -/
namespace Bscope

structure Cookie where
  name : Bytes
  value : Bytes

def Cookie.text (c : Cookie) : Bytes := c.name ++ 61 :: c.value

/-- A name of letters, digits, '_' and '-', and a value without ';' and NUL. -/
structure Cookie.WellFormed (c : Cookie) : Prop where
  named : c.name ≠ []
  name : ∀ b ∈ c.name, 48 ≤ b ∧ b ≤ 57 ∨ 65 ≤ b ∧ b ≤ 90 ∨ 97 ≤ b ∧ b ≤ 122 ∨ b = 95 ∨ b = 45
  valued : c.value ≠ []
  value : semicolon ∉ c.value ∧ 0 ∉ c.value

/-- `k1=v1; k2=v2` and so on. -/
def cookieHeader : List Cookie → Bytes
  | [] => []
  | c :: cookies => c.text ++ cookies.flatMap fun c => asc "; " ++ c.text

/-- The entry of a cookie whose name is on the list. -/
def Cookie.listed (tester : List CStr) (c : Cookie) : Option Kv :=
  if isInList c.name c.name.length tester then
    some ⟨(cstr c.name).strtolower, cstr c.value, .cookie⟩
  else none

/-- The entry of what is left of a cookie when its first bytes up to 'A' are taken
for padding. -/
def Cookie.bare (tester : List CStr) (c : Cookie) : Option Kv :=
  segmentEntry .cookie tester c.text

/-- In the last segment an '=' counts only with a byte behind it. -/
def segmentLast (type : KvType) (tester : List CStr) (segment : Bytes) : Option Kv :=
  if 61 ∈ (segment.dropWhile fun b => !decide (b.toInt8 > 65)).dropLast then
    segmentEntry type tester segment
  else none

def Cookie.bareLast (tester : List CStr) (c : Cookie) : Option Kv :=
  segmentLast .cookie tester c.text

def bareEntries (tester : List CStr) (cookies : List Cookie) : List Kv :=
  cookies.dropLast.filterMap (Cookie.bare tester) ++
    (cookies.getLast?.bind (Cookie.bareLast tester)).toList

/-- The name begins with a byte that begins a key: a letter other than 'A', or '_'. -/
def Cookie.Leads (c : Cookie) : Prop := ∃ b ∈ c.name.head?, b.toInt8 > 65

def Session.cookies (s : Session) : List Kv := s.proplist.filter fun kv => kv.type = .cookie

theorem text_free (c : Cookie) (formed : c.WellFormed) : 0 ∉ c.text ∧ semicolon ∉ c.text := by
  have inside : ∀ b ∈ c.text, b ∈ c.name ∨ b = 61 ∨ b ∈ c.value := by
    intro b member
    rw [Cookie.text, List.mem_append, List.mem_cons] at member
    exact member
  constructor
  · intro nul
    rcases inside 0 nul with named | sign | valued
    · exact absurd (formed.name 0 named) (by decide)
    · exact absurd sign (by decide)
    · exact formed.value.2 valued
  · intro mark
    rcases inside semicolon mark with named | sign | valued
    · exact absurd (formed.name semicolon named) (by decide)
    · exact absurd sign (by decide)
    · exact formed.value.1 valued

theorem cookieHeader_cons (c : Cookie) (d : Cookie) (cookies : List Cookie) :
    cookieHeader (c :: d :: cookies) = c.text ++ semicolon :: 32 :: cookieHeader (d :: cookies) := by
  change c.text ++ ((asc "; " ++ d.text) ++ cookies.flatMap fun c => asc "; " ++ c.text) = _
  rw [List.append_assoc]
  rfl

/-- The segments of the header are its cookies, all but the first behind a space. -/
theorem cookieHeader_segments (c : Cookie) (cookies : List Cookie)
    (formed : ∀ d ∈ c :: cookies, d.WellFormed) :
    (cookieHeader (c :: cookies)).splitOn semicolon =
      c.text :: cookies.map fun d => 32 :: d.text := by
  induction cookies generalizing c with
  | nil =>
      rw [cookieHeader, List.flatMap_nil, List.append_nil]
      exact List.splitOn_eq_singleton (text_free c (formed c List.mem_cons_self)).2
  | cons d cookies ih =>
      have rest := ih d fun e member => formed e (List.mem_cons_of_mem c member)
      have absent := (text_free c (formed c List.mem_cons_self)).2
      rw [cookieHeader_cons, List.splitOn_append_cons_self_of_not_mem absent,
        List.splitOn_cons_eq_if_modifyHead, if_neg (by decide), rest]
      rfl

theorem cookieHeader_free (cookies : List Cookie) (formed : ∀ c ∈ cookies, c.WellFormed) :
    0 ∉ cookieHeader cookies := by
  induction cookies with
  | nil => exact List.not_mem_nil
  | cons c cookies ih =>
      have rest := ih fun d member => formed d (List.mem_cons_of_mem c member)
      have first := (text_free c (formed c List.mem_cons_self)).1
      cases cookies with
      | nil =>
          rw [cookieHeader, List.flatMap_nil, List.append_nil]
          exact first
      | cons d cookies =>
          rw [cookieHeader_cons, List.mem_append, List.mem_cons, List.mem_cons]
          rintro (named | mark | space | later)
          · exact first named
          · exact absurd mark (by decide)
          · exact absurd space (by decide)
          · exact rest later

theorem cookieHeader_last (c : Cookie) (cookies : List Cookie)
    (formed : ∀ d ∈ c :: cookies, d.WellFormed) :
    ∃ t b, cookieHeader (c :: cookies) = t ++ [b] ∧ b ≠ semicolon := by
  induction cookies generalizing c with
  | nil =>
      obtain ⟨_, _, valued, absent, _⟩ := formed c List.mem_cons_self
      refine ⟨c.name ++ 61 :: c.value.dropLast, c.value.getLast valued, ?_, ?_⟩
      · rw [cookieHeader, List.flatMap_nil, List.append_nil, Cookie.text, List.append_assoc,
          List.cons_append, List.dropLast_concat_getLast]
      · intro mark
        exact absent (mark ▸ List.getLast_mem valued)
  | cons d cookies ih =>
      obtain ⟨t, b, whole, other⟩ := ih d fun e member => formed e (List.mem_cons_of_mem c member)
      refine ⟨c.text ++ semicolon :: 32 :: t, b, ?_, other⟩
      rw [cookieHeader_cons, whole, List.append_assoc]
      rfl

/-- The space before a cookie is padding like any other byte up to 'A'. -/
theorem recorded_end_segments (split : UInt8) (tester : List CStr)
    (plain : ¬ split.toInt8 > 65 ∧ split ≠ 61) (type : KvType) (t : Bytes) (b : UInt8)
    (free : 0 ∉ t ++ [b]) (other : b ≠ split) :
    recorded type (captured (paramGrammar split tester plain) true (t ++ [b])) =
      (((t ++ [b]).splitOn split).dropLast.filterMap (segmentEntry type tester) ++
        (segmentLast type tester (((t ++ [b]).splitOn split).getLastD [])).toList).reverse := by
  have entry := segmentEntry_eq split tester plain type
  unfold recorded
  rw [captured_end_segments _ t b free other, List.map_append, List.map_filterMap]
  congr 2
  · apply congrFun
    apply congrArg
    funext segment
    exact (entry segment).symm
  · unfold segmentLast
    rw [entry]
    rw [← Option.toList_map, apply_ite (Option.map (paramKv type)), Option.map_none]
    rfl

/-- A header value gives the entries of its bare cookies. -/
theorem recorded_cookies (cfg : Configuration) (cookies : List Cookie)
    (formed : ∀ c ∈ cookies, c.WellFormed) :
    recorded .cookie (captured (cookieGrammar cfg) true (cookieHeader cookies)) =
      (bareEntries cfg.catchCookie cookies).reverse := by
  cases cookies with
  | nil => rfl
  | cons c cookies =>
      obtain ⟨t, b, whole, other⟩ := cookieHeader_last c cookies formed
      have free := cookieHeader_free (c :: cookies) formed
      have segments := cookieHeader_segments c cookies formed
      have entries : (c.text :: cookies.map fun d => 32 :: d.text).map
          (segmentEntry .cookie cfg.catchCookie) =
          (c :: cookies).map (Cookie.bare cfg.catchCookie) := by
        rw [List.map_cons, List.map_map]
        rfl
      have lasts : (c.text :: cookies.map fun d => 32 :: d.text).map
          (segmentLast .cookie cfg.catchCookie) =
          (c :: cookies).map (Cookie.bareLast cfg.catchCookie) := by
        rw [List.map_cons, List.map_map]
        rfl
      rw [whole] at free segments ⊢
      have read := recorded_end_segments semicolon cfg.catchCookie semicolonPlain .cookie t b free
        other
      apply read.trans
      rw [segments]
      apply congrArg
      have through : ∀ {α : Type} (f : α → Option Kv) (l : List α),
          l.dropLast.filterMap f = (l.map f).dropLast.filterMap id := by
        intro α f l
        rw [← List.map_dropLast, List.filterMap_map]
        rfl
      have final := congrArg List.getLast? lasts
      rw [List.getLast?_map, List.getLast?_map] at final
      unfold bareEntries
      rw [through (segmentEntry .cookie cfg.catchCookie), entries, ← through,
        List.getLastD_eq_getLast?]
      apply congrArg
      cases last : (c :: cookies).getLast? with
      | none => exact absurd (List.getLast?_eq_none_iff.mp last) (List.cons_ne_nil c cookies)
      | some d =>
          rw [last] at final
          obtain ⟨segment, found, same⟩ := Option.map_eq_some_iff.mp final
          rw [found, Option.getD_some, same]
          rfl

end Bscope
