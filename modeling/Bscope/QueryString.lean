import Bscope.Captures

set_option autoImplicit false

/- The query of a URL against the plain reading of it: split at every '&'. -/
namespace Bscope

open Scanner

/-- What stands behind the first '?'. -/
def query (url : Bytes) : Bytes := (url.dropWhile (· ≠ 63)).tail

/-- The entry of one segment: after the padding a key up to the first '=', and the
rest as its value. -/
def segmentEntry (type : KvType) (tester : List CStr) (segment : Bytes) : Option Kv :=
  let u := segment.dropWhile fun c => !decide (c.toInt8 > 65)
  let key := u.takeWhile (· ≠ 61)
  if 61 ∈ u ∧ isInList key key.length tester then
    some ⟨(cstr key).strtolower, cstr (u.dropWhile (· ≠ 61)).tail, type⟩
  else none

theorem segmentEntry_eq (split : UInt8) (tester : List CStr)
    (plain : ¬ split.toInt8 > 65 ∧ split ≠ 61) (type : KvType) (segment : Bytes) :
    segmentEntry type tester segment =
      (pair (paramGrammar split tester plain) (param (paramGrammar split tester plain) segment)).map
        (paramKv type) := by
  have padding : param (paramGrammar split tester plain) segment =
      segment.dropWhile fun c => !decide (c.toInt8 > 65) := rfl
  unfold segmentEntry
  rw [padding]
  dsimp only
  split
  · rename_i wanted
    rw [pair, if_pos (by exact wanted)]
    rfl
  · rename_i unwanted
    rw [pair, if_neg (by exact unwanted)]
    rfl

/-- A block that ends with a NUL gives one entry for each wanted segment before it. -/
theorem recorded_segments (split : UInt8) (tester : List CStr)
    (plain : ¬ split.toInt8 > 65 ∧ split ≠ 61) (type : KvType) (ce : Bool) (t : Bytes)
    (free : 0 ∉ t) :
    recorded type (captured (paramGrammar split tester plain) ce (t ++ [0])) =
      ((t.splitOn split).filterMap (segmentEntry type tester)).reverse := by
  have pairs : captured (paramGrammar split tester plain) ce (t ++ [0]) =
      (t.splitOn split).filterMap fun segment =>
        pair (paramGrammar split tester plain)
          (param (paramGrammar split tester plain) segment) := by
    rw [captured_nul _ ce t [] free]
    exact emits_flush_eq (paramGrammar split tester plain) t
  unfold recorded
  rw [pairs, List.map_filterMap]
  congr 2
  funext segment
  apply Eq.symm
  exact segmentEntry_eq split tester plain type segment

theorem strchr_url (url : Bytes) (free : 0 ∉ url) (asked : 63 ∈ url) :
    strchr (strndup url url.length).bytes 63 = some (url.dropWhile (· ≠ 63)) := by
  rw [strndup_length, cstr_bytes_of_free url free]
  unfold strchr
  rw [if_pos asked]

theorem query_length (url : Bytes) (asked : 63 ∈ url) : (query url).length < url.length := by
  obtain ⟨inside, nonempty⟩ := strchr_suffix url 63 (url.dropWhile (· ≠ 63)) (by
    unfold strchr
    rw [if_pos asked])
  have short := inside.length_le
  have positive := List.length_pos_of_ne_nil nonempty
  unfold query
  rw [List.length_tail]
  omega

/-- The entries of a URL are those of its query, and the scan, given the length of
the whole URL, stays within the path and its NUL. -/
theorem requestUrl_query (cfg : Configuration) (s : Session) (url : Bytes)
    (gets : 0 < cfg.catchGet.length) (free : 0 ∉ url) (asked : 63 ∈ url) :
    let path := strndup url url.length
    let scanned := parseString amp (query url ++ [0]) url.length .get cfg.catchGet
      { s with path := some path } true
    requestUrl cfg s url = scanned.s ∧
      scanned.s.proplist =
        (((query url).splitOn amp).filterMap (segmentEntry .get cfg.catchGet)).reverse ++
          s.proplist ∧
      query url ++ [0] <:+ path.bytes ++ [0] ∧ scanned.reads ≤ (query url).length + 1 := by
  have inside : 0 ∉ query url := by
    intro nul
    exact free ((List.dropWhile_suffix _).mem (List.mem_of_mem_tail nul))
  have covered : (query url ++ [0]).length ≤ url.length := by
    have short := query_length url asked
    rw [List.length_append, List.length_singleton]
    omega
  have whole : (query url ++ [0]).take url.length = query url ++ [0] :=
    List.take_of_length_le covered
  have spec := parseString_spec amp cfg.catchGet ampPlain .get
    { s with path := some (strndup url url.length) } (query url ++ [0]) url.length true
    (Or.inr (by rw [whole]; simp))
  rw [whole] at spec
  refine ⟨?_, ?_, ?_, spec.reads_nul (query url) [] rfl inside⟩
  · unfold requestUrl
    dsimp only
    rw [if_pos gets, strchr_url url free asked]
    rfl
  · rw [spec.session]
    have entries := recorded_segments amp cfg.catchGet ampPlain .get true (query url) inside
    rw [← entries]
    rfl
  · rw [strndup_length, cstr_bytes_of_free url free]
    obtain ⟨front, cut⟩ := (List.tail_suffix (url.dropWhile (· ≠ 63))).trans
      (List.dropWhile_suffix _)
    refine ⟨front, ?_⟩
    rw [← List.append_assoc]
    exact congrArg (· ++ [0]) cut

/-- The segment of digits has no key, and the last one an empty value. -/
theorem requestUrl_query_trailing :
    (requestUrl catchAll sessionInit (asc "/a?9=0&Bb=1&2&cc=")).proplist =
      [⟨lit "cc", lit "", .get⟩, ⟨lit "bb", lit "1", .get⟩] := by
  obtain ⟨scan, entries, -, -⟩ := requestUrl_query catchAll sessionInit
    (asc "/a?9=0&Bb=1&2&cc=") (by decide) (by decide) (by decide)
  rw [scan, entries]
  decide

end Bscope
