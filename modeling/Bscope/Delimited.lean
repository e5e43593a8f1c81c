import Bscope.QueryString
import Bscope.ScannerKeys

set_option autoImplicit false

/- `parse_string` on a text whose entries end with a delimiter: split at every
delimiter, filter, and keep the place of the last key. -/
namespace Bscope

open Scanner

theorem delimiterPlain (split : UInt8) (delimiter : split = amp ∨ split = semicolon) :
    ¬ split.toInt8 > 65 ∧ split ≠ 61 := by
  rcases delimiter with rfl | rfl
  · exact ampPlain
  · exact semicolonPlain

/-- The places of the keys of a text. -/
def keyStarts (split : UInt8) (text : Bytes) : List Nat :=
  keyPlaces (fun c => c.toInt8 > 65) 0 (text.splitOn split)

theorem keyStart_eq (split : UInt8) (tester : List CStr)
    (plain : ¬ split.toInt8 > 65 ∧ split ≠ 61) (text : Bytes) :
    keyStart (paramGrammar split tester plain) text = (keyStarts split text).getLast? :=
  sincePlace_eq (paramGrammar split tester plain) text

theorem emits_closed (split : UInt8) (tester : List CStr)
    (plain : ¬ split.toInt8 > 65 ∧ split ≠ 61) (type : KvType) (text : Bytes) :
    (emits (paramGrammar split tester plain) start text).map (paramKv type) =
      (text.splitOn split).dropLast.filterMap (segmentEntry type tester) := by
  rw [emits_eq_segments, List.map_filterMap]
  congr 1
  funext segment
  apply Eq.symm
  exact segmentEntry_eq split tester plain type segment

/-- One entry for each segment that a delimiter ends and that has a wanted key; the
place of the last key, of the unterminated segment too; and no byte read past the
length. -/
theorem parseString_delimited (split : UInt8) (delimiter : split = amp ∨ split = semicolon)
    (tester : List CStr) (type : KvType) (s : Session) (text rest : Bytes) (free : 0 ∉ text) :
    let r := parseString split (text ++ rest) text.length type tester s false
    r.s = { s with
        proplist :=
          ((text.splitOn split).dropLast.filterMap (segmentEntry type tester)).reverse ++
            s.proplist } ∧
      r.ret = (keyStarts split text).getLast? ∧ r.reads ≤ text.length := by
  have plain := delimiterPlain split delimiter
  have spec := parseString_free split tester plain type s text rest false free
  refine ⟨?_, ?_, spec.reads⟩
  · rw [spec.session, captured_of_free _ text free, emits_closed]
  · rw [spec.ret rfl, if_neg free, keyStart_eq]

/-- Padding, a segment without '=', an unwanted key, and a key that no delimiter ends. -/
theorem parseString_delimited_open :
    let r := parseString amp (asc "1Bb=x=&flag&no=1&=cc=2&dd" ++ asc "zz") 25 .post
      [lit "bb", lit "cc"] sessionInit false
    r.s.proplist = [⟨lit "cc", lit "2", .post⟩, ⟨lit "bb", lit "x=", .post⟩] ∧
      r.ret = some 23 ∧ r.reads ≤ 25 := by
  obtain ⟨entries, place, few⟩ := parseString_delimited amp (Or.inl rfl) [lit "bb", lit "cc"] .post
    sessionInit (asc "1Bb=x=&flag&no=1&=cc=2&dd") (asc "zz") (by decide)
  refine ⟨?_, ?_, few⟩
  · exact (congrArg Session.proplist entries).trans (by decide)
  · exact place.trans (by decide)

end Bscope
