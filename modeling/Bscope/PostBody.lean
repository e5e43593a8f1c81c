import Bscope.Callback
import Bscope.ParseStringSpec
import Bscope.ScannerResume

set_option autoImplicit false

namespace Bscope

open Scanner

theorem ampPlain : ¬ amp.toInt8 > 65 ∧ amp ≠ 61 := by decide

/-- The grammar of a urlencoded body. -/
def postGrammar (cfg : Configuration) : Grammar UInt8 := paramGrammar amp cfg.catchPost ampPlain

/-- The entries recorded for captured pairs, newest first. -/
def recorded (type : KvType) (pairs : List (Bytes × Bytes)) : List Kv :=
  (pairs.map (paramKv type)).reverse

@[simp] theorem recorded_nil (type : KvType) : recorded type [] = [] := rfl

theorem recorded_append (type : KvType) (first second : List (Bytes × Bytes)) :
    recorded type (first ++ second) = recorded type second ++ recorded type first := by
  simp [recorded]

@[simp] theorem recorded_length (type : KvType) (pairs : List (Bytes × Bytes)) :
    (recorded type pairs).length = pairs.length := by
  simp [recorded]

/-- The text that a scan leaves unfinished; a NUL leaves nothing. -/
def unfinished (g : Grammar UInt8) (text : Bytes) : Bytes :=
  if 0 ∈ text then [] else since g (scan g start text)

/-- What of it fits the carry-over buffer. -/
def carry (g : Grammar UInt8) (text : Bytes) : Bytes :=
  if (unfinished g text).length < POST_BUF_LENGTH then unfinished g text else []

theorem unfinished_suffix (g : Grammar UInt8) (text : Bytes) : unfinished g text <:+ text := by
  unfold unfinished
  split
  · exact List.nil_suffix
  · exact since_suffix g text

theorem carry_suffix (g : Grammar UInt8) (text : Bytes) : carry g text <:+ text := by
  unfold carry
  split
  · exact unfinished_suffix g text
  · exact List.nil_suffix

theorem carry_length (g : Grammar UInt8) (text : Bytes) : (carry g text).length < POST_BUF_LENGTH := by
  unfold carry
  split
  · assumption
  · decide

theorem scan_block (split : UInt8) (tester : List CStr)
    (plain : ¬ split.toInt8 > 65 ∧ split ≠ 61) (type : KvType) (s : Session) (ce : Bool)
    (text : Bytes) :
    ParseSpec (paramGrammar split tester plain) type s ce text
      (parseString split text text.length type tester s ce) := by
  have spec := parseString_spec split tester plain type s text text.length ce (Or.inl le_rfl)
  rwa [List.take_length] at spec

theorem drop_keyStart (g : Grammar UInt8) (text : Bytes) (p : Nat)
    (key : keyStart g text = some p) :
    text.drop p = since g (scan g start text) ∧
      p + (since g (scan g start text)).length = text.length := by
  obtain ⟨front, whole⟩ := since_suffix g text
  have size := congrArg List.length whole
  rw [List.length_append] at size
  unfold keyStart at key
  split at key
  · cases key
  · obtain rfl := Option.some.inj key
    refine ⟨?_, by omega⟩
    rw [show text.length - (since g (scan g start text)).length = front.length by omega]
    conv_lhs => rw [← whole]
    exact List.drop_left

theorem bufPush_eq (s : Session) (p : Bytes) (len : Int) :
    bufPush s p len = { s with
      postBuf := s.postBuf ++ p.take (min len (POST_BUF_LENGTH - s.postBuf.length - 1)).toNat } := rfl

theorem keyStart_none (g : Grammar UInt8) (text : Bytes) :
    keyStart g text = none ↔ since g (scan g start text) = [] := by
  unfold keyStart
  split <;> simp [*]

/-- A push of what fits keeps all of it. -/
theorem bufPush_fits (s : Session) (p : Bytes)
    (fits : s.postBuf.length + p.length < POST_BUF_LENGTH) :
    bufPush s p p.length = { s with postBuf := s.postBuf ++ p } := by
  rw [bufPush_eq, Int.min_eq_left (by omega), Int.toNat_natCast, List.take_length]

theorem bufPush_postBuf (s : Session) (p : Bytes) (held : s.postBuf.length < POST_BUF_LENGTH) :
    bufPush s p p.length =
      { s with postBuf := s.postBuf ++ p.take (POST_BUF_LENGTH - 1 - s.postBuf.length) } := by
  by_cases fits : s.postBuf.length + p.length < POST_BUF_LENGTH
  · rw [bufPush_fits s p fits, List.take_of_length_le (by omega)]
  · rw [bufPush_eq, Int.min_eq_right (by omega)]
    congr 3
    omega

/-- The buffer after a chunk was pushed onto it. -/
def joined (carried data : Bytes) : Bytes :=
  carried ++ data.take (POST_BUF_LENGTH - 1 - carried.length)

theorem joined_length (carried data : Bytes) (room : carried.length < POST_BUF_LENGTH) :
    (joined carried data).length < POST_BUF_LENGTH := by
  simp only [joined, List.length_append, List.length_take]
  omega

/-- The part of the chunk behind which the buffer was emptied. -/
def rescanned (g : Grammar UInt8) (carried data : Bytes) : Bytes :=
  if 0 ∈ joined carried data then data
  else match keyStart g (joined carried data) with
    | some p => data.drop (p - carried.length)
    | none => data

/-- The entries that a scan adds to those the session has. -/
def Session.record (s : Session) (type : KvType) (pairs : List (Bytes × Bytes)) : Session :=
  { s with proplist := recorded type pairs ++ s.proplist }

/-- The session with this text in its carry-over buffer. -/
def Session.carrying (s : Session) (postBuf : Bytes) : Session := { s with postBuf := postBuf }

theorem record_record (s : Session) (type : KvType) (first second : List (Bytes × Bytes)) :
    (s.record type first).record type second = s.record type (first ++ second) := by
  simp [Session.record, recorded_append]

section Chunk

variable (cfg : Configuration) (s : Session) (data : Bytes)

theorem requestBodyScan_eq (fresh : s.postBuf = []) :
    requestBodyScan cfg s data =
      (s.record .post (captured (postGrammar cfg) false data)).carrying
        (carry (postGrammar cfg) data) := by
  have spec : ParseSpec (postGrammar cfg) .post s false data _ :=
    scan_block amp cfg.catchPost ampPlain .post s false data
  have kept : (s.record .post (captured (postGrammar cfg) false data)).carrying [] =
      s.record .post (captured (postGrammar cfg) false data) := by
    rw [← fresh]
    rfl
  unfold requestBodyScan
  simp only [spec.ret, spec.session]
  by_cases nul : 0 ∈ data
  · simp only [nul, ↓reduceIte, carry, unfinished, List.length_nil, ite_self]
    exact kept.symm
  · simp only [nul, ↓reduceIte, carry, unfinished]
    cases key : keyStart (postGrammar cfg) data with
    | none =>
        rw [(keyStart_none _ data).mp key]
        simp only [List.length_nil, ite_self]
        exact kept.symm
    | some p =>
        obtain ⟨rest, size⟩ := drop_keyStart (postGrammar cfg) data p key
        simp only [rest, show ((data.length : Int) - (p : Int)) =
          ((since (postGrammar cfg) (scan (postGrammar cfg) start data)).length : Int) by omega]
        by_cases small : (since (postGrammar cfg) (scan (postGrammar cfg) start data)).length <
            POST_BUF_LENGTH
        · rw [if_pos (by omega), if_pos small, bufPush_fits _ _ (by simpa [fresh] using small)]
          simp only [fresh, List.nil_append]
          rfl
        · rw [if_neg (by omega), if_neg small]
          exact kept.symm

theorem requestBodyRescan_eq (room : s.postBuf.length < POST_BUF_LENGTH) :
    requestBodyRescan cfg s data =
      if 0 ∉ joined s.postBuf data ∧ keyStart (postGrammar cfg) (joined s.postBuf data) = some 0 then
        ((s.record .post (captured (postGrammar cfg) false (joined s.postBuf data))).carrying
          (joined s.postBuf data), data)
      else
        ((s.record .post (captured (postGrammar cfg) false (joined s.postBuf data))).carrying [],
          rescanned (postGrammar cfg) s.postBuf data) := by
  have spec : ParseSpec (postGrammar cfg) .post { s with postBuf := joined s.postBuf data } false
      (joined s.postBuf data) _ :=
    scan_block amp cfg.catchPost ampPlain .post _ false (joined s.postBuf data)
  have pushed : bufPush s data data.length = { s with postBuf := joined s.postBuf data } :=
    bufPush_postBuf s data room
  unfold requestBodyRescan
  simp only [pushed, spec.ret, spec.session]
  by_cases nul : 0 ∈ joined s.postBuf data
  · simp only [nul, ↓reduceIte, not_true_eq_false, false_and, rescanned]
    rfl
  · cases key : keyStart (postGrammar cfg) (joined s.postBuf data) with
    | none =>
        simp only [nul, ↓reduceIte, reduceCtorEq, and_false, rescanned, key]
        rfl
    | some p =>
        cases p with
        | zero =>
            simp only [nul, ↓reduceIte, gt_iff_lt, Nat.lt_irrefl, not_false_eq_true, and_self]
            rfl
        | succ p =>
            simp only [nul, ↓reduceIte, gt_iff_lt, Nat.zero_lt_succ, rescanned, key,
              show ¬ (some (p + 1) = some 0) by simp, and_false]
            rw [show (((p + 1 : Nat) : Int) - (s.postBuf.length : Int)).toNat =
              p + 1 - s.postBuf.length by omega]
            rfl

/-- One chunk of a body that is captured. -/
theorem requestBody_eq (posts : 0 < cfg.catchPost.length) (plain : s.requestMultipart ≠ IS_MULTIPART)
    (room : s.postBuf.length < POST_BUF_LENGTH) :
    requestBody cfg s data =
      if s.postBuf = [] then
        (s.record .post (captured (postGrammar cfg) false data)).carrying
          (carry (postGrammar cfg) data)
      else if 0 ∉ joined s.postBuf data ∧
          keyStart (postGrammar cfg) (joined s.postBuf data) = some 0 then
        (s.record .post (captured (postGrammar cfg) false (joined s.postBuf data))).carrying
          (joined s.postBuf data)
      else
        (s.record .post (captured (postGrammar cfg) false (joined s.postBuf data) ++
            captured (postGrammar cfg) false
              (rescanned (postGrammar cfg) s.postBuf data))).carrying
          (carry (postGrammar cfg) (rescanned (postGrammar cfg) s.postBuf data)) := by
  unfold requestBody
  rw [if_pos posts, if_neg plain]
  by_cases fresh : s.postBuf = []
  · simp only [fresh, List.length_nil, Nat.lt_irrefl, ↓reduceIte]
    exact requestBodyScan_eq cfg s data fresh
  · have held : 0 < s.postBuf.length := List.length_pos_of_ne_nil fresh
    rw [if_pos held, if_neg fresh, requestBodyRescan_eq cfg s data room]
    by_cases stays : 0 ∉ joined s.postBuf data ∧
        keyStart (postGrammar cfg) (joined s.postBuf data) = some 0
    · have kept : (joined s.postBuf data).length ≠ 0 := by
        simp only [joined, List.length_append]
        omega
      rw [if_pos stays, if_pos stays]
      exact if_neg kept
    · rw [if_neg stays, if_neg stays, ← record_record]
      exact requestBodyScan_eq cfg _ _ rfl

theorem requestComplete_eq (now : Moment) (posts : 0 < cfg.catchPost.length) :
    requestComplete cfg s now = (sessionTimeMark s (some .reqTime) now.tv).record .post
      (captured (postGrammar cfg) true s.postBuf) := by
  have spec : ParseSpec (postGrammar cfg) .post (sessionTimeMark s (some .reqTime) now.tv) true
      s.postBuf _ := scan_block amp cfg.catchPost ampPlain .post _ true s.postBuf
  unfold requestComplete
  dsimp only
  by_cases held : 0 < s.postBuf.length
  · rw [sessionTimeMark_postBuf, if_pos ⟨posts, held⟩, spec.session]
    rfl
  · have none : s.postBuf = [] := List.length_eq_zero_iff.mp (by omega)
    rw [sessionTimeMark_postBuf, if_neg (fun both => held both.2), none]
    rfl

end Chunk

/-- A body delivered in chunks, and the end of the request. -/
def bodyRun (cfg : Configuration) (s : Session) (chunks : List Bytes) (now : Moment) : Session :=
  requestComplete cfg (chunks.foldl (requestBody cfg) s) now

theorem bodyRun_nothing (cfg : Configuration) (s : Session) (chunks : List Bytes) (now : Moment)
    (none : ¬ 0 < cfg.catchPost.length) : (bodyRun cfg s chunks now).proplist = s.proplist := by
  have same : ∀ s data, requestBody cfg s data = s := by
    intro s data
    simp [requestBody, none]
  have stays : chunks.foldl (requestBody cfg) s = s := by
    induction chunks with
    | nil => rfl
    | cons data chunks ih => rwa [List.foldl_cons, same]
  simp [bodyRun, requestComplete, stays, none]

end Bscope
