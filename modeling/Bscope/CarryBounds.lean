import Bscope.PostAdjacency
import Bscope.Sizes

set_option autoImplicit false

/- The pointers and lengths that `request_body` computes on its way. -/
namespace Bscope

open Scanner

/-- One use of the carry-over arithmetic: a scan with what it read and the length
it was given, a move of `at` by `next`, the value of `more`, and a copy of so many
bytes behind those held. -/
inductive BodyUse where
  | scan (reads length : Nat)
  | advance (next : Int) (length : Nat)
  | more (value : Int)
  | copy (held : Nat) (len : Int)
deriving DecidableEq

def BodyUse.InBounds : BodyUse → Prop
  | .scan reads length => reads ≤ length
  | .advance next length => 0 ≤ next ∧ next ≤ length
  | .more value => 1 ≤ value
  | .copy held len => 0 ≤ len ∧ held + len ≤ POST_BUF_LENGTH - 1

/-- `buf_push` takes its length as an `int`. -/
def bufPushUse (s : Session) (len : Int) : BodyUse :=
  .copy s.postBuf.length (min (toInt len) (POST_BUF_LENGTH - s.postBuf.length - 1))

/-- The uses of the first scan. -/
def rescanUses (cfg : Configuration) (s : Session) (data : Bytes) : List BodyUse :=
  let lastPostBufLen := s.postBuf.length
  let copied := bufPushUse s data.length
  let s := bufPush s data data.length
  let r := parseString amp s.postBuf s.postBuf.length .post cfg.catchPost s false
  copied :: .scan r.reads s.postBuf.length ::
    match r.ret with
    | some p => if p > 0 then [.advance (p - lastPostBufLen) data.length] else []
    | none => []

/-- The uses of the second scan. -/
def scanUses (cfg : Configuration) (s : Session) (data : Bytes) : List BodyUse :=
  let r := parseString amp data data.length .post cfg.catchPost s false
  .scan r.reads data.length ::
    match r.ret with
    | some p =>
        let more := toInt (data.length - p)
        .more more :: if more < POST_BUF_LENGTH then [bufPushUse r.s more] else []
    | none => []

def bodyUses (cfg : Configuration) (s : Session) (data : Bytes) : List BodyUse :=
  if 0 < cfg.catchPost.length then
    if s.requestMultipart = IS_MULTIPART then []
    else
      let uses := if 0 < s.postBuf.length then rescanUses cfg s data else []
      let (s, data) := if 0 < s.postBuf.length then requestBodyRescan cfg s data else (s, data)
      uses ++ if s.postBuf.length = 0 then scanUses cfg s data else []
  else []

theorem toInt_small (n : Nat) (small : n ≤ INT_MAX) : toInt n = n := by
  unfold toInt
  unfold INT_MAX at small
  rw [Int.bmod_def]
  split <;> omega

theorem bufPushUse_inBounds (s : Session) (n : Nat) (small : n ≤ INT_MAX)
    (room : s.postBuf.length < POST_BUF_LENGTH) : (bufPushUse s n).InBounds := by
  unfold bufPushUse BodyUse.InBounds
  rw [toInt_small n small]
  omega

theorem ret_key (cfg : Configuration) (s : Session) (text : Bytes) (p : Nat)
    (found : (parseString amp text text.length .post cfg.catchPost s false).ret = some p) :
    keyStart (postGrammar cfg) text = some p := by
  have spec := scan_block amp cfg.catchPost ampPlain .post s false text
  rw [spec.ret rfl] at found
  split at found
  · cases found
  · exact found

/-- The second scan starts with an empty buffer, and keeps at least the byte its
last key begins with. -/
theorem scanUses_inBounds (cfg : Configuration) (s : Session) (data : Bytes)
    (small : data.length ≤ INT_MAX) (fresh : s.postBuf = []) :
    ∀ use ∈ scanUses cfg s data, use.InBounds := by
  have spec := scan_block amp cfg.catchPost ampPlain .post s false data
  have room : (parseString amp data data.length .post cfg.catchPost s false).s.postBuf.length <
      POST_BUF_LENGTH := by
    rw [spec.session, fresh]
    decide
  unfold scanUses
  dsimp only
  rw [List.forall_mem_cons]
  refine ⟨spec.reads, ?_⟩
  split
  · rename_i p found
    obtain ⟨rest, size⟩ := drop_keyStart _ data p (ret_key cfg s data p found)
    have some_key : since (postGrammar cfg) (scan (postGrammar cfg) start data) ≠ [] := by
      intro none
      have key := ret_key cfg s data p found
      rw [(keyStart_none _ data).mpr none] at key
      cases key
    have positive := List.length_pos_of_ne_nil some_key
    have value : toInt (data.length - p) = (data.length - p : Nat) := by
      rw [← toInt_small (data.length - p) (by omega), Int.natCast_sub (by omega)]
    rw [value, List.forall_mem_cons]
    refine ⟨?_, ?_⟩
    · change (1 : Int) ≤ (data.length - p : Nat)
      omega
    · split
      · rw [List.forall_mem_singleton]
        exact bufPushUse_inBounds _ _ (by omega) room
      · exact List.forall_mem_nil _
  · exact List.forall_mem_nil _

/-- In the first scan the last key lies behind the carried bytes, or is their own. -/
theorem rescanUses_inBounds (cfg : Configuration) (s : Session) (received data : Bytes)
    (small : data.length ≤ INT_MAX) (carries : Carries cfg received s) (held : s.postBuf ≠ []) :
    ∀ use ∈ rescanUses cfg s data, use.InBounds := by
  have room := carries.room
  have pushed : bufPush s data data.length = { s with postBuf := joined s.postBuf data } :=
    bufPush_postBuf s data room
  unfold rescanUses
  dsimp only
  rw [pushed, List.forall_mem_cons, List.forall_mem_cons]
  refine ⟨bufPushUse_inBounds s _ small room, ?_, ?_⟩
  · exact (scan_block amp cfg.catchPost ampPlain .post _ false (joined s.postBuf data)).reads
  · split
    · rename_i p found
      split
      · rename_i later
        have key := ret_key cfg _ (joined s.postBuf data) p found
        have behind := carries.next data p held key later
        obtain ⟨-, size⟩ := drop_keyStart _ _ p key
        have within : p - s.postBuf.length ≤ data.length := by
          rw [joined, List.length_append, List.length_take] at size
          omega
        rw [List.forall_mem_singleton]
        change (0 : Int) ≤ p - s.postBuf.length ∧ (p : Int) - s.postBuf.length ≤ data.length
        omega
      · exact List.forall_mem_nil _
    · exact List.forall_mem_nil _

/-- All uses of one chunk are in bounds when the buffer carries one key. -/
theorem bodyUses_inBounds (cfg : Configuration) (s : Session) (received data : Bytes)
    (small : data.length ≤ INT_MAX) (carries : Carries cfg received s) :
    ∀ use ∈ bodyUses cfg s data, use.InBounds := by
  unfold bodyUses
  split
  · rw [if_neg carries.plain]
    by_cases held : s.postBuf = []
    · have empty : ¬ 0 < s.postBuf.length := by
        rw [held]
        exact Nat.lt_irrefl 0
      simp only [if_neg empty, List.nil_append]
      split
      · exact scanUses_inBounds cfg s data small held
      · exact List.forall_mem_nil _
    · have some_held : 0 < s.postBuf.length := List.length_pos_of_ne_nil held
      simp only [if_pos some_held]
      rw [List.forall_mem_append]
      refine ⟨rescanUses_inBounds cfg s received data small carries held, ?_⟩
      split
      · rename_i emptied
        have part : (requestBodyRescan cfg s data).2.length ≤ data.length := by
          rw [requestBodyRescan_eq cfg s data carries.room]
          split
          · exact Nat.le_refl _
          · exact (rescanned_suffix (postGrammar cfg) s.postBuf data).length_le
        exact scanUses_inBounds cfg _ _ (part.trans small) (List.length_eq_zero_iff.mp emptied)
      · exact List.forall_mem_nil _
  · exact List.forall_mem_nil _

/-- A body that is not captured leaves the session alone and computes nothing. -/
theorem requestBody_off (cfg : Configuration) (s : Session) (data : Bytes)
    (off : ¬ (0 < cfg.catchPost.length ∧ s.requestMultipart ≠ IS_MULTIPART)) :
    requestBody cfg s data = s ∧ bodyUses cfg s data = [] := by
  unfold requestBody bodyUses
  split
  · rename_i posts
    have multipart : s.requestMultipart = IS_MULTIPART := by
      by_contra plain
      exact off ⟨posts, plain⟩
    rw [if_pos multipart, if_pos multipart]
    exact ⟨rfl, rfl⟩
  · exact ⟨rfl, rfl⟩

theorem chunks_off (cfg : Configuration) (s : Session) (chunks : List Bytes)
    (off : ¬ (0 < cfg.catchPost.length ∧ s.requestMultipart ≠ IS_MULTIPART)) :
    chunks.foldl (requestBody cfg) s = s := by
  induction chunks with
  | nil => rfl
  | cons data chunks ih =>
      rw [List.foldl_cons, (requestBody_off cfg s data off).1]
      exact ih

/-- Whatever chunks came before, every pointer and length of the next chunk is in
bounds, and a byte of the buffer stays free. -/
theorem requestBody_inBounds (cfg : Configuration) (s : Session) (chunks : List Bytes)
    (fresh : s.postBuf = []) (small : ∀ data ∈ chunks, data.length ≤ INT_MAX) :
    ∀ front data back, chunks = front ++ data :: back →
      (∀ use ∈ bodyUses cfg (front.foldl (requestBody cfg) s) data, use.InBounds) ∧
        ((front ++ [data]).foldl (requestBody cfg) s).postBuf.length ≤ POST_BUF_LENGTH - 1 := by
  intro front data back split
  by_cases on : 0 < cfg.catchPost.length ∧ s.requestMultipart ≠ IS_MULTIPART
  · have initial := carries_start cfg s on.2 fresh
    have before := (chunks_adjacent cfg s [] front on.1 initial).1
    have behind := (chunks_adjacent cfg s [] (front ++ [data]) on.1 initial).1
    have short : data.length ≤ INT_MAX := by
      apply small
      rw [split]
      exact List.mem_append_right front List.mem_cons_self
    exact ⟨bodyUses_inBounds cfg _ _ data short before, Nat.le_sub_one_of_lt behind.room⟩
  · rw [chunks_off cfg s front on, chunks_off cfg s _ on, (requestBody_off cfg s data on).2, fresh]
    exact ⟨List.forall_mem_nil _, Nat.zero_le _⟩

/-- The key cut in the first chunk begins again in the second. -/
theorem requestBody_inBounds_cut :
    bodyUses catchAll ([asc "ab"].foldl (requestBody catchAll) sessionInit) (asc "c=1&d") =
        [.copy 2 5, .scan 7 7, .advance 4 5, .scan 1 1, .more 1, .copy 0 1] ∧
      ∀ use ∈ bodyUses catchAll ([asc "ab"].foldl (requestBody catchAll) sessionInit)
        (asc "c=1&d"), use.InBounds :=
  ⟨by decide +kernel, (requestBody_inBounds catchAll sessionInit [asc "ab", asc "c=1&d"] rfl (by decide)
    [asc "ab"] (asc "c=1&d") [] rfl).1⟩

end Bscope
