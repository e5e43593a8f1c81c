import Bscope.Filings
import Bscope.HeaderState
import Bscope.PostAdjacency

set_option autoImplicit false

namespace Bscope

open Scanner

/-- What a callback is handed by its parser. -/
def Event.data : Event → Bytes
  | .requestUrl data => data
  | .requestHeaderField data => data
  | .requestHeaderValue data => data
  | .requestBody data => data
  | .reponseHeaderField data => data
  | .reponseHeaderValue data => data
  | .responseBody data => data
  | _ => []

/-- The largest `int`: a parser is handed the bytes of one packet with their
number in an `int`, and hands on pieces of them. -/
def INT_MAX : Nat := 2147483647

/-- The strings of a session that a report measures with an `int`. -/
structure Sized (s : Session) : Prop where
  path : ∀ p ∈ s.path, p.strlen ≤ INT_MAX
  host : ∀ p ∈ s.host, p.strlen ≤ INT_MAX
  referer : ∀ p ∈ s.referer, p.strlen ≤ INT_MAX
  values : ∀ kv ∈ s.proplist, kv.value.strlen ≤ INT_MAX

theorem sized_init : Sized sessionInit := ⟨nofun, nofun, nofun, nofun⟩

theorem recorded_sized (g : Grammar UInt8) (ce : Bool) (type : KvType) (text : Bytes)
    (short : text.length ≤ INT_MAX) :
    ∀ kv ∈ recorded type (captured g ce text), kv.value.strlen ≤ INT_MAX := by
  intro kv member
  rw [recorded, List.mem_reverse, List.mem_map] at member
  obtain ⟨⟨name, value⟩, found, rfl⟩ := member
  have inside := (captured_spec g ce text name value found).1.length_le
  have before := (List.takeWhile_prefix (· ≠ 0) (l := text)).length_le
  have cut := (cstr_bytes_isPrefix value).length_le
  rw [List.length_append, List.length_cons] at inside
  change (cstr value).bytes.length ≤ _
  omega

theorem headerEntries_sized (header : Option CStr) (type : KvType) (data : Bytes)
    (short : data.length ≤ INT_MAX) :
    ∀ kv ∈ headerEntries header type data, kv.value.strlen ≤ INT_MAX := by
  intro kv member
  rw [headerEntries, List.mem_map] at member
  obtain ⟨key, -, rfl⟩ := member
  exact (strndup_strlen_le data data.length).trans short

theorem captures_sized (cfg : Configuration) (s : Session) (e : Event)
    (room : s.postBuf.length < POST_BUF_LENGTH) (short : e.data.length ≤ INT_MAX) :
    ∀ kv ∈ captures cfg s e, kv.value.strlen ≤ INT_MAX := by
  intro kv member
  have small : POST_BUF_LENGTH ≤ INT_MAX := by decide
  cases e with
  | requestUrl data =>
      change kv ∈ recorded .get (urlPairs cfg data) at member
      unfold urlPairs at member
      split at member
      · split at member
        · rename_i p query
          obtain ⟨inside, nonempty⟩ := strchr_suffix _ _ _ query
          have size := inside.length_le.trans (strndup_strlen_le data data.length)
          have positive := List.length_pos_of_ne_nil nonempty
          refine recorded_sized _ _ _ _ ?_ kv member
          change data.length ≤ _ at short
          rw [List.length_append, List.length_tail, List.length_singleton]
          omega
        · cases member
      · cases member
  | requestHeaderValue data =>
      rw [captures, List.mem_append] at member
      rcases member with cookie | header
      · split at cookie
        · exact recorded_sized _ _ _ _ short kv cookie
        · cases cookie
      · exact headerEntries_sized _ _ _ short kv header
  | requestBody data =>
      change kv ∈ recorded .post (chunkPairs cfg s data) at member
      unfold chunkPairs at member
      split at member
      · cases member
      · split at member
        · exact recorded_sized _ _ _ _ short kv member
        · rw [recorded_append, List.mem_append] at member
          rcases member with second | first
          · split at second
            · cases second
            · refine recorded_sized _ _ _ _ ?_ kv second
              change data.length ≤ _ at short
              unfold rescanned
              split
              · exact short
              · split
                · rw [List.length_drop]
                  omega
                · exact short
          · have joint := joined_length s.postBuf data room
            exact recorded_sized _ _ _ _ (by omega) kv first
  | requestComplete =>
      rw [captures] at member
      split at member
      · exact recorded_sized _ _ _ _ (by omega) kv member
      · cases member
  | reponseHeaderValue data => exact headerEntries_sized _ _ _ short kv member
  | _ => cases member

theorem requestHeaderValue_strings (cfg : Configuration) (s : Session) (data : Bytes) :
    ((requestHeaderValue cfg s data).host = s.host ∨
        (requestHeaderValue cfg s data).host = some (strndup data data.length)) ∧
      ((requestHeaderValue cfg s data).referer = s.referer ∨
        (requestHeaderValue cfg s data).referer = some (strndup data data.length)) := by
  have host := requestHeaderValue_known cfg s data .host
  have referer := requestHeaderValue_known cfg s data .referer
  rw [strndup_length]
  constructor
  · split at host
    · exact Or.inr host
    · exact Or.inl host
  · split at referer
    · exact Or.inr referer
    · exact Or.inl referer

theorem step_sized (ctx : Context) (c : Conn) (now : Moment) (e : Event) (room : Room c)
    (sized : Sized c.s) (short : e.data.length ≤ INT_MAX) :
    Sized (step ctx c (now, e)).1.s := by
  by_cases silent : (step ctx c (now, e)).2 = none
  · have kept := step_kept ctx c now e silent
    have copied : ∀ data : Bytes, data.length ≤ INT_MAX →
        ∀ p ∈ some (strndup data data.length), p.strlen ≤ INT_MAX := by
      intro data short p same
      obtain rfl := Option.some.inj same
      exact (strndup_strlen_le data data.length).trans short
    have heads : (∀ p ∈ (step ctx c (now, e)).1.s.host, p.strlen ≤ INT_MAX) ∧
        ∀ p ∈ (step ctx c (now, e)).1.s.referer, p.strlen ≤ INT_MAX := by
      by_cases value : ∃ data, e = .requestHeaderValue data
      · obtain ⟨data, rfl⟩ := value
        obtain ⟨host, referer⟩ := requestHeaderValue_strings ctx.cfg c.s data
        constructor
        · change ∀ p ∈ (requestHeaderValue ctx.cfg c.s data).host, _
          rcases host with same | new
          · rw [same]
            exact sized.host
          · rw [new]
            exact copied data short
        · change ∀ p ∈ (requestHeaderValue ctx.cfg c.s data).referer, _
          rcases referer with same | new
          · rw [same]
            exact sized.referer
          · rw [new]
            exact copied data short
      · obtain ⟨host, referer⟩ := kept.heads fun data same => value ⟨data, same⟩
        rw [host, referer]
        exact ⟨sized.host, sized.referer⟩
    refine ⟨?_, heads.1, heads.2, ?_⟩
    · by_cases url : ∃ data, e = .requestUrl data
      · obtain ⟨data, rfl⟩ := url
        obtain ⟨_, framed⟩ := requestUrl_frame ctx.cfg c.s data
        change ∀ p ∈ (requestUrl ctx.cfg c.s data).path, _
        rw [framed]
        exact copied data short
      · rw [kept.path fun data same => url ⟨data, same⟩]
        exact sized.path
    · rw [step_proplist ctx c now e room silent]
      intro kv member
      rcases List.mem_append.mp member with new | old
      · exact captures_sized ctx.cfg c.s e room short kv new
      · exact sized.values kv old
  · rw [step_answered ctx c now e silent]
    exact sized_init

def Event.bodyPiece : Event → Option Bytes
  | .responseBody data => some data
  | _ => none

/-- The fragments of a response body that a run delivers, in order. -/
def bodyPieces (run : List (Moment × Event)) : List Bytes := run.filterMap fun e => e.2.bodyPiece

/-- The stored fragments are delivered ones, in order, and their sizes add up. -/
structure Gathered (s : Session) (pieces : List Bytes) : Prop where
  sizes : ∀ b ∈ s.responseBody, b.size = b.data.length
  total : (s.responseBody.map BodyBuf.data).flatten.length = s.responseBodySize
  small : s.responseBodySize < 65535
  order : (s.responseBody.map BodyBuf.data).Sublist pieces

theorem gathered_init (pieces : List Bytes) : Gathered sessionInit pieces :=
  ⟨nofun, rfl, by decide, List.nil_sublist _⟩

theorem responseBody_gathered (s : Session) (data : Bytes) (pieces : List Bytes)
    (gathered : Gathered s pieces) : Gathered (responseBody s data) (pieces ++ [data]) := by
  have same : Gathered s (pieces ++ [data]) :=
    ⟨gathered.sizes, gathered.total, gathered.small,
      gathered.order.trans (List.sublist_append_left _ _)⟩
  unfold responseBody
  split
  · split
    · rename_i fits
      have total := gathered.total
      have size : (s.responseBodySize + data.length) % 65536 = s.responseBodySize + data.length :=
        Nat.mod_eq_of_lt (by omega)
      constructor
      · intro b member
        rcases List.mem_append.mp member with old | new
        · exact gathered.sizes b old
        · rw [List.mem_singleton.mp new]
          exact Nat.mod_eq_of_lt (by omega)
      · change (List.map BodyBuf.data (s.responseBody ++ [_])).flatten.length =
          (s.responseBodySize + data.length) % 65536
        rw [size, List.map_append, List.flatten_append, List.length_append, total]
        simp
      · change (s.responseBodySize + data.length) % 65536 < 65535
        rw [size]
        exact fits
      · rw [List.map_append]
        exact gathered.order.append (List.Sublist.refl [data])
    · exact same
  · exact same

theorem step_gathered (ctx : Context) (c : Conn) (now : Moment) (e : Event) (pieces : List Bytes)
    (gathered : Gathered c.s pieces) :
    Gathered (step ctx c (now, e)).1.s (pieces ++ e.bodyPiece.toList) := by
  by_cases silent : (step ctx c (now, e)).2 = none
  · by_cases body : ∃ data, e = .responseBody data
    · obtain ⟨data, rfl⟩ := body
      exact responseBody_gathered c.s data pieces gathered
    · obtain ⟨stored, size⟩ := (step_kept ctx c now e silent).body fun data same => body ⟨data, same⟩
      constructor
      · rw [stored]
        exact gathered.sizes
      · rw [stored, size]
        exact gathered.total
      · rw [size]
        exact gathered.small
      · rw [stored]
        exact gathered.order.trans (List.sublist_append_left _ _)
  · rw [step_answered ctx c now e silent]
    exact gathered_init _

/-- Every session a run reaches has its strings sized and its body gathered. -/
theorem after_sound (ctx : Context) (stat : Status) (run : List (Moment × Event))
    (short : ∀ e ∈ run, e.2.data.length ≤ INT_MAX) :
    Sized (after ctx (connStart stat) run).s ∧
      Gathered (after ctx (connStart stat) run).s (bodyPieces run) := by
  induction run using List.reverseRecOn with
  | nil => exact ⟨sized_init, gathered_init _⟩
  | append_singleton run e ih =>
      obtain ⟨sized, gathered⟩ := ih fun e' member => short e' (List.mem_append_left _ member)
      have room := room_after ctx (connStart stat) run (room_start stat)
      have pieces : bodyPieces (run ++ [e]) = bodyPieces run ++ e.2.bodyPiece.toList := by
        rw [bodyPieces, List.filterMap_append]
        cases piece : e.2.bodyPiece <;> simp [bodyPieces, piece]
      unfold after at *
      rw [Runs.after_snoc, pieces]
      exact ⟨step_sized ctx _ e.1 e.2 room sized (short e (by simp)),
        step_gathered ctx _ e.1 e.2 _ gathered⟩

theorem gathered_pieces (s : Session) (pieces : List Bytes) (gathered : Gathered s pieces) :
    (s.responseBody.map fun b => b.data.take b.size) = s.responseBody.map BodyBuf.data := by
  refine List.map_congr_left fun b member => ?_
  rw [gathered.sizes b member, List.take_length]

theorem sized_kept {s s' : Session} (sized : Sized s) (entries : s'.proplist = s.proplist)
    (kept : Kept .responseBegin s s') : Sized s' := by
  obtain ⟨host, referer⟩ := kept.heads nofun
  exact ⟨kept.path nofun ▸ sized.path, host ▸ sized.host, referer ▸ sized.referer,
    entries ▸ sized.values⟩

theorem gathered_kept {s s' : Session} {run : List (Moment × Event)}
    (back : List (Moment × Event)) (gathered : Gathered s (bodyPieces run))
    (kept : Kept .responseBegin s s') : Gathered s' (bodyPieces (run ++ back)) := by
  obtain ⟨stored, size⟩ := kept.body nofun
  have more : bodyPieces (run ++ back) = bodyPieces run ++ bodyPieces back := List.filterMap_append
  constructor
  · rw [stored]
    exact gathered.sizes
  · rw [stored, size]
    exact gathered.total
  · rw [size]
    exact gathered.small
  · rw [stored, more]
    exact gathered.order.trans (List.sublist_append_left _ _)

end Bscope
