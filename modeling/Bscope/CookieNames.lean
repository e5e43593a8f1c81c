import Bscope.CookieHeader
import Bscope.HeaderState

set_option autoImplicit false

/- The cookies that are captured against those that are listed. -/
namespace Bscope

theorem tolower_tolower (c : UInt8) : tolower (tolower c) = tolower c := by
  unfold tolower
  split
  · rename_i upper
    rw [if_neg]
    rw [UInt8.le_iff_toNat_le, UInt8.le_iff_toNat_le] at upper ⊢
    rw [UInt8.toNat_add]
    simp only [UInt8.toNat_ofNat] at upper ⊢
    omega
  · rfl

/-- The comparison only sees letters of one case. -/
theorem strncasecmp_tolower (p q : Bytes) (n : Nat) :
    strncasecmp (p.map tolower) (q.map tolower) n = strncasecmp p q n := by
  have head : ∀ t : Bytes, (t.map tolower).headD 0 = tolower (t.headD 0) := by
    intro t
    cases t <;> rfl
  induction n generalizing p q with
  | zero => rfl
  | succ n ih =>
      unfold strncasecmp
      dsimp only
      simp only [head, tolower_tolower, tolower_eq_zero, ← List.map_tail, ih]

/-- A header name spelled `Cookie` in any case is taken for nothing else. -/
theorem requestHeaderField_cookie (cfg : Configuration) (s : Session) (name : Bytes)
    (spelled : name.map tolower = asc "cookie") (fresh : s.catchedCookie = 0)
    (wanted : 0 < cfg.catchCookie.length) :
    (requestHeaderField cfg s name).curField = .cookie := by
  have size : name.length = 6 := by
    have lengths := congrArg List.length spelled
    rwa [List.length_map] at lengths
  have left : ∀ text : Bytes,
      strncasecmp name text 6 = strncasecmp (asc "cookie") (text.map tolower) 6 := by
    intro text
    rw [← spelled, strncasecmp_tolower]
  have right : ∀ text : Bytes,
      strncasecmp text name 6 = strncasecmp (text.map tolower) (asc "cookie") 6 := by
    intro text
    rw [← spelled, strncasecmp_tolower]
  have cookie : strncasecmp name (asc "cookie") 6 = 0 := (left _).trans (by decide)
  have type : strncasecmp name (asc "content-type") 6 ≠ 0 := (left _).trans_ne (by decide)
  have host : strncasecmp (asc "host") name 6 ≠ 0 := (right _).trans_ne (by decide)
  have referer : strncasecmp (asc "referer") name 6 ≠ 0 := (right _).trans_ne (by decide)
  have agent : strncasecmp (asc "user-agent") name 6 ≠ 0 := (right _).trans_ne (by decide)
  rw [requestHeaderField_eq]
  dsimp only
  rw [size, if_neg host, if_neg referer, if_neg agent, if_neg fun typed => type typed.2.2]
  exact if_pos ⟨wanted, fresh, cookie⟩

/-- The flag that would stop a second Cookie header is never set. -/
theorem catchedCookie_never (ctx : Context) (stat : Status) (run : List (Moment × Event)) :
    (after ctx (connStart stat) run).s.catchedCookie = 0 := by
  apply Runs.after_induction (step ctx) (fun c => c.s.catchedCookie = 0) (connStart stat) run rfl
  rintro _ ⟨now, e⟩ _ _ unset
  generalize Runs.after (step ctx) (connStart stat) _ = c at unset ⊢
  by_cases silent : (step ctx c (now, e)).2 = none
  · cases brings : e.brings with
    | true => exact (congrArg Session.catchedCookie (step_brings ctx c now e brings)).trans unset
    | false =>
        have other : e.isHeader = false := by
          cases e <;> first | rfl | cases brings
        have same := step_headers ctx c now e other silent
        exact (congrArg HeaderState.catchedCookie same).trans unset
  · rw [step_answered ctx c now e silent]
    rfl

theorem bareEntries_unlisted (cookies : List Cookie) : bareEntries [] cookies = [] := by
  have nothing : ∀ segment, segmentEntry .cookie [] segment = none := by
    intro segment
    apply if_neg
    rintro ⟨-, listed⟩
    cases listed
  have bare : Cookie.bare [] = fun _ => none := funext fun c => nothing c.text
  have last : Cookie.bareLast [] = fun _ => none := by
    funext c
    unfold Cookie.bareLast segmentLast
    rw [nothing, ite_self]
  unfold bareEntries
  rw [bare, last]
  simp

/-- A Cookie header adds the entries of its bare cookies. -/
theorem cookies_added (ctx : Context) (stat : Status) (run : List (Moment × Event))
    (name : Bytes) (cookies : List Cookie) (now now' : Moment)
    (spelled : name.map tolower = asc "cookie") (formed : ∀ c ∈ cookies, c.WellFormed) :
    (after ctx (connStart stat) (run ++ [(now, .requestHeaderField name),
        (now', .requestHeaderValue (cookieHeader cookies))])).s.cookies =
      (bareEntries ctx.cfg.catchCookie cookies).reverse ++
        (after ctx (connStart stat) run).s.cookies := by
  have never := catchedCookie_never ctx stat run
  unfold after at never ⊢
  rw [Runs.after_append]
  generalize Runs.after (step ctx) (connStart stat) run = c at never ⊢
  change (requestHeaderValue ctx.cfg (requestHeaderField ctx.cfg c.s name)
    (cookieHeader cookies)).cookies = _
  have named : (requestHeaderField ctx.cfg c.s name).proplist = c.s.proplist := by
    obtain ⟨_, _, framed⟩ := requestHeaderField_frame ctx.cfg c.s name
    rw [framed]
  have headers : ∀ header : Option CStr,
      (headerEntries header .requestHeader (cookieHeader cookies)).filter
        (fun kv => decide (kv.type = .cookie)) = [] := by
    intro header
    cases header <;> rfl
  have typed : (bareEntries ctx.cfg.catchCookie cookies).reverse.filter
      (fun kv => decide (kv.type = .cookie)) = (bareEntries ctx.cfg.catchCookie cookies).reverse := by
    rw [← recorded_cookies ctx.cfg cookies formed, recorded, List.filter_eq_self]
    intro kv member
    rw [List.mem_reverse, List.mem_map] at member
    obtain ⟨found, _, rfl⟩ := member
    rfl
  unfold Session.cookies
  rw [requestHeaderValue_proplist, named, captures, List.filter_append, List.filter_append,
    headers, List.append_nil, recorded_cookies ctx.cfg cookies formed]
  by_cases wanted : 0 < ctx.cfg.catchCookie.length
  · rw [if_pos (requestHeaderField_cookie ctx.cfg c.s name spelled never wanted), typed]
  · have unlisted : ctx.cfg.catchCookie = [] := List.length_eq_zero_iff.mp (by omega)
    rw [unlisted, bareEntries_unlisted]
    split <;> rfl

theorem text_of_leads (c : Cookie) (formed : c.WellFormed) (leads : c.Leads) :
    c.text.dropWhile (fun b => !decide (b.toInt8 > 65)) = c.text ∧
      c.text.takeWhile (· ≠ 61) = c.name ∧ (c.text.dropWhile (· ≠ 61)).tail = c.value := by
  obtain ⟨named, letters, -, -⟩ := formed
  obtain ⟨b, first, begins⟩ := leads
  have plain : ∀ b ∈ c.name, decide (b ≠ 61) = true := by
    intro b member
    rw [decide_eq_true_eq]
    rintro rfl
    exact absurd (letters 61 member) (by decide)
  refine ⟨?_, ?_, ?_⟩
  · obtain ⟨rest, split⟩ := List.head?_eq_some_iff.mp first
    rw [Cookie.text, split, List.cons_append, List.dropWhile_cons_of_neg]
    rw [decide_eq_true begins]
    exact Bool.false_ne_true
  · rw [Cookie.text, List.takeWhile_append_of_pos plain, List.takeWhile_cons_of_neg (by decide),
      List.append_nil]
  · rw [Cookie.text, List.dropWhile_append_of_pos plain, List.dropWhile_cons_of_neg (by decide),
      List.tail_cons]

/-- Nothing is lost of a cookie whose name begins with a byte that begins a key. -/
theorem bare_of_leads (tester : List CStr) (c : Cookie) (formed : c.WellFormed)
    (leads : c.Leads) :
    c.bare tester = c.listed tester ∧ c.bareLast tester = c.listed tester := by
  obtain ⟨whole, key, value⟩ := text_of_leads c formed leads
  have assigned : 61 ∈ c.text := List.mem_append_right c.name List.mem_cons_self
  have bare : c.bare tester = c.listed tester := by
    unfold Cookie.bare Cookie.listed segmentEntry
    dsimp only
    rw [whole, key, value]
    simp only [assigned, true_and]
  refine ⟨bare, ?_⟩
  have inner : 61 ∈ c.text.dropLast := by
    rw [Cookie.text, List.dropLast_append_of_ne_nil (List.cons_ne_nil 61 c.value),
      List.dropLast_cons_of_ne_nil formed.valued]
    exact List.mem_append_right c.name List.mem_cons_self
  unfold Cookie.bareLast segmentLast
  rw [whole, if_pos inner]
  exact bare

theorem bareEntries_of_leads (tester : List CStr) (cookies : List Cookie)
    (formed : ∀ c ∈ cookies, c.WellFormed) (leads : ∀ c ∈ cookies, c.Leads) :
    cookies.filterMap (Cookie.listed tester) = bareEntries tester cookies := by
  induction cookies using List.reverseRecOn with
  | nil => rfl
  | append_singleton cookies c _ =>
      have last := bare_of_leads tester c (formed c (by simp)) (leads c (by simp))
      have first : cookies.filterMap (Cookie.bare tester) =
          cookies.filterMap (Cookie.listed tester) := by
        apply List.filterMap_congr
        intro d member
        exact (bare_of_leads tester d (formed d (List.mem_append_left [c] member))
          (leads d (List.mem_append_left [c] member))).1
      unfold bareEntries
      rw [List.filterMap_append, List.dropLast_concat, List.getLast?_concat, Option.bind_some,
        last.2, first]
      cases listed : c.listed tester with
      | none => simp [listed]
      | some kv => simp [listed]

theorem starts_iff (b : UInt8) : b.toInt8 > 65 ↔ 65 < b.toNat ∧ b.toNat < 128 := by
  have size : b.toNat < 256 := UInt8.toNat_lt b
  rw [gt_iff_lt, Int8.lt_iff_toInt_lt, show ((65 : Int8)).toInt = 65 from rfl,
    ← Int8.toInt_toBitVec, UInt8.toBitVec_toInt8, BitVec.toInt_eq_toNat_bmod,
    UInt8.toNat_toBitVec, Int.bmod_def]
  split <;> omega

theorem tolower_starts (b : UInt8) (begins : b.toInt8 > 65) : (tolower b).toInt8 > 65 := by
  rw [starts_iff] at begins ⊢
  unfold tolower
  split
  · rename_i upper
    simp only [UInt8.le_iff_toNat_le, UInt8.toNat_ofNat, UInt8.toNat_add] at upper ⊢
    omega
  · exact begins

theorem tolower_low (b : UInt8) (low : 48 ≤ b ∧ b ≤ 57 ∨ b = 45) :
    ¬ (tolower b).toInt8 > 65 := by
  have same : tolower b = b := by
    unfold tolower
    rw [if_neg]
    simp only [UInt8.le_iff_toNat_le, ← UInt8.toNat_inj, UInt8.toNat_ofNat] at low ⊢
    omega
  rw [same, starts_iff]
  simp only [UInt8.le_iff_toNat_le, ← UInt8.toNat_inj, UInt8.toNat_ofNat] at low
  omega

/-- The key of a bare cookie begins behind 'A'. -/
theorem bare_key (tester : List CStr) (c : Cookie) (kv : Kv) (found : c.bare tester = some kv) :
    ∃ b ∈ kv.key.bytes.head?, b.toInt8 > 65 := by
  unfold Cookie.bare segmentEntry at found
  dsimp only at found
  split at found
  · rename_i wanted
    obtain rfl := Option.some.inj found
    obtain ⟨b, rest, read⟩ := List.exists_cons_of_ne_nil (List.ne_nil_of_mem wanted.1)
    have begins : b.toInt8 > 65 := by
      have stopped := List.head?_dropWhile_not (fun b : UInt8 => !decide (b.toInt8 > 65)) c.text
      rw [read] at stopped
      simpa using stopped
    have sign : decide (b ≠ 61) = true := by
      rw [decide_eq_true_eq]
      rintro rfl
      exact absurd begins (by decide)
    have nul : decide (b ≠ 0) = true := by
      rw [decide_eq_true_eq]
      rintro rfl
      exact absurd begins (by decide)
    have key : (b :: rest).takeWhile (· ≠ 61) = b :: rest.takeWhile (· ≠ 61) :=
      List.takeWhile_cons_of_pos sign
    have bytes : (b :: rest.takeWhile (· ≠ 61)).takeWhile (· ≠ 0) =
        b :: (rest.takeWhile (· ≠ 61)).takeWhile (· ≠ 0) := List.takeWhile_cons_of_pos nul
    refine ⟨tolower b, ?_, tolower_starts b begins⟩
    rw [read, key]
    change tolower b ∈ (((b :: rest.takeWhile (· ≠ 61)).takeWhile (· ≠ 0)).map tolower).head?
    rw [bytes]
    rfl
  · cases found

theorem bareLast_bare (tester : List CStr) (c : Cookie) (kv : Kv)
    (found : c.bareLast tester = some kv) : c.bare tester = some kv := by
  unfold Cookie.bareLast segmentLast at found
  split at found
  · exact found
  · cases found

theorem bareEntries_bare (tester : List CStr) (cookies : List Cookie) (kv : Kv)
    (member : kv ∈ bareEntries tester cookies) : ∃ c, Cookie.bare tester c = some kv := by
  unfold bareEntries at member
  rw [List.mem_append, List.mem_filterMap, Option.mem_toList, Option.bind_eq_some_iff] at member
  rcases member with ⟨c, _, found⟩ | ⟨c, _, found⟩
  · exact ⟨c, found⟩
  · exact ⟨c, bareLast_bare tester c kv found⟩

/-- The entries are the listed cookies just when taking the first bytes up to 'A'
for padding changes none of them: so when every name leads with a later byte, and
never when a listed name leads with a digit or '-'. -/
theorem cookies_captured (ctx : Context) (stat : Status) (run : List (Moment × Event))
    (name : Bytes) (cookies : List Cookie) (now now' : Moment)
    (spelled : name.map tolower = asc "cookie") (formed : ∀ c ∈ cookies, c.WellFormed) :
    ((after ctx (connStart stat) (run ++ [(now, .requestHeaderField name),
        (now', .requestHeaderValue (cookieHeader cookies))])).s.cookies =
      (cookies.filterMap (Cookie.listed ctx.cfg.catchCookie)).reverse ++
        (after ctx (connStart stat) run).s.cookies ↔
      cookies.filterMap (Cookie.listed ctx.cfg.catchCookie) =
        bareEntries ctx.cfg.catchCookie cookies) ∧
    ((∀ c ∈ cookies, c.Leads) → cookies.filterMap (Cookie.listed ctx.cfg.catchCookie) =
        bareEntries ctx.cfg.catchCookie cookies) ∧
    (cookies.filterMap (Cookie.listed ctx.cfg.catchCookie) =
        bareEntries ctx.cfg.catchCookie cookies →
      ∀ c ∈ cookies, (c.listed ctx.cfg.catchCookie).isSome → ∀ b ∈ c.name.head?,
        ¬ (48 ≤ b ∧ b ≤ 57 ∨ b = 45)) := by
  refine ⟨?_, bareEntries_of_leads ctx.cfg.catchCookie cookies formed, ?_⟩
  · rw [cookies_added ctx stat run name cookies now now' spelled formed, List.append_left_inj,
      List.reverse_inj]
    exact eq_comm
  · intro same c member accepted b first low
    obtain ⟨kv, listed⟩ := Option.isSome_iff_exists.mp accepted
    have entry : kv ∈ bareEntries ctx.cfg.catchCookie cookies := by
      rw [← same]
      exact List.mem_filterMap.mpr ⟨c, member, listed⟩
    obtain ⟨d, found⟩ := bareEntries_bare _ _ kv entry
    obtain ⟨b', head, begins⟩ := bare_key _ d kv found
    have key : kv.key.bytes = c.name.map tolower := by
      have free : 0 ∉ c.name := fun nul =>
        (text_free c (formed c member)).1 (List.mem_append_left _ nul)
      unfold Cookie.listed at listed
      split at listed
      · rw [← Option.some.inj listed]
        exact congrArg (List.map tolower) (cstr_bytes_of_free c.name free)
      · cases listed
    rw [key, List.head?_map, first] at head
    obtain rfl := Option.some.inj head
    exact tolower_low b low begins

/-- Names that lead with a small letter. -/
theorem cookies_captured_session :
    (after localContext (connStart statusInit) [(default, .requestHeaderField (asc "Cookie")),
        (default, .requestHeaderValue (asc "sid=a=b; x_1=2"))]).s.cookies =
      [⟨lit "x_1", lit "2", .cookie⟩, ⟨lit "sid", lit "a=b", .cookie⟩] := by
  obtain ⟨exactly, leads, -⟩ := cookies_captured localContext statusInit [] (asc "Cookie")
    [⟨asc "sid", asc "a=b"⟩, ⟨asc "x_1", asc "2"⟩] default default (by decide)
    (List.forall_mem_cons.mpr ⟨⟨by decide, by decide +kernel, by decide, by decide⟩,
      List.forall_mem_singleton.mpr ⟨by decide, by decide +kernel, by decide, by decide⟩⟩)
  exact exactly.mpr (leads (List.forall_mem_cons.mpr ⟨⟨115, rfl, by decide⟩,
    List.forall_mem_singleton.mpr ⟨120, rfl, by decide⟩⟩))

/-- The name in the sample configuration leads with 'A' and is missed. -/
theorem cookies_captured_aspsessid :
    let cfg := { catchAll with catchCookie := [lit "ASPSESSID", lit "SESSID", lit "PHPSESSID"] }
    let ctx := { localContext with cfg := cfg }
    let c : Cookie := ⟨asc "ASPSESSID", asc "1"⟩
    c.WellFormed ∧ c.listed ctx.cfg.catchCookie = some ⟨lit "aspsessid", lit "1", .cookie⟩ ∧
      (after ctx (connStart statusInit) [(default, .requestHeaderField (asc "Cookie")),
        (default, .requestHeaderValue (cookieHeader [c]))]).s.cookies = [] := by
  refine ⟨⟨by decide, by decide +kernel, by decide, by decide⟩, by decide, by decide⟩

end Bscope
