import Bscope.Filings
import Bscope.ReportPairs

set_option autoImplicit false

/- The referer on its way into the log line, behind the report that cuts it. -/
namespace Bscope

/-- The line that `session_log` writes for a session that has been reported. -/
def Filing.line (ctx : Context) (f : Filing) : CStr :=
  sessionLogLine ctx { f.s with referer := f.s.referer.map refererCut } f.now

theorem sessionReport_line (ctx : Context) (s : Session) (stat : Status) (type : CloseType)
    (now : Moment) (f : Filing) (filed : s.filing type now = some f) :
    (sessionReport ctx s stat type now).2 =
      (statusLogpush stat ((f.line ctx).bytes ++ [0]) (f.line ctx).strlen, some (f.report ctx)) := by
  unfold Session.filing at filed
  unfold sessionReport
  split at filed
  · rename_i owed
    obtain rfl := Option.some.inj filed
    rw [if_pos owed]
    rfl
  · cases filed

/-- The line up to the opening quote of the referer. -/
def logFront (ctx : Context) (s : Session) (now : Moment) : Bytes :=
  (intNtoa ctx.addr.saddr).bytes ++ asc " " ++ (intNtoa ctx.addr.daddr).bytes ++ asc ":" ++
    decimal ctx.addr.dest.toNat ++ asc " " ++ formatStr s.host ++ asc " - [" ++
    (ctx.timestr s.startTime).bytes ++ asc "] \"" ++ (httpMethodStr s.method).bytes ++ asc " " ++
    formatStr s.path ++ asc " HTTP/" ++ decimal s.httpMajor ++ asc "." ++ decimal s.httpMinor ++
    asc "\" " ++ decimal s.statusCode.val ++ asc " " ++ decimalInt (toInt now.clientCount) ++
    asc " \""

/-- The line from the closing quote of the referer on. -/
def logBack (s : Session) : Bytes :=
  34 :: (asc " \"" ++ (s.ua.getD (lit "")).bytes ++ asc "\"")

theorem sessionLogLine_eq (ctx : Context) (s : Session) (now : Moment) :
    sessionLogLine ctx s now =
      snprintf LOG_BUF_SIZE
        (logFront ctx s now ++ (s.referer.getD (lit "")).bytes ++ logBack s) := by
  have quotes : asc "\" \"" = 34 :: asc " \"" := by decide
  unfold sessionLogLine logFront logBack
  simp only [quotes, formatStr, List.append_assoc, List.cons_append]

section NulFree

theorem decimal_free (n : Nat) : 0 ∉ decimal n := by
  rw [decimal, List.mem_map]
  rintro ⟨c, member, zero⟩
  have digit := Nat.isDigit_of_mem_toDigits (by decide) (by decide) member
  have low : 48 ≤ c.toNat := (Char.isDigit_iff_toNat.mp digit).1
  have high : c.toNat ≤ 57 := (Char.isDigit_iff_toNat.mp digit).2
  have value := congrArg UInt8.toNat zero
  change c.toNat % 256 = 0 at value
  omega

theorem decimalInt_free (v : Int) : 0 ∉ decimalInt v := by
  unfold decimalInt
  split
  · rw [List.mem_cons, not_or]
    exact ⟨by decide, decimal_free _⟩
  · exact decimal_free _

theorem formatStr_free (s : Option CStr) : 0 ∉ formatStr s := by
  cases s with
  | none => decide
  | some s => exact s.nulFree

theorem logFront_free (ctx : Context) (s : Session) (now : Moment) : 0 ∉ logFront ctx s now := by
  have text : 0 ∉ asc " " ∧ 0 ∉ asc ":" ∧ 0 ∉ asc " - [" ∧ 0 ∉ asc "] \"" ∧ 0 ∉ asc " HTTP/" ∧
      0 ∉ asc "." ∧ 0 ∉ asc "\" " ∧ 0 ∉ asc " \"" := by decide
  unfold logFront
  simp only [List.mem_append, CStr.nulFree, decimal_free, decimalInt_free, formatStr_free, text,
    or_self, not_false_eq_true]

theorem logBack_free (s : Session) : 0 ∉ logBack s := by
  have text : 0 ∉ asc "\"" ∧ 0 ∉ asc " \"" := by decide
  unfold logBack
  rw [List.mem_cons, not_or]
  apply And.intro (by decide)
  simp only [List.mem_append, CStr.nulFree, text, or_self, not_false_eq_true]

end NulFree

/-- The printed line, as far as the buffer goes. -/
theorem line_bytes (ctx : Context) (f : Filing) :
    (f.line ctx).bytes =
      (logFront ctx f.s f.now ++ ((f.s.referer.map refererCut).getD (lit "")).bytes ++
        logBack f.s).take (LOG_BUF_SIZE - 1) := by
  unfold Filing.line
  rw [sessionLogLine_eq]
  apply cstr_bytes_of_free
  intro zero
  have inside := List.mem_of_mem_take zero
  simp only [List.mem_append, CStr.nulFree, or_false] at inside
  rcases inside with front | back
  · exact logFront_free ctx f.s f.now front
  · exact logBack_free f.s back

/-- Behind its first "//" the referer has no further '/'. -/
def NoPath (referer : CStr) : Prop :=
  ∀ found, strstr referer.bytes (asc "//") = some found → 47 ∉ found.drop 2

theorem refererCut_bytes (referer : CStr) (before host : Bytes)
    (hit : strstr referer.bytes (asc "//") = some (47 :: 47 :: host))
    (whole : referer.bytes = before ++ 47 :: 47 :: host) :
    (refererCut referer).bytes = before ++ 47 :: 47 :: host.takeWhile (· ≠ 47) := by
  have size : referer.strlen = before.length + (host.length + 2) := by
    rw [CStr.strlen, whole, List.length_append]
    rfl
  have kept : referer.strlen - host.length + (host.takeWhile (· ≠ 47)).length =
      before.length + (2 + (host.takeWhile (· ≠ 47)).length) := by omega
  have shown : referer.bytes.take (before.length + (2 + (host.takeWhile (· ≠ 47)).length)) =
      before ++ 47 :: 47 :: host.takeWhile (· ≠ 47) := by
    have short : host.take (host.takeWhile (· ≠ 47)).length = host.takeWhile (· ≠ 47) :=
      (List.prefix_iff_eq_take.mp (List.takeWhile_prefix _)).symm
    rw [whole, List.take_length_add_append, Nat.add_comm 2]
    change before ++ 47 :: 47 :: host.take _ = _
    rw [short]
  unfold refererCut
  rw [hit]
  change (cstr (referer.bytes.take
    (referer.strlen - host.length + (host.takeWhile (· ≠ 47)).length))).bytes = _
  rw [kept, ← shown]
  apply cstr_bytes_of_free
  exact fun zero => referer.nulFree (List.mem_of_mem_take zero)

/-- The cut leaves the referer as it is, or ends it before a '/'. -/
theorem refererCut_cases (referer : CStr) :
    NoPath referer ∧ refererCut referer = referer ∨
      ¬ NoPath referer ∧ ∃ rest, referer.bytes = (refererCut referer).bytes ++ 47 :: rest := by
  cases hit : strstr referer.bytes (asc "//") with
  | none =>
      apply Or.inl
      unfold NoPath refererCut
      rw [hit]
      exact ⟨nofun, rfl⟩
  | some found =>
      obtain ⟨before, whole⟩ := strstr_suffix _ _ _ hit
      obtain ⟨host, rfl⟩ := strstr_starts _ _ _ hit
      have cut := refererCut_bytes referer before host hit whole.symm
      unfold NoPath
      rw [hit]
      by_cases path : 47 ∈ host
      · obtain ⟨name, rest, rfl, outside⟩ := List.eq_append_cons_of_mem path
        have ends : (name ++ 47 :: rest).takeWhile (· ≠ 47) = name := by
          have passed : ∀ c ∈ name, decide (c ≠ 47) = true := fun c member =>
            decide_eq_true fun slash => outside (slash ▸ member)
          rw [List.takeWhile_append_of_pos passed, List.takeWhile_cons, if_neg (by decide),
            List.append_nil]
        apply Or.inr
        refine ⟨fun none_left => none_left _ rfl path, rest, ?_⟩
        rw [cut, ends, ← whole, List.append_assoc]
        rfl
      · have all : host.takeWhile (· ≠ 47) = host := by
          rw [List.takeWhile_eq_self_iff]
          exact fun c member => decide_eq_true fun slash => path (slash ▸ member)
        apply Or.inl
        constructor
        · rintro rest ⟨⟩
          exact path
        · apply CStr.ext
          rw [cut, all, ← whole]
          rfl

theorem buildReport_referer (ctx : Context) (f : Filing) (referer : CStr)
    (held : f.s.referer = some referer) :
    (f.report ctx).value (lit "referer") = some (packStr referer) := by
  have front : ∃ rest, reportPairs ctx f.s f.type f.now =
      fixedPairs ctx f.s f.type f.now ++ (lit "referer", packStr referer) :: rest := by
    unfold reportPairs refererPairs
    rw [held]
    simp only [List.append_assoc, List.cons_append]
    exact ⟨_, rfl⟩
  obtain ⟨rest, split⟩ := front
  have keys : (fixedPairs ctx f.s f.type f.now).map Prod.fst = fixedKeys := rfl
  rw [MsgReport.value, Filing.report, buildReport_objects, split]
  apply valueOf_first
  rw [keys]
  decide +kernel

/-- The line gives the referer that the report gives exactly when the referer has no
path and its field fits into the line. -/
theorem loggedReferer_iff (ctx : Context) (f : Filing) (referer : CStr)
    (held : f.s.referer = some referer) :
    (f.report ctx).value (lit "referer") = some (packStr referer) ∧
        logFront ctx f.s f.now ++ referer.bytes ++ [34] <+: (f.line ctx).bytes ↔
      NoPath referer ∧ (logFront ctx f.s f.now).length + referer.strlen + 1 < LOG_BUF_SIZE := by
  have packed := buildReport_referer ctx f referer held
  have size : (logFront ctx f.s f.now ++ referer.bytes ++ [34]).length =
      (logFront ctx f.s f.now).length + referer.strlen + 1 := by
    rw [List.length_append, List.length_append]
    rfl
  rw [line_bytes, held, Option.map_some, Option.getD_some, List.prefix_take_iff, size]
  rcases refererCut_cases referer with ⟨no_path, same⟩ | ⟨path, rest, split⟩
  · have field : logFront ctx f.s f.now ++ referer.bytes ++ [34] <+:
        logFront ctx f.s f.now ++ (refererCut referer).bytes ++ logBack f.s := by
      rw [same]
      apply (List.prefix_append_right_inj _).mpr
      exact ⟨_, rfl⟩
    constructor
    · rintro ⟨-, -, fits⟩
      exact ⟨no_path, Nat.lt_of_le_pred (by decide) fits⟩
    · rintro ⟨-, fits⟩
      exact ⟨packed, field, Nat.le_pred_of_lt fits⟩
  · constructor
    · rintro ⟨-, field, -⟩
      -- the line goes on with the closing quote where the referer has its '/'
      rw [split, List.append_assoc, List.append_assoc, List.append_assoc,
        List.prefix_append_right_inj, List.cons_append, List.prefix_append_right_inj, logBack,
        List.cons_prefix_cons] at field
      exact absurd field.1 (by decide)
    · rintro ⟨no_path, -⟩
      exact absurd no_path path

theorem loggedReferer_host :
    ∃ f : Filing, f.s.referer = some (lit "http://a") ∧
      logFront localContext f.s f.now ++ (lit "http://a").bytes ++ [34] <+:
        (f.line localContext).bytes := by
  have no_path : NoPath (lit "http://a") := by
    intro found hit
    have here : strstr (lit "http://a").bytes (asc "//") = some (asc "//a") := by decide
    obtain rfl := Option.some.inj (here.symm.trans hit)
    decide
  refine ⟨⟨{ sessionInit with referer := some (lit "http://a") }, .close, default⟩, rfl, ?_⟩
  exact ((loggedReferer_iff localContext _ (lit "http://a") rfl).mpr
    ⟨no_path, by decide +kernel⟩).2

/-- A request that names the page it was linked from. -/
def refererRun (value : Bytes) : List (Moment × Event) :=
  [(default, .requestBegin), (default, .requestHeaderField (asc "Referer")),
    (default, .requestHeaderValue value)]

/-- The page is missing in the line. -/
theorem loggedReferer_cut :
    (filings localContext (connStart statusInit) (refererRun (asc "http://a/b")) .close
        default).map (fun f => (f.s.referer, f.line localContext)) =
      [(some (lit "http://a/b"),
        lit "127.0.0.1 127.0.0.1:80 (null) - [now] \"DELETE (null) HTTP/0.0\" 0 0 \"http://a\" \"\"")]
      := by
  decide +kernel

end Bscope
