import Bscope.Report

set_option autoImplicit false

namespace Bscope

def packOpt (value : Option CStr) : Packed :=
  match value with
  | some value => packStr value
  | none => .nil

/-- One pair: its key, its value, and the count one up. -/
def MsgReport.add (rp : MsgReport) (pair : CStr × Packed) : MsgReport :=
  { rp with objects := rp.objects ++ [packStr pair.1, pair.2], count := toShort (rp.count + 1) }

def MsgReport.addAll (rp : MsgReport) (pairs : List (CStr × Packed)) : MsgReport :=
  pairs.foldl MsgReport.add rp

theorem reportAddPair_eq (rp : MsgReport) (key : CStr) (value : Option CStr) :
    reportAddPair rp key value = rp.add (key, packOpt value) := by
  cases value <;> simp [reportAddPair, reportAddKey, MsgReport.pack, MsgReport.add, packOpt]

theorem reportAddPairInt_eq (rp : MsgReport) (key : CStr) (value : Int) :
    reportAddPairInt rp key value = rp.add (key, .int (toInt value)) := by
  simp [reportAddPairInt, reportAddKey, MsgReport.pack, MsgReport.add]

theorem reportAddPairFloat_eq (rp : MsgReport) (key : CStr) (value : Int) :
    reportAddPairFloat rp key value = rp.add (key, .float (toInt value)) := by
  simp [reportAddPairFloat, reportAddKey, MsgReport.pack, MsgReport.add]

/-- The pairs that every report has. -/
def fixedPairs (ctx : Context) (s : Session) (type : CloseType) (now : Moment) :
    List (CStr × Packed) :=
  [(lit "@class", packStr (lit "http-scope")),
    (lit "@time", .int (toInt s.startTime)),
    (lit "method", packStr (httpMethodStr s.method)),
    (lit "host", packOpt s.host),
    (lit "host", packOpt s.host),
    (lit "path", packOpt s.path),
    (lit "node", packStr ctx.cfg.node),
    (lit "code", .int (toInt s.statusCode.val)),
    (lit "server", packStr (intNtoa ctx.addr.daddr)),
    (lit "server-port", .int (toInt ctx.addr.dest.toNat)),
    (lit "client", packStr (intNtoa ctx.addr.saddr)),
    (lit "status", packStr (closeStatus type)),
    (lit "req-bytes", .int (toInt now.serverCount)),
    (lit "rep-bytes", .int (toInt now.clientCount)),
    (lit "net-req-time", .float (toInt (s.reqTime.tdiv 1000000))),
    (lit "server-time", .float (toInt (s.serverTime.tdiv 1000000))),
    (lit "net-rep-time", .float (toInt (s.repTime.tdiv 1000000)))]

/-- Their keys; `host` is written twice. -/
def fixedKeys : List CStr :=
  [lit "@class", lit "@time", lit "method", lit "host", lit "host", lit "path", lit "node",
    lit "code", lit "server", lit "server-port", lit "client", lit "status", lit "req-bytes",
    lit "rep-bytes", lit "net-req-time", lit "server-time", lit "net-rep-time"]

def refererPairs (s : Session) : List (CStr × Packed) :=
  match s.referer with
  | some referer =>
      (lit "referer", packStr referer) ::
        (refererHost referer).toList.map fun host => (lit "referer-host", packStr host)
  | none => []

def propPair (p : Kv) : CStr × Packed := (kvTypeString p.type p.key, packStr (urldecode p.value))

def bodyPairs (s : Session) : List (CStr × Packed) :=
  if s.isCatchResponseBody ∧ s.responseBodySize < 65535 then
    [(lit "body-captured-size", .int (toInt s.responseBodySize)),
      (lit "body-captured", .raw s.responseBodySize (s.responseBody.map fun b => b.data.take b.size))]
  else []

/-- All pairs of a report, in the order they are written. -/
def reportPairs (ctx : Context) (s : Session) (type : CloseType) (now : Moment) :
    List (CStr × Packed) :=
  fixedPairs ctx s type now ++ refererPairs s ++ s.proplist.map propPair ++ bodyPairs s

theorem addAll_append (rp : MsgReport) (first second : List (CStr × Packed)) :
    rp.addAll (first ++ second) = (rp.addAll first).addAll second := List.foldl_append

theorem addReferer_eq (rp : MsgReport) (s : Session) :
    addReferer rp s = rp.addAll (refererPairs s) := by
  unfold addReferer refererPairs
  cases s.referer with
  | none => rfl
  | some referer =>
      cases found : refererHost referer <;>
        simp [found, reportAddPair_eq, MsgReport.addAll, packOpt]

theorem addProplist_eq (rp : MsgReport) (proplist : List Kv) :
    addProplist rp proplist = rp.addAll (proplist.map propPair) := by
  simp only [addProplist, MsgReport.addAll, List.foldl_map, reportAddPair_eq]
  rfl

theorem addBody_eq (rp : MsgReport) (s : Session) : addBody rp s = rp.addAll (bodyPairs s) := by
  unfold addBody bodyPairs
  split
  · simp [reportAddPairInt_eq, reportAddKey, MsgReport.pack, MsgReport.addAll, MsgReport.add]
  · rfl

/-- The report is its list of pairs, written one after the other. -/
theorem buildReport_eq (ctx : Context) (s : Session) (type : CloseType) (now : Moment) :
    buildReport ctx s type now =
      { ({ objects := [], count := 0, routingKey := [] } : MsgReport).addAll
          (reportPairs ctx s type now) with
        routingKey := reportRoutingKey s } := by
  unfold buildReport reportPairs
  simp only [addAll_append, ← addReferer_eq, ← addProplist_eq, ← addBody_eq, reportAddPair_eq,
    reportAddPairInt_eq, reportAddPairFloat_eq]
  rfl

theorem addAll_objects (rp : MsgReport) (pairs : List (CStr × Packed)) :
    (rp.addAll pairs).objects = rp.objects ++ pairs.flatMap fun p => [packStr p.1, p.2] := by
  induction pairs generalizing rp with
  | nil => exact (List.append_nil _).symm
  | cons p pairs ih =>
      change ((rp.add p).addAll pairs).objects = _
      rw [ih]
      simp [MsgReport.add]

theorem toShort_add_one (n : Int) : toShort (toShort n + 1) = toShort (n + 1) := Int.bmod_add_bmod

theorem addAll_count (rp : MsgReport) (pairs : List (CStr × Packed)) (n : Nat)
    (counted : rp.count = toShort n) : (rp.addAll pairs).count = toShort (n + pairs.length : Nat) := by
  induction pairs generalizing rp n with
  | nil => exact counted
  | cons p pairs ih =>
      change ((rp.add p).addAll pairs).count = _
      have next : (rp.add p).count = toShort (n + 1 : Nat) := by
        rw [MsgReport.add, counted, toShort_add_one, Int.natCast_succ]
      rw [ih (rp.add p) (n + 1) next, List.length_cons, Nat.add_assoc, Nat.add_comm 1]

theorem buildReport_objects (ctx : Context) (s : Session) (type : CloseType) (now : Moment) :
    (buildReport ctx s type now).objects =
      (reportPairs ctx s type now).flatMap fun p => [packStr p.1, p.2] := by
  rw [buildReport_eq]
  exact addAll_objects _ _

/-- The signed short counts the pairs up to its own width. -/
theorem buildReport_count (ctx : Context) (s : Session) (type : CloseType) (now : Moment) :
    (buildReport ctx s type now).count = toShort (reportPairs ctx s type now).length := by
  rw [buildReport_eq]
  have counted := addAll_count { objects := [], count := 0, routingKey := [] }
    (reportPairs ctx s type now) 0 rfl
  rwa [Nat.zero_add] at counted

/-- The value packed behind the first occurrence of a key. -/
def valueOf (key : CStr) : List Packed → Option Packed
  | k :: value :: objects => if k = packStr key then some value else valueOf key objects
  | _ => none

def MsgReport.value (rp : MsgReport) (key : CStr) : Option Packed := valueOf key rp.objects

theorem packStr_injective (s t : CStr) (same : packStr s = packStr t) : s = t :=
  CStr.ext (List.singleton_inj.mp (Packed.raw.inj same).2)

theorem valueOf_first (key : CStr) (value : Packed) (front behind : List (CStr × Packed))
    (absent : key ∉ front.map Prod.fst) :
    valueOf key ((front ++ (key, value) :: behind).flatMap fun p => [packStr p.1, p.2]) =
      some value := by
  induction front with
  | nil => exact if_pos rfl
  | cons p front ih =>
      rw [List.map_cons, List.mem_cons, not_or] at absent
      have other : packStr p.1 ≠ packStr key := fun same =>
        absent.1 (packStr_injective p.1 key same).symm
      exact (if_neg other).trans (ih absent.2)

/-- The value behind one of the fixed keys, where the key stands for the first time. -/
theorem buildReport_value (ctx : Context) (s : Session) (type : CloseType) (now : Moment) (n : Nat)
    (key : CStr) (value : Packed) (here : (fixedPairs ctx s type now)[n]? = some (key, value))
    (first : key ∉ fixedKeys.take n) : (buildReport ctx s type now).value key = some value := by
  have inside := List.getElem?_eq_some_iff.mp here
  obtain ⟨bound, at_n⟩ := inside
  have split : fixedPairs ctx s type now =
      (fixedPairs ctx s type now).take n ++ (key, value) :: (fixedPairs ctx s type now).drop (n + 1) := by
    rw [← at_n, List.getElem_cons_drop, List.take_append_drop]
  have keys : ((fixedPairs ctx s type now).take n).map Prod.fst = fixedKeys.take n := List.map_take
  rw [MsgReport.value, buildReport_objects, reportPairs, split, List.append_assoc,
    List.append_assoc, List.append_assoc, List.cons_append]
  apply valueOf_first
  rwa [keys]

theorem buildReport_method (ctx : Context) (s : Session) (type : CloseType) (now : Moment) :
    (buildReport ctx s type now).value (lit "method") = some (packStr (httpMethodStr s.method)) :=
  buildReport_value ctx s type now 2 _ _ rfl (by decide +kernel)

theorem buildReport_path (ctx : Context) (s : Session) (type : CloseType) (now : Moment) :
    (buildReport ctx s type now).value (lit "path") = some (packOpt s.path) :=
  buildReport_value ctx s type now 5 _ _ rfl (by decide +kernel)

theorem buildReport_code (ctx : Context) (s : Session) (type : CloseType) (now : Moment) :
    (buildReport ctx s type now).value (lit "code") = some (.int (toInt s.statusCode.val)) :=
  buildReport_value ctx s type now 7 _ _ rfl (by decide +kernel)

theorem buildReport_status (ctx : Context) (s : Session) (type : CloseType) (now : Moment) :
    (buildReport ctx s type now).value (lit "status") = some (packStr (closeStatus type)) :=
  buildReport_value ctx s type now 11 _ _ rfl (by decide +kernel)

end Bscope
