import Bscope.JoinBuff
import Bscope.PairCount
import Bscope.Sizes
import Bscope.WireFormat

set_option autoImplicit false

namespace Bscope

open WireFormat

/-- What the packer writes for an object. -/
def Packed.render (pk : Packer) : Packed → Bytes
  | .nil => pk.packNil
  | .int v => pk.packInt v
  | .float v => pk.packFloat v
  | .raw len pieces => pk.packRaw len ++ pieces.flatten

/-- Store a number in a `char`. -/
def charOf (v : Int) : UInt8 := (v % 256).toNat.toUInt8

/-- The buffer that is sent: a map header, the objects, and then the count put
over the size in the header. -/
def MsgReport.data (pk : Packer) (rp : MsgReport) : Bytes :=
  ((pk.packMap 20 ++ rp.objects.flatMap (Packed.render pk)).set 1 (charOf (rp.count >>> (8 : Nat)))).set 2
    (charOf (rp.count.tmod 256))

/-- What a reader of the buffer finds for an object. -/
def Packed.value (bits : Int → UInt32) : Packed → Value
  | .nil => .nil
  | .int v => .int v
  | .float v => .float (bits v)
  | .raw _ pieces => .raw pieces.flatten

/-- An object whose announced length is that of its pieces, and whose number is one
of its C type. -/
def Packed.Sound : Packed → Prop
  | .nil => True
  | .int v => -2147483648 ≤ v ∧ v < 2147483648
  | .float v => -2147483648 ≤ v ∧ v < 2147483648
  | .raw len pieces => pieces.flatten.length = len ∧ len ≤ INT_MAX

theorem render_encodes (pk : Packer) (bits : Int → UInt32) (lawful : pk.Lawful bits) (p : Packed)
    (sound : p.Sound) : Encodes (p.render pk) (p.value bits) := by
  cases p with
  | nil => exact lawful.nil
  | int v => exact lawful.int v sound.1 sound.2
  | float v => exact lawful.float v sound.1 sound.2
  | raw len pieces =>
      obtain ⟨rfl, short⟩ := sound
      exact lawful.raw pieces.flatten (short.trans_lt (by decide))

theorem charOf_toNat (v : Int) : ((charOf v).toNat : Int) = v % 256 := by
  have byte : (v % 256).toNat < 256 := by omega
  rw [charOf, byte_toNat _ byte]
  omega

/-- The signed count, written high byte first, reads as the number of pairs. -/
theorem size_patched (n : Nat) (few : n ≤ 65535) :
    (charOf (toShort n >>> (8 : Nat))).toNat * 256 + (charOf ((toShort n).tmod 256)).toNat = n := by
  have high := charOf_toNat (toShort n >>> (8 : Nat))
  have low := charOf_toNat ((toShort n).tmod 256)
  have shifted : toShort n >>> (8 : Nat) = toShort n / 256 := by
    rw [Int.shiftRight_eq_div_pow]
    simp
  rw [shifted] at high ⊢
  have short : toShort n = n ∨ toShort n = n - 65536 := by
    rw [toShort, Int.bmod_def]
    split <;> omega
  have rest := Int.mul_tdiv_add_tmod (toShort n) 256
  omega

theorem data_eq (pk : Packer) (high low : UInt8) (rp : MsgReport)
    (map : pk.packMap 20 = [0xde, high, low]) :
    rp.data pk = 0xde :: charOf (rp.count >>> (8 : Nat)) :: charOf (rp.count.tmod 256) ::
      rp.objects.flatMap (Packed.render pk) := by
  rw [MsgReport.data, map]
  rfl

theorem toInt_range (v : Int) : -2147483648 ≤ toInt v ∧ toInt v < 2147483648 := by
  have lower := Int.le_bmod (x := v) (m := 4294967296) (by decide)
  have upper := Int.bmod_lt (x := v) (m := 4294967296) (by decide)
  unfold toInt
  omega

theorem packStr_sound (s : CStr) (short : s.strlen ≤ INT_MAX) : (packStr s).Sound := by
  refine ⟨?_, short⟩
  simp [CStr.strlen]

theorem packOpt_sound (value : Option CStr) (short : ∀ s ∈ value, s.strlen ≤ INT_MAX) :
    (packOpt value).Sound := by
  cases value with
  | none => trivial
  | some s => exact packStr_sound s (short s rfl)

theorem decimal_length (n k : Nat) (positive : 0 < k) (small : n < 10 ^ k) :
    (decimal n).length ≤ k := by
  rw [decimal, List.length_map]
  exact (Nat.length_toDigits_le_iff (by decide) positive).mpr small

theorem intNtoa_strlen (addr : UInt32) : (intNtoa addr).strlen ≤ INT_MAX := by
  have whole := addr.toNat_lt
  have a := decimal_length (addr.toNat % 256) 3 (by decide) (by omega)
  have b := decimal_length (addr.toNat / 256 % 256) 3 (by decide) (by omega)
  have c := decimal_length (addr.toNat / 65536 % 256) 3 (by decide) (by omega)
  have d := decimal_length (addr.toNat / 16777216) 3 (by decide) (by omega)
  refine (cstr_bytes_isPrefix _).length_le.trans ?_
  simp only [List.length_append, List.length_singleton, INT_MAX]
  omega

theorem httpMethodStr_strlen (method : HttpMethod) : (httpMethodStr method).strlen ≤ INT_MAX := by
  cases method <;> decide

theorem closeStatus_strlen (type : CloseType) : (closeStatus type).strlen ≤ INT_MAX := by
  cases type <;> decide

theorem refererHost_strlen (referer host : CStr) (found : refererHost referer = some host) :
    host.strlen ≤ referer.strlen := by
  unfold refererHost at found
  cases hit : strstr referer.bytes (asc "//") with
  | none =>
      rw [hit] at found
      cases found
  | some rest =>
      rw [hit] at found
      obtain rfl := Option.some.inj found
      have inside := (strstr_suffix _ _ _ hit).length_le
      have shown := (cstr_bytes_isPrefix ((rest.drop 2).takeWhile (· ≠ 47))).length_le
      have cut := (List.takeWhile_prefix (· ≠ 47) (l := rest.drop 2)).length_le
      rw [List.length_drop] at cut
      change (cstr _).bytes.length ≤ referer.bytes.length
      omega

/-- A pair whose key and value are both sound objects. -/
def SoundPair (p : CStr × Packed) : Prop := p.1.strlen ≤ INT_MAX ∧ p.2.Sound

theorem fixedPairs_sound (ctx : Context) (s : Session) (type : CloseType) (now : Moment)
    (node : ctx.cfg.node.strlen ≤ INT_MAX) (sized : Sized s) :
    ∀ p ∈ fixedPairs ctx s type now, SoundPair p := by
  have host := packOpt_sound s.host sized.host
  have path := packOpt_sound s.path sized.path
  have keys : ∀ k ∈ (fixedPairs ctx s type now).map Prod.fst, k.strlen ≤ INT_MAX := by
    change ∀ k ∈ fixedKeys, _
    decide
  have values : ∀ v ∈ (fixedPairs ctx s type now).map Prod.snd, v.Sound := by
    simp only [fixedPairs, List.map_cons, List.map_nil, List.forall_mem_cons]
    exact ⟨packStr_sound _ (by decide), toInt_range _, packStr_sound _ (httpMethodStr_strlen _),
      host, host, path, packStr_sound _ node, toInt_range _, packStr_sound _ (intNtoa_strlen _),
      toInt_range _, packStr_sound _ (intNtoa_strlen _), packStr_sound _ (closeStatus_strlen _),
      toInt_range _, toInt_range _, toInt_range _, toInt_range _, toInt_range _, nofun⟩
  exact fun p member =>
    ⟨keys p.1 (List.mem_map_of_mem member), values p.2 (List.mem_map_of_mem member)⟩

theorem refererPairs_sound (s : Session) (sized : Sized s) :
    ∀ p ∈ refererPairs s, SoundPair p := by
  intro p member
  unfold refererPairs at member
  split at member
  · rename_i referer here
    have short := sized.referer referer here
    rcases List.mem_cons.mp member with rfl | host
    · exact ⟨(by decide : (lit "referer").strlen ≤ INT_MAX), packStr_sound _ short⟩
    · rw [List.mem_map] at host
      obtain ⟨host, found, rfl⟩ := host
      have shorter := refererHost_strlen referer host (Option.mem_toList.mp found)
      exact ⟨(by decide : (lit "referer-host").strlen ≤ INT_MAX),
        packStr_sound _ (shorter.trans short)⟩
  · cases member

theorem propPairs_sound (s : Session) (sized : Sized s) (fit : ∀ kv ∈ s.proplist, kv.Fits) :
    ∀ p ∈ s.proplist.map propPair, SoundPair p := by
  intro p member
  rw [List.mem_map] at member
  obtain ⟨kv, inside, rfl⟩ := member
  have name := (cstr_bytes_isPrefix (joinBuff (kvPrefix kv.type) kv.key)).length_le.trans
    (fit kv inside)
  exact ⟨name.trans (by decide),
    packStr_sound _ ((urldecode_strlen_le kv.value).trans (sized.values kv inside))⟩

theorem bodyPairs_sound (s : Session) (pieces : List Bytes) (gathered : Gathered s pieces) :
    ∀ p ∈ bodyPairs s, SoundPair p := by
  intro p member
  unfold bodyPairs at member
  split at member
  · rename_i caught
    simp only [List.mem_cons, List.not_mem_nil, or_false] at member
    rcases member with rfl | rfl
    · exact ⟨(by decide : (lit "body-captured-size").strlen ≤ INT_MAX), toInt_range _⟩
    · refine ⟨(by decide : (lit "body-captured").strlen ≤ INT_MAX), ?_,
        caught.2.le.trans (by decide)⟩
      rw [gathered_pieces s pieces gathered]
      exact gathered.total
  · cases member

theorem kvTypeString_head (type : KvType) (key : CStr) :
    (kvTypeString type key).bytes.head? = (kvPrefix type).bytes.head? := by
  have free := (kvPrefix type).nulFree
  change ((kvPrefix type).bytes ++ _ ++ [0] |>.takeWhile (· ≠ 0)).head? = _
  rw [List.append_assoc]
  generalize key.bytes.take JOIN_BUFF_SIZE ++ [0] = rest
  cases shape : (kvPrefix type).bytes with
  | nil => cases type <;> cases shape
  | cons c front =>
      have plain : c ≠ 0 := fun zero => free (by rw [shape, zero]; exact List.mem_cons_self)
      rw [List.cons_append, List.takeWhile_cons_of_pos (by simpa using plain)]
      rfl

/-- No key but its own is that of the captured body. -/
theorem body_key_apart (ctx : Context) (s : Session) (type : CloseType) (now : Moment) :
    ∀ p ∈ fixedPairs ctx s type now ++ refererPairs s ++ s.proplist.map propPair,
      p.1.bytes ≠ asc "body-captured" := by
  intro p member
  rw [List.mem_append, List.mem_append] at member
  rcases member with (fixed | referer) | prop
  · have keys : ∀ k ∈ (fixedPairs ctx s type now).map Prod.fst, k.bytes ≠ asc "body-captured" := by
      change ∀ k ∈ fixedKeys, _
      decide
    exact keys p.1 (List.mem_map_of_mem fixed)
  · unfold refererPairs at referer
    split at referer
    · rcases List.mem_cons.mp referer with rfl | host
      · exact (by decide : (lit "referer").bytes ≠ asc "body-captured")
      · rw [List.mem_map] at host
        obtain ⟨host, -, rfl⟩ := host
        exact (by decide : (lit "referer-host").bytes ≠ asc "body-captured")
    · cases referer
  · rw [List.mem_map] at prop
    obtain ⟨kv, -, rfl⟩ := prop
    intro same
    have first := kvTypeString_head kv.type kv.key
    rw [show (kvTypeString kv.type kv.key).bytes = _ from same] at first
    revert first
    cases kv.type <;> decide

/-- What a reader finds in the message of a filing. -/
def Filing.decoded (ctx : Context) (bits : Int → UInt32) (f : Filing) : List (Value × Value) :=
  (reportPairs ctx f.s f.type f.now).map fun p => (.raw p.1.bytes, p.2.value bits)

theorem decoded_body (ctx : Context) (bits : Int → UInt32) (f : Filing) (pieces : List Bytes)
    (gathered : Gathered f.s pieces) (caught : f.s.isCatchResponseBody = true) :
    (f.decoded ctx bits).lookup (.raw (asc "body-captured")) =
      some (.raw (f.s.responseBody.map BodyBuf.data).flatten) := by
  have apart := body_key_apart ctx f.s f.type f.now
  have size_key : (Value.raw (asc "body-captured") == Value.raw (lit "body-captured-size").bytes) =
      false := by decide
  have body_key : (Value.raw (asc "body-captured") == Value.raw (lit "body-captured").bytes) =
      true := by decide
  rw [Filing.decoded, reportPairs, List.map_append, List.lookup_append, List.lookup_eq_none_iff.mpr]
  · rw [bodyPairs, if_pos ⟨caught, gathered.small⟩, gathered_pieces f.s pieces gathered]
    simp only [List.map_cons, List.map_nil, List.lookup_cons, size_key, body_key]
    rfl
  · intro p member
    rw [List.mem_map] at member
    obtain ⟨pair, inside, rfl⟩ := member
    have other := apart pair inside
    simpa using fun same => other same.symm

/-- The message of a filing reads as one map and nothing else, its size is that of
the header, its raw lengths are those of the bytes behind them, and the captured
body is what was gathered of the delivered fragments. -/
structure WellFormed (ctx : Context) (pk : Packer) (bits : Int → UInt32) (f : Filing)
    (delivered : List Bytes) : Prop where
  decodes : decodeMap ((f.report ctx).data pk) = some (f.decoded ctx bits, [])
  pairs : (f.decoded ctx bits).length = (f.report ctx).pairCount
  size : ∃ high low rest, (f.report ctx).data pk = 0xde :: high :: low :: rest ∧
    high.toNat * 256 + low.toNat = (f.report ctx).pairCount
  lengths : ∀ len pieces, Packed.raw len pieces ∈ (f.report ctx).objects →
    pieces.flatten.length = len
  body : f.s.isCatchResponseBody = true →
    (f.decoded ctx bits).lookup (.raw (asc "body-captured")) =
      some (.raw (f.s.responseBody.map BodyBuf.data).flatten)
  bodySize : (f.s.responseBody.map BodyBuf.data).flatten.length = f.s.responseBodySize
  order : (f.s.responseBody.map BodyBuf.data).Sublist delivered

theorem reportPairs_sound (ctx : Context) (f : Filing) (delivered : List Bytes)
    (node : ctx.cfg.node.strlen ≤ INT_MAX) (sized : Sized f.s) (gathered : Gathered f.s delivered)
    (fit : ∀ kv ∈ f.s.proplist, kv.Fits) :
    ∀ p ∈ reportPairs ctx f.s f.type f.now, SoundPair p := by
  intro p member
  rw [reportPairs, List.mem_append, List.mem_append, List.mem_append] at member
  rcases member with ((fixed | referer) | prop) | body
  · exact fixedPairs_sound ctx f.s f.type f.now node sized p fixed
  · exact refererPairs_sound f.s sized p referer
  · exact propPairs_sound f.s sized fit p prop
  · exact bodyPairs_sound f.s delivered gathered p body

theorem wellFormed_of_sound (ctx : Context) (pk : Packer) (bits : Int → UInt32)
    (lawful : pk.Lawful bits) (f : Filing) (delivered : List Bytes)
    (gathered : Gathered f.s delivered)
    (sound : ∀ p ∈ reportPairs ctx f.s f.type f.now, SoundPair p)
    (few : (f.report ctx).pairCount ≤ 65535) : WellFormed ctx pk bits f delivered := by
  obtain ⟨high, low, map⟩ := lawful.map
  have count := report_pairCount ctx f
  have objects := buildReport_objects ctx f.s f.type f.now
  change (f.report ctx).objects = _ at objects
  have number : (f.report ctx).count = toShort (f.report ctx).pairCount := by
    rw [count]
    exact buildReport_count ctx f.s f.type f.now
  have patched := size_patched (f.report ctx).pairCount few
  rw [← number] at patched
  have written := data_eq pk high low (f.report ctx) map
  have rendered : (f.report ctx).objects.flatMap (Packed.render pk) =
      (reportPairs ctx f.s f.type f.now).flatMap fun p =>
        (packStr p.1).render pk ++ p.2.render pk := by
    rw [objects, List.flatMap_assoc]
    simp
  have lengths : ∀ object ∈ (f.report ctx).objects, object.Sound := by
    intro object member
    rw [objects, List.mem_flatMap] at member
    obtain ⟨p, inside, member⟩ := member
    obtain ⟨key, value⟩ := sound p inside
    simp only [List.mem_cons, List.not_mem_nil, or_false] at member
    rcases member with rfl | rfl
    · exact packStr_sound p.1 key
    · exact value
  refine ⟨?_, ?_, ⟨_, _, _, written, patched⟩, fun len pieces member => (lengths _ member).1,
    fun caught => decoded_body ctx bits f delivered gathered caught, gathered.total,
    gathered.order⟩
  · have decoded := decodeMap_flatMap (fun p : CStr × Packed => (packStr p.1).render pk)
      (fun p => p.2.render pk) (fun p => (packStr p.1).value bits) (fun p => p.2.value bits)
      (reportPairs ctx f.s f.type f.now)
      (fun p inside => ⟨render_encodes pk bits lawful _ (packStr_sound p.1 (sound p inside).1),
        render_encodes pk bits lawful _ (sound p inside).2⟩) _ _ (patched.trans count)
    rw [written, rendered, decoded, Filing.decoded]
    simp [packStr, Packed.value]
  · rw [count, Filing.decoded, List.length_map]

/-- What `session_report` sends on a connection is what is filed, and every report whose pairs
fit the header and whose names fit their buffer is one well-formed message. -/
theorem reports_wellFormed (ctx : Context) (pk : Packer) (bits : Int → UInt32)
    (lawful : pk.Lawful bits) (node : ctx.cfg.node.strlen ≤ INT_MAX) (stat : Status)
    (run : List (Moment × Event)) (short : ∀ e ∈ run, e.2.data.length ≤ INT_MAX)
    (type : CloseType) (now : Moment) :
    allReports ctx (connStart stat) run type now =
        (filings ctx (connStart stat) run type now).map (Filing.report ctx) ∧
      ∀ f ∈ filings ctx (connStart stat) run type now, (f.report ctx).pairCount ≤ 65535 →
        (∀ kv ∈ f.s.proplist, kv.Fits) → WellFormed ctx pk bits f (bodyPieces run) := by
  refine ⟨allReports_filings ctx (connStart stat) run type now, ?_⟩
  intro f filed few fit
  obtain ⟨front, back, rfl, entries, kept⟩ := filed_reached ctx (connStart stat) run type now f filed
  obtain ⟨sized, gathered⟩ := after_sound ctx stat front
    fun e member => short e (List.mem_append_left _ member)
  have sized' : Sized f.s := sized_kept sized entries kept
  have gathered' : Gathered f.s (bodyPieces (front ++ back)) := gathered_kept back gathered kept
  exact wellFormed_of_sound ctx pk bits lawful f _ gathered'
    (reportPairs_sound ctx f _ node sized' gathered' fit) few

/-- One exchange with a header of each side and a body in two fragments. -/
def helloRun : List (Moment × Event) :=
  ([.requestBegin, .requestUrl (asc "/?KEY=v"), .requestHeaderField (asc "Host"),
    .requestHeaderValue (asc "local"), .requestHeadersComplete .get 1 1, .requestComplete,
    .responseBegin, .reponseHeaderField (asc "Server"), .reponseHeaderValue (asc "s"),
    .responseHeadersComplete 200, .responseBody (asc "hel"), .responseBody (asc "lo"),
    .responseComplete 200] : List Event).map (default, ·)

theorem hello_wellFormed :
    ∃ f, allReports localContext (connStart statusInit) helloRun .close default =
        [f.report localContext] ∧
      WellFormed localContext (shortest fun _ => 0) (fun _ => 0) f [asc "hel", asc "lo"] := by
  obtain ⟨sent, wellFormed⟩ := reports_wellFormed localContext (shortest fun _ => 0) (fun _ => 0)
    (shortest_lawful _) (by decide) statusInit helloRun (by decide) .close default
  have filed : ∃ f, filings localContext (connStart statusInit) helloRun .close default = [f] ∧
      f.s.proplist.length ≤ 3 ∧ ∀ kv ∈ f.s.proplist, kv.Fits :=
    ⟨_, rfl, by decide, by decide⟩
  obtain ⟨f, filed, entries, fit⟩ := filed
  rw [filed] at sent wellFormed
  have referer := refererPairs_length_le f.s
  have body := bodyPairs_length_le f.s
  have count : (f.report localContext).pairCount ≤ 65535 := by
    rw [report_pairCount, reportPairs_length]
    omega
  exact ⟨f, sent, wellFormed f List.mem_cons_self count fit⟩

end Bscope
