import Bscope.HostEntry
import Bscope.ListBounds

set_option autoImplicit false

/- The streams that the settings let through. -/
namespace Bscope

open Tokens Commands Masks

/-- The destination's four bytes as they are written in an address. -/
def Tuple4.destination (addr : Tuple4) : Nat :=
  quad (addr.daddr.toNat % 256) (addr.daddr.toNat / 256 % 256) (addr.daddr.toNat / 65536 % 256)
    (addr.daddr.toNat / 16777216)

theorem ntohl_destination (addr : Tuple4) : (ntohl addr.daddr).toNat = addr.destination := by
  have bound := addr.daddr.toNat_lt
  have first : (addr.daddr <<< 24).toNat = (addr.daddr.toNat % 256) <<< 24 := by
    show addr.daddr.toNat <<< 24 % 2 ^ 32 = _
    simp only [Nat.shiftLeft_eq]
    omega
  have second : ((addr.daddr &&& 65280) <<< 8).toNat = (addr.daddr.toNat / 256 % 256) <<< 16 := by
    show (addr.daddr.toNat &&& 255 <<< 8) <<< 8 % 2 ^ 32 = _
    rw [and_byte]
    simp only [Nat.shiftLeft_eq]
    omega
  have third : (addr.daddr >>> 8 &&& 65280).toNat = (addr.daddr.toNat / 65536 % 256) <<< 8 := by
    show addr.daddr.toNat >>> 8 &&& 255 <<< 8 = _
    rw [and_byte, Nat.shiftRight_eq_div_pow, Nat.div_div_eq_div_mul]
    rfl
  have fourth : (addr.daddr >>> 24).toNat = addr.daddr.toNat / 16777216 :=
    Nat.shiftRight_eq_div_pow _ _
  unfold ntohl Tuple4.destination
  rw [UInt32.toNat_or, UInt32.toNat_or, UInt32.toNat_or, first, second, third, fourth]
  apply quad_or <;> omega

/-- What a command adds to an array, if `read` is what a token becomes there. -/
def Command.adds {β : Type} (type : CfgType) (read : Bytes → List β) : Command → List β
  | .store t p => if t = type then read p else []
  | .assign _ _ => []

theorem pairCommands_adds {β : Type} (pair : CStr × CStr × CStr) (type : CfgType)
    (read : Bytes → List β) :
    (pairCommands pair).flatMap (Command.adds type read) =
      (if settingOf pair.1 pair.2.1 = some (.list type) then tokens isSplit pair.2.2.bytes
        else []).flatMap read := by
  unfold pairCommands
  cases setting : settingOf pair.1 pair.2.1 with
  | none => simp
  | some key =>
      cases key with
      | list t =>
          by_cases same : t = type
          · subst same
            simp [List.flatMap_map, Command.adds]
          · simp [List.flatMap_map, Command.adds, same]
      | _ => simp [Command.adds]

theorem commands_adds {β : Type} (pairs : List (CStr × CStr × CStr)) (type : CfgType)
    (read : Bytes → List β) :
    (pairs.flatMap pairCommands).flatMap (Command.adds type read) =
      (listTokens pairs type).flatMap read := by
  unfold listTokens
  rw [List.flatMap_assoc, List.flatMap_assoc]
  congr 1
  funext pair
  exact pairCommands_adds pair type read

theorem run_hostip (commands : List Command) (c : Settings) :
    (commands.foldl Settings.obey c).hostip.items =
      c.hostip.items ++ commands.flatMap (Command.adds .hostIp fun p => (ipParse p).toList) := by
  apply appends_run Settings.obey (fun c => c.hostip.items)
  intro c command
  cases command with
  | assign key value =>
      have same := (assign_lists key value c).1
      simp only [Settings.arrays, Prod.mk.injEq] at same
      show (key.assign value c).hostip.items = c.hostip.items ++ []
      rw [List.append_nil, same.2.2.1]
  | store t p =>
      cases t with
      | hostIp =>
          simp only [Settings.obey, Settings.storeToken, Command.adds]
          cases ipParse p <;> simp [Counted.push]
      | _ => exact (List.append_nil _).symm

theorem run_hostport (commands : List Command) (c : Settings) :
    (commands.foldl Settings.obey c).hostport.items =
      c.hostport.items ++ commands.flatMap
        (Command.adds .hostPort fun p => [UInt16.ofInt (atoi p)]) := by
  apply appends_run Settings.obey (fun c => c.hostport.items)
  intro c command
  cases command with
  | assign key value =>
      have same := (assign_lists key value c).1
      simp only [Settings.arrays, Prod.mk.injEq] at same
      show (key.assign value c).hostport.items = c.hostport.items ++ []
      rw [List.append_nil, same.2.1]
  | store t p =>
      cases t with
      | hostIp =>
          simp only [Settings.obey, Settings.storeToken, Command.adds]
          cases ipParse p <;> exact (List.append_nil _).symm
      | _ => first | rfl | exact (List.append_nil _).symm

/-- The address under its mask, and the mask, as they stand in a row of `hostip`. -/
def HostEntry.row (e : HostEntry) : UInt32 × UInt32 :=
  (octetSum e.a.value e.b.value e.c.value e.d.value &&& maskOf e.prefixLength,
    maskOf e.prefixLength)

theorem HostEntry.prefix_short (e : HostEntry) : e.prefixLength ≤ 32 := by
  unfold HostEntry.prefixLength
  cases e.bits with
  | none => exact Nat.le_refl 32
  | some m => exact m.bounded

theorem row_iff (e : HostEntry) (addr : Tuple4) :
    ntohl addr.daddr &&& e.row.2 = e.row.1 ↔
      addr.destination / 2 ^ (32 - e.prefixLength) = e.address / 2 ^ (32 - e.prefixLength) := by
  have sum := octetSum_value e.a.value e.b.value e.c.value e.d.value e.a.bounded e.b.bounded
    e.c.bounded e.d.bounded
  rw [← ntohl_destination, HostEntry.address, ← sum]
  exact maskOf_iff e.prefixLength e.prefix_short _ _

theorem port_iff (p : Numeral 65535) (dest : UInt16) :
    UInt16.ofInt (atoi p.digits) = dest ↔ dest.toNat = p.value := by
  have bound : p.value ≤ 65535 := p.bounded
  have word : (UInt16.ofInt (p.value : Int)).toNat = p.value := by
    show ((p.value : Int) % 2 ^ 16).toNat % 2 ^ 16 = p.value
    omega
  rw [p.atoi (by decide), ← UInt16.toNat_inj, word]
  exact eq_comm

theorem entries_accepted (pairs : List (CStr × CStr × CStr)) (entries : List HostEntry)
    (hosts : listTokens pairs .hostIp = entries.map HostEntry.text) :
    (pairs.flatMap pairCommands).any Command.refused = false := by
  rw [Bool.eq_false_iff, ne_eq, refused_iff, hosts]
  rintro ⟨p, member, fails⟩
  obtain ⟨e, -, rfl⟩ := List.mem_map.mp member
  rw [ipParse_text] at fails
  cases fails

/-- Rows of host and port as the file gives them. -/
theorem service_run (pidFile netif : Option CStr) (daemonMode : Int)
    (pairs : List (CStr × CStr × CStr)) (entries : List HostEntry) (ports : List (Numeral 65535))
    (hosts : listTokens pairs .hostIp = entries.map HostEntry.text)
    (dests : listTokens pairs .hostPort = ports.map Numeral.digits)
    (few : entries.length ≤ 255 ∧ ports.length ≤ 255) :
    ((pairs.flatMap pairCommands).foldl Loading.obey
        (loadingInit pidFile netif daemonMode)).config.service =
      ⟨entries.map HostEntry.row, ports.map fun p => UInt16.ofInt (atoi p.digits)⟩ := by
  have accepted := entries_accepted pairs entries hosts
  rw [List.any_eq_false] at accepted
  have numbered := numbered_run _ _ (fun command member => by simpa using accepted command member)
    (numbered_init pidFile netif daemonMode)
  have hostLen := numbered.counter .hostIp _ rfl
  have portLen := numbered.counter .hostPort _ rfl
  have rows : ((pairs.flatMap pairCommands).foldl Loading.obey
      (loadingInit pidFile netif daemonMode)).config.hostip.items = entries.map HostEntry.row := by
    rw [foldl_config, run_hostip, commands_adds, hosts, List.flatMap_map]
    show [] ++ entries.flatMap (fun e => (ipParse e.text).toList) = _
    simp only [ipParse_text, Option.toList_some, List.nil_append]
    exact List.map_eq_flatMap.symm
  have gates : ((pairs.flatMap pairCommands).foldl Loading.obey
      (loadingInit pidFile netif daemonMode)).config.hostport.items =
        ports.map fun p => UInt16.ofInt (atoi p.digits) := by
    rw [foldl_config, run_hostport, commands_adds, dests, List.flatMap_map]
    exact List.map_eq_flatMap.symm
  simp only [Settings.stored, rows, gates, List.length_map] at hostLen portLen
  unfold Settings.service
  rw [rows, gates, List.take_of_length_le, List.take_of_length_le]
  · rw [List.length_map]
    omega
  · rw [List.length_map]
    omega

/-- The service filter is membership in a network of the list and in the list of ports,
where no array is given more tokens than it has rows. -/
theorem testInService_iff (pidFile netif : Option CStr) (daemonMode : Int)
    (pairs : List (CStr × CStr × CStr)) (entries : List HostEntry) (ports : List (Numeral 65535))
    (hosts : listTokens pairs .hostIp = entries.map HostEntry.text)
    (dests : listTokens pairs .hostPort = ports.map Numeral.digits)
    (fits : ∀ type, type ≠ .catchCode → (listTokens pairs type).length ≤ 255) (addr : Tuple4) :
    ∃ l, pairs.foldlM (iniHandle handlerConfig) (loadingInit pidFile netif daemonMode) = .ok l ∧
      (testInService l.config.service addr = true ↔
        (∃ e ∈ entries,
          addr.destination / 2 ^ (32 - e.prefixLength) = e.address / 2 ^ (32 - e.prefixLength)) ∧
          ∃ p ∈ ports, addr.dest.toNat = p.value) := by
  have few : entries.length ≤ 255 ∧ ports.length ≤ 255 := by
    constructor
    · rw [← List.length_map HostEntry.text, ← hosts]
      exact fits .hostIp (by decide)
    · rw [← List.length_map Numeral.digits, ← dests]
      exact fits .hostPort (by decide)
  refine ⟨(pairs.flatMap pairCommands).foldl Loading.obey
    (loadingInit pidFile netif daemonMode), ?_, ?_⟩
  · rw [handlerConfig_run, entries_accepted pairs entries hosts]
    rfl
  · rw [service_run pidFile netif daemonMode pairs entries ports hosts dests few]
    simp only [testInService, List.any_map, List.any_eq_true, Function.comp_apply,
      Bool.and_eq_true, decide_eq_true_eq, row_iff, port_iff]
    constructor
    · rintro ⟨e, member, near, gate⟩
      exact ⟨⟨e, member, near⟩, gate⟩
    · rintro ⟨⟨e, member, near⟩, gate⟩
      exact ⟨e, member, near, gate⟩

/-- 10.1.2.3 is let through by the network 10.0.0.0/8, at its port. -/
theorem testInService_network :
    ∃ l, [(lit "http-scope", lit "host-ip", lit "10.0.0.0/8"),
        (lit "http-scope", lit "host-port", lit "80, 8080")].foldlM (iniHandle handlerConfig)
          (loadingInit none none 0) = .ok l ∧
      testInService l.config.service ⟨40000, 8080, 0, 50462986⟩ = true := by
  have fits : ∀ type, type ≠ .catchCode →
      (listTokens [(lit "http-scope", lit "host-ip", lit "10.0.0.0/8"),
        (lit "http-scope", lit "host-port", lit "80, 8080")] type).length ≤ 255 := by
    intro type _
    cases type <;> decide +kernel
  obtain ⟨l, loaded, found⟩ := testInService_iff none none 0
    [(lit "http-scope", lit "host-ip", lit "10.0.0.0/8"),
      (lit "http-scope", lit "host-port", lit "80, 8080")]
    [⟨{ digits := asc "10" }, { digits := asc "0" }, { digits := asc "0" },
      { digits := asc "0" }, some { digits := asc "8" }⟩]
    [{ digits := asc "80" }, { digits := asc "8080" }]
    (by decide +kernel) (by decide +kernel) fits ⟨40000, 8080, 0, 50462986⟩
  refine ⟨l, loaded, found.mpr ⟨⟨_, List.mem_singleton_self _, by decide +kernel⟩, ?_⟩⟩
  exact ⟨_, List.mem_cons_of_mem _ (List.mem_singleton_self _), by decide +kernel⟩

end Bscope
