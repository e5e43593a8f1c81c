import Bscope.Commands
import Bscope.LoadConfig

set_option autoImplicit false

/- A configuration file as the commands it gives: values to set and tokens to store. -/
namespace Bscope

open Tokens Commands

inductive Command where
  | assign (key : Setting) (value : CStr)
  | store (type : CfgType) (p : Bytes)
deriving DecidableEq

/-- A text that is no address to `ip_parse` ends the process. -/
def Command.refused : Command → Bool
  | .store .hostIp p => (ipParse p).isNone
  | _ => false

def Settings.obey (c : Settings) : Command → Settings
  | .assign key value => key.assign value c
  | .store type p => (c.storeToken type p).getD c

def Settings.slots (c : Settings) : Command → List Slot
  | .assign _ _ => []
  | .store type _ => (c.counter type).toList.map fun len => ⟨type, len.toNat⟩

def Loading.obey (l : Loading) (command : Command) : Loading :=
  ⟨l.config.obey command, l.slots ++ l.config.slots command⟩

/-- What the value of one pair asks for. -/
def pairCommands (pair : CStr × CStr × CStr) : List Command :=
  match settingOf pair.1 pair.2.1 with
  | some (.list type) => (tokens isSplit pair.2.2.bytes).map (.store type)
  | some key => [.assign key pair.2.2]
  | none => []

/-- The defaults of `loadconfig`, as if they stood in the file. -/
def defaultCommands : List Command :=
  [.assign .nodeName (lit "unnamed"), .assign .host (lit "localhost"), .assign .user (lit "guest"),
    .assign .password (lit "guest"), .assign .vhost (lit "/"),
    .assign .exchange (lit "http-scope"), .assign .port (lit "5672")]

def fileCommands (file : Bytes) : List Command := (iniFilePairs file).flatMap pairCommands

theorem storeToken_attempt (l : Loading) (type : CfgType) (p : Bytes) :
    l.storeToken type p = attempt Loading.obey Command.refused l (.store type p) := by
  cases type with
  | hostIp =>
      unfold Loading.storeToken attempt Loading.obey Settings.obey Settings.storeToken
      cases parsed : ipParse p <;> simp [Command.refused, parsed, Settings.slots]
  | _ => rfl

theorem splitLoop_tokens (type : CfgType) (fuel : Nat) (value : Bytes) (l : Loading)
    (enough : value.length < fuel) :
    splitLoop type fuel value l =
      ((tokens isSplit value).map (Command.store type)).foldlM
        (attempt Loading.obey Command.refused) l := by
  induction fuel generalizing value l with
  | zero => omega
  | succ fuel ih =>
      unfold splitLoop
      cases found : strtok isSplit value with
      | none =>
          rw [strtok_none isSplit value found]
          rfl
      | some cut =>
          obtain ⟨p, rest⟩ := cut
          have ⟨first, shorter⟩ := strtok_some isSplit value p rest found
          rw [first, List.map_cons, List.foldlM_cons, ← storeToken_attempt]
          show (l.storeToken type p).bind (splitLoop type fuel rest) = _
          congr 1
          funext l'
          apply ih
          omega

theorem splitList_tokens (l : Loading) (value : Bytes) (type : CfgType) :
    splitList l value type =
      ((tokens isSplit value).map (Command.store type)).foldlM
        (attempt Loading.obey Command.refused) l :=
  splitLoop_tokens type _ value l (Nat.lt_succ_self _)

theorem handlerConfig_commands (l : Loading) (pair : CStr × CStr × CStr) :
    iniHandle handlerConfig l pair =
      (pairCommands pair).foldlM (attempt Loading.obey Command.refused) l := by
  unfold iniHandle handlerConfig pairCommands
  cases setting : settingOf pair.1 pair.2.1 with
  | none => rfl
  | some key =>
      cases key with
      | list type =>
          show ((splitList l pair.2.2.bytes type).map fun l => (l, true)).map Prod.fst = _
          rw [← splitList_tokens]
          cases splitList l pair.2.2.bytes type <;> rfl
      | _ => simp [attempt, Command.refused, Loading.obey, Settings.obey, Settings.slots, Except.map]

theorem pairs_commands (pairs : List (CStr × CStr × CStr)) (l : Loading) :
    pairs.foldlM (iniHandle handlerConfig) l =
      (pairs.flatMap pairCommands).foldlM (attempt Loading.obey Command.refused) l := by
  induction pairs generalizing l with
  | nil => rfl
  | cons pair pairs ih =>
      rw [List.foldlM_cons, List.flatMap_cons, List.foldlM_append, handlerConfig_commands]
      congr 1
      funext l'
      exact ih l'

/-- Reading the values of pairs one after another. -/
theorem handlerConfig_run (pairs : List (CStr × CStr × CStr)) (l : Loading) :
    pairs.foldlM (iniHandle handlerConfig) l =
      if (pairs.flatMap pairCommands).any Command.refused then
        .error ((heeded Command.refused (pairs.flatMap pairCommands)).foldl Loading.obey l)
      else .ok ((pairs.flatMap pairCommands).foldl Loading.obey l) := by
  rw [pairs_commands, foldlM_attempt]

theorem defaults_commands (l : Loading) :
    defaultCommands.foldl Loading.obey l = { l with config := l.config.defaults } := by
  have port : atoi (lit "5672").bytes = 5672 := by decide
  simp [defaultCommands, Loading.obey, Settings.obey, Settings.slots, Setting.assign,
    Settings.defaults, port]

theorem loadconfig_commands (l : Loading) (file : Bytes) :
    (loadconfig l (some file)).map Prod.fst =
      if (fileCommands file).any Command.refused then
        .error ((defaultCommands ++ heeded Command.refused (fileCommands file)).foldl
          Loading.obey l)
      else .ok ((defaultCommands ++ fileCommands file).foldl Loading.obey l) := by
  show (iniParseFile handlerConfig file { l with config := l.config.defaults }).map Prod.fst = _
  rw [iniParseFile_pairs, handlerConfig_run, List.foldl_append, List.foldl_append,
    defaults_commands]
  rfl

theorem foldl_config (commands : List Command) (l : Loading) :
    (commands.foldl Loading.obey l).config = commands.foldl Settings.obey l.config := by
  rw [List.foldl_hom Loading.config]
  intro l command
  rfl

/-- The tokens that the values under a list's name hold. -/
def listTokens (pairs : List (CStr × CStr × CStr)) (type : CfgType) : List Bytes :=
  pairs.flatMap fun pair =>
    if settingOf pair.1 pair.2.1 = some (.list type) then tokens isSplit pair.2.2.bytes else []

theorem store_mem_pairCommands (pair : CStr × CStr × CStr) (type : CfgType) (p : Bytes) :
    Command.store type p ∈ pairCommands pair ↔
      settingOf pair.1 pair.2.1 = some (.list type) ∧ p ∈ tokens isSplit pair.2.2.bytes := by
  unfold pairCommands
  cases setting : settingOf pair.1 pair.2.1 with
  | none => simp
  | some key =>
      cases key with
      | list t =>
          simp only [List.mem_map, Command.store.injEq, Option.some.injEq, Setting.list.injEq]
          constructor
          · rintro ⟨q, member, rfl, rfl⟩
            exact ⟨rfl, member⟩
          · rintro ⟨rfl, member⟩
            exact ⟨p, member, rfl, rfl⟩
      | _ => simp

theorem store_mem_commands (pairs : List (CStr × CStr × CStr)) (type : CfgType) (p : Bytes) :
    Command.store type p ∈ pairs.flatMap pairCommands ↔ p ∈ listTokens pairs type := by
  unfold listTokens
  rw [List.mem_flatMap, List.mem_flatMap]
  apply exists_congr
  intro pair
  rw [store_mem_pairCommands]
  split <;> simp_all

/-- The process exits at a token that is no address. -/
theorem refused_iff (pairs : List (CStr × CStr × CStr)) :
    (pairs.flatMap pairCommands).any Command.refused = true ↔
      ∃ p ∈ listTokens pairs .hostIp, ipParse p = none := by
  rw [List.any_eq_true]
  constructor
  · rintro ⟨command, member, refused⟩
    cases command with
    | assign key value => cases refused
    | store type p =>
        cases type with
        | hostIp =>
            exact ⟨p, (store_mem_commands pairs .hostIp p).mp member,
              Option.isNone_iff_eq_none.mp refused⟩
        | _ => cases refused
  · rintro ⟨p, member, fails⟩
    refine ⟨.store .hostIp p, (store_mem_commands pairs .hostIp p).mpr member, ?_⟩
    simp [Command.refused, fails]

/-- The number of stores made into an array. -/
def Settings.stored (c : Settings) : CfgType → Nat
  | .hostName => c.hostname.items.length
  | .hostPort => c.hostport.items.length
  | .hostIp => c.hostip.items.length
  | .catchCode => 0
  | .catchReqHead => c.catchReqHead.items.length
  | .catchRspHead => c.catchRspHead.items.length
  | .catchCookie => c.catchCookie.items.length
  | .catchGet => c.catchGet.items.length
  | .catchPost => c.catchPost.items.length

def Command.storesTo (type : CfgType) : Command → Bool
  | .store t p => t = type && !(Command.store t p).refused
  | .assign _ _ => false

/-- The eight arrays, without the codes. -/
def Settings.arrays (c : Settings) :=
  (c.hostname, c.hostport, c.hostip, c.catchReqHead, c.catchRspHead, c.catchCookie, c.catchGet,
    c.catchPost)

/-- A value for one field leaves the lists alone. -/
theorem assign_lists (key : Setting) (value : CStr) (c : Settings) :
    (key.assign value c).arrays = c.arrays ∧ (key.assign value c).catchCode = c.catchCode := by
  cases key with
  | daemonMode | pidFile | networkInterface =>
      simp only [Setting.assign]
      constructor <;> split <;> rfl
  | _ => exact ⟨rfl, rfl⟩

theorem assign_stored (key : Setting) (value : CStr) (c : Settings) :
    (key.assign value c).stored = c.stored := by
  have same := (assign_lists key value c).1
  simp only [Settings.arrays, Prod.mk.injEq] at same
  funext type
  cases type <;> simp only [Settings.stored, same]

theorem storeToken_none (c : Settings) (type : CfgType) (p : Bytes) :
    c.storeToken type p = none ↔ (Command.store type p).refused = true := by
  cases type <;> simp [Settings.storeToken, Command.refused]

theorem storeToken_stored (c c' : Settings) (t type : CfgType) (p : Bytes)
    (array : type ≠ .catchCode) (stores : c.storeToken t p = some c') :
    c'.stored type = c.stored type + if t = type then 1 else 0 := by
  cases t with
  | hostIp =>
      obtain ⟨ip, -, rfl⟩ := Option.map_eq_some_iff.mp stores
      cases type <;> simp [Settings.stored, Counted.push]
  | catchCode =>
      obtain rfl := Option.some.inj stores
      rw [if_neg (Ne.symm array)]
      rfl
  | _ =>
      obtain rfl := Option.some.inj stores
      cases type <;> simp [Settings.stored, Counted.push]

theorem obey_stored (c : Settings) (command : Command) (type : CfgType)
    (array : type ≠ .catchCode) :
    (c.obey command).stored type =
      c.stored type + if command.storesTo type then 1 else 0 := by
  cases command with
  | assign key value =>
      show (key.assign value c).stored type = _
      rw [assign_stored]
      rfl
  | store t p =>
      show ((c.storeToken t p).getD c).stored type = _
      have fails := storeToken_none c t p
      cases stores : c.storeToken t p with
      | none => simp [Command.storesTo, fails.mp stores]
      | some c' =>
          have accepted : (Command.store t p).refused = false := by
            simpa [stores] using fails
          rw [Option.getD_some, storeToken_stored c c' t type p array stores]
          simp [Command.storesTo, accepted]

theorem run_stored (commands : List Command) (c : Settings) (type : CfgType)
    (array : type ≠ .catchCode) :
    (commands.foldl Settings.obey c).stored type =
      c.stored type + commands.countP (Command.storesTo type) :=
  counts_run Settings.obey (fun c => c.stored type) (Command.storesTo type)
    (fun c command => obey_stored c command type array) commands c

end Bscope
