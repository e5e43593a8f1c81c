import Bscope.ConfigCommands

set_option autoImplicit false

/- The rows of the arrays that the stores of a configuration go to. -/
namespace Bscope

open Tokens Commands

/-- The state in which a run ends, whether the process goes on or exits. -/
def reached {σ : Type} : Except σ σ → σ
  | .ok s => s
  | .error s => s

/-- The record as `loadconfig` hands it to the parser, before the first line. -/
def loadingInit (pidFile netif : Option CStr) (daemonMode : Int) : Loading :=
  ⟨(settingsInit pidFile netif daemonMode).defaults, []⟩

/-- The counters follow the stores modulo 2^16, and a row is out of bounds as soon as
an array has had 256 stores. -/
structure Numbered (l : Loading) : Prop where
  counter : ∀ type len, l.config.counter type = some len →
    len.toNat = l.config.stored type % 65536
  inside : (∀ slot ∈ l.slots, slot.index < 255) ↔ ∀ type, l.config.stored type ≤ 255

theorem assign_counter (key : Setting) (value : CStr) (c : Settings) :
    (key.assign value c).counter = c.counter := by
  have same := (assign_lists key value c).1
  simp only [Settings.arrays, Prod.mk.injEq] at same
  funext type
  cases type <;> simp only [Settings.counter, same]

theorem storeToken_counter (c c' : Settings) (t type : CfgType) (p : Bytes)
    (stores : c.storeToken t p = some c') :
    c'.counter type = (c.counter type).map fun len => if t = type then len + 1 else len := by
  cases t with
  | hostIp =>
      obtain ⟨ip, -, rfl⟩ := Option.map_eq_some_iff.mp stores
      cases type <;> rfl
  | _ =>
      obtain rfl := Option.some.inj stores
      cases type <;> rfl

theorem counter_none (c : Settings) (type : CfgType) :
    c.counter type = none ↔ type = .catchCode := by
  cases type <;> simp [Settings.counter]

theorem stored_codes (c : Settings) : c.stored .catchCode = 0 := rfl

theorem stored_init (pidFile netif : Option CStr) (daemonMode : Int) (type : CfgType) :
    (loadingInit pidFile netif daemonMode).config.stored type = 0 := by
  cases type <;> rfl

theorem numbered_init (pidFile netif : Option CStr) (daemonMode : Int) :
    Numbered (loadingInit pidFile netif daemonMode) where
  counter type len counts := by
    cases type <;> cases counts <;> rfl
  inside := by
    apply iff_of_true
    · intro slot member
      cases member
    · intro type
      rw [stored_init]
      omega

theorem numbered_assign (l : Loading) (key : Setting) (value : CStr) (numbered : Numbered l) :
    Numbered (l.obey (.assign key value)) where
  counter type len counts := by
    change (key.assign value l.config).counter type = some len at counts
    show len.toNat = (key.assign value l.config).stored type % 65536
    rw [assign_counter] at counts
    rw [assign_stored]
    exact numbered.counter type len counts
  inside := by
    show (∀ slot ∈ l.slots ++ [], slot.index < 255) ↔
      ∀ type, (key.assign value l.config).stored type ≤ 255
    rw [List.append_nil, assign_stored]
    exact numbered.inside

theorem stored_others (c c' : Settings) (t type : CfgType) (p : Bytes)
    (stores : c.storeToken t p = some c') (differ : type ≠ t) : c'.stored type = c.stored type := by
  by_cases codes : type = .catchCode
  · rw [codes, stored_codes, stored_codes]
  · rw [storeToken_stored _ _ _ _ _ codes stores, if_neg (Ne.symm differ), Nat.add_zero]

/-- One more store into one array, at the row that its counter names. -/
theorem bounded_succ_iff {ι : Type} (f g : ι → Nat) (t : ι) (others : ∀ i, i ≠ t → g i = f i)
    (more : g t = f t + 1) :
    (∀ i, g i ≤ 255) ↔ (∀ i, f i ≤ 255) ∧ f t % 65536 < 255 := by
  constructor
  · intro bounded
    have last := bounded t
    refine ⟨?_, by omega⟩
    intro i
    by_cases same : i = t
    · rw [same]
      omega
    · rw [← others i same]
      exact bounded i
  · rintro ⟨bounded, last⟩ i
    have bound := bounded i
    by_cases same : i = t
    · rw [same] at bound ⊢
      omega
    · rw [others i same]
      exact bound

theorem numbered_store (l : Loading) (t : CfgType) (p : Bytes) (c : Settings)
    (stores : l.config.storeToken t p = some c) (numbered : Numbered l) :
    Numbered ⟨c, l.slots ++ l.config.slots (.store t p)⟩ where
  counter type len counts := by
    rw [storeToken_counter _ _ _ _ _ stores] at counts
    obtain ⟨before, held, rfl⟩ := Option.map_eq_some_iff.mp counts
    have number := numbered.counter type before held
    have array : type ≠ .catchCode := by
      rintro rfl
      cases held
    rw [storeToken_stored _ _ _ _ _ array stores]
    split
    · rw [UInt16.toNat_add, number]
      show (l.config.stored type % 65536 + 1) % 65536 = _
      omega
    · exact number
  inside := by
    have others := fun type => stored_others l.config c t type p stores
    cases held : l.config.counter t with
    | none =>
        have codes := (counter_none l.config t).mp held
        have same : c.stored = l.config.stored := by
          funext type
          by_cases differ : type = t
          · rw [differ, codes, stored_codes, stored_codes]
          · exact others type differ
        simp only [Settings.slots, held, Option.toList_none, List.map_nil, List.append_nil, same]
        exact numbered.inside
    | some len =>
        have array : t ≠ .catchCode := by
          rintro rfl
          cases held
        have more : c.stored t = l.config.stored t + 1 := by
          rw [storeToken_stored _ _ _ _ _ array stores, if_pos rfl]
        simp only [Settings.slots, held, Option.toList_some, List.map_cons, List.map_nil,
          List.forall_mem_append, List.forall_mem_singleton, numbered.inside,
          numbered.counter t len held]
        exact (bounded_succ_iff l.config.stored c.stored t others more).symm

theorem numbered_obey (l : Loading) (command : Command) (accepted : command.refused = false)
    (numbered : Numbered l) : Numbered (l.obey command) := by
  cases command with
  | assign key value => exact numbered_assign l key value numbered
  | store t p =>
      cases stores : l.config.storeToken t p with
      | none =>
          rw [(storeToken_none l.config t p).mp stores] at accepted
          cases accepted
      | some c =>
          have next : l.config.obey (.store t p) = c := by
            show (l.config.storeToken t p).getD l.config = c
            rw [stores, Option.getD_some]
          unfold Loading.obey
          rw [next]
          exact numbered_store l t p c stores numbered

theorem numbered_run (commands : List Command) (l : Loading)
    (accepted : ∀ command ∈ commands, command.refused = false) (numbered : Numbered l) :
    Numbered (commands.foldl Loading.obey l) := by
  induction commands generalizing l with
  | nil => exact numbered
  | cons command commands ih =>
      apply ih
      · intro other member
        exact accepted other (List.mem_cons_of_mem command member)
      · exact numbered_obey l command (accepted command List.mem_cons_self) numbered

theorem reached_run (pairs : List (CStr × CStr × CStr)) (l : Loading) :
    reached (pairs.foldlM (iniHandle handlerConfig) l) =
      (heeded Command.refused (pairs.flatMap pairCommands)).foldl Loading.obey l := by
  rw [handlerConfig_run]
  cases refused : (pairs.flatMap pairCommands).any Command.refused with
  | true => rfl
  | false => rw [heeded_of_accepted _ _ refused]; rfl

/-- The stores of a configuration stay in their arrays just when no array is given more
than 255 tokens before the process exits, if it does. -/
theorem handlerConfig_inside_iff (pidFile netif : Option CStr) (daemonMode : Int)
    (pairs : List (CStr × CStr × CStr)) :
    (∀ slot ∈ (reached (pairs.foldlM (iniHandle handlerConfig)
        (loadingInit pidFile netif daemonMode))).slots, slot.index < 255) ↔
      ∀ type, type ≠ .catchCode →
        (heeded Command.refused (pairs.flatMap pairCommands)).countP (Command.storesTo type) ≤ 255 := by
  have accepted : ∀ command ∈ heeded Command.refused (pairs.flatMap pairCommands),
      command.refused = false := by
    intro command member
    simpa using List.mem_takeWhile_imp member
  have numbered := numbered_run _ _ accepted (numbered_init pidFile netif daemonMode)
  rw [reached_run, numbered.inside, foldl_config]
  apply forall_congr'
  intro type
  by_cases array : type = .catchCode
  · subst array
    apply iff_of_true
    · exact Nat.zero_le _
    · intro differ
      exact absurd rfl differ
  · rw [run_stored _ _ type array, stored_init, Nat.zero_add]
    simp [array]

/-- Three lines of 92 ports. -/
theorem handlerConfig_outside_ports :
    ¬ ∀ slot ∈ (reached ((List.replicate 3 (lit "http-scope", lit "host-port",
        cstr (List.replicate 92 (asc "1,")).flatten)).foldlM (iniHandle handlerConfig)
          (loadingInit none none 0))).slots, slot.index < 255 := by
  decide +kernel

end Bscope
