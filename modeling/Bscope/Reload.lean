import Bscope.ConfigCommands

set_option autoImplicit false

/- What reading the same file again does to the settings. -/
namespace Bscope

open Tokens Commands

/-- A second reading of the file leaves the settings as the first one left them. -/
def ReloadKeeps (l : Loading) (file : Bytes) : Prop :=
  ∀ first, loadconfig l (some file) = .ok first →
    ∃ again, loadconfig first.1 (some file) = .ok again ∧ again.1.config = first.1.config

/-- The field that a key sets; the lists have none. -/
def Setting.field (key : Setting) (c : Settings) : Option CStr ⊕ Int :=
  match key with
  | .host => .inl c.master.host
  | .user => .inl c.master.user
  | .password => .inl c.master.password
  | .vhost => .inl c.master.vhost
  | .exchange => .inl c.master.exchange
  | .port => .inr c.master.port
  | .swapFile => .inl c.swapFd
  | .nodeName => .inl c.node
  | .list _ => .inr 0
  | .daemonMode => .inr c.daemonMode
  | .packetChecksum => .inr c.skipChecksum
  | .pidFile => .inl c.pidFile
  | .networkInterface => .inl c.netif

theorem settings_ext (c d : Settings) (fields : ∀ key : Setting, key.field c = key.field d)
    (arrays : c.arrays = d.arrays) (codes : c.catchCode = d.catchCode) : c = d := by
  have host := fields .host
  have user := fields .user
  have password := fields .password
  have vhost := fields .vhost
  have exchange := fields .exchange
  have port := fields .port
  have swapFile := fields .swapFile
  have nodeName := fields .nodeName
  have daemonMode := fields .daemonMode
  have packetChecksum := fields .packetChecksum
  have pidFile := fields .pidFile
  have networkInterface := fields .networkInterface
  obtain ⟨_, _, _, _, _, _, ⟨⟩, _⟩ := c
  obtain ⟨_, _, _, _, _, _, ⟨⟩, _⟩ := d
  simp_all [Setting.field, Settings.arrays]

/-- The keys whose field keeps the first value it is given. -/
def Setting.keepsFirst (key : Setting) : Bool :=
  key = .daemonMode || key = .pidFile || key = .networkInterface

theorem field_assign_ne (key other : Setting) (value : CStr) (c : Settings)
    (differ : key ≠ other) : key.field (other.assign value c) = key.field c := by
  cases other with
  | daemonMode | pidFile | networkInterface =>
      simp only [Setting.assign]
      split
      · cases key <;> first | rfl | exact absurd rfl differ
      · rfl
  | _ => cases key <;> first | rfl | exact absurd rfl differ

theorem field_store (key : Setting) (type : CfgType) (p : Bytes) (c : Settings) :
    key.field (c.obey (.store type p)) = key.field c := by
  cases type with
  | hostIp =>
      simp only [Settings.obey, Settings.storeToken]
      cases ipParse p <;> cases key <;> rfl
  | _ => cases key <;> rfl

theorem field_overwrites (key : Setting) (command : Command) (plain : key.keepsFirst = false) :
    Overwrites Settings.obey key.field command := by
  cases command with
  | store type p =>
      left
      exact field_store key type p
  | assign other value =>
      by_cases same : key = other
      · right
        intro c c'
        subst same
        cases key with
        | daemonMode | pidFile | networkInterface => cases plain
        | _ => rfl
      · left
        intro c
        exact field_assign_ne key other value c same

/-- What such a key does to the value of its field. -/
def latch (value : CStr) : Option CStr ⊕ Int → Option CStr ⊕ Int
  | .inl none => .inl (some value)
  | .inl (some kept) => .inl (some kept)
  | .inr n => .inr (if n = 0 then if value = lit "yes" then 1 else -1 else n)

theorem latch_latch (value first : CStr) (x : Option CStr ⊕ Int) :
    latch value (latch first x) = latch first x := by
  rcases x with (_ | kept) | n
  · rfl
  · rfl
  · have given : (if n = 0 then if first = lit "yes" then (1 : Int) else -1 else n) ≠ 0 := by
      split_ifs <;> omega
    simp only [latch]
    rw [if_neg given]

theorem field_latch (key : Setting) (value : CStr) (c : Settings)
    (first : key.keepsFirst = true) : key.field (key.assign value c) = latch value (key.field c) := by
  cases key with
  | daemonMode =>
      simp only [Setting.assign, Setting.field, latch]
      split <;> rfl
  | pidFile =>
      cases held : c.pidFile <;> simp [Setting.assign, Setting.field, latch, held]
  | networkInterface =>
      cases held : c.netif <;> simp [Setting.assign, Setting.field, latch, held]
  | _ => cases first

/-- A command sets the field of its own key only. -/
theorem field_quiet (key : Setting) (c : Settings) (command : Command)
    (other : ∀ value, command ≠ .assign key value) :
    key.field (c.obey command) = key.field c := by
  cases command with
  | store type p => exact field_store key type p c
  | assign k value =>
      apply field_assign_ne
      rintro rfl
      exact other value rfl

theorem field_latches (key : Setting) (first : key.keepsFirst = true) :
    Latches Settings.obey key.field where
  settles c command := by
    by_cases own : ∃ value, command = .assign key value
    · obtain ⟨value, rfl⟩ := own
      show key.field (key.assign value (key.assign value c)) = key.field (key.assign value c)
      rw [field_latch key value _ first, field_latch key value _ first, latch_latch]
    · exact field_quiet key _ command fun value same => own ⟨value, same⟩
  stays c command command' still := by
    by_cases own : ∃ value, command = .assign key value
    · obtain ⟨value, rfl⟩ := own
      change key.field (key.assign value c) = key.field c at still
      show key.field (key.assign value (c.obey command')) = key.field (c.obey command')
      rw [field_latch key value _ first] at still ⊢
      by_cases own' : ∃ value', command' = .assign key value'
      · obtain ⟨value', rfl⟩ := own'
        show latch value (key.field (key.assign value' c)) = key.field (key.assign value' c)
        rw [field_latch key value' _ first, latch_latch]
      · rw [field_quiet key c command' fun value' same => own' ⟨value', same⟩, still]
    · exact field_quiet key _ command fun value same => own ⟨value, same⟩

theorem field_twice (key : Setting) (commands : List Command) (c : Settings) :
    key.field (commands.foldl Settings.obey (commands.foldl Settings.obey c)) =
      key.field (commands.foldl Settings.obey c) := by
  cases first : key.keepsFirst with
  | true => exact (field_latches key first).twice commands c
  | false =>
      apply overwrites_twice
      intro command _
      exact field_overwrites key command first

/-- The codes that a command adds. -/
def Command.codes : Command → StatusCode → Bool
  | .store .catchCode p => prepareCatchCode (fun _ => false) p
  | _ => fun _ => false

theorem obey_codes (c : Settings) (command : Command) (code : StatusCode) :
    (c.obey command).catchCode code = (c.catchCode code || command.codes code) := by
  cases command with
  | assign key value =>
      show (key.assign value c).catchCode code = (c.catchCode code || false)
      rw [Bool.or_false, (assign_lists key value c).2]
  | store type p =>
      cases type with
      | catchCode =>
          show prepareCatchCode c.catchCode p code = _
          simp only [Command.codes, prepareCatchCode]
          split
          · simp only [Bool.false_or]
          · rw [Bool.or_false]
      | hostIp =>
          simp only [Settings.obey, Settings.storeToken]
          cases ipParse p <;> exact (Bool.or_false _).symm
      | _ => exact (Bool.or_false _).symm

theorem codes_latch : Latches Settings.obey Settings.catchCode where
  settles c command := by
    funext code
    rw [obey_codes, obey_codes, Bool.or_assoc, Bool.or_self]
  stays c command command' still := by
    funext code
    have already := congrFun still code
    rw [obey_codes] at already
    rw [obey_codes, obey_codes, Bool.or_right_comm, already]

/-- Without a token for an array no command touches the arrays. -/
theorem arrays_quiet (c : Settings) (command : Command)
    (listless : ∀ type p, command = .store type p → type = .catchCode) :
    (c.obey command).arrays = c.arrays := by
  cases command with
  | assign key value =>
      exact (assign_lists key value c).1
  | store type p =>
      obtain rfl := listless type p rfl
      rfl

theorem run_twice (commands : List Command) (c : Settings)
    (listless : ∀ type p, Command.store type p ∈ commands → type = .catchCode) :
    commands.foldl Settings.obey (commands.foldl Settings.obey c) =
      commands.foldl Settings.obey c := by
  apply settings_ext
  · intro key
    exact field_twice key commands c
  · apply overwrites_twice
    intro command member
    left
    intro c
    apply arrays_quiet
    rintro type p rfl
    exact listless type p member
  · exact codes_latch.twice commands c

theorem loadconfig_ok (l : Loading) (file : Bytes)
    (accepted : (fileCommands file).any Command.refused = false) :
    ∃ lineno, loadconfig l (some file) =
      .ok ((defaultCommands ++ fileCommands file).foldl Loading.obey l, lineno) := by
  have result := loadconfig_commands l file
  rw [accepted, if_neg Bool.false_ne_true] at result
  cases loaded : loadconfig l (some file) with
  | error e => rw [loaded] at result; cases result
  | ok r =>
      obtain ⟨l', lineno⟩ := r
      rw [loaded] at result
      have same : l' = (defaultCommands ++ fileCommands file).foldl Loading.obey l :=
        Except.ok.inj result
      exact ⟨lineno, by rw [same]⟩

/-- A token for an array is stored a second time. -/
theorem loadconfig_grows (l : Loading) (file : Bytes) (type : CfgType) (p : Bytes)
    (accepted : (fileCommands file).any Command.refused = false) (array : type ≠ .catchCode)
    (token : p ∈ listTokens (iniFilePairs file) type) : ¬ ReloadKeeps l file := by
  intro keeps
  obtain ⟨lineno, first⟩ := loadconfig_ok l file accepted
  obtain ⟨again, second, same⟩ := keeps _ first
  obtain ⟨lineno', second'⟩ := loadconfig_ok
    ((defaultCommands ++ fileCommands file).foldl Loading.obey l) file accepted
  dsimp only at second same
  rw [second] at second'
  rw [Except.ok.inj second'] at same
  have counts := congrArg (fun c => c.stored type) same
  simp only [foldl_config] at counts
  rw [run_stored _ _ type array] at counts
  have member := (store_mem_commands (iniFilePairs file) type p).mpr token
  have stores : (Command.store type p).storesTo type = true := by
    rw [List.any_eq_false] at accepted
    simpa [Command.storesTo] using accepted _ member
  have positive : 0 < (defaultCommands ++ fileCommands file).countP (Command.storesTo type) :=
    List.countP_pos_iff.mpr ⟨_, List.mem_append_right _ member, stores⟩
  omega

theorem loadconfig_still (l : Loading) (file : Bytes)
    (listless : ∀ type, type ≠ .catchCode → listTokens (iniFilePairs file) type = []) :
    ReloadKeeps l file := by
  have accepted : (fileCommands file).any Command.refused = false := by
    rw [Bool.eq_false_iff, ne_eq, fileCommands, refused_iff, listless .hostIp (by decide)]
    simp
  have commands : ∀ type p, Command.store type p ∈ defaultCommands ++ fileCommands file →
      type = .catchCode := by
    intro type p member
    by_contra array
    rcases List.mem_append.mp member with default | own
    · simp [defaultCommands] at default
    · rw [fileCommands, store_mem_commands, listless type array] at own
      cases own
  intro first loaded
  obtain ⟨lineno, loaded'⟩ := loadconfig_ok l file accepted
  obtain ⟨lineno', second⟩ := loadconfig_ok
    ((defaultCommands ++ fileCommands file).foldl Loading.obey l) file accepted
  rw [loaded] at loaded'
  rw [Except.ok.inj loaded']
  dsimp only
  rw [second]
  refine ⟨_, rfl, ?_⟩
  simp only [foldl_config]
  exact run_twice _ l.config commands

/-- The lists are what a reload changes: it keeps the settings just when the file names
nothing for an array, or ends the process. -/
theorem loadconfig_again_iff (l : Loading) (file : Bytes) :
    ReloadKeeps l file ↔
      (∃ p ∈ listTokens (iniFilePairs file) .hostIp, ipParse p = none) ∨
        ∀ type, type ≠ .catchCode → listTokens (iniFilePairs file) type = [] := by
  rw [← refused_iff]
  cases accepted : (fileCommands file).any Command.refused with
  | true =>
      apply iff_of_true
      · intro first loaded
        have result := loadconfig_commands l file
        rw [accepted, if_pos rfl, loaded] at result
        cases result
      · left
        exact accepted
  | false =>
      constructor
      · intro keeps
        right
        intro type array
        by_contra tokens
        obtain ⟨p, token⟩ := List.exists_mem_of_ne_nil _ tokens
        exact loadconfig_grows l file type p accepted array token keeps
      · rintro (refused | listless)
        · rw [fileCommands] at accepted
          rw [accepted] at refused
          cases refused
        · exact loadconfig_still l file listless

/-- A file with one port: the port is in the list twice after a reload. -/
theorem loadconfig_again_port :
    ¬ ReloadKeeps ⟨settingsInit none none 0, []⟩ (asc "[http-scope]\nhost-port = 80\n") := by
  apply loadconfig_grows _ _ .hostPort (asc "80")
  · decide +kernel
  · decide
  · decide +kernel

end Bscope
