import Bscope.Delivery
import Bscope.Gauge

set_option autoImplicit false

/- libnids drives the worker: the calls it makes for any packets are such as the worker
takes, and the gauge of open connections counts the streams it tracks for the service. -/
namespace Bscope

/-- The streams of the table that `tcp_callback` listens to. -/
def Nids.heard (m : Nids) : List TcpStream :=
  (m.streams.filter fun t => t.listening).map Tracked.tcp

/-- What the worker adds to a call: its parent, what its parser makes of the data, the
time of day. -/
structure Occasion where
  ppid : Nat
  events : List (Moment × Event)
  now : Moment

/-- The parts of `tcp_callback` that a call goes through. It returns at once for a stream
that is not in service. -/
def NidsCall.acts (config : Service) (occasion : Occasion) : NidsCall → List Act
  | .justEst tcp => if testInService config tcp.addr then [.justEst tcp, .start occasion.ppid] else []
  | .data tcp _ _ => [.data tcp occasion.events]
  | .ended tcp type => [.ended tcp type, .close occasion.now]

/-- The worker between two calls, and the table it hears of. -/
structure Mirrors (config : Service) (maxStream : Nat) (m : Nids) (scope : Scope) (w : Worker) :
    Prop where
  worker : scope.worker = some w
  idle : w.place = .idle
  live : w.live.Perm m.heard
  seen : ∀ tcp ∈ scope.seen, tcp.id < m.created
  fresh : ∀ t ∈ m.streams, t.listening = false → t.tcp ∉ scope.seen
  counts : scope.Counts config maxStream

section Worker

variable (ctx : Context) (config : Service) (maxStream : Nat) {scope : Scope} {w : Worker}
  (here : scope.worker = some w) (idle : w.place = .idle)
include here idle

theorem announce_acts (tcp : TcpStream) (fresh : tcp ∉ scope.seen)
    (room : w.live.length ≤ maxStream) (serves : testInService config tcp.addr = true)
    (occasion : Occasion) (parent : 5 ≤ occasion.ppid) :
    ∃ stat w', Paths.run (scopeStep ctx config maxStream) scope
        (NidsCall.acts config occasion (.justEst tcp)) = some ⟨stat, tcp :: scope.seen, some w'⟩ ∧
      w'.place = .idle ∧ w'.live = tcp :: w.live := by
  refine ⟨scope.stat.connUp, ⟨tcp :: w.live, (tcp, sessionInit) :: w.sessions, .idle⟩, ?_, rfl, rfl⟩
  have first : scopeStep ctx config maxStream scope (.justEst tcp) =
      some ⟨scope.stat.connUp, tcp :: scope.seen, some ⟨tcp :: w.live, w.sessions, .opening tcp⟩⟩ := by
    unfold scopeStep
    rw [here, Option.bind_some, workerStep, if_pos ⟨idle, fresh, room⟩, justEst, if_pos serves]
  rw [NidsCall.acts, if_pos serves, Paths.run_cons, first, Option.bind_some, Paths.run_cons]
  simp only [scopeStep, Option.bind_some, workerStep, startSession, if_neg (Nat.not_lt.mpr parent),
    Paths.run_nil]

theorem data_acts (tcp : TcpStream) (toServer : Bool) (bytes : Bytes) (live : tcp ∈ w.live)
    (occasion : Occasion) :
    ∃ stat w', Paths.run (scopeStep ctx config maxStream) scope
        (NidsCall.acts config occasion (.data tcp toServer bytes)) =
          some ⟨stat, scope.seen, some w'⟩ ∧
      w'.place = .idle ∧ w'.live = w.live := by
  have kept : (nidsData ctx config tcp occasion.events scope.stat w).2.place = .idle ∧
      (nidsData ctx config tcp occasion.events scope.stat w).2.live = w.live := by
    unfold nidsData
    split
    · split
      · exact ⟨idle, rfl⟩
      · exact ⟨idle, rfl⟩
    · exact ⟨idle, rfl⟩
  refine ⟨(nidsData ctx config tcp occasion.events scope.stat w).1,
    (nidsData ctx config tcp occasion.events scope.stat w).2, ?_, kept⟩
  rw [NidsCall.acts, Paths.run_cons, scopeStep, here, Option.bind_some, workerStep,
    if_pos ⟨idle, live⟩]
  rfl

theorem ended_acts (tcp : TcpStream) (type : CloseType) (live : tcp ∈ w.live)
    (ending : type ≠ .success) (serves : testInService config tcp.addr = true) (occasion : Occasion) :
    ∃ stat w', Paths.run (scopeStep ctx config maxStream) scope
        (NidsCall.acts config occasion (.ended tcp type)) = some ⟨stat, scope.seen, some w'⟩ ∧
      w'.place = .idle ∧ w'.live = w.live.filter (· ≠ tcp) := by
  have first : scopeStep ctx config maxStream scope (.ended tcp type) =
      some ⟨scope.stat.connDown, scope.seen, some { w with place := .closing tcp type }⟩ := by
    unfold scopeStep
    rw [here, Option.bind_some, workerStep, if_pos ⟨idle, live, ending⟩, nidsEnd, if_pos serves]
  have kept : (closeSession ctx tcp type occasion.now scope.stat.connDown
      { w with place := .closing tcp type }).2.place = .idle ∧
      (closeSession ctx tcp type occasion.now scope.stat.connDown
        { w with place := .closing tcp type }).2.live = w.live.filter (· ≠ tcp) := by
    unfold closeSession
    split
    · exact ⟨rfl, rfl⟩
    · exact ⟨rfl, rfl⟩
  refine ⟨(closeSession ctx tcp type occasion.now scope.stat.connDown
      { w with place := .closing tcp type }).1, _, ?_, kept⟩
  rw [NidsCall.acts, Paths.run_cons, first, Option.bind_some, Paths.run_cons]
  rfl

end Worker

/-- Any number of blocks of one stream. -/
theorem blocks_acts (ctx : Context) (config : Service) (maxStream : Nat) (tcp : TcpStream)
    (toServer : Bool) (blocks : List Bytes) :
    ∀ (scope : Scope) (w : Worker) (told : List (NidsCall × Occasion)), scope.worker = some w →
      w.place = .idle → tcp ∈ w.live → told.map Prod.fst = blocks.map (NidsCall.data tcp toServer) →
      ∃ stat w', Paths.run (scopeStep ctx config maxStream) scope
          (told.flatMap fun call => call.1.acts config call.2) = some ⟨stat, scope.seen, some w'⟩ ∧
        w'.place = .idle ∧ w'.live = w.live := by
  induction blocks with
  | nil =>
      intro scope w told here idle live calls
      rw [List.map_eq_nil_iff.mp calls]
      refine ⟨scope.stat, w, ?_, idle, rfl⟩
      rw [List.flatMap_nil, Paths.run_nil, ← here]
  | cons bytes blocks ih =>
      intro scope w told here idle live calls
      obtain ⟨⟨call, occasion⟩, rest, rfl, first, later⟩ := List.map_eq_cons_iff.mp calls
      cases first
      obtain ⟨stat, w', run, idle', live'⟩ :=
        data_acts ctx config maxStream here idle tcp toServer
          bytes live occasion
      obtain ⟨stat', w'', run', idle'', live''⟩ :=
        ih ⟨stat, scope.seen, some w'⟩ w' rest rfl idle' (live' ▸ live) later
      refine ⟨stat', w'', ?_, idle'', live''.trans live'⟩
      rw [List.flatMap_cons, Paths.run_append, run, Option.bind_some]
      exact run'

/-- No call kills the worker, so that the gauge goes on counting. -/
theorem acts_counts {ctx : Context} {config : Service} {maxStream : Nat} {scope : Scope}
    (int : maxStream < 2 ^ 31) (counts : scope.Counts config maxStream)
    (occasion : Occasion) (call : NidsCall) (scope' : Scope)
    (run : Paths.run (scopeStep ctx config maxStream) scope (call.acts config occasion) =
      some scope') : scope'.Counts config maxStream := by
  have spares : ∀ a ∈ call.acts config occasion, ∀ m, Spares m a := by
    intro a member m
    unfold NidsCall.acts at member
    cases call with
    | justEst tcp =>
        dsimp only at member
        split at member
        · rcases List.mem_cons.mp member with rfl | later
          · trivial
          · cases List.mem_singleton.mp later
            trivial
        · exact absurd member List.not_mem_nil
    | data =>
        cases List.mem_singleton.mp member
        trivial
    | ended =>
        rcases List.mem_cons.mp member with rfl | later
        · trivial
        · cases List.mem_singleton.mp later
          trivial
  apply Paths.always_of_guarded (P := Scope.Counts config maxStream) (G := Spares) scope
    (call.acts config occasion) counts
    (fun m a next counts spares taken =>
      scopeStep_counts ctx config maxStream int m a next counts spares taken)
    (fun front a back mid split _ => spares a (split ▸ by simp) mid)
    (call.acts config occasion) [] scope' (List.append_nil _).symm run

/-- The same of any number of calls. -/
theorem told_counts {ctx : Context} {config : Service} {maxStream : Nat}
    (int : maxStream < 2 ^ 31) (told : List (NidsCall × Occasion)) :
    ∀ scope : Scope, scope.Counts config maxStream → ∀ scope',
      Paths.run (scopeStep ctx config maxStream) scope
        (told.flatMap fun call => call.1.acts config call.2) = some scope' →
      scope'.Counts config maxStream := by
  induction told with
  | nil =>
      intro scope counts scope' run
      cases run
      exact counts
  | cons call told ih =>
      intro scope counts scope' run
      rw [List.flatMap_cons, Paths.run_append] at run
      obtain ⟨mid, first, later⟩ := Option.bind_eq_some_iff.mp run
      exact ih mid (acts_counts int counts call.2 call.1 mid first) scope' later

section Heard

variable {inService : Tuple4 → Bool} {maxStream : Nat} {m : Nids} {t : Tracked}

theorem heard_free (valid : m.Valid inService maxStream) (member : t ∈ m.streams) :
    m.heard.Perm ((if t.listening then [t.tcp] else []) ++ (nidsFreeTcpStream m t).heard) := by
  have split := ((split_slot valid.slots member).filter fun t => t.listening).map Tracked.tcp
  refine split.trans ?_
  rw [List.filter_cons]
  cases t.listening <;> exact .refl _

theorem heard_settle (valid : m.Valid inService maxStream) (member : t ∈ m.streams)
    (t' : Tracked) : (m.settle t (some t')).heard.Perm
      ((if t'.listening then [t'.tcp] else []) ++ (nidsFreeTcpStream m t).heard) := by
  have split := ((settle_split valid member t').filter fun t => t.listening).map Tracked.tcp
  refine split.trans ?_
  rw [List.filter_cons]
  cases t'.listening <;> exact .refl _

theorem heard_nodup (valid : m.Valid inService maxStream) : m.heard.Nodup := by
  have sub : m.heard.Sublist (m.streams.map Tracked.tcp) := List.filter_sublist.map Tracked.tcp
  apply List.Nodup.sublist sub
  apply valid.distinct.imp
  intro a b apart same
  exact apart (by rw [same])

theorem heard_length (valid : m.Valid inService maxStream) :
    m.heard.length ≤ m.tcpNum := by
  rw [valid.tcpNum, Nids.heard, List.length_map]
  exact List.length_filter_le ..

/-- A stream of the table is listened to when it is announced, and not before. -/
theorem Nids.Valid.listening (valid : m.Valid inService maxStream) (member : t ∈ m.streams)
    (heard : t.listening = true) : t.Open inService := by
  rcases valid.each t member with opening | opened
  · rw [opening.listening] at heard
    exact nomatch heard
  · exact opened

end Heard

section Moves

variable (ctx : Context) {config : Service} {maxStream : Nat} {m : Nids} {scope : Scope} {w : Worker}

/-- A stream that no one hears of comes, goes or waits. -/
theorem Mirrors.silent (mirrors : Mirrors config maxStream m scope w) {m' : Nids}
    (heard : m'.heard.Perm m.heard) (created : m.created ≤ m'.created)
    (fresh : ∀ t ∈ m'.streams, t.listening = false → t.tcp ∉ scope.seen) :
    Mirrors config maxStream m' scope w where
  worker := mirrors.worker
  idle := mirrors.idle
  live := mirrors.live.trans heard.symm
  seen tcp member := Nat.lt_of_lt_of_le (mirrors.seen tcp member) created
  fresh := fresh
  counts := mirrors.counts

theorem Mirrors.entered (mirrors : Mirrors config maxStream m scope w) (t : Tracked)
    (opening : t.Opening) (rest : List Nat) (new : t.tcp.id = m.created) :
    Mirrors config maxStream ⟨t :: m.streams, m.tcpNum + 1, rest, m.created + 1⟩ scope w := by
  apply mirrors.silent
  · show (((t :: m.streams).filter fun t => t.listening).map Tracked.tcp).Perm _
    rw [List.filter_cons, opening.listening]
    exact .refl _
  · exact Nat.le_succ m.created
  · intro other member quiet announced
    rcases List.mem_cons.mp member with same | old
    · have less := mirrors.seen other.tcp announced
      rw [same, new] at less
      exact Nat.lt_irrefl _ less
    · exact mirrors.fresh other old quiet announced

variable (valid : m.Valid (testInService config) maxStream) (int : maxStream < 2 ^ 31)
include valid

theorem Mirrors.dropped (mirrors : Mirrors config maxStream m scope w) {t : Tracked}
    (member : t ∈ m.streams) (quiet : t.listening = false) :
    Mirrors config maxStream (nidsFreeTcpStream m t) scope w := by
  apply mirrors.silent
  · have split := heard_free valid member
    rw [quiet] at split
    exact split.symm
  · exact Nat.le_refl m.created
  · intro other inside
    exact mirrors.fresh other (List.mem_of_mem_filter inside)

include int

/-- The end of a stream that the worker has. -/
theorem Mirrors.ended (mirrors : Mirrors config maxStream m scope w) {t : Tracked}
    (member : t ∈ m.streams) (opened : t.Open (testInService config)) (type : CloseType)
    (ending : type ≠ .success) (occasion : Occasion) :
    ∃ scope' w', Paths.run (scopeStep ctx config maxStream) scope
        (NidsCall.acts config occasion (.ended t.tcp type)) = some scope' ∧
      Mirrors config maxStream (nidsFreeTcpStream m t) scope' w' := by
  have split := heard_free valid member
  rw [opened.listening] at split
  have live : t.tcp ∈ w.live := (mirrors.live.trans split).mem_iff.mpr List.mem_cons_self
  obtain ⟨stat, w', run, idle', live'⟩ := ended_acts ctx config maxStream
    mirrors.worker mirrors.idle t.tcp type live ending opened.service occasion
  refine ⟨_, w', run, rfl, idle', ?_, mirrors.seen, ?_,
    acts_counts int mirrors.counts occasion _ _ run⟩
  · have all := (mirrors.live.trans split).filter (· ≠ t.tcp)
    have once : t.tcp ∉ (nidsFreeTcpStream m t).heard :=
      (List.nodup_cons.mp (split.nodup_iff.mp (heard_nodup valid))).1
    rw [live']
    refine all.trans ?_
    rw [if_pos rfl, List.cons_append, List.nil_append, List.filter_cons, if_neg (by simp)]
    rw [List.filter_eq_self.mpr]
    intro tcp inside
    rw [decide_eq_true_iff]
    intro same
    exact once (same ▸ inside)
  · intro other inside
    exact mirrors.fresh other (List.mem_of_mem_filter inside)

/-- Blocks of a stream that the worker has. -/
theorem Mirrors.blocks (mirrors : Mirrors config maxStream m scope w) {t t' : Tracked}
    (member : t ∈ m.streams) (opened : t.Open (testInService config))
    (opened' : t'.Open (testInService config)) (tcp : t'.tcp = t.tcp) (toServer : Bool)
    (blocks : List Bytes) (told : List (NidsCall × Occasion))
    (calls : told.map Prod.fst = blocks.map (NidsCall.data t.tcp toServer)) :
    ∃ scope' w', Paths.run (scopeStep ctx config maxStream) scope
        (told.flatMap fun call => call.1.acts config call.2) = some scope' ∧
      Mirrors config maxStream (m.settle t (some t')) scope' w' := by
  have split := heard_free valid member
  rw [opened.listening] at split
  have live : t.tcp ∈ w.live := (mirrors.live.trans split).mem_iff.mpr List.mem_cons_self
  obtain ⟨stat, w', run, idle', live'⟩ := blocks_acts ctx config maxStream t.tcp toServer blocks scope w told mirrors.worker mirrors.idle live
    calls
  refine ⟨_, w', run, rfl, idle', ?_, mirrors.seen, ?_,
    told_counts int told scope mirrors.counts _ run⟩
  · have split' := heard_settle valid member t'
    rw [opened'.listening, tcp] at split'
    rw [live']
    exact (mirrors.live.trans split).trans split'.symm
  · intro other inside quiet
    rcases List.mem_cons.mp ((settle_split valid member t').mem_iff.mp inside) with same | old
    · rw [same, opened'.listening] at quiet
      exact nomatch quiet
    · exact mirrors.fresh other (List.mem_of_mem_filter old) quiet

/-- A stream of the service is announced, with what its third packet brings. -/
theorem Mirrors.announced (mirrors : Mirrors config maxStream m scope w) {t t' : Tracked}
    (member : t ∈ m.streams) (opening : t.Opening) (opened' : t'.Open (testInService config))
    (tcp : t'.tcp = t.tcp) (toServer : Bool) (blocks : List Bytes)
    (told : List (NidsCall × Occasion)) (parents : ∀ call ∈ told, 5 ≤ call.2.ppid)
    (calls : told.map Prod.fst = .justEst t.tcp :: blocks.map (NidsCall.data t.tcp toServer)) :
    ∃ scope' w', Paths.run (scopeStep ctx config maxStream) scope
        (told.flatMap fun call => call.1.acts config call.2) = some scope' ∧
      Mirrors config maxStream (m.settle t (some t')) scope' w' := by
  have split := heard_free valid member
  rw [opening.listening] at split
  have room : w.live.length ≤ maxStream := by
    have few := heard_length (nidsFreeTcpStream_valid valid member)
    have total := valid.room
    rw [mirrors.live.length_eq, split.length_eq]
    show (nidsFreeTcpStream m t).heard.length ≤ _
    have less : (nidsFreeTcpStream m t).tcpNum = m.tcpNum - 1 := rfl
    omega
  have serves := opened'.service
  rw [tcp] at serves
  obtain ⟨⟨call, occasion⟩, rest, rfl, first, later⟩ := List.map_eq_cons_iff.mp calls
  cases first
  obtain ⟨stat, w₁, run, idle, live⟩ := announce_acts ctx config maxStream mirrors.worker mirrors.idle t.tcp
    (mirrors.fresh t member opening.listening) room serves occasion
    (parents _ List.mem_cons_self)
  obtain ⟨stat', w', run', idle', live'⟩ := blocks_acts ctx config maxStream t.tcp toServer blocks ⟨stat, t.tcp :: scope.seen, some w₁⟩ w₁ rest rfl
    idle (live ▸ List.mem_cons_self) later
  have whole : Paths.run (scopeStep ctx config maxStream) scope
      (((NidsCall.justEst t.tcp, occasion) :: rest).flatMap fun call => call.1.acts config call.2) =
        some ⟨stat', t.tcp :: scope.seen, some w'⟩ := by
    rw [List.flatMap_cons, Paths.run_append, run, Option.bind_some]
    exact run'
  refine ⟨_, w', whole, rfl, idle', ?_, ?_, ?_, told_counts int _ scope mirrors.counts _ whole⟩
  · have split' := heard_settle valid member t'
    rw [opened'.listening, tcp] at split'
    rw [live', live]
    exact ((mirrors.live.trans split).cons t.tcp).trans split'.symm
  · intro other inside
    rcases List.mem_cons.mp inside with same | old
    · rw [same]
      exact valid.numbered t.tcp (List.mem_map_of_mem member)
    · exact mirrors.seen other old
  · intro other inside quiet announced
    rcases List.mem_cons.mp ((settle_split valid member t').mem_iff.mp inside) with same | old
    · rw [same, opened'.listening] at quiet
      exact nomatch quiet
    · rcases List.mem_cons.mp announced with same | before
      · have distinct := ((split_slot valid.slots member).map Tracked.tcp).pairwise_iff
          (R := fun a b : TcpStream => a.id ≠ b.id) (fun apart => Ne.symm apart)
        have apart := (List.pairwise_cons.mp (distinct.mp valid.distinct)).1
        exact apart other.tcp (List.mem_map_of_mem old) (by rw [same])
      · exact mirrors.fresh other (List.mem_of_mem_filter old) quiet before

/-- Whatever happens to the table, the worker takes the calls that come of it. -/
theorem Mirrors.move (mirrors : Mirrors config maxStream m scope w) {m' : Nids}
    {calls : List NidsCall} (move : Move (testInService config) m m' calls)
    (told : List (NidsCall × Occasion)) (parents : ∀ call ∈ told, 5 ≤ call.2.ppid)
    (same : told.map Prod.fst = calls) :
    ∃ scope' w', Paths.run (scopeStep ctx config maxStream) scope
        (told.flatMap fun call => call.1.acts config call.2) = some scope' ∧
      Mirrors config maxStream m' scope' w' := by
  have nothing : ∀ {m₁ : Nids}, told = [] → Mirrors config maxStream m₁ scope w →
      ∃ scope' w', Paths.run (scopeStep ctx config maxStream) scope
          (told.flatMap fun call => call.1.acts config call.2) = some scope' ∧
        Mirrors config maxStream m₁ scope' w' := by
    intro m₁ none mirrors
    rw [none]
    exact ⟨scope, w, rfl, mirrors⟩
  have ends : ∀ (t : Tracked) (type : CloseType), t ∈ m.streams →
      t.Open (testInService config) → type ≠ .success →
      told.map Prod.fst = [NidsCall.ended t.tcp type] →
      ∃ scope' w', Paths.run (scopeStep ctx config maxStream) scope
          (told.flatMap fun call => call.1.acts config call.2) = some scope' ∧
        Mirrors config maxStream (nidsFreeTcpStream m t) scope' w' := by
    intro t type member opened ending calls
    obtain ⟨⟨call, occasion⟩, rest, rfl, first, later⟩ := List.map_eq_cons_iff.mp calls
    cases first
    rw [List.map_eq_nil_iff.mp later, List.flatMap_cons, List.flatMap_nil, List.append_nil]
    exact mirrors.ended ctx valid int member opened type ending occasion
  cases move with
  | freed t type member ending =>
      rcases valid.each t member with opening | opened
      · rw [Tracked.endCall, opening.listening] at same
        exact nothing (List.map_eq_nil_iff.mp same) (mirrors.dropped valid member opening.listening)
      · rw [Tracked.endCall, opened.listening] at same
        exact ends t type member opened ending same
  | entered t rest opening _ new _ =>
      exact nothing (List.map_eq_nil_iff.mp same) (mirrors.entered t opening rest new)
  | settled t fromClient left _ member outcome =>
      cases outcome with
      | waits t' opening opening' slot tcp =>
          apply nothing (List.map_eq_nil_iff.mp same)
          apply mirrors.silent
          · have split := heard_free valid member
            have split' := heard_settle valid member t'
            rw [opening.listening] at split
            rw [opening'.listening] at split'
            exact split'.trans split.symm
          · exact Nat.le_refl m.created
          · intro other inside
            rcases List.mem_cons.mp ((settle_split valid member t').mem_iff.mp inside) with
              new | old
            · intro _
              rw [new, tcp]
              exact mirrors.fresh t member opening.listening
            · exact mirrors.fresh other (List.mem_of_mem_filter old)
      | refused opening =>
          exact nothing (List.map_eq_nil_iff.mp same)
            (mirrors.dropped valid member opening.listening)
      | passedOver opening foreign =>
          obtain ⟨⟨call, occasion⟩, rest, rfl, first, later⟩ := List.map_eq_cons_iff.mp same
          cases first
          refine ⟨scope, w, ?_, mirrors.dropped valid member opening.listening⟩
          rw [List.map_eq_nil_iff.mp later, List.flatMap_cons, NidsCall.acts, if_neg (by simp [foreign])]
          rfl
      | announced t' blocks opening opened' slot tcp filled =>
          exact mirrors.announced ctx valid int member opening opened' tcp fromClient blocks told parents
            same
      | goesOn t' blocks opened opened' slot tcp filled =>
          exact mirrors.blocks ctx valid int member opened opened' tcp fromClient blocks told same
      | ends type opened which =>
          refine ends t type member opened ?_ same
          rcases which with close | reset
          · rw [close]
            decide
          · rw [reset]
            decide

/-- The same over any run. -/
theorem mirrors_run {m' : Nids} {calls : List NidsCall}
    (moves : Moves (testInService config) m m' calls) :
    ∀ (scope : Scope) (w : Worker), Mirrors config maxStream m scope w →
      ∀ told : List (NidsCall × Occasion), (∀ call ∈ told, 5 ≤ call.2.ppid) →
        told.map Prod.fst = calls →
        ∃ scope' w', Paths.run (scopeStep ctx config maxStream) scope
            (told.flatMap fun call => call.1.acts config call.2) = some scope' ∧
          Mirrors config maxStream m' scope' w' := by
  induction moves with
  | rest =>
      intro scope w mirrors told _ same
      rw [List.map_eq_nil_iff.mp same]
      exact ⟨scope, w, rfl, mirrors⟩
  | step m mid m' calls later move _ ih =>
      intro scope w mirrors told parents same
      obtain ⟨first, second, rfl, here, there⟩ := List.map_eq_append_iff.mp same
      obtain ⟨scope₁, w₁, run, mirrors₁⟩ := mirrors.move ctx valid int move first
        (fun call inside => parents call (List.mem_append_left second inside)) here
      obtain ⟨scope₂, w₂, run', mirrors₂⟩ := ih (move.valid valid) scope₁ w₁ mirrors₁ second
        (fun call inside => parents call (List.mem_append_right first inside)) there
      refine ⟨scope₂, w₂, ?_, mirrors₂⟩
      rw [List.flatMap_append, Paths.run_append, run, Option.bind_some]
      exact run'

end Moves

theorem tcpInit_mirrors (config : Service) (maxStream : Nat) :
    Mirrors config maxStream (tcpInit maxStream) scopeStart Worker.start where
  worker := rfl
  idle := rfl
  live := .refl []
  seen _ member := absurd member List.not_mem_nil
  fresh _ member := absurd member List.not_mem_nil
  counts := scopeStart_counts config maxStream

/-- What the interface brings, in whatever order, makes libnids call for a stream once
to announce it, then for its data, and once at most at its end, never with more streams
than the pool holds: no call is one that the worker does not take. Behind every packet
the gauge is the number of streams that are tracked for the service. -/
theorem nidsRun_drives (ctx : Context) (config : Service) (maxStream : Nat)
    (int : maxStream < 2 ^ 31) (inputs : List NidsInput) (small : ∀ input ∈ inputs, input.Small) :
    ∃ m calls,
      nidsRun (testInService config) maxStream (tcpInit maxStream) inputs = some (m, calls) ∧
      ∀ told : List (NidsCall × Occasion), told.map Prod.fst = calls →
        (∀ call ∈ told, 5 ≤ call.2.ppid) →
        ∃ scope, Paths.run (scopeStep ctx config maxStream) scopeStart
            (told.flatMap fun call => call.1.acts config call.2) = some scope ∧
          scope.stat.conn = m.heard.length := by
  have initial := tcpInit_valid (testInService config) maxStream
  obtain ⟨m, calls, done, moves⟩ := nidsRun_moves inputs (tcpInit maxStream) initial small
  refine ⟨m, calls, done, ?_⟩
  intro told same parents
  obtain ⟨scope, w, run, mirrors⟩ := mirrors_run ctx initial int moves scopeStart
    Worker.start (tcpInit_mirrors config maxStream) told parents same
  refine ⟨scope, run, ?_⟩
  obtain ⟨tracks, conn⟩ := mirrors.counts w mirrors.worker
  rw [conn, open_idle mirrors.idle, ← List.length_map Prod.fst, ← users_idle mirrors.idle,
    tracks.served, ← mirrors.live.length_eq]
  congr 1
  rw [List.filter_eq_self]
  intro tcp inside
  obtain ⟨t, member, rfl⟩ := List.mem_map.mp (mirrors.live.mem_iff.mp inside)
  obtain ⟨member, heard⟩ := List.mem_filter.mp member
  exact ((moves.valid initial).listening member heard).service

/-- Port 80 of every host. -/
def webService : Service := ⟨[(0, 0)], [80]⟩

/-- Five calls, the first data of which begin a request. -/
def localOccasions : List Occasion :=
  let now : Moment := ⟨1, ⟨1, 0⟩, 0, 0⟩
  [⟨5, [], now⟩, ⟨5, [(now, .requestBegin)], now⟩, ⟨5, [], now⟩, ⟨5, [], now⟩, ⟨5, [], now⟩]

/-- A connection from its handshake to its end. -/
theorem nidsRun_drives_local :
    ∃ m calls, nidsRun (testInService webService) 779 (tcpInit 779) localExchange =
        some (m, calls) ∧
      calls.length = 5 ∧
      ∃ scope, Paths.run (scopeStep localContext webService 779) scopeStart
          ((calls.zip localOccasions).flatMap fun call => call.1.acts webService call.2) =
            some scope ∧
        scope.stat.conn = 0 := by
  obtain ⟨m, calls, done, drives⟩ :=
    nidsRun_drives localContext webService 779 (by decide) localExchange (by decide +kernel)
  have ended : (nidsRun (testInService webService) 779 (tcpInit 779) localExchange).map
      (fun found => (found.1.heard.length, found.2.length)) = some (0, 5) := by
    decide +kernel
  rw [done, Option.map_some, Option.some.injEq, Prod.mk.injEq] at ended
  have few : calls.length ≤ localOccasions.length := by
    rw [ended.2]
    decide
  obtain ⟨scope, run, conn⟩ := drives (calls.zip localOccasions) (List.map_fst_zip few) (by
    intro call member
    have parents : ∀ occasion ∈ localOccasions, 5 ≤ occasion.ppid := by decide
    exact parents call.2 (List.of_mem_zip member).2)
  exact ⟨m, calls, done, ended.2, scope, run, by rw [conn, ended.1]⟩

end Bscope
