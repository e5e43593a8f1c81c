import Bscope.Worker
import Mathlib.Data.List.Nodup

set_option autoImplicit false

/- `stat->conn` against the sessions that are open, over every run of workers. -/
namespace Bscope

section Frames

theorem statusLogpush_conn (stat : Status) (msg : Bytes) (size : Nat) :
    (statusLogpush stat msg size).conn = stat.conn := by
  unfold statusLogpush
  split <;> rfl

theorem sessionReport_conn (ctx : Context) (s : Session) (stat : Status) (type : CloseType)
    (now : Moment) : (sessionReport ctx s stat type now).2.1.conn = stat.conn := by
  unfold sessionReport
  split
  · apply statusLogpush_conn
  · rfl

theorem step_conn (ctx : Context) (c : Conn) (e : Moment × Event) :
    (step ctx c e).1.stat.conn = c.stat.conn := by
  obtain ⟨now, e⟩ := e
  cases e with
  | responseComplete statusCode =>
      change (responseComplete ctx c statusCode now).1.stat.conn = _
      unfold responseComplete
      split
      · apply sessionReport_conn
      · rfl
  | _ => rfl

/-- No callback of a parser writes the gauge. -/
theorem after_conn (ctx : Context) (c : Conn) (calls : List (Moment × Event)) :
    (after ctx c calls).stat.conn = c.stat.conn := by
  induction calls generalizing c with
  | nil => rfl
  | cons e calls ih =>
      unfold after at ih ⊢
      rw [Runs.after_cons, ih, step_conn]

end Frames

/-- The sessions that are open in a worker, the one being opened included and the one
being closed left out. -/
def Worker.open (w : Worker) : Nat :=
  match w.place with
  | .idle => w.sessions.length
  | .opening _ => w.sessions.length + 1
  | .closing _ _ => w.sessions.length - 1

/-- The streams that have a session, or are about to. -/
def Worker.users (w : Worker) : List TcpStream :=
  match w.place with
  | .opening tcp => tcp :: w.sessions.map Prod.fst
  | _ => w.sessions.map Prod.fst

/-- The worker has a session for just those tracked streams that go to the service. -/
structure Worker.Tracks (config : Service) (maxStream : Nat) (seen : List TcpStream)
    (w : Worker) : Prop where
  announced : ∀ tcp ∈ w.live, tcp ∈ seen
  once : w.live.Nodup
  room : w.live.length ≤ maxStream + 1
  served : w.users = w.live.filter fun tcp => testInService config tcp.addr
  closing : ∀ tcp type, w.place = .closing tcp type → tcp ∈ w.users

/-- What the worker at hand may rely on, and what the gauge shows of it. -/
def Scope.Counts (config : Service) (maxStream : Nat) (m : Scope) : Prop :=
  ∀ w, m.worker = some w → w.Tracks config maxStream m.seen ∧ m.stat.conn = w.open

/-- Between two callbacks the gauge is the number of open sessions. -/
def Scope.Right (m : Scope) : Prop :=
  ∀ w, m.worker = some w → w.place = .idle → m.stat.conn = w.sessions.length

/-- A kill finds no session open, and none being opened. -/
def Spares (m : Scope) : Act → Prop
  | .kill => ∀ w, m.worker = some w → w.open = 0
  | _ => True

section Steps

variable {config : Service} {maxStream : Nat} {seen : List TcpStream} {stat : Status} {w : Worker}

theorem open_idle (idle : w.place = .idle) : w.open = w.sessions.length := by
  rw [Worker.open, idle]

theorem open_opening (tcp : TcpStream) (opening : w.place = .opening tcp) :
    w.open = w.sessions.length + 1 := by
  rw [Worker.open, opening]

theorem open_closing (tcp : TcpStream) (type : CloseType) (closing : w.place = .closing tcp type) :
    w.open = w.sessions.length - 1 := by
  rw [Worker.open, closing]

theorem users_idle (idle : w.place = .idle) : w.users = w.sessions.map Prod.fst := by
  rw [Worker.users, idle]

theorem users_opening (tcp : TcpStream) (opening : w.place = .opening tcp) :
    w.users = tcp :: w.sessions.map Prod.fst := by
  rw [Worker.users, opening]

theorem users_closing (tcp : TcpStream) (type : CloseType)
    (closing : w.place = .closing tcp type) : w.users = w.sessions.map Prod.fst := by
  rw [Worker.users, closing]

theorem start_tracks (config : Service) (maxStream : Nat) (seen : List TcpStream) :
    Worker.start.Tracks config maxStream seen where
  announced := nofun
  once := List.nodup_nil
  room := Nat.zero_le _
  served := rfl
  closing := nofun

/-- A tracked stream of the service has its session, unless that is being opened. -/
theorem Worker.Tracks.user (tracks : w.Tracks config maxStream seen) (idle : w.place = .idle)
    (tcp : TcpStream) (live : tcp ∈ w.live) (serves : testInService config tcp.addr = true) :
    tcp ∈ w.sessions.map Prod.fst := by
  rw [← users_idle idle, tracks.served]
  exact List.mem_filter.mpr ⟨live, serves⟩

/-- What is counted fits the unsigned int, whatever the pool of libnids holds. -/
theorem Worker.Tracks.fits (tracks : w.Tracks config maxStream seen) (int : maxStream < 2 ^ 31) :
    w.users.length < 2 ^ 32 := by
  have room := tracks.room
  have fewer := List.length_filter_le (fun tcp : TcpStream => testInService config tcp.addr) w.live
  rw [tracks.served]
  omega

theorem justEst_counts (tracks : w.Tracks config maxStream seen) (counts : stat.conn = w.open)
    (int : maxStream < 2 ^ 31) (tcp : TcpStream) (idle : w.place = .idle) (fresh : tcp ∉ seen)
    (room : w.live.length ≤ maxStream) :
    (justEst config tcp stat { w with live := tcp :: w.live }).2.Tracks config maxStream
        (tcp :: seen) ∧
      (justEst config tcp stat { w with live := tcp :: w.live }).1.conn =
        (justEst config tcp stat { w with live := tcp :: w.live }).2.open := by
  have announced : ∀ other ∈ tcp :: w.live, other ∈ tcp :: seen := by
    intro other member
    rcases List.mem_cons.mp member with rfl | old
    · exact List.mem_cons_self
    · exact List.mem_cons_of_mem _ (tracks.announced other old)
  have once : (tcp :: w.live).Nodup := by
    apply List.nodup_cons.mpr
    exact ⟨fun old => fresh (tracks.announced tcp old), tracks.once⟩
  have more : (tcp :: w.live).length ≤ maxStream + 1 := by
    rw [List.length_cons]
    omega
  have served := tracks.served
  rw [users_idle idle] at served
  rw [open_idle idle] at counts
  unfold justEst
  split
  · rename_i serves
    have opening : Worker.Tracks config maxStream (tcp :: seen)
        ⟨tcp :: w.live, w.sessions, .opening tcp⟩ := by
      refine ⟨announced, once, more, ?_, nofun⟩
      change tcp :: w.sessions.map Prod.fst = (tcp :: w.live).filter _
      rw [List.filter_cons, if_pos serves, served]
    apply And.intro opening
    change (stat.conn + 1) % 2 ^ 32 = w.sessions.length + 1
    have few := opening.fits int
    rw [users_opening tcp rfl, List.length_cons, List.length_map] at few
    rw [counts]
    exact Nat.mod_eq_of_lt few
  · rename_i foreign
    have same : Worker.place ⟨tcp :: w.live, w.sessions, w.place⟩ = .idle := idle
    constructor
    · refine ⟨announced, once, more, ?_, ?_⟩
      · change _ = (tcp :: w.live).filter _
        rw [users_idle same, List.filter_cons, if_neg foreign]
        exact served
      · intro other type place
        cases idle.symm.trans place
    · exact counts.trans (open_idle same).symm

theorem startSession_counts (tracks : w.Tracks config maxStream seen)
    (counts : stat.conn = w.open) (tcp : TcpStream) (opening : w.place = .opening tcp)
    (ppid : Nat) (next : Worker) (started : startSession ppid tcp w = some next) :
    next.Tracks config maxStream seen ∧ stat.conn = next.open := by
  unfold startSession at started
  split at started
  · cases started
  · cases started
    constructor
    · refine ⟨tracks.announced, tracks.once, tracks.room, ?_, nofun⟩
      rw [users_idle rfl, ← tracks.served]
      exact (users_opening tcp opening).symm
    · rw [counts]
      exact open_opening tcp opening

theorem nidsData_counts (tracks : w.Tracks config maxStream seen) (counts : stat.conn = w.open)
    (ctx : Context) (tcp : TcpStream) (calls : List (Moment × Event)) :
    (nidsData ctx config tcp calls stat w).2.Tracks config maxStream seen ∧
      (nidsData ctx config tcp calls stat w).1.conn =
        (nidsData ctx config tcp calls stat w).2.open := by
  unfold nidsData
  split
  · split
    · rename_i s _
      have names : ∀ last : Session, (w.sessions.map fun user =>
          if user.1 = tcp then (tcp, last) else user).map Prod.fst = w.sessions.map Prod.fst := by
        intro last
        rw [List.map_map]
        apply List.map_congr_left
        intro user _
        dsimp only [Function.comp]
        split
        · rename_i same
          exact same.symm
        · rfl
      constructor
      · have served := tracks.served
        have closing := tracks.closing
        unfold Worker.users at served closing
        refine ⟨tracks.announced, tracks.once, tracks.room, ?_, ?_⟩
        · unfold Worker.users
          dsimp only
          rw [names]
          exact served
        · unfold Worker.users
          dsimp only
          rw [names]
          exact closing
      · dsimp only
        rw [after_conn, counts]
        unfold Worker.open
        dsimp only
        rw [List.length_map]
    · exact ⟨tracks, counts⟩
  · exact ⟨tracks, counts⟩

/-- libnids frees a stream whose session is gone. -/
theorem drop_served (w : Worker) (tcp : TcpStream)
    (served : w.sessions.map Prod.fst = w.live.filter fun tcp => testInService config tcp.addr) :
    (w.sessions.filter fun user => user.1 ≠ tcp).map Prod.fst =
      (w.drop tcp).live.filter fun tcp => testInService config tcp.addr := by
  have names : (w.sessions.filter fun user => user.1 ≠ tcp).map Prod.fst =
      (w.sessions.map Prod.fst).filter (· ≠ tcp) := by
    rw [List.filter_map]
    rfl
  rw [names, served, Worker.drop, List.filter_filter, List.filter_filter]
  simp only [Bool.and_comm]

theorem drop_length (w : Worker) (tcp : TcpStream) (once : (w.sessions.map Prod.fst).Nodup)
    (member : tcp ∈ w.sessions.map Prod.fst) :
    (w.sessions.filter fun user => user.1 ≠ tcp).length = w.sessions.length - 1 := by
  have names : (w.sessions.filter fun user => user.1 ≠ tcp).map Prod.fst =
      (w.sessions.map Prod.fst).erase tcp := by
    rw [once.erase_eq_filter, List.filter_map]
    congr 1
    apply List.filter_congr
    intro user _
    by_cases same : user.1 = tcp <;> simp [same]
  rw [← List.length_map Prod.fst, names, List.length_erase_of_mem member, List.length_map]

theorem drop_tracked (tracks : w.Tracks config maxStream seen) (tcp : TcpStream) :
    (∀ other ∈ (w.drop tcp).live, other ∈ seen) ∧ (w.drop tcp).live.Nodup ∧
      (w.drop tcp).live.length ≤ maxStream + 1 := by
  refine ⟨?_, tracks.once.filter _, ?_⟩
  · intro other member
    exact tracks.announced other (List.mem_of_mem_filter member)
  · exact Nat.le_trans (List.length_filter_le _ _) tracks.room

theorem nidsEnd_counts (tracks : w.Tracks config maxStream seen) (counts : stat.conn = w.open)
    (int : maxStream < 2 ^ 31) (tcp : TcpStream) (type : CloseType) (idle : w.place = .idle)
    (live : tcp ∈ w.live) :
    (nidsEnd config tcp type stat w).2.Tracks config maxStream seen ∧
      (nidsEnd config tcp type stat w).1.conn = (nidsEnd config tcp type stat w).2.open := by
  have served := tracks.served
  have few := tracks.fits int
  rw [users_idle idle] at served few
  rw [open_idle idle] at counts
  unfold nidsEnd
  split
  · rename_i serves
    have user := tracks.user idle tcp live serves
    constructor
    · refine ⟨tracks.announced, tracks.once, tracks.room, served, ?_⟩
      intro other type' place
      cases place
      exact user
    · change (stat.conn + (2 ^ 32 - 1)) % 2 ^ 32 = w.sessions.length - 1
      have some_user := List.length_pos_of_mem user
      rw [List.length_map] at some_user few
      rw [counts]
      omega
  · rename_i foreign
    obtain ⟨announced, once, room⟩ := drop_tracked tracks tcp
    have same : (w.drop tcp).place = .idle := idle
    constructor
    · refine ⟨announced, once, room, ?_, ?_⟩
      · rw [users_idle same]
        change w.sessions.map Prod.fst = _
        rw [served, Worker.drop, List.filter_filter]
        apply List.filter_congr
        intro other _
        by_cases hit : other = tcp
        · subst hit
          simp [foreign]
        · simp [hit]
      · intro other type' place
        cases same.symm.trans place
    · rw [open_idle same]
      exact counts

theorem closeSession_counts (tracks : w.Tracks config maxStream seen)
    (counts : stat.conn = w.open) (ctx : Context) (tcp : TcpStream) (type : CloseType)
    (now : Moment) (closing : w.place = .closing tcp type) :
    (closeSession ctx tcp type now stat w).2.Tracks config maxStream seen ∧
      (closeSession ctx tcp type now stat w).1.conn =
        (closeSession ctx tcp type now stat w).2.open := by
  have served := tracks.served
  have member := tracks.closing tcp type closing
  rw [users_closing tcp type closing] at served member
  rw [open_closing tcp type closing] at counts
  obtain ⟨announced, once, room⟩ := drop_tracked tracks tcp
  obtain ⟨user, held, same⟩ := List.mem_map.mp member
  have found : ∃ s, w.sessions.lookup tcp = some s := by
    apply Option.isSome_iff_exists.mp
    apply List.lookup_isSome_iff.mpr
    exact ⟨user, held, by simp [same]⟩
  obtain ⟨s, found⟩ := found
  unfold closeSession
  rw [found]
  constructor
  · exact ⟨announced, once, room, drop_served w tcp served, nofun⟩
  · change (sessionReport _ s stat type now).2.1.conn =
      (w.sessions.filter fun user => user.1 ≠ tcp).length
    rw [sessionReport_conn, counts, drop_length w tcp _ member]
    rw [served]
    exact tracks.once.filter _

end Steps

theorem scopeStart_counts (config : Service) (maxStream : Nat) :
    scopeStart.Counts config maxStream := by
  intro w here
  cases here
  exact ⟨start_tracks config maxStream [], rfl⟩

/-- Every act but a kill that costs an open session leaves the gauge at the number of
sessions. -/
theorem scopeStep_counts (ctx : Context) (config : Service) (maxStream : Nat)
    (int : maxStream < 2 ^ 31) (m : Scope) (a : Act) (next : Scope)
    (counts : m.Counts config maxStream) (spares : Spares m a)
    (taken : scopeStep ctx config maxStream m a = some next) : next.Counts config maxStream := by
  obtain ⟨w, here, taken⟩ := Option.bind_eq_some_iff.mp taken
  obtain ⟨tracks, shown⟩ := counts w here
  intro w' there
  cases a with
  | justEst tcp =>
      simp only [workerStep] at taken
      split at taken
      · rename_i lawful
        obtain ⟨idle, fresh, room⟩ := lawful
        cases taken
        cases there
        exact justEst_counts tracks shown int tcp idle fresh room
      · cases taken
  | start ppid =>
      simp only [workerStep] at taken
      split at taken
      · rename_i tcp opening
        cases taken
        exact startSession_counts tracks shown tcp opening ppid w' there
      · cases taken
  | data tcp calls =>
      change (if _ then _ else _) = _ at taken
      split at taken
      · cases taken
        cases there
        exact nidsData_counts tracks shown ctx tcp calls
      · cases taken
  | ended tcp type =>
      change (if _ then _ else _) = _ at taken
      split at taken
      · rename_i lawful
        cases taken
        cases there
        exact nidsEnd_counts tracks shown int tcp type lawful.1 lawful.2.1
      · cases taken
  | close now =>
      simp only [workerStep] at taken
      split at taken
      · rename_i tcp type closing
        cases taken
        cases there
        exact closeSession_counts tracks shown ctx tcp type now closing
      · cases taken
  | kill =>
      cases taken
      cases there
      refine ⟨start_tracks config maxStream _, ?_⟩
      rw [shown]
      exact spares w here

/-- The gauge of a segment that outlived its worker tells what the worker left in it. -/
theorem right_spares (ctx : Context) (config : Service) (maxStream : Nat) (m : Scope) (a : Act)
    (next : Scope) (counts : m.Counts config maxStream) (right : next.Right)
    (taken : scopeStep ctx config maxStream m a = some next) : Spares m a := by
  cases a with
  | kill =>
      intro w here
      unfold scopeStep at taken
      rw [here] at taken
      cases taken
      rw [← (counts w here).2]
      exact right Worker.start rfl rfl
  | _ => trivial

theorem counts_right (config : Service) (maxStream : Nat) (m : Scope)
    (counts : m.Counts config maxStream) : m.Right := by
  intro w here idle
  rw [← open_idle idle]
  exact (counts w here).2

/-- A gauge that counts the sessions is not lowered below zero. -/
theorem ended_above_zero (ctx : Context) (config : Service) (maxStream : Nat) (m next : Scope)
    (tcp : TcpStream) (type : CloseType) (counts : m.Counts config maxStream)
    (serves : testInService config tcp.addr = true)
    (taken : scopeStep ctx config maxStream m (.ended tcp type) = some next) : 0 < m.stat.conn := by
  obtain ⟨w, here, taken⟩ := Option.bind_eq_some_iff.mp taken
  obtain ⟨tracks, shown⟩ := counts w here
  change (if _ then _ else _) = _ at taken
  split at taken
  · rename_i lawful
    obtain ⟨idle, live, -⟩ := lawful
    have user := List.length_pos_of_mem (tracks.user idle tcp live serves)
    rw [List.length_map] at user
    rw [shown, open_idle idle]
    exact user
  · cases taken

/-- The gauge is right all along a run, and never lowered below zero. -/
def GaugeRight (ctx : Context) (config : Service) (maxStream : Nat) (acts : List Act) : Prop :=
  Paths.Always (scopeStep ctx config maxStream) Scope.Right scopeStart acts ∧
    Paths.Guarded (scopeStep ctx config maxStream)
      (fun m a => ∀ tcp type, a = .ended tcp type → testInService config tcp.addr = true →
        0 < m.stat.conn) scopeStart acts

/-- In every run of streams and workers the gauge is right between any two callbacks
exactly if each kill finds no session open or being opened: nothing takes back what
a killed worker had counted. -/
theorem gaugeRight_iff (ctx : Context) (config : Service) (maxStream : Nat)
    (int : maxStream < 2 ^ 31) (acts : List Act) (last : Scope)
    (run : Paths.run (scopeStep ctx config maxStream) scopeStart acts = some last) :
    GaugeRight ctx config maxStream acts ↔
      Paths.Guarded (scopeStep ctx config maxStream) Spares scopeStart acts := by
  have initial := scopeStart_counts config maxStream
  have kept : ∀ m a next, m.Counts config maxStream → Spares m a →
      scopeStep ctx config maxStream m a = some next → next.Counts config maxStream :=
    scopeStep_counts ctx config maxStream int
  have seen := Paths.seen_iff_guarded scopeStart last acts run initial
    (counts_right config maxStream) kept (right_spares ctx config maxStream)
  constructor
  · intro right
    exact seen.mp right.1
  · intro spared
    apply And.intro (seen.mpr spared)
    intro front a back mid split here tcp type ended serves
    subst ended
    have counts := Paths.always_of_guarded scopeStart acts initial kept spared
      front (.ended tcp type :: back) mid split here
    have whole : Paths.run (scopeStep ctx config maxStream) scopeStart
        ((front ++ [.ended tcp type]) ++ back) = some last := by
      rw [List.append_assoc]
      exact split ▸ run
    obtain ⟨next, taken, -⟩ := Paths.run_reaches _ _ _ _ _ whole
    rw [Paths.run_snoc, here] at taken
    exact ended_above_zero ctx config maxStream mid next tcp type counts serves taken

/-- The web server of one host. -/
def oneHost : Service := ⟨[(2130706433, 4294967295)], [80]⟩

def localStream : TcpStream := ⟨0, localContext.addr⟩

/-- A worker that serves one connection and is killed when it is over. -/
theorem gaugeRight_served :
    GaugeRight localContext oneHost 779
        [.justEst localStream, .start 100, .ended localStream .close, .close default, .kill] ↔
      Paths.Guarded (scopeStep localContext oneHost 779) Spares scopeStart
        [.justEst localStream, .start 100, .ended localStream .close, .close default, .kill] :=
  gaugeRight_iff localContext oneHost 779 (by decide) _ _ rfl

/-- A worker killed with one connection open: its successor starts with none, and
the gauge stays at one. -/
theorem gauge_outlives_worker :
    ¬ Paths.Always (scopeStep localContext oneHost 779) Scope.Right scopeStart
      [.justEst localStream, .start 100, .kill] := by
  intro right
  have wrong := right [.justEst localStream, .start 100, .kill] [] _ rfl rfl Worker.start rfl rfl
  exact absurd wrong (by decide)

end Bscope
