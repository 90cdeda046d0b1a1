import MergeReady.Lib.Owner
import MergeReady.Lib.Run

/-!
# The socket, the pid file and their daemons

Any number of daemon processes of one version share a socket file, a pid file and a lock file, known by
their paths.  A process starts under the lock (`bind_with`), serves, and stops in one of two ways: a
Stop request makes the task of its connection remove both files and send the exit 50 ms later
(`connection::handle`), and a signal, the socket watcher or an error of the listener ends the accept
loop and has the main task remove both files (`run`).  The steps are the single file operations of all
tasks of all processes, in any order.

Removal is by path.  The first removal by a process removes its own file; a second one removes
whatever is there by then.  `run_safe_iff`: a run keeps every file its owner's, and at most one daemon
up, exactly when no process removes a file again that another one has made in between.
-/

namespace MergeReady.Daemon.Endpoint

open MergeReady.Lib

/-! ## Processes -/

inductive Phase
  /-- not started -/
  | idle
  /-- holds the startup lock -/
  | locked
  /-- found the pid file of a dead process -/
  | stale
  /-- found no pid file, or removed it -/
  | unbound
  /-- removed the socket file -/
  | cleared
  /-- bound the socket -/
  | bound
  /-- wrote its pid -/
  | registered
  /-- in `accept_loop` -/
  | serving
  /-- left it to clean up -/
  | leaving
  /-- removed the socket file, not the pid file -/
  | halfCleaned
  /-- returns from `run` -/
  | finished
  | exited
deriving DecidableEq

/-- A daemon process: its main task, its connection tasks that handle a Stop request (the numbers of
those that have removed no file yet, the socket file, both files), what it has been told, and, as a
history, which of its files it has removed. -/
structure Process where
  phase : Phase
  pending : ℕ
  half : ℕ
  sleeping : ℕ
  exitSent : Bool
  cancelled : Bool
  socketGone : Bool
  pidGone : Bool
deriving DecidableEq

def Process.start : Process := ⟨.idle, 0, 0, 0, false, false, false, false⟩

/-- `pid::is_alive` -/
def Process.Alive (d : Process) : Prop := d.phase ≠ .idle ∧ d.phase ≠ .exited

/-- The files, each with the process that made it; the lock with the process that holds it. -/
structure Files where
  socket : Option ℕ
  pidFile : Option ℕ
  lock : Option ℕ
deriving DecidableEq

inductive Act
  | lock
  | check
  | removeStalePid
  | removeStaleSocket
  | bind
  | writePid
  | unlock
  | acceptStop
  | signal
  | watch
  | leave
  | listenerError
  | stopRemovesSocket
  | stopRemovesPid
  | sendExit
  | cleanupRemovesSocket
  | cleanupRemovesPid
  | exit
deriving DecidableEq

/-- What process `p` does to the files and to itself in one step. -/
inductive Moves (p : ℕ) (alive : ℕ → Prop) : Act → Files → Process → Files → Process → Prop
  /-- `File::lock` waits until no process holds the lock. -/
  | lock {f : Files} {d : Process} (hp : d.phase = .idle) (hl : f.lock = none) :
      Moves p alive .lock f d { f with lock := some p } { d with phase := .locked }
  /-- The pid file names a live process: `AlreadyRunning`. -/
  | checkAlive {f : Files} {d : Process} {q : ℕ} (hp : d.phase = .locked)
      (hq : f.pidFile = some q) (ha : alive q) :
      Moves p alive .check f d { f with lock := none } { d with phase := .exited }
  | checkDead {f : Files} {d : Process} {q : ℕ} (hp : d.phase = .locked)
      (hq : f.pidFile = some q) (ha : ¬ alive q) :
      Moves p alive .check f d f { d with phase := .stale }
  | checkNone {f : Files} {d : Process} (hp : d.phase = .locked) (hq : f.pidFile = none) :
      Moves p alive .check f d f { d with phase := .unbound }
  | removeStalePid {f : Files} {d : Process} (hp : d.phase = .stale) :
      Moves p alive .removeStalePid f d { f with pidFile := none } { d with phase := .unbound }
  | removeStaleSocket {f : Files} {d : Process} (hp : d.phase = .unbound) :
      Moves p alive .removeStaleSocket f d { f with socket := none } { d with phase := .cleared }
  | bind {f : Files} {d : Process} (hp : d.phase = .cleared) (hs : f.socket = none) :
      Moves p alive .bind f d { f with socket := some p } { d with phase := .bound }
  /-- `AddrInUse` after all retries. -/
  | bindFails {f : Files} {d : Process} (hp : d.phase = .cleared) (hs : f.socket ≠ none) :
      Moves p alive .bind f d { f with lock := none } { d with phase := .exited }
  | writePid {f : Files} {d : Process} (hp : d.phase = .bound) :
      Moves p alive .writePid f d { f with pidFile := some p } { d with phase := .registered }
  | unlock {f : Files} {d : Process} (hp : d.phase = .registered) :
      Moves p alive .unlock f d { f with lock := none } { d with phase := .serving }
  | acceptStop {f : Files} {d : Process} (hp : d.phase = .serving) :
      Moves p alive .acceptStop f d f { d with pending := d.pending + 1 }
  | signal {f : Files} {d : Process} (hp : d.phase = .serving) :
      Moves p alive .signal f d f { d with cancelled := true }
  /-- The watcher cancels when it finds no socket file. -/
  | watch {f : Files} {d : Process} (hp : d.phase = .serving) (hs : f.socket = none) :
      Moves p alive .watch f d f { d with cancelled := true }
  /-- `accept_loop` returns `false`: an exit was sent, which the biased select looks at first. -/
  | leaveExit {f : Files} {d : Process} (hp : d.phase = .serving) (he : d.exitSent = true) :
      Moves p alive .leave f d f { d with phase := .finished }
  /-- `accept_loop` returns `true`: it was cancelled. -/
  | leaveCancelled {f : Files} {d : Process} (hp : d.phase = .serving) (he : d.exitSent = false)
      (hc : d.cancelled = true) : Moves p alive .leave f d f { d with phase := .leaving }
  | listenerError {f : Files} {d : Process} (hp : d.phase = .serving) (he : d.exitSent = false)
      (hc : d.cancelled = false) :
      Moves p alive .listenerError f d f { d with phase := .leaving }
  /-- `restart::cleanup` in the task of a Stop request; the main task may be anywhere by now. -/
  | stopRemovesSocket {f : Files} {d : Process} {n : ℕ} (hp : d.phase ≠ .exited)
      (hn : d.pending = n + 1) :
      Moves p alive .stopRemovesSocket f d { f with socket := none }
        { d with pending := n, half := d.half + 1, socketGone := true }
  | stopRemovesPid {f : Files} {d : Process} {n : ℕ} (hp : d.phase ≠ .exited)
      (hn : d.half = n + 1) :
      Moves p alive .stopRemovesPid f d { f with pidFile := none }
        { d with half := n, sleeping := d.sleeping + 1, pidGone := true }
  | sendExit {f : Files} {d : Process} {n : ℕ} (hp : d.phase ≠ .exited)
      (hn : d.sleeping = n + 1) :
      Moves p alive .sendExit f d f { d with sleeping := n, exitSent := true }
  /-- `restart::cleanup` at the end of `run`. -/
  | cleanupRemovesSocket {f : Files} {d : Process} (hp : d.phase = .leaving) :
      Moves p alive .cleanupRemovesSocket f d { f with socket := none }
        { d with phase := .halfCleaned, socketGone := true }
  | cleanupRemovesPid {f : Files} {d : Process} (hp : d.phase = .halfCleaned) :
      Moves p alive .cleanupRemovesPid f d { f with pidFile := none }
        { d with phase := .finished, pidGone := true }
  | exit {f : Files} {d : Process} (hp : d.phase = .finished) :
      Moves p alive .exit f d f { d with phase := .exited }

/-! ## What a process has by its own account -/

/-- Between taking the startup lock and giving it up. -/
def Process.Starting (d : Process) : Prop :=
  d.phase ∈ [.locked, .stale, .unbound, .cleared, .bound, .registered]

/-- It bound the socket and has not removed it. -/
def Process.HoldsSocket (d : Process) : Prop :=
  d.phase ∈ [.bound, .registered, .serving, .leaving, .halfCleaned, .finished] ∧
    d.socketGone = false

def Process.HoldsPid (d : Process) : Prop :=
  d.phase ∈ [.registered, .serving, .leaving, .halfCleaned, .finished] ∧ d.pidGone = false

/-- It has been asked to stop, by a request or otherwise. -/
def Process.BegunStopping (d : Process) : Prop :=
  0 < d.pending ∨ 0 < d.half ∨ 0 < d.sleeping ∨ d.exitSent = true ∨ d.cancelled = true

def Process.Up (d : Process) : Prop := d.phase = .serving ∧ ¬ d.BegunStopping

def Act.removesSocket : Act → Bool
  | .removeStaleSocket | .stopRemovesSocket | .cleanupRemovesSocket => true
  | _ => false

def Act.removesPid : Act → Bool
  | .removeStalePid | .stopRemovesPid | .cleanupRemovesPid => true
  | _ => false

def Process.Early (d : Process) : Prop := d.phase = .idle ∨ d.Starting

/-- What holds of every process, whatever the others do. -/
structure Process.Sound (d : Process) : Prop where
  early : d.Early → d = { Process.start with phase := d.phase }
  socket_gone : 0 < d.half ∨ d.phase = .halfCleaned ∨ d.pidGone = true → d.socketGone = true
  pid_gone : 0 < d.sleeping ∨ d.exitSent = true ∨ d.phase = .finished → d.pidGone = true
  begun : d.phase = .serving → d.socketGone = true → d.BegunStopping

theorem Process.sound_phase {φ : Phase} (h1 : φ ≠ .halfCleaned) (h2 : φ ≠ .finished) :
    ({ Process.start with phase := φ } : Process).Sound where
  early _ := rfl
  socket_gone := by
    rintro (h | h | h)
    · cases h
    · exact absurd h h1
    · cases h
  pid_gone := by
    rintro (h | h | h)
    · cases h
    · cases h
    · exact absurd h h2
  begun _ h := by cases h

theorem Process.not_early {d : Process}
    (h : decide (d.phase ∈ [.serving, .leaving, .halfCleaned, .finished, .exited]) = true) :
    ¬ d.Early := by
  unfold Process.Early Process.Starting
  cases hp : d.phase <;> simp_all

theorem Process.Sound.socket_gone_moved {d : Process} {φ : Phase} (hd : d.Sound)
    (hφ : φ ≠ .halfCleaned) :
    0 < d.half ∨ φ = .halfCleaned ∨ d.pidGone = true → d.socketGone = true := by
  rintro (h | h | h)
  · exact hd.socket_gone (.inl h)
  · exact absurd h hφ
  · exact hd.socket_gone (.inr (.inr h))

theorem Process.Sound.pid_gone_moved {d : Process} {φ : Phase} (hd : d.Sound)
    (hφ : φ ≠ .finished) :
    0 < d.sleeping ∨ d.exitSent = true ∨ φ = .finished → d.pidGone = true := by
  rintro (h | h | h)
  · exact hd.pid_gone (.inl h)
  · exact hd.pid_gone (.inr (.inl h))
  · exact absurd h hφ

section OneProcess

variable {p : ℕ} {alive : ℕ → Prop} {a : Act} {f f' : Files} {d d' : Process}

theorem Moves.sound_of_early (h : Moves p alive a f d f' d') (hd : d.Sound) (hearly : d.Early) :
    d'.Sound := by
  have hstart := hd.early hearly
  cases h with
  | lock | checkAlive | checkDead | checkNone | removeStalePid | removeStaleSocket | bind
  | bindFails | writePid | unlock =>
    rw [hstart]
    exact Process.sound_phase (by decide) (by decide)
  | stopRemovesSocket _ hn | stopRemovesPid _ hn | sendExit _ hn =>
    rw [hstart] at hn
    cases hn
  | acceptStop hp | signal hp | watch hp | leaveExit hp | leaveCancelled hp | listenerError hp
  | cleanupRemovesSocket hp | cleanupRemovesPid hp | exit hp =>
    simp [Process.Early, Process.Starting, hp] at hearly

theorem Moves.sound_of_late (h : Moves p alive a f d f' d') (hd : d.Sound) (hearly : ¬ d.Early) :
    d'.Sound := by
  cases h with
  | lock hp => exact absurd (.inl hp) hearly
  | checkAlive hp | checkDead hp | checkNone hp | removeStalePid hp | removeStaleSocket hp
  | bind hp | bindFails hp | writePid hp | unlock hp =>
    exact absurd (.inr (by simp [Process.Starting, hp])) hearly
  | acceptStop hp =>
    exact ⟨fun h => absurd h hearly, hd.socket_gone, hd.pid_gone, fun _ _ => .inl (Nat.succ_pos _)⟩
  | signal hp | watch hp =>
    exact ⟨fun h => absurd h hearly, hd.socket_gone, hd.pid_gone,
      fun _ _ => .inr (.inr (.inr (.inr rfl)))⟩
  | leaveExit hp he =>
    exact ⟨fun h => absurd h (Process.not_early rfl), hd.socket_gone_moved nofun,
      fun _ => hd.pid_gone (.inr (.inl he)), nofun⟩
  | leaveCancelled | listenerError | exit =>
    exact ⟨fun h => absurd h (Process.not_early rfl), hd.socket_gone_moved nofun,
      hd.pid_gone_moved nofun, nofun⟩
  | stopRemovesSocket =>
    exact ⟨fun h => absurd h hearly, fun _ => rfl, hd.pid_gone,
      fun _ _ => .inr (.inl (Nat.succ_pos _))⟩
  | stopRemovesPid _ hn =>
    have hhalf : 0 < d.half := hn ▸ Nat.succ_pos _
    exact ⟨fun h => absurd h hearly, fun _ => hd.socket_gone (.inl hhalf), fun _ => rfl,
      fun _ _ => .inr (.inr (.inl (Nat.succ_pos _)))⟩
  | sendExit _ hn =>
    have hsleeping : 0 < d.sleeping := hn ▸ Nat.succ_pos _
    exact ⟨fun h => absurd h hearly, hd.socket_gone, fun _ => hd.pid_gone (.inl hsleeping),
      fun _ _ => .inr (.inr (.inr (.inl rfl)))⟩
  | cleanupRemovesSocket =>
    exact ⟨fun h => absurd h (Process.not_early rfl), fun _ => rfl, hd.pid_gone_moved nofun, nofun⟩
  | cleanupRemovesPid hp =>
    exact ⟨fun h => absurd h (Process.not_early rfl), fun _ => hd.socket_gone (.inr (.inl hp)),
      fun _ => rfl, nofun⟩

theorem Moves.sound (h : Moves p alive a f d f' d') (hd : d.Sound) : d'.Sound := by
  by_cases hearly : d.Early
  · exact h.sound_of_early hd hearly
  · exact h.sound_of_late hd hearly

/-- A step leaves the lock alone, takes the free lock, or gives it up. -/
theorem Moves.lock_cases (h : Moves p alive a f d f' d') :
    (f'.lock = f.lock ∧ (d'.Starting ↔ d.Starting)) ∨
      (f.lock = none ∧ f'.lock = some p ∧ d'.Starting) ∨
      (f'.lock = none ∧ d.Starting ∧ ¬ d'.Starting) := by
  cases h with
  | lock _ hl => exact .inr (.inl ⟨hl, rfl, by simp [Process.Starting]⟩)
  | checkAlive hp | bindFails hp | unlock hp =>
    exact .inr (.inr ⟨rfl, by simp [Process.Starting, hp], by simp [Process.Starting]⟩)
  | checkDead hp | checkNone hp | removeStalePid hp | removeStaleSocket hp | bind hp | writePid hp
  | leaveExit hp | leaveCancelled hp | listenerError hp | cleanupRemovesSocket hp
  | cleanupRemovesPid hp | exit hp => exact .inl ⟨rfl, by simp [Process.Starting, hp]⟩
  | acceptStop | signal | watch | stopRemovesSocket | stopRemovesPid | sendExit =>
    exact .inl ⟨rfl, Iff.rfl⟩

theorem Moves.socket_cases (h : Moves p alive a f d f' d') (hd : d.Sound) :
    (a.removesSocket = false ∧ f'.socket = f.socket ∧ (d'.HoldsSocket ↔ d.HoldsSocket)) ∨
      (f.socket = none ∧ f'.socket = some p ∧ d'.HoldsSocket) ∨
      (a.removesSocket = true ∧ f'.socket = none ∧ ¬ d'.HoldsSocket) := by
  cases h with
  | bind hp hs =>
    have hgone : d.socketGone = false := by
      rw [hd.early (.inr (by simp [Process.Starting, hp]))]
      rfl
    exact .inr (.inl ⟨hs, rfl, by simp, hgone⟩)
  | removeStaleSocket | stopRemovesSocket | cleanupRemovesSocket =>
    exact .inr (.inr ⟨rfl, rfl, by simp [Process.HoldsSocket]⟩)
  | exit hp =>
    have hgone : d.socketGone = true :=
      hd.socket_gone (.inr (.inr (hd.pid_gone (.inr (.inr hp)))))
    exact .inl ⟨rfl, rfl, by simp [Process.HoldsSocket, hgone]⟩
  | lock hp | checkAlive hp | checkDead hp | checkNone hp | removeStalePid hp | bindFails hp
  | writePid hp | unlock hp | leaveExit hp | leaveCancelled hp | listenerError hp
  | cleanupRemovesPid hp => exact .inl ⟨rfl, rfl, by simp [Process.HoldsSocket, hp]⟩
  | acceptStop | signal | watch | stopRemovesPid | sendExit => exact .inl ⟨rfl, rfl, Iff.rfl⟩

theorem Moves.pid_cases (h : Moves p alive a f d f' d') (hd : d.Sound) :
    (a.removesPid = false ∧ f'.pidFile = f.pidFile ∧ (d'.HoldsPid ↔ d.HoldsPid)) ∨
      (d.phase = .bound ∧ f'.pidFile = some p ∧ d'.HoldsPid) ∨
      (a.removesPid = true ∧ f'.pidFile = none ∧ ¬ d'.HoldsPid) := by
  cases h with
  | writePid hp =>
    have hgone : d.pidGone = false := by
      rw [hd.early (.inr (by simp [Process.Starting, hp]))]
      rfl
    exact .inr (.inl ⟨hp, rfl, by simp, hgone⟩)
  | removeStalePid | stopRemovesPid | cleanupRemovesPid =>
    exact .inr (.inr ⟨rfl, rfl, by simp [Process.HoldsPid]⟩)
  | exit hp =>
    have hgone : d.pidGone = true := hd.pid_gone (.inr (.inr hp))
    exact .inl ⟨rfl, rfl, by simp [Process.HoldsPid, hgone]⟩
  | lock hp | checkAlive hp | checkDead hp | checkNone hp | removeStaleSocket hp | bind hp
  | bindFails hp | unlock hp | leaveExit hp | leaveCancelled hp | listenerError hp
  | cleanupRemovesSocket hp => exact .inl ⟨rfl, rfl, by simp [Process.HoldsPid, hp]⟩
  | acceptStop | signal | watch | stopRemovesSocket | sendExit => exact .inl ⟨rfl, rfl, Iff.rfl⟩

theorem Process.Sound.late (hd : d.Sound) (hn : 0 < d.pending ∨ 0 < d.half)
    (hp : d.phase ≠ .exited) : d.phase ∈ [.serving, .leaving, .halfCleaned, .finished] := by
  have hearly : ¬ d.Early := by
    intro he
    rw [hd.early he] at hn
    rcases hn with hn | hn
    · cases hn
    · cases hn
  unfold Process.Early Process.Starting at hearly
  cases hphase : d.phase <;> simp_all

/-- A process that removes the socket file for the first time holds it, or is starting. -/
theorem Moves.first_socket (h : Moves p alive a f d f' d') (hd : d.Sound)
    (ha : a.removesSocket = true) (hgone : d.socketGone = false) :
    d.HoldsSocket ∨ d.phase = .unbound := by
  cases h with
  | removeStaleSocket hp => exact .inr hp
  | stopRemovesSocket hp hn =>
    have hlate := hd.late (.inl (hn ▸ Nat.succ_pos _)) hp
    exact .inl ⟨by simp_all, hgone⟩
  | cleanupRemovesSocket hp => exact .inl ⟨by simp [hp], hgone⟩
  | _ => cases ha

theorem Process.starting_of_mem (h : d.phase ∈ [.unbound, .cleared, .bound]) : d.Starting := by
  have hall : ∀ φ ∈ [Phase.unbound, .cleared, .bound],
      φ ∈ [.locked, .stale, .unbound, .cleared, .bound, .registered] := by decide
  exact hall _ h

theorem Moves.stale (h : Moves p alive a f d f' d') (hp : d'.phase = .stale) :
    d.phase = .stale ∨ ∃ q, f.pidFile = some q ∧ ¬ alive q := by
  cases h with
  | checkDead _ hq ha => exact .inr ⟨_, hq, ha⟩
  | acceptStop | signal | watch | stopRemovesSocket | stopRemovesPid | sendExit => exact .inl hp
  | _ => cases hp

/-- A process between the check and writing its pid has seen that there is no pid file. -/
theorem Moves.noPid (h : Moves p alive a f d f' d')
    (hp : d'.phase ∈ [.unbound, .cleared, .bound]) :
    f'.pidFile = none ∨ f'.pidFile = f.pidFile ∧ d.phase ∈ [.unbound, .cleared, .bound] := by
  cases h with
  | checkNone _ hq => exact .inl hq
  | removeStalePid | stopRemovesPid => exact .inl rfl
  | removeStaleSocket hphase | bind hphase => exact .inr ⟨rfl, by simp [hphase]⟩
  | acceptStop | signal | watch | stopRemovesSocket | sendExit => exact .inr ⟨rfl, hp⟩
  | _ => simp at hp

theorem Moves.first_pid (h : Moves p alive a f d f' d') (hd : d.Sound)
    (ha : a.removesPid = true) (hgone : d.pidGone = false) :
    d.HoldsPid ∨ d.phase = .stale := by
  cases h with
  | removeStalePid hp => exact .inr hp
  | stopRemovesPid hp hn =>
    have hlate := hd.late (.inr (hn ▸ Nat.succ_pos _)) hp
    exact .inl ⟨by simp_all, hgone⟩
  | cleanupRemovesPid hp => exact .inl ⟨by simp [hp], hgone⟩
  | _ => cases ha

end OneProcess

/-! ## The system -/

/-- The files and all processes, by their pids. -/
structure System where
  files : Files
  procs : ℕ → Process

def System.init : System := ⟨⟨none, none, none⟩, fun _ => Process.start⟩

def System.Alive (s : System) (q : ℕ) : Prop := (s.procs q).Alive

abbrev Event := ℕ × Act

def Step (s : System) (e : Event) (t : System) : Prop :=
  ∃ f d, Moves e.1 s.Alive e.2 s.files (s.procs e.1) f d ∧ t = ⟨f, Function.update s.procs e.1 d⟩

/-- The files belong to who holds them by their own account, and nobody is about to overwrite one. -/
structure Inv (s : System) : Prop where
  sound : ∀ q, (s.procs q).Sound
  lock : Owned s.files.lock Process.Starting s.procs
  socket : Owned s.files.socket Process.HoldsSocket s.procs
  pid : Owned s.files.pidFile Process.HoldsPid s.procs
  noStale : ∀ q, (s.procs q).phase ≠ .stale
  noPid : ∀ q, (s.procs q).phase ∈ [.unbound, .cleared, .bound] → s.files.pidFile = none

/-- The step does not remove a file that another process made. -/
def Harmless (s : System) (e : Event) : Prop :=
  (e.2.removesSocket = true → s.files.socket = none ∨ s.files.socket = some e.1) ∧
    (e.2.removesPid = true → s.files.pidFile = none ∨ s.files.pidFile = some e.1)

/-- The step does not remove a file again that another process has made since. -/
def Guarded (s : System) (e : Event) : Prop :=
  (e.2.removesSocket = true → (s.procs e.1).socketGone = true →
      ∀ q, q ≠ e.1 → ¬ (s.procs q).HoldsSocket) ∧
    (e.2.removesPid = true → (s.procs e.1).pidGone = true →
      ∀ q, q ≠ e.1 → ¬ (s.procs q).HoldsPid)

/-- At most one daemon is up, and both files are its own. -/
def OneOwner (s : System) : Prop :=
  ∀ p, (s.procs p).Up →
    s.files.socket = some p ∧ s.files.pidFile = some p ∧ ∀ q, (s.procs q).Up → q = p

theorem inv_init : Inv System.init where
  sound _ := @Process.sound_phase .idle nofun nofun
  lock q := by simp [System.init, Process.start, Process.Starting]
  socket q := by simp [System.init, Process.start, Process.HoldsSocket]
  pid q := by simp [System.init, Process.start, Process.HoldsPid]
  noStale q := by simp [System.init, Process.start]
  noPid q h := rfl

section OneStep

variable {s t : System} {e : Event}

theorem Inv.oneOwner (h : Inv s) : OneOwner s := by
  have key (p : ℕ) (hp : (s.procs p).Up) :
      (s.procs p).HoldsSocket ∧ (s.procs p).HoldsPid := by
    obtain ⟨hphase, hbegun⟩ := hp
    have hs : (s.procs p).socketGone = false := by
      by_contra hgone
      exact hbegun ((h.sound p).begun hphase (by simpa using hgone))
    have hpid : (s.procs p).pidGone = false := by
      by_contra hgone
      have := (h.sound p).socket_gone (.inr (.inr (by simpa using hgone)))
      rw [hs] at this
      cases this
    exact ⟨⟨by simp [hphase], hs⟩, ⟨by simp [hphase], hpid⟩⟩
  intro p hp
  obtain ⟨hs, hpid⟩ := key p hp
  exact ⟨(h.socket p).2 hs, (h.pid p).2 hpid, fun q hq => h.socket.unique (key q hq).1 hs⟩

theorem Inv.no_socket (h : Inv s) {p : ℕ} (hp : (s.procs p).phase = .unbound) :
    s.files.socket = none := by
  cases hsocket : s.files.socket with
  | none => rfl
  | some q =>
    exfalso
    obtain ⟨hphase, hgone⟩ := (h.socket q).1 hsocket
    by_cases hbound : (s.procs q).phase = .bound
    · -- both would hold the lock
      have hq : (s.procs q).Starting := by simp [Process.Starting, hbound]
      have hp' : (s.procs p).Starting := by simp [Process.Starting, hp]
      have := h.lock.unique hq hp'
      subst this
      rw [hp] at hbound
      cases hbound
    · have hpid : (s.procs q).pidGone = false := by
        by_contra hpid
        have := (h.sound q).socket_gone (.inr (.inr (by simpa using hpid)))
        rw [hgone] at this
        cases this
      have hholds : (s.procs q).HoldsPid := ⟨by simp_all, hpid⟩
      have hsome := (h.pid q).2 hholds
      rw [h.noPid p (by simp [hp])] at hsome
      cases hsome

/-- A process that removes a file for the first time removes its own, or none. -/
theorem Inv.harmless_iff (h : Inv s) (hstep : Step s e t) : Harmless s e ↔ Guarded s e := by
  obtain ⟨f, d, hm, -⟩ := hstep
  constructor
  · rintro ⟨hsocket, hpid⟩
    exact ⟨fun ha _ => h.socket.others_iff.2 (hsocket ha),
      fun ha _ => h.pid.others_iff.2 (hpid ha)⟩
  · rintro ⟨hsocket, hpid⟩
    constructor
    · intro ha
      cases hgone : (s.procs e.1).socketGone with
      | true => exact h.socket.others_iff.1 (hsocket ha hgone)
      | false =>
        rcases hm.first_socket (h.sound e.1) ha hgone with hholds | hphase
        · exact h.socket.others_iff.1 (h.socket.others hholds)
        · exact .inl (h.no_socket hphase)
    · intro ha
      cases hgone : (s.procs e.1).pidGone with
      | true => exact h.pid.others_iff.1 (hpid ha hgone)
      | false =>
        rcases hm.first_pid (h.sound e.1) ha hgone with hholds | hphase
        · exact h.pid.others_iff.1 (h.pid.others hholds)
        · exact absurd hphase (h.noStale e.1)

theorem Inv.alive (h : Inv s) {q : ℕ} (hq : s.files.pidFile = some q) : s.Alive q := by
  obtain ⟨hphase, -⟩ := (h.pid q).1 hq
  unfold System.Alive Process.Alive
  constructor
  · intro hidle
    simp [hidle] at hphase
  · intro hexited
    simp [hexited] at hphase

theorem Inv.step (h : Inv s) (hstep : Step s e t) (hg : Guarded s e) : Inv t := by
  obtain ⟨hsocket, hpid⟩ := (h.harmless_iff hstep).2 hg
  obtain ⟨f, d, hm, rfl⟩ := hstep
  constructor
  · exact forall_local_update (hm.sound (h.sound e.1)) fun q _ => h.sound q
  · rcases hm.lock_cases with ⟨hf, hd⟩ | ⟨hfree, hf, hd⟩ | ⟨hf, hd, hd'⟩
    · exact hf ▸ h.lock.same hd
    · have hlock := h.lock
      rw [hfree] at hlock
      exact hf ▸ hlock.take hd
    · exact hf ▸ Owned.release (h.lock.others hd) hd'
  · rcases hm.socket_cases (h.sound e.1) with ⟨-, hf, hd⟩ | ⟨hfree, hf, hd⟩ | ⟨ha, hf, hd⟩
    · exact hf ▸ h.socket.same hd
    · have hs := h.socket
      rw [hfree] at hs
      exact hf ▸ hs.take hd
    · exact hf ▸ Owned.release (h.socket.others_iff.2 (hsocket ha)) hd
  · rcases hm.pid_cases (h.sound e.1) with ⟨-, hf, hd⟩ | ⟨hbound, hf, hd⟩ | ⟨ha, hf, hd⟩
    · exact hf ▸ h.pid.same hd
    · have hp := h.pid
      rw [h.noPid e.1 (by simp [hbound])] at hp
      exact hf ▸ hp.take hd
    · exact hf ▸ Owned.release (h.pid.others_iff.2 (hpid ha)) hd
  · refine forall_local_update (Q := fun d : Process => d.phase ≠ .stale) (fun hphase => ?_)
      fun q _ => h.noStale q
    rcases hm.stale hphase with hphase | ⟨q, hq, hdead⟩
    · exact h.noStale e.1 hphase
    · exact hdead (h.alive hq)
  · refine forall_local_update
      (Q := fun d : Process => d.phase ∈ [.unbound, .cleared, .bound] → f.pidFile = none)
      (fun hphase => ?_) fun (q : ℕ) hq hphase => ?_
    · rcases hm.noPid hphase with hnone | ⟨hf, hphase⟩
      · exact hnone
      · exact hf.trans (h.noPid e.1 hphase)
    · rcases hm.pid_cases (h.sound e.1) with ⟨-, hf, -⟩ | ⟨hbound, -, -⟩ | ⟨-, hf, -⟩
      · exact hf.trans (h.noPid q hphase)
      · -- the process that writes its pid holds the lock, and so would `q`
        have hlock : (s.procs e.1).Starting := by simp [Process.Starting, hbound]
        exact absurd (h.lock.unique (Process.starting_of_mem hphase) hlock) hq
      · exact hf

end OneStep

/-! ## Runs -/

/-- A step that removes no file another process made, after which at most one daemon is up and the
files are its own. -/
def SafeStep (s : System) (e : Event) (t : System) : Prop :=
  Step s e t ∧ Harmless s e ∧ OneOwner t

def GuardedStep (s : System) (e : Event) (t : System) : Prop := Step s e t ∧ Guarded s e

/-- However the processes interleave, all steps of a run are safe exactly when no process removes a
file again that another one has made since. -/
theorem run_safe_iff (es : List Event) (s : System) :
    Run SafeStep System.init es s ↔ Run GuardedStep System.init es s := by
  refine Run.congr (P := Inv) ?_ ?_ inv_init
  · intro s e t hs
    constructor
    · rintro ⟨hstep, hharmless, -⟩
      exact ⟨hstep, (hs.harmless_iff hstep).1 hharmless⟩
    · rintro ⟨hstep, hg⟩
      exact ⟨hstep, (hs.harmless_iff hstep).2 hg, (hs.step hstep hg).oneOwner⟩
  · rintro s e t hs ⟨hstep, hg⟩
    exact hs.step hstep hg

theorem Moves.det {p : ℕ} {alive : ℕ → Prop} {a : Act} {f f₁ f₂ : Files} {d d₁ d₂ : Process}
    (h₁ : Moves p alive a f d f₁ d₁) (h₂ : Moves p alive a f d f₂ d₂) : f₁ = f₂ ∧ d₁ = d₂ := by
  cases h₁ <;> cases h₂ <;> simp_all

theorem Step.det {s t t' : System} {e : Event} (h : Step s e t) (h' : Step s e t') : t = t' := by
  obtain ⟨f, d, hm, rfl⟩ := h
  obtain ⟨f', d', hm', rfl⟩ := h'
  obtain ⟨rfl, rfl⟩ := hm.det hm'
  rfl

def startUp (p : ℕ) : List Event :=
  [(p, .lock), (p, .check), (p, .removeStaleSocket), (p, .bind), (p, .writePid), (p, .unlock)]

theorem Step.own {procs : ℕ → Process} {p : ℕ} {a : Act} {f f' : Files} {d d' : Process}
    (h : ∀ alive, Moves p alive a f d f' d') :
    Step ⟨f, Function.update procs p d⟩ (p, a) ⟨f', Function.update procs p d'⟩ := by
  refine ⟨f', d', ?_, ?_⟩
  · simpa only [Function.update_self] using h _
  · rw [Function.update_idem]

def Process.serving : Process := { Process.start with phase := .serving }

/-- A daemon starts where the lock is free and there is no pid file. -/
theorem run_startUp (procs : ℕ → Process) (p : ℕ) (socket : Option ℕ) :
    Run Step ⟨⟨socket, none, none⟩, Function.update procs p .start⟩ (startUp p)
      ⟨⟨some p, some p, none⟩, Function.update procs p .serving⟩ :=
  .cons (.own fun _ => .lock rfl rfl) <| .cons (.own fun _ => .checkNone rfl rfl) <|
  .cons (.own fun _ => .removeStaleSocket rfl) <| .cons (.own fun _ => .bind rfl rfl) <|
  .cons (.own fun _ => .writePid rfl) <| .cons (.own fun _ => .unlock rfl) <| .nil _

def halfStopped : Process :=
  { Process.start with
    phase := .serving, pending := 1, sleeping := 1, socketGone := true, pidGone := true }

/-- Daemon 1 accepts two Stop requests.  The task of the first removes the files, daemon 2 starts, and
the task of the second removes the socket of daemon 2. -/
theorem not_run_safe :
    ¬ ∀ es s, Run Step System.init es s → Run SafeStep System.init es s := by
  intro h
  have hinit : System.init = ⟨⟨none, none, none⟩,
      Function.update (fun _ => Process.start) 1 .start⟩ := by
    rw [Function.update_eq_self_iff.2 rfl]
    rfl
  have hstop : Run Step ⟨⟨some 1, some 1, none⟩,
      Function.update (fun _ => Process.start) 1 .serving⟩
      [(1, .acceptStop), (1, .acceptStop), (1, .stopRemovesSocket), (1, .stopRemovesPid)]
      ⟨⟨none, none, none⟩, Function.update (fun _ => Process.start) 1 halfStopped⟩ :=
    .cons (.own fun _ => .acceptStop rfl) <| .cons (.own fun _ => .acceptStop rfl) <|
    .cons (.own fun _ => .stopRemovesSocket nofun rfl) <|
    .cons (.own fun _ => .stopRemovesPid nofun rfl) <| .nil _
  have hidle : Function.update (Function.update (fun _ => Process.start) 1 halfStopped) 2 .start =
      Function.update (fun _ => Process.start) 1 halfStopped := Function.update_eq_self_iff.2 rfl
  have hsecond := run_startUp (Function.update (fun _ => Process.start) 1 halfStopped) 2 none
  rw [hidle] at hsecond
  have hpre := Run.append_iff.2 ⟨_, hinit ▸ run_startUp _ 1 none,
    Run.append_iff.2 ⟨_, hstop, hsecond⟩⟩
  have hlast : Step ⟨⟨some 2, some 2, none⟩, Function.update
      (Function.update (fun _ => Process.start) 1 halfStopped) 2 .serving⟩
      (1, .stopRemovesSocket) _ :=
    ⟨_, _, .stopRemovesSocket nofun rfl, rfl⟩
  obtain ⟨t, hsafe, -, ⟨hharmless, -⟩, -⟩ := Run.snoc_iff.1 (h _ _ (hpre.snoc hlast))
  have hplain : Run Step System.init _ t := hsafe.mono fun _ _ _ hs => hs.1
  have hdet (s : System) (e : Event) (t t' : System) : Step s e t → Step s e t' → t = t' := Step.det
  obtain rfl := hplain.det hdet hpre
  rcases hharmless rfl with hnone | hown
  · cases hnone
  · cases hown

end MergeReady.Daemon.Endpoint
