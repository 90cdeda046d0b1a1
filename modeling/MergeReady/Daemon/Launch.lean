import MergeReady.Daemon.Listener

/-!
# Starting the daemon

`daemon start` runs itself a second time, as the process that becomes the daemon, and waits until
this inner process has printed `ready`, has ended, or the timeout is over.  Of all that the shell
gets to see the exit code.
-/

namespace MergeReady.Daemon

open MergeReady.Lib

/-! ## The outer process -/

/-- How a process has ended: with a code, or by a signal. -/
abbrev ExitStatus := Option ℤ

inductive ExitInfo
  | success
  | failure (code : Option ℤ)
  | waitError
deriving DecidableEq

def ExitInfo.fromWait : Except Unit ExitStatus → ExitInfo
  | .ok status => if status = some 0 then .success else .failure status
  | .error _ => .waitError

inductive Exit
  | success
  | failure
  | code (code : UInt8)
deriving DecidableEq

def Exit.toExitCode : Exit → UInt8
  | .success => 0
  | .failure => 1
  | .code c => c

inductive StartResult
  | ready
  | exeNotFound
  | spawnFailed (e : String)
  | earlyExit (exit : ExitInfo) (stderr : String)
  | timeout (secs : ℕ)

/-- What `select!` comes to. -/
inductive StartOutcome
  | ready
  | earlyExit (status : Except Unit ExitStatus)
  | timeout

def START_TIMEOUT_SECS : ℕ := 2

/-- The inner process as the outer one sees it. -/
structure Child where
  /-- when `read_line` returns, and the line; `none` for an error -/
  line : Option (ℕ × Option String)
  /-- when the process ends, and what `wait` says -/
  exit : Option (ℕ × Except Unit ExitStatus)
  stderr : String

def READY : String := "ready\n"

/-- The branches that `select!` may take when it is polled at `now`: any that is complete by then.
-/
inductive Selects (child : Child) (now : ℕ) : StartOutcome → Prop
  | ready {t : ℕ} (h : child.line = some (t, some READY)) (ht : t ≤ now) : Selects child now .ready
  | closed {t u : ℕ} {text : Option String} {status : Except Unit ExitStatus}
      (h : child.line = some (t, text)) (ht : t ≤ now) (hne : text ≠ some READY)
      (hexit : child.exit = some (u, status)) : Selects child now (.earlyExit status)
  | exited {t : ℕ} {status : Except Unit ExitStatus} (h : child.exit = some (t, status))
      (ht : t ≤ now) : Selects child now (.earlyExit status)
  | timeout (h : START_TIMEOUT_SECS * 1000000000 ≤ now) : Selects child now .timeout

def StartOutcome.result (stderr : String) : StartOutcome → StartResult
  | .ready => .ready
  | .earlyExit status => .earlyExit (.fromWait status) stderr
  | .timeout => .timeout START_TIMEOUT_SECS

/-- What the outer process leaves: its exit and its two outputs. -/
structure Reported where
  exit : Exit
  stdout : String
  stderr : String

/-- `u8::try_from(code).unwrap_or(1)` -/
def codeOrOne (code : ℤ) : UInt8 :=
  if 0 ≤ code ∧ code < 256 then UInt8.ofNat code.toNat else 1

def interpret : StartResult → Reported
  | .ready => ⟨.success, "daemon started\n", ""⟩
  | .exeNotFound => ⟨.failure, "", "merge-ready: failed to locate executable\n"⟩
  | .spawnFailed e => ⟨.failure, "", "merge-ready: failed to spawn daemon: " ++ e ++ "\n"⟩
  -- a process that ends well without having been ready has not started either
  | .earlyExit .success stderr => ⟨.code 1, "", stderr⟩
  | .earlyExit (.failure code) stderr => ⟨.code (codeOrOne (code.getD 1)), "", stderr⟩
  | .earlyExit .waitError stderr => ⟨.failure, "", stderr⟩
  | .timeout secs =>
    ⟨.failure, "", "merge-ready: daemon did not start within " ++ toString secs ++ "s\n"⟩

/-- `launch`: the executable is not found, cannot be started, or is supervised. -/
inductive Launches (Inner : Child → Prop) : Reported → Prop
  | exeNotFound : Launches Inner (interpret .exeNotFound)
  | spawnFailed (e : String) : Launches Inner (interpret (.spawnFailed e))
  | supervised {child : Child} {now : ℕ} {outcome : StartOutcome} (hinner : Inner child)
      (h : Selects child now outcome) : Launches Inner (interpret (outcome.result child.stderr))

/-! ## The inner process -/

/-- The process has ended without a line on its standard output. -/
def Child.EndsMute (child : Child) (status : ExitStatus) : Prop :=
  ∃ t u waited, child.line = some (t, some "") ∧ child.exit = some (u, waited) ∧
    (waited = .ok status ∨ waited = .error ())

/-- What the outer process may see of `daemon_server::run` in the process `ownPid`. -/
inductive Inner (ownPid : UInt32) (w : World) (child : Child) : Prop
  /-- the directory of the socket could not be made -/
  | noBaseDir (h : child.EndsMute (some 1))
  | refused {e : DaemonError} (hbind : (SocketListener.bind ownPid w).1 = .error e)
      (h : child.EndsMute (some 1))
  /-- it has printed the line, and may have ended since -/
  | serving {t : ℕ} (hbind : (SocketListener.bind ownPid w).1 = .ok ())
      (h : child.line = some (t, some READY))
  | killed (h : child.EndsMute none)
  /-- it waits, for the lock or for the socket -/
  | waiting (hline : child.line = none) (hexit : child.exit = none)

section

variable {child : Child} {now : ℕ} {outcome : StartOutcome} {r : Reported} {ownPid : UInt32}
  {w : World}

theorem codeOrOne_ne_zero {code : ℤ} (h : code ≠ 0) : codeOrOne code ≠ 0 := by
  unfold codeOrOne
  split
  · rename_i hcode
    intro hzero
    have := congrArg UInt8.toNat hzero
    rw [UInt8.toNat_ofNat', Nat.mod_eq_of_lt (by omega)] at this
    have hnat : code.toNat = 0 := this
    omega
  · decide

/-- The outer process ends well only when it has read the line. -/
theorem exit_eq_zero_iff :
    (interpret (outcome.result child.stderr)).exit.toExitCode = 0 ↔ outcome = .ready := by
  cases outcome with
  | ready => exact iff_of_true rfl rfl
  | timeout => exact iff_of_false (by decide : (1 : UInt8) ≠ 0) (by rintro ⟨⟩)
  | earlyExit status =>
    refine iff_of_false ?_ (by rintro ⟨⟩)
    cases status with
    | error e => exact (by decide : (1 : UInt8) ≠ 0)
    | ok status =>
      by_cases hzero : status = some 0
      · rw [StartOutcome.result, ExitInfo.fromWait, if_pos hzero]
        exact (by decide : (1 : UInt8) ≠ 0)
      · rw [StartOutcome.result, ExitInfo.fromWait, if_neg hzero]
        refine codeOrOne_ne_zero fun hcode => ?_
        cases status with
        | none => cases hcode
        | some code => exact hzero (congrArg some hcode)

theorem Child.EndsMute.not_ready {status : ExitStatus} (h : child.EndsMute status) {t : ℕ} :
    child.line ≠ some (t, some READY) := by
  obtain ⟨u, -, -, hline, -⟩ := h
  rw [hline]
  intro heq
  exact absurd (Option.some.inj (Prod.mk.inj (Option.some.inj heq)).2) (by decide)

/-- A process that has ended mute, with this status, gives the exit code 1. -/
theorem exit_of_mute {status : ExitStatus} (h : child.EndsMute status)
    (hs : status = some 1 ∨ status = none) (hsel : Selects child now outcome) :
    (interpret (outcome.result child.stderr)).exit.toExitCode = 1 := by
  have hmute := h
  obtain ⟨t, u, waited, hline, hexit, hw⟩ := h
  have hearly : (interpret (StartOutcome.result child.stderr (.earlyExit waited))).exit.toExitCode =
      1 := by
    rcases hw with rfl | rfl
    · rcases hs with rfl | rfl
      · rfl
      · rfl
    · rfl
  have hstatus : ∀ {t status}, child.exit = some (t, status) → status = waited := fun h => by
    rw [hexit] at h
    exact (Prod.mk.inj (Option.some.inj h)).2.symm
  cases hsel with
  | ready h ht => exact absurd h hmute.not_ready
  | closed h ht hne hexit => rwa [hstatus hexit]
  | exited h ht => rwa [hstatus h]
  | timeout h => rfl

/-- **`daemon start` tells the truth.**  Whatever the rest of the system does, and whichever branch
the outer process takes: when it exits with 0, the inner one has bound the socket, under the startup
lock, and gone on to write its pid; when the inner one was refused, it exits with 1, and no pid was
written. -/
theorem launch_truthful (hl : Launches (Inner ownPid w) r) :
    (r.exit.toExitCode = 0 → (SocketListener.bind ownPid w).1 = .ok () ∧
      (∃ before t after, traceOf (SocketListener.bind ownPid) w =
        before ++ (t, .bind socketPath .ok) :: after ∧ ∃ u, (u, .lock lockPath true) ∈ before) ∧
      ∃ ok, lastCall (traceOf (SocketListener.bind ownPid) w) =
        some (.write pidPath (Pid.text ownPid) ok)) ∧
    (∀ e, (SocketListener.bind ownPid w).1 = .error e → r.exit.toExitCode = 1 ∧
      ∀ t name content ok,
        (t, .write name content ok) ∉ traceOf (SocketListener.bind ownPid) w) := by
  obtain ⟨-, h⟩ := traceOf_spec (SocketListener.does_bindWith ownPid
    SocketListener.BIND_RETRY_MAX SocketListener.BIND_RETRY_INTERVAL w)
  obtain ⟨hwritten, hok, -⟩ := h.result
  have hnone : ∀ e, (SocketListener.bind ownPid w).1 = .error e → ∀ t name content ok,
      (t, .write name content ok) ∉ traceOf (SocketListener.bind ownPid) w := by
    intro e he t name content ok hmem
    have hbind : (SocketListener.bind ownPid w).1 = .ok () :=
      hwritten.2 ⟨t, name, content, ok, hmem⟩
    rw [he] at hbind
    cases hbind
  have hone : (1 : UInt8) ≠ 0 := by decide
  cases hl with
  | exeNotFound => exact ⟨fun h => absurd h hone, fun e he => ⟨rfl, hnone e he⟩⟩
  | spawnFailed message => exact ⟨fun h => absurd h hone, fun e he => ⟨rfl, hnone e he⟩⟩
  | @supervised child now outcome hinner hsel =>
    constructor
    · intro hzero
      obtain rfl := exit_eq_zero_iff.1 hzero
      cases hsel with | ready hline ht
      have hbind : (SocketListener.bind ownPid w).1 = .ok () := by
        cases hinner with
        | noBaseDir h => exact absurd hline h.not_ready
        | refused hbind h => exact absurd hline h.not_ready
        | serving hbind h => exact hbind
        | killed h => exact absurd hline h.not_ready
        | waiting hnone hexit =>
          rw [hnone] at hline
          cases hline
      obtain ⟨hbound, hlast⟩ := hok hbind
      exact ⟨hbind, h.locked_of_bound hbound, hlast⟩
    · intro e he
      refine ⟨?_, hnone e he⟩
      cases hinner with
      | noBaseDir h => exact exit_of_mute h (.inl rfl) hsel
      | refused hbind h => exact exit_of_mute h (.inl rfl) hsel
      | serving hbind h =>
        rw [he] at hbind
        cases hbind
      | killed h => exact exit_of_mute h (.inr rfl) hsel
      | waiting hline hexit =>
        cases hsel with
        | ready h ht =>
          rw [hline] at h
          cases h
        | closed h ht hne hstatus =>
          rw [hline] at h
          cases h
        | exited h ht =>
          rw [hexit] at h
          cases h
        | timeout h => rfl

/-- A daemon that is ready after 5 ms. -/
def readyChild : Child := ⟨some (5000000, some READY), none, ""⟩

theorem launch_truthful_ready : (SocketListener.bind 42 SocketListener.idleWorld).1 = .ok () ∧
    ∃ before t after, traceOf (SocketListener.bind 42) SocketListener.idleWorld =
      before ++ (t, .bind socketPath .ok) :: after ∧ ∃ u, (u, .lock lockPath true) ∈ before := by
  have hinner : Inner 42 SocketListener.idleWorld readyChild := .serving rfl rfl
  have hsel : Selects readyChild 5000000 .ready := .ready rfl (Nat.le_refl _)
  obtain ⟨hbind, hlocked, -⟩ := (launch_truthful (.supervised hinner hsel)).1 rfl
  exact ⟨hbind, hlocked⟩

/-- The outer process that is polled after the line has come, and before the inner one has ended and
before the timeout, exits with 0. -/
theorem exit_of_ready {t : ℕ} (hline : child.line = some (t, some READY))
    (hexit : ∀ u status, child.exit = some (u, status) → now < u)
    (hnow : now < START_TIMEOUT_SECS * 1000000000) (hsel : Selects child now outcome) :
    (interpret (outcome.result child.stderr)).exit.toExitCode = 0 := by
  rw [exit_eq_zero_iff]
  cases hsel with
  | ready h ht => rfl
  | closed h ht hne hstatus =>
    rw [hline] at h
    exact absurd (Prod.mk.inj (Option.some.inj h)).2.symm hne
  | exited h ht => exact absurd (hexit _ _ h) (Nat.not_lt.2 ht)
  | timeout h => exact absurd hnow (Nat.not_lt.2 h)

end

end MergeReady.Daemon
