import MergeReady.Daemon.Requests
import MergeReady.Lib.Digits
import MergeReady.Lib.Trace
import Mathlib.Algebra.BigOperators.Group.Finset.Basic
import Mathlib.Logic.Function.Basic

/-!
# Processes and their pid files

A command that looks after a daemon process makes one system call after the other, and between two
calls the rest of the system goes on: others write and remove files, processes come and go, time
passes. `World` is the system as a command meets it, with any future.  The calls are recorded, each
with the time at which it was answered; times are readings of the monotonic clock, in nanoseconds.
-/

namespace MergeReady.Daemon

open MergeReady.Lib
open MergeReady.Shared

/-! ## The system around a command -/

/-- The files of the base directory: their texts by their names. -/
abbrev BaseDir := Str → Option Str

/-- What `kill` answers. -/
inductive KillResult
  | ok
  /-- `EPERM` -/
  | perm
  /-- any other error, such as `ESRCH` -/
  | error
deriving DecidableEq

inductive BindResult
  | ok
  | addrInUse
  | error
deriving DecidableEq

/-- A call with its answer. -/
inductive SysCall
  | now
  | sleep (duration : ℕ)
  | readToString (name : Str) (content : Option Str)
  | write (name content : Str) (ok : Bool)
  | removeFile (name : Str) (ok : Bool)
  | readDir (names : List Str)
  /-- `kill` without a signal -/
  | testKillProcess (pid : ℕ) (result : KillResult)
  /-- `kill` with `SIGTERM` -/
  | killProcess (pid : ℕ) (result : KillResult)
  | send (socket : Str) (request : Request) (reply : Option Response)
  /-- `OpenOptions::open` -/
  | «open» (name : Str) (ok : Bool)
  /-- `File::lock` -/
  | lock (name : Str) (ok : Bool)
  | bind (socket : Str) (result : BindResult)
  | setPermissions (name : Str) (ok : Bool)
deriving DecidableEq

/-- What the rest of the system does while one call is made. -/
structure Turn where
  delay : ℕ
  /-- what others do to the files -/
  files : BaseDir → BaseDir
  kill : ℕ → KillResult
  names : List Str
  reply : Option Response
  /-- whether a call that may fail does not -/
  ok : Bool

structure World where
  now : ℕ
  files : BaseDir
  /-- the turns to come -/
  turns : ℕ → Turn
  calls : List (ℕ × SysCall)

/-- How long a call asks to wait. -/
def SysCall.pause : SysCall → ℕ
  | .sleep duration => duration
  | _ => 0

def SysCall.effect : SysCall → BaseDir → BaseDir
  | .removeFile name true, files => Function.update files name none
  | .write name content true, files => Function.update files name (some content)
  -- a file that is not there is created
  | .open name true, files => Function.update files name (some ((files name).getD []))
  | .bind socket .ok, files => Function.update files socket (some [])
  | _, files => files

/-- A socket is bound where no file is, unless something else is wrong. -/
def bindResult (turn : Turn) (files : BaseDir) (socket : Str) : BindResult :=
  if (files socket).isSome then .addrInUse else if turn.ok then .ok else .error

/-- A file is removed that is there, unless something else is wrong. -/
def removeResult (turn : Turn) (files : BaseDir) (name : Str) : Bool :=
  (files name).isSome && turn.ok

def SysCall.Answered (turn : Turn) (files : BaseDir) : SysCall → Prop
  | .now => True
  | .sleep _ => True
  | .readToString name content => content = files name
  | .write _ _ ok => ok = turn.ok
  | .removeFile name ok => ok = removeResult turn files name
  | .readDir names => names = turn.names
  | .testKillProcess pid result => result = turn.kill pid
  | .killProcess pid result => result = turn.kill pid
  | .send _ _ reply => reply = turn.reply
  | .open _ ok => ok = turn.ok
  | .lock _ ok => ok = turn.ok
  | .bind socket result => result = bindResult turn files socket
  | .setPermissions _ ok => ok = turn.ok

namespace World

/-- The files when a call takes effect. -/
def filesNext (w : World) : BaseDir := (w.turns 0).files w.files

def after (w : World) (c : SysCall) : World :=
  { now := w.now + c.pause + (w.turns 0).delay
    files := c.effect w.filesNext
    turns := fun n => w.turns (n + 1)
    calls := w.calls ++ [(w.now + c.pause + (w.turns 0).delay, c)] }

inductive Step (w : World) : ℕ × SysCall → World → Prop
  | call {c : SysCall} (h : c.Answered (w.turns 0) w.filesNext) :
      Step w ((w.after c).now, c) (w.after c)

variable {w w' : World} {l : List (ℕ × SysCall)}

theorem calls_of_run (h : Run Step w l w') : w'.calls = w.calls ++ l := by
  induction h with
  | nil => exact (List.append_nil _).symm
  | cons hstep _ ih =>
    cases hstep
    rw [ih]
    exact (List.append_assoc _ _ _)

/-- The clock shows what was asked for and what the calls took. -/
theorem now_of_run (h : Run Step w l w') :
    w'.now = w.now + (l.map fun c => c.2.pause).sum +
      ∑ i ∈ Finset.range l.length, (w.turns i).delay := by
  induction h with
  | nil => rfl
  | @cons w v w' c l hstep _ ih =>
    cases hstep
    rw [ih, List.map_cons, List.sum_cons, List.length_cons, Finset.sum_range_succ']
    simp only [after]
    omega

theorem turns_of_run (h : Run Step w l w') (n : ℕ) : w'.turns n = w.turns (n + l.length) := by
  induction h with
  | nil => rfl
  | cons hstep _ ih =>
    obtain ⟨-⟩ := hstep
    exact ih

/-- Calls are answered one after the other, and a pause is waited for. -/
def Timed (l : List (ℕ × SysCall)) : Prop := l.Pairwise fun c c' => c.1 + c'.2.pause ≤ c'.1

theorem le_of_run (h : Run Step w l w') : w.now ≤ w'.now := by
  rw [now_of_run h, Nat.add_assoc]
  exact Nat.le_add_right _ _

theorem timed_of_run (h : Run Step w l w') :
    Timed l ∧ ∀ c ∈ l, w.now + c.2.pause ≤ c.1 ∧ c.1 ≤ w'.now := by
  induction h with
  | nil => exact ⟨.nil, List.forall_mem_nil _⟩
  | @cons w v w' c l hstep hrun ih =>
    obtain ⟨htimed, hle⟩ := ih
    obtain ⟨hc⟩ := hstep
    have hnow := le_of_run hrun
    refine ⟨List.pairwise_cons.2 ⟨fun d hd => (hle d hd).1, htimed⟩, ?_⟩
    rw [List.forall_mem_cons]
    refine ⟨⟨?_, hnow⟩, fun d hd => ⟨?_, (hle d hd).2⟩⟩
    · exact Nat.le_add_right _ _
    · refine le_trans ?_ (hle d hd).1
      exact Nat.add_le_add_right (by simp only [after]; omega) _

end World

/-! ## The calls -/

namespace Sys

def now : StateM World ℕ := fun w => ((w.after .now).now, w.after .now)

def sleep (duration : ℕ) : StateM World Unit := fun w => ((), w.after (.sleep duration))

def readToString (name : Str) : StateM World (Option Str) := fun w =>
  (w.filesNext name, w.after (.readToString name (w.filesNext name)))

def write (name content : Str) : StateM World Bool := fun w =>
  ((w.turns 0).ok, w.after (.write name content (w.turns 0).ok))

def removeFile (name : Str) : StateM World Bool := fun w =>
  let ok := removeResult (w.turns 0) w.filesNext name
  (ok, w.after (.removeFile name ok))

def readDir : StateM World (List Str) := fun w =>
  ((w.turns 0).names, w.after (.readDir (w.turns 0).names))

def testKillProcess (pid : ℕ) : StateM World KillResult := fun w =>
  ((w.turns 0).kill pid, w.after (.testKillProcess pid ((w.turns 0).kill pid)))

def killProcess (pid : ℕ) : StateM World KillResult := fun w =>
  ((w.turns 0).kill pid, w.after (.killProcess pid ((w.turns 0).kill pid)))

def send (socket : Str) (request : Request) : StateM World (Option Response) := fun w =>
  ((w.turns 0).reply, w.after (.send socket request (w.turns 0).reply))

def «open» (name : Str) : StateM World Bool := fun w =>
  ((w.turns 0).ok, w.after (.open name (w.turns 0).ok))

def lock (name : Str) : StateM World Bool := fun w =>
  ((w.turns 0).ok, w.after (.lock name (w.turns 0).ok))

def bind (socket : Str) : StateM World BindResult := fun w =>
  let result := bindResult (w.turns 0) w.filesNext socket
  (result, w.after (.bind socket result))

def setPermissions (name : Str) : StateM World Bool := fun w =>
  ((w.turns 0).ok, w.after (.setPermissions name (w.turns 0).ok))

end Sys

/-- A program makes one call, and returns what the answer says. -/
def Makes1 {α : Type} (x : StateM World α) (call : α → SysCall) : Prop :=
  ∀ w, Does World.Step x w fun l a t => l = [(t.now, call a)]

theorem makes1 {α : Type} {x : StateM World α} {call : α → SysCall}
    (hx : ∀ w, (x w).2 = w.after (call (x w).1))
    (hanswer : ∀ w, (call (x w).1).Answered (w.turns 0) w.filesNext) : Makes1 x call := by
  intro w
  refine ⟨_, Run.single_iff.2 ?_, rfl⟩
  rw [hx]
  exact .call (hanswer w)

section

variable (name content socket : Str) (pid duration : ℕ) (request : Request)

theorem makes_now : Makes1 Sys.now fun _ => .now := makes1 (fun _ => rfl) fun _ => trivial

theorem makes_sleep : Makes1 (Sys.sleep duration) fun _ => .sleep duration :=
  makes1 (fun _ => rfl) fun _ => trivial

theorem makes_readToString : Makes1 (Sys.readToString name) (.readToString name) :=
  makes1 (fun _ => rfl) fun _ => rfl

theorem makes_write : Makes1 (Sys.write name content) (.write name content) :=
  makes1 (fun _ => rfl) fun _ => rfl

theorem makes_removeFile : Makes1 (Sys.removeFile name) (.removeFile name) :=
  makes1 (fun _ => rfl) fun _ => rfl

theorem makes_readDir : Makes1 Sys.readDir .readDir := makes1 (fun _ => rfl) fun _ => rfl

theorem makes_testKillProcess : Makes1 (Sys.testKillProcess pid) (.testKillProcess pid) :=
  makes1 (fun _ => rfl) fun _ => rfl

theorem makes_killProcess : Makes1 (Sys.killProcess pid) (.killProcess pid) :=
  makes1 (fun _ => rfl) fun _ => rfl

theorem makes_send : Makes1 (Sys.send socket request) (.send socket request) :=
  makes1 (fun _ => rfl) fun _ => rfl

theorem makes_open : Makes1 (Sys.open name) (.open name) := makes1 (fun _ => rfl) fun _ => rfl

theorem makes_lock : Makes1 (Sys.lock name) (.lock name) := makes1 (fun _ => rfl) fun _ => rfl

theorem makes_bind : Makes1 (Sys.bind socket) (.bind socket) := makes1 (fun _ => rfl) fun _ => rfl

theorem makes_setPermissions : Makes1 (Sys.setPermissions name) (.setPermissions name) :=
  makes1 (fun _ => rfl) fun _ => rfl

end

/-! ## Traces -/

/-- The calls that a program makes. -/
def traceOf {α : Type} (x : StateM World α) (w : World) : List (ℕ × SysCall) :=
  (x w).2.calls.drop w.calls.length

theorem traceOf_spec {α : Type} {x : StateM World α} {w : World}
    {R : List (ℕ × SysCall) → α → World → Prop} (h : Does World.Step x w R) :
    Run World.Step w (traceOf x w) (x w).2 ∧ R (traceOf x w) (x w).1 (x w).2 := by
  obtain ⟨l, hrun, hR⟩ := h
  have htrace : traceOf x w = l := by
    rw [traceOf, World.calls_of_run hrun, List.drop_left]
  rw [htrace]
  exact ⟨hrun, hR⟩

/-! ## Pid files -/

namespace Pid

/-- `s.trim().parse().ok()` -/
def parse (s : Str) : Option UInt32 := (s.trim.parseUnsigned (2 ^ 32)).map UInt32.ofNat

/-- `pid.to_string()` -/
def text (pid : UInt32) : Str := Nat.toDigits 10 pid.toNat

def write (pid : UInt32) (path : Str) : StateM World Unit := do
  let _ ← Sys.write path (text pid)

def read (path : Str) : StateM World (Option UInt32) := do
  let content ← Sys.readToString path
  return content.bind parse

def remove (path : Str) : StateM World Unit := do
  let _ ← Sys.removeFile path

/-- The process, if there can be one: a positive `i32`. -/
def toPid (pid : UInt32) : Option ℕ :=
  if 0 < pid.toNat ∧ pid.toNat < 2 ^ 31 then some pid.toNat else none

def isAlive (pid : UInt32) : StateM World Bool :=
  match toPid pid with
  | none => return false
  | some p => do
    let result ← Sys.testKillProcess p
    return result = .ok ∨ result = .perm

def terminate (pid : UInt32) : StateM World Bool :=
  match toPid pid with
  | none => return false
  | some p => do
    let result ← Sys.killProcess p
    return result = .ok

/-- How long a wait sleeps between two looks, 20 ms. -/
def POLL_INTERVAL : ℕ := 20000000

theorem le_now_isAlive (pid : UInt32) (w : World) : w.now ≤ (isAlive pid w).2.now := by
  unfold isAlive
  cases toPid pid with
  | none => exact Nat.le_refl _
  | some p =>
    show w.now ≤ w.now + 0 + (w.turns 0).delay
    omega

/-- The loop of `wait_until_gone`. -/
def waitLoop (pid : UInt32) (path : Str) (deadline : ℕ) (w : World) : Bool × World :=
  let alive := isAlive pid w
  if alive.1 then
    let clock := Sys.now alive.2
    if deadline ≤ clock.1 then (false, clock.2)
    else waitLoop pid path deadline (Sys.sleep POLL_INTERVAL clock.2).2
  else (true, (remove path alive.2).2)
termination_by deadline - w.now
decreasing_by
  have hle : w.now ≤ alive.2.now := le_now_isAlive pid w
  have hclock : clock.1 = alive.2.now + 0 + (alive.2.turns 0).delay := rfl
  have hsleep : (Sys.sleep POLL_INTERVAL clock.2).2.now =
    clock.1 + POLL_INTERVAL + (clock.2.turns 0).delay := rfl
  have hpoll : 0 < POLL_INTERVAL := by decide
  show deadline - (Sys.sleep POLL_INTERVAL clock.2).2.now < deadline - w.now
  rw [hsleep]
  omega

def waitUntilGone (pid : UInt32) (path : Str) (timeout : ℕ) : StateM World Bool := do
  let start ← Sys.now
  waitLoop pid path (start + timeout)

/-- **What is written to a pid file is read from it.** -/
theorem parse_text (pid : UInt32) : parse (text pid) = some pid := by
  have htrim : (text pid).trim = text pid := Str.trim_eq_self fun c hc =>
    Str.not_isWhitespace_of_isDecimal (Str.isDecimal_of_mem_toDigits hc)
  rw [parse, htrim, text, Str.parseUnsigned_toDigits pid.toNat_lt]
  exact congrArg some UInt32.ofNat_toNat

/-! ## What these programs do -/

/-- The calls of `is_alive`. -/
inductive Looks (pid : UInt32) : List (ℕ × SysCall) → Bool → Prop
  | noPid (h : toPid pid = none) : Looks pid [] false
  | call {p t : ℕ} {result : KillResult} (h : toPid pid = some p) :
      Looks pid [(t, .testKillProcess p result)] (result = .ok ∨ result = .perm)

/-- The calls of `terminate`. -/
inductive Terminates (pid : UInt32) : List (ℕ × SysCall) → Bool → Prop
  | noPid (h : toPid pid = none) : Terminates pid [] false
  | call {p t : ℕ} {result : KillResult} (h : toPid pid = some p) :
      Terminates pid [(t, .killProcess p result)] (result = .ok)

/-- The calls of `wait_until_gone`, once it has its deadline. -/
inductive Waits (pid : UInt32) (path : Str) (deadline : ℕ) : List (ℕ × SysCall) → Bool → Prop
  | gone {l : List (ℕ × SysCall)} {t : ℕ} {ok : Bool} (h : Looks pid l false) :
      Waits pid path deadline (l ++ [(t, .removeFile path ok)]) true
  | late {l : List (ℕ × SysCall)} {t : ℕ} (h : Looks pid l true) (ht : deadline ≤ t) :
      Waits pid path deadline (l ++ [(t, .now)]) false
  | again {l l' : List (ℕ × SysCall)} {t t' : ℕ} {b : Bool} (h : Looks pid l true)
      (ht : t < deadline) (hw : Waits pid path deadline l' b) :
      Waits pid path deadline (l ++ (t, .now) :: (t', .sleep POLL_INTERVAL) :: l') b

section Does

variable (pid : UInt32) (path : Str) (w : World)

theorem does_read : Does World.Step (read path) w fun l a t => ∃ content,
    l = [(t.now, .readToString path content)] ∧ a = content.bind parse :=
  (makes_readToString path w).bind fun _ content _ _ h => .pure ⟨content, by rw [h]; rfl, rfl⟩

theorem does_remove : Does World.Step (remove path) w fun l _ t => ∃ ok,
    l = [(t.now, .removeFile path ok)] :=
  (makes_removeFile path w).bind fun _ ok _ _ h => .pure ⟨ok, by rw [h]; rfl⟩

theorem does_isAlive : Does World.Step (isAlive pid) w fun l b _ => Looks pid l b := by
  unfold isAlive
  cases h : toPid pid with
  | none => exact .pure (.noPid h)
  | some p =>
    refine (makes_testKillProcess p w).bind fun l result t _ hl => .pure ?_
    rw [hl]
    exact .call h

theorem does_terminate : Does World.Step (terminate pid) w fun l b _ => Terminates pid l b := by
  unfold terminate
  cases h : toPid pid with
  | none => exact .pure (.noPid h)
  | some p =>
    refine (makes_killProcess p w).bind fun l result t _ hl => .pure ?_
    rw [hl]
    exact .call h

theorem does_waitLoop (deadline : ℕ) :
    Does World.Step (waitLoop pid path deadline) w fun l b _ => Waits pid path deadline l b := by
  show ∃ l, Run World.Step w l (waitLoop pid path deadline w).2 ∧
    Waits pid path deadline l (waitLoop pid path deadline w).1
  fun_induction waitLoop pid path deadline w with
  | case1 w alive halive clock hlate =>
    obtain ⟨l, hrun, hl⟩ := does_isAlive pid w
    obtain ⟨l', hrun', rfl⟩ := makes_now alive.2
    have hlooks : Looks pid l true := halive ▸ hl
    exact ⟨_, Run.append_iff.2 ⟨_, hrun, hrun'⟩, .late hlooks hlate⟩
  | case2 w alive halive clock hlate ih =>
    obtain ⟨l, hrun, hl⟩ := does_isAlive pid w
    obtain ⟨l', hrun', rfl⟩ := makes_now alive.2
    obtain ⟨l'', hrun'', rfl⟩ := makes_sleep POLL_INTERVAL clock.2
    obtain ⟨rest, hrest, hwaits⟩ := ih
    have hlooks : Looks pid l true := halive ▸ hl
    refine ⟨_, Run.append_iff.2 ⟨_, hrun, Run.append_iff.2 ⟨_, hrun',
      Run.append_iff.2 ⟨_, hrun'', hrest⟩⟩⟩, ?_⟩
    exact .again hlooks (Nat.lt_of_not_le hlate) hwaits
  | case3 w alive halive =>
    obtain ⟨l, hrun, hl⟩ := does_isAlive pid w
    obtain ⟨l', hrun', ok, rfl⟩ := does_remove path alive.2
    have hlooks : Looks pid l false := Bool.eq_false_of_not_eq_true halive ▸ hl
    exact ⟨_, Run.append_iff.2 ⟨_, hrun, hrun'⟩, .gone hlooks⟩

theorem does_waitUntilGone (timeout : ℕ) :
    Does World.Step (waitUntilGone pid path timeout) w fun l b _ => ∃ t l',
      l = (t, .now) :: l' ∧ Waits pid path (t + timeout) l' b :=
  Does.bind (R := fun l t u => l = [(t, .now)]) ⟨_, Run.single_iff.2 (.call trivial), rfl⟩
    fun l t u _ hl => (does_waitLoop pid path u (t + timeout)).mono fun l' b _ _ hw =>
      ⟨t, l', by rw [hl]; rfl, hw⟩

end Does

/-! ## Waiting -/

/-- The pid was read from the file. -/
def Recorded (path : Str) (pid : UInt32) (l : List (ℕ × SysCall)) : Prop :=
  ∃ t content, (t, .readToString path (some content)) ∈ l ∧ parse content = some pid

/-- The last look at the process found it. -/
def SeenAlive (pid : UInt32) (l : List (ℕ × SysCall)) : Prop :=
  ∃ p l' l'' t r, toPid pid = some p ∧ l = l' ++ (t, .testKillProcess p r) :: l'' ∧ r ≠ .error ∧
    ∀ c ∈ l'', ∀ q r', c.2 ≠ .testKillProcess q r'

/-- The last look at the process did not find it, or there can be none. -/
def SeenGone (pid : UInt32) (l : List (ℕ × SysCall)) : Prop :=
  toPid pid = none ∨ ∃ p l' t, toPid pid = some p ∧ l = l' ++ [(t, .testKillProcess p .error)]

section Waits

variable {pid : UInt32} {path : Str} {deadline : ℕ} {l : List (ℕ × SysCall)} {b : Bool}

theorem toPid_bounds {p : ℕ} (h : toPid pid = some p) : 0 < p ∧ p < 2 ^ 31 := by
  unfold toPid at h
  split at h
  · next hp =>
    obtain rfl := Option.some.inj h
    exact hp
  · cases h

theorem Looks.calls (h : Looks pid l b) :
    ∀ c ∈ l, ∃ p r, toPid pid = some p ∧ c.2 = .testKillProcess p r := by
  cases h with
  | noPid h => exact List.forall_mem_nil _
  | call h => exact List.forall_mem_singleton.2 ⟨_, _, h, rfl⟩

theorem Looks.seenGone (h : Looks pid l false) : SeenGone pid l := by
  generalize hb : false = b at h
  cases h with
  | noPid h => exact .inl h
  | @call p t r h =>
    cases r with
    | ok => cases hb
    | perm => cases hb
    | error => exact .inr ⟨p, [], t, h, rfl⟩

theorem SeenGone.append (h : SeenGone pid l) (pre : List (ℕ × SysCall)) :
    SeenGone pid (pre ++ l) := by
  rcases h with h | ⟨p, l', t, h, rfl⟩
  · exact .inl h
  · exact .inr ⟨p, pre ++ l', t, h, (List.append_assoc _ _ _).symm⟩

theorem Recorded.mono (h : Recorded path pid l) {l' : List (ℕ × SysCall)} (hl : l <+: l') :
    Recorded path pid l' := by
  obtain ⟨t, content, hmem, hparse⟩ := h
  exact ⟨t, content, hl.subset hmem, hparse⟩

theorem Looks.seenAlive (h : Looks pid l true) : SeenAlive pid l := by
  generalize hb : true = b at h
  cases h with
  | noPid h => cases hb
  | @call p t r h =>
    refine ⟨p, [], [], t, r, h, rfl, fun hr => ?_, List.forall_mem_nil _⟩
    rw [hr] at hb
    cases hb

theorem SeenAlive.append (h : SeenAlive pid l) (pre : List (ℕ × SysCall)) :
    SeenAlive pid (pre ++ l) := by
  obtain ⟨p, l', l'', t, r, h, rfl, hr, hl''⟩ := h
  exact ⟨p, pre ++ l', l'', t, r, h, (List.append_assoc _ _ _).symm, hr, hl''⟩

theorem Looks.length_le (h : Looks pid l b) : l.length ≤ 1 := by
  cases h with
  | noPid h => exact Nat.zero_le 1
  | call h => exact Nat.le_refl 1

theorem Looks.pause (h : Looks pid l b) : (l.map fun c => c.2.pause).sum = 0 := by
  cases h with
  | noPid h => rfl
  | call h => rfl

/-- Which calls a wait makes. -/
theorem Waits.calls (h : Waits pid path deadline l b) : ∀ c ∈ l, c.2 = .now ∨
    c.2 = .sleep POLL_INTERVAL ∨ (∃ p r, toPid pid = some p ∧ c.2 = .testKillProcess p r) ∨
    b = true ∧ ∃ ok, c.2 = .removeFile path ok := by
  have hlooks : ∀ {l b}, Looks pid l b → ∀ c ∈ l, ∃ p r, toPid pid = some p ∧
    c.2 = .testKillProcess p r := Looks.calls
  induction h with
  | gone h =>
    intro c hc
    rcases List.mem_append.1 hc with hc | hc
    · exact .inr (.inr (.inl (hlooks h c hc)))
    · obtain rfl := List.mem_singleton.1 hc
      exact .inr (.inr (.inr ⟨rfl, _, rfl⟩))
  | late h ht =>
    intro c hc
    rcases List.mem_append.1 hc with hc | hc
    · exact .inr (.inr (.inl (hlooks h c hc)))
    · obtain rfl := List.mem_singleton.1 hc
      exact .inl rfl
  | again h ht hw ih =>
    intro c hc
    rcases List.mem_append.1 hc with hc | hc
    · exact .inr (.inr (.inl (hlooks h c hc)))
    rcases List.mem_cons.1 hc with rfl | hc
    · exact .inl rfl
    rcases List.mem_cons.1 hc with rfl | hc
    · exact .inr (.inl rfl)
    · exact ih c hc

/-- A wait that succeeds tries to remove the file, right after a look that did not find the process.
-/
theorem Waits.gone_cases (h : Waits pid path deadline l true) : ∃ l' t ok,
    l = l' ++ [(t, .removeFile path ok)] ∧ SeenGone pid l' ∧
      ∀ c ∈ l', ∀ ok', c.2 ≠ .removeFile path ok' := by
  generalize hb : true = b at h
  induction h with
  | @gone l t ok h =>
    refine ⟨l, t, ok, rfl, h.seenGone, fun c hc ok' => ?_⟩
    obtain ⟨p, r, -, heq⟩ := h.calls c hc
    rw [heq]
    exact fun h => by cases h
  | late h ht => cases hb
  | @again l l' t t' b h ht hw ih =>
    obtain ⟨l'', u, ok, rfl, hgone, hno⟩ := ih hb
    refine ⟨l ++ (t, .now) :: (t', .sleep POLL_INTERVAL) :: l'', u, ok, by simp, ?_, ?_⟩
    · have := hgone.append (l ++ [(t, .now), (t', .sleep POLL_INTERVAL)])
      rwa [List.append_assoc] at this
    · intro c hc ok'
      rcases List.mem_append.1 hc with hc | hc
      · obtain ⟨p, r, -, heq⟩ := h.calls c hc
        rw [heq]
        exact fun h => by cases h
      rcases List.mem_cons.1 hc with rfl | hc
      · exact fun h => by cases h
      rcases List.mem_cons.1 hc with rfl | hc
      · exact fun h => by cases h
      · exact hno c hc ok'

/-- A wait that fails lasts until its deadline. -/
theorem Waits.late_cases (h : Waits pid path deadline l false) :
    ∃ l' t, l = l' ++ [(t, .now)] ∧ deadline ≤ t := by
  generalize hb : false = b at h
  induction h with
  | gone h => cases hb
  | @late l t h ht => exact ⟨l, t, rfl, ht⟩
  | @again l l' t t' b h ht hw ih =>
    obtain ⟨l'', u, rfl, hu⟩ := ih hb
    exact ⟨l ++ (t, .now) :: (t', .sleep POLL_INTERVAL) :: l'', u, by simp, hu⟩

theorem Waits.seenAlive (h : Waits pid path deadline l false) : SeenAlive pid l := by
  generalize hb : false = b at h
  induction h with
  | gone h => cases hb
  | @late l t h ht =>
    obtain ⟨p, l', l'', u, r, hp, rfl, hr, hl''⟩ := h.seenAlive
    refine ⟨p, l', l'' ++ [(t, .now)], u, r, hp, by simp, hr, fun c hc => ?_⟩
    rcases List.mem_append.1 hc with hc | hc
    · exact hl'' c hc
    · obtain rfl := List.mem_singleton.1 hc
      exact fun q r' h => by cases h
  | @again l l' t t' b h ht hw ih =>
    have := (ih hb).append (l ++ [(t, .now), (t', .sleep POLL_INTERVAL)])
    rwa [List.append_assoc] at this

/-- A wait may make its calls after `pre` if it may look and sleep, and remove the file once it has
seen the process gone. -/
theorem Waits.guarded {ok : List (ℕ × SysCall) → ℕ × SysCall → Prop} {pre : List (ℕ × SysCall)}
    (hfree : ∀ pre' c, pre <+: pre' → (c.2 = .now ∨ c.2 = .sleep POLL_INTERVAL ∨
      ∃ p r, toPid pid = some p ∧ c.2 = .testKillProcess p r) → ok pre' c)
    (hremove : ∀ pre' t r, pre <+: pre' → SeenGone pid pre' → ok pre' (t, .removeFile path r))
    (h : Waits pid path deadline l b) : Guarded ok pre l := by
  have hlooks : ∀ {pre' l b}, pre <+: pre' → Looks pid l b → Guarded ok pre' l :=
    fun hpre h => .of_forall fun c hc pre'' hpre' =>
      hfree pre'' c (hpre.trans hpre') (.inr (.inr (h.calls c hc)))
  have hmain : ∀ pre', pre <+: pre' → Guarded ok pre' l := by
    induction h with
    | @gone l t r h =>
      intro pre' hpre
      refine Guarded.append_iff.2 ⟨hlooks hpre h, Guarded.single_iff.2 ?_⟩
      exact hremove _ t r (hpre.trans (List.prefix_append _ _)) (h.seenGone.append pre')
    | @late l t h ht =>
      intro pre' hpre
      refine Guarded.append_iff.2 ⟨hlooks hpre h, Guarded.single_iff.2 ?_⟩
      exact hfree _ _ (hpre.trans (List.prefix_append _ _)) (.inl rfl)
    | @again l l' t t' b h ht hw ih =>
      intro pre' hpre
      have hpre₁ := hpre.trans (List.prefix_append pre' l)
      have hpre₂ := hpre₁.trans (List.prefix_append _ [(t, SysCall.now)])
      refine Guarded.append_iff.2 ⟨hlooks hpre h, hfree _ _ hpre₁ (.inl rfl),
        hfree _ _ hpre₂ (.inr (.inl rfl)), ?_⟩
      exact ih _ (hpre₂.trans (List.prefix_append _ _))
  exact hmain pre (List.prefix_refl pre)

/-- How often a wait that starts at `start` looks again: `n` times, as long as there is time left.
-/
theorem Waits.rounds (h : Waits pid path deadline l b) (htimed : World.Timed l) {start : ℕ}
    (hstart : ∀ c ∈ l, start ≤ c.1) : ∃ n, l.length ≤ 3 * n + 2 ∧
      (l.map fun c => c.2.pause).sum = n * POLL_INTERVAL ∧
      (n = 0 ∨ start + (n - 1) * POLL_INTERVAL < deadline) := by
  induction h generalizing start with
  | gone h =>
    refine ⟨0, ?_, ?_, .inl rfl⟩
    · have := h.length_le
      rw [List.length_append, List.length_singleton]
      omega
    · rw [List.map_append, List.sum_append, h.pause, Nat.zero_mul]
      rfl
  | late h ht =>
    refine ⟨0, ?_, ?_, .inl rfl⟩
    · have := h.length_le
      rw [List.length_append, List.length_singleton]
      omega
    · rw [List.map_append, List.sum_append, h.pause, Nat.zero_mul]
      rfl
  | @again l l' t t' b h ht hw ih =>
    obtain ⟨-, hrest, -⟩ := List.pairwise_append.1 htimed
    rw [List.pairwise_cons, List.pairwise_cons, List.forall_mem_cons] at hrest
    obtain ⟨⟨hsleep, -⟩, hafter, hl'⟩ := hrest
    have hnow : start ≤ t := hstart _ (List.mem_append_right _ List.mem_cons_self)
    have hwoken : t + POLL_INTERVAL ≤ t' := hsleep
    have hlater : ∀ c ∈ l', start + POLL_INTERVAL ≤ c.1 := by
      intro c hc
      have hle : t' + c.2.pause ≤ c.1 := hafter c hc
      omega
    obtain ⟨n, hlen, hpause, hn⟩ := ih hl' hlater
    refine ⟨n + 1, ?_, ?_, .inr ?_⟩
    · have := h.length_le
      rw [List.length_append, List.length_cons, List.length_cons]
      omega
    · rw [List.map_append, List.sum_append, h.pause, List.map_cons, List.map_cons, List.sum_cons,
        List.sum_cons, hpause, Nat.succ_mul]
      show 0 + (0 + (POLL_INTERVAL + n * POLL_INTERVAL)) = _
      omega
    · rw [Nat.add_sub_cancel]
      rcases hn with rfl | hn
      · omega
      · cases n with
        | zero => omega
        | succ n =>
          rw [Nat.add_sub_cancel] at hn
          rw [Nat.succ_mul]
          omega

end Waits

end Pid

end MergeReady.Daemon
