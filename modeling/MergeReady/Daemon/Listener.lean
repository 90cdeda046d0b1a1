import MergeReady.Daemon.Endpoint
import MergeReady.Daemon.Stop

/-!
# Taking over the endpoint

A daemon that starts takes the lock, looks for the process of the pid file, removes what a dead one
has left, binds the socket and writes its own pid.  Only those that start wait for the lock: a
daemon that stops, and a command that stops it, remove files without it.
-/

namespace MergeReady.Daemon

open MergeReady.Lib
open MergeReady.Shared

/-- Why a daemon does not start. -/
inductive DaemonError
  | alreadyRunning
  | failure
deriving DecidableEq

namespace SocketListener

open Pid

/-- 100 ms -/
def BIND_RETRY_INTERVAL : ℕ := 100000000

def BIND_RETRY_MAX : ℕ := 10

/-- `bind_with_retry`, by the number of retries that are left. -/
def bindWithRetry (socket : Str) (retryInterval : ℕ) : ℕ → StateM World (Except DaemonError Unit)
  | 0 => do
    match ← Sys.bind socket with
    | .ok => return .ok ()
    | .addrInUse => return .error .alreadyRunning
    | .error => return .error .failure
  | retries + 1 => do
    match ← Sys.bind socket with
    | .ok => return .ok ()
    | .addrInUse =>
      Sys.sleep retryInterval
      bindWithRetry socket retryInterval retries
    | .error => return .error .failure

/-- The end of `bind_with`: from binding the socket on. -/
def register (ownPid : UInt32) (retryMax retryInterval : ℕ) :
    StateM World (Except DaemonError Unit) := do
  match ← bindWithRetry socketPath retryInterval retryMax with
  | .error e => return .error e
  | .ok () =>
    if ← Sys.setPermissions socketPath then
      Pid.write ownPid pidPath
      return .ok ()
    else
      let _ ← Sys.removeFile socketPath
      return .error .failure

/-- `bind_with` under the lock. -/
def bindLocked (ownPid : UInt32) (retryMax retryInterval : ℕ) :
    StateM World (Except DaemonError Unit) := do
  match ← Pid.read pidPath with
  | none =>
    let _ ← Sys.removeFile socketPath
    register ownPid retryMax retryInterval
  | some p =>
    if ← Pid.isAlive p then return .error .alreadyRunning
    else
      Pid.remove pidPath
      let _ ← Sys.removeFile socketPath
      register ownPid retryMax retryInterval

def bindWith (ownPid : UInt32) (retryMax retryInterval : ℕ) :
    StateM World (Except DaemonError Unit) := do
  if ← Sys.open lockPath then
    if ← Sys.lock lockPath then bindLocked ownPid retryMax retryInterval
    else return .error .failure
  else return .error .failure

def bind (ownPid : UInt32) : StateM World (Except DaemonError Unit) :=
  bindWith ownPid BIND_RETRY_MAX BIND_RETRY_INTERVAL

/-! ## What it does -/

/-- The calls of `bind_with_retry`. -/
inductive Retries (socket : Str) (retryInterval : ℕ) :
    ℕ → List (ℕ × SysCall) → Except DaemonError Unit → Prop
  | bound {n t : ℕ} : Retries socket retryInterval n [(t, .bind socket .ok)] (.ok ())
  | exhausted {t : ℕ} :
      Retries socket retryInterval 0 [(t, .bind socket .addrInUse)] (.error .alreadyRunning)
  | again {n t t' : ℕ} {l : List (ℕ × SysCall)} {r : Except DaemonError Unit}
      (h : Retries socket retryInterval n l r) : Retries socket retryInterval (n + 1)
        ((t, .bind socket .addrInUse) :: (t', .sleep retryInterval) :: l) r
  | failed {n t : ℕ} :
      Retries socket retryInterval n [(t, .bind socket .error)] (.error .failure)

inductive Registers (ownPid : UInt32) (retryMax retryInterval : ℕ) :
    List (ℕ × SysCall) → Except DaemonError Unit → Prop
  | unbound {l : List (ℕ × SysCall)} {e : DaemonError}
      (h : Retries socketPath retryInterval retryMax l (.error e)) :
      Registers ownPid retryMax retryInterval l (.error e)
  | unrestricted {l : List (ℕ × SysCall)} {t t' : ℕ} {ok : Bool}
      (h : Retries socketPath retryInterval retryMax l (.ok ())) :
      Registers ownPid retryMax retryInterval
        (l ++ [(t, .setPermissions socketPath false), (t', .removeFile socketPath ok)])
        (.error .failure)
  | registered {l : List (ℕ × SysCall)} {t t' : ℕ} {ok : Bool}
      (h : Retries socketPath retryInterval retryMax l (.ok ())) :
      Registers ownPid retryMax retryInterval
        (l ++ [(t, .setPermissions socketPath true), (t', .write pidPath (text ownPid) ok)])
        (.ok ())

/-- The calls under the lock. -/
inductive Takes (ownPid : UInt32) (retryMax retryInterval : ℕ) :
    List (ℕ × SysCall) → Except DaemonError Unit → Prop
  | running {l : List (ℕ × SysCall)} {p : UInt32} (h : FindsPid pidPath l (some p)) :
      Takes ownPid retryMax retryInterval l (.error .alreadyRunning)
  | absent {l l' : List (ℕ × SysCall)} {t : ℕ} {ok : Bool} {r : Except DaemonError Unit}
      (h : FindsPid pidPath l none) (hr : Registers ownPid retryMax retryInterval l' r) :
      Takes ownPid retryMax retryInterval (l ++ (t, .removeFile socketPath ok) :: l') r
  | stale {l l' : List (ℕ × SysCall)} {t t' : ℕ} {ok ok' : Bool} {r : Except DaemonError Unit}
      (h : FindsPid pidPath l none) (hr : Registers ownPid retryMax retryInterval l' r) :
      Takes ownPid retryMax retryInterval
        (l ++ (t, .removeFile pidPath ok) :: (t', .removeFile socketPath ok') :: l') r

/-- The calls of `bind_with`. -/
inductive Binds (ownPid : UInt32) (retryMax retryInterval : ℕ) :
    List (ℕ × SysCall) → Except DaemonError Unit → Prop
  | unopened {t : ℕ} :
      Binds ownPid retryMax retryInterval [(t, .open lockPath false)] (.error .failure)
  | unlocked {t t' : ℕ} : Binds ownPid retryMax retryInterval
      [(t, .open lockPath true), (t', .lock lockPath false)] (.error .failure)
  | locked {t t' : ℕ} {l : List (ℕ × SysCall)} {r : Except DaemonError Unit}
      (h : Takes ownPid retryMax retryInterval l r) : Binds ownPid retryMax retryInterval
        ((t, .open lockPath true) :: (t', .lock lockPath true) :: l) r

section Does

variable (ownPid : UInt32) (retryMax retryInterval : ℕ) (w : World)

theorem does_bindWithRetry (socket : Str) :
    Does World.Step (bindWithRetry socket retryInterval retryMax) w
      fun l r _ => Retries socket retryInterval retryMax l r := by
  induction retryMax generalizing w with
  | zero =>
    unfold bindWithRetry
    refine (makes_bind socket w).bind fun l result v _ h => ?_
    cases result with
    | ok => exact .pure (by rw [h]; exact .bound)
    | addrInUse => exact .pure (by rw [h]; exact .exhausted)
    | error => exact .pure (by rw [h]; exact .failed)
  | succ n ih =>
    unfold bindWithRetry
    refine (makes_bind socket w).bind fun l result v _ h => ?_
    cases result with
    | ok => exact .pure (by rw [h]; exact .bound)
    | addrInUse =>
      refine (makes_sleep retryInterval v).bind fun l' _ u _ h' =>
        (ih u).mono fun l'' r _ _ hr => ?_
      rw [h, h']
      exact .again hr
    | error => exact .pure (by rw [h]; exact .failed)

theorem does_register : Does World.Step (register ownPid retryMax retryInterval) w
    fun l r _ => Registers ownPid retryMax retryInterval l r := by
  refine (does_bindWithRetry retryMax retryInterval w socketPath).bind fun l r v _ h => ?_
  cases r with
  | error e =>
    refine .pure ?_
    rw [List.append_nil]
    exact .unbound h
  | ok _ =>
    refine (makes_setPermissions socketPath v).bind fun l' ok u _ hp => ?_
    cases ok with
    | true =>
      refine Does.bind (R := fun l'' _ x => ∃ ok, l'' = [(x.now, .write pidPath (text ownPid) ok)])
        ((makes_write pidPath (text ownPid) u).bind fun _ ok x _ hw => .pure ⟨ok, by rw [hw]; rfl⟩)
        fun l'' _ x _ hw => .pure ?_
      obtain ⟨ok, rfl⟩ := hw
      rw [hp]
      exact .registered h
    | false =>
      refine (makes_removeFile socketPath u).bind fun l'' _ x _ hr => .pure ?_
      rw [hp, hr]
      exact .unrestricted h

theorem does_bindLocked : Does World.Step (bindLocked ownPid retryMax retryInterval) w
    fun l r _ => Takes ownPid retryMax retryInterval l r := by
  refine (does_read pidPath w).bind fun l o v _ h => ?_
  obtain ⟨content, rfl, rfl⟩ := h
  cases hp : content.bind parse with
  | none =>
    refine (makes_removeFile socketPath v).bind fun l' _ u _ h' =>
      (does_register ownPid retryMax retryInterval u).mono fun l'' r _ _ hr => ?_
    rw [h']
    exact .absent (.absent hp) hr
  | some p =>
    refine (does_isAlive p v).bind fun l₁ alive u _ hl => ?_
    cases alive with
    | true =>
      refine .pure ?_
      rw [List.append_nil]
      exact .running (.alive hp hl)
    | false =>
      refine (does_remove pidPath u).bind fun l₂ _ x _ h₂ =>
        (makes_removeFile socketPath x).bind fun l₃ _ y _ h₃ =>
          (does_register ownPid retryMax retryInterval y).mono fun l₄ r _ _ hr => ?_
      obtain ⟨ok, rfl⟩ := h₂
      rw [h₃]
      exact .stale (.dead hp hl) hr

theorem does_bindWith : Does World.Step (bindWith ownPid retryMax retryInterval) w
    fun l r _ => Binds ownPid retryMax retryInterval l r := by
  refine (makes_open lockPath w).bind fun l opened v _ h => ?_
  cases opened with
  | false => exact .pure (by rw [h]; exact .unopened)
  | true =>
    refine (makes_lock lockPath v).bind fun l' locked u _ h' => ?_
    cases locked with
    | false => exact .pure (by rw [h, h']; exact .unlocked)
    | true =>
      refine (does_bindLocked ownPid retryMax retryInterval u).mono fun l'' r _ _ hr => ?_
      rw [h, h']
      exact .locked hr

end Does

/-! ## What it never does -/

section Guarded

variable {ownPid : UInt32} {retryMax retryInterval : ℕ} {pre l : List (ℕ × SysCall)}
  {r : Except DaemonError Unit}

/-- The lock is held, the pid file was read, and no process of it was found. -/
def Unclaimed (l : List (ℕ × SysCall)) : Prop :=
  (∃ t, (t, .lock lockPath true) ∈ l) ∧ (∃ t content, (t, .readToString pidPath content) ∈ l) ∧
    ¬ FoundAlive l

/-- The socket was bound. -/
def Bound (l : List (ℕ × SysCall)) : Prop := ∃ t, (t, .bind socketPath .ok) ∈ l

/-- What `bind_with` may do after the calls `before`. -/
def BindMay (ownPid : UInt32) (before : List (ℕ × SysCall)) : ℕ × SysCall → Prop
  | (_, .open name _) => name = lockPath
  | (_, .lock name _) => name = lockPath
  | (_, .readToString name _) => name = pidPath ∧ ∃ t, (t, .lock lockPath true) ∈ before
  | (_, .testKillProcess _ _) => ∃ t content, (t, .readToString pidPath content) ∈ before
  | (_, .removeFile name _) => (name = pidPath ∨ name = socketPath) ∧ Unclaimed before
  | (_, .bind socket _) => socket = socketPath ∧ Unclaimed before
  | (_, .setPermissions name _) => name = socketPath ∧ Bound before
  | (_, .write name content _) => name = pidPath ∧ content = text ownPid ∧ Bound before
  | (_, .now) => True
  | (_, .sleep _) => True
  | _ => False

theorem Unclaimed.append (h : Unclaimed pre) (hl : ∀ c ∈ l, ∀ p r, c.2 ≠ .testKillProcess p r) :
    Unclaimed (pre ++ l) := by
  obtain ⟨⟨t, ht⟩, ⟨u, content, hu⟩, hno⟩ := h
  refine ⟨⟨t, List.mem_append_left _ ht⟩, ⟨u, content, List.mem_append_left _ hu⟩, ?_⟩
  rintro ⟨v, p, r, hmem, hr⟩
  rcases List.mem_append.1 hmem with hmem | hmem
  · exact hno ⟨v, p, r, hmem, hr⟩
  · exact hl _ hmem p r rfl

theorem Retries.calls {socket : Str} {n : ℕ} (h : Retries socket retryInterval n l r) :
    ∀ c ∈ l, (∃ result, c.2 = .bind socket result) ∨ c.2 = .sleep retryInterval := by
  induction h with
  | bound => exact List.forall_mem_singleton.2 (.inl ⟨_, rfl⟩)
  | exhausted => exact List.forall_mem_singleton.2 (.inl ⟨_, rfl⟩)
  | again h ih =>
    exact List.forall_mem_cons.2 ⟨.inl ⟨_, rfl⟩, List.forall_mem_cons.2 ⟨.inr rfl, ih⟩⟩
  | failed => exact List.forall_mem_singleton.2 (.inl ⟨_, rfl⟩)

theorem Retries.no_look {socket : Str} {n : ℕ} (h : Retries socket retryInterval n l r) :
    ∀ c ∈ l, ∀ p r, c.2 ≠ .testKillProcess p r := by
  intro c hc p r heq
  rcases h.calls c hc with ⟨_, h⟩ | h
  all_goals
    rw [h] at heq
    cases heq

theorem Retries.guarded {n : ℕ} (h : Retries socketPath retryInterval n l r)
    (hpre : Unclaimed pre) : Guarded (BindMay ownPid) pre l := by
  induction h generalizing pre with
  | bound => exact Guarded.single_iff.2 ⟨rfl, hpre⟩
  | exhausted => exact Guarded.single_iff.2 ⟨rfl, hpre⟩
  | again h ih =>
    refine ⟨⟨rfl, hpre⟩, trivial, ih ?_⟩
    rw [List.append_assoc]
    refine hpre.append (List.forall_mem_cons.2 ⟨?_, List.forall_mem_singleton.2 ?_⟩)
    · exact fun p r h => by cases h
    · exact fun p r h => by cases h
  | failed => exact Guarded.single_iff.2 ⟨rfl, hpre⟩

theorem Retries.bound_of_ok {n : ℕ} (h : Retries socketPath retryInterval n l r) (hr : r = .ok ()) :
    Bound l := by
  induction h with
  | @bound n t => exact ⟨t, List.mem_cons_self⟩
  | exhausted => cases hr
  | again h ih =>
    obtain ⟨t, ht⟩ := ih hr
    exact ⟨t, List.mem_cons_of_mem _ (List.mem_cons_of_mem _ ht)⟩
  | failed => cases hr

theorem Bound.mono (h : Bound l) {l' : List (ℕ × SysCall)} (hsub : l ⊆ l') : Bound l' := by
  obtain ⟨t, ht⟩ := h
  exact ⟨t, hsub ht⟩

theorem Registers.guarded (h : Registers ownPid retryMax retryInterval l r) (hpre : Unclaimed pre) :
    Guarded (BindMay ownPid) pre l := by
  cases h with
  | unbound h => exact h.guarded hpre
  | @unrestricted l t t' ok h =>
    have hbound := h.bound_of_ok rfl
    refine Guarded.append_iff.2 ⟨h.guarded hpre,
      ⟨rfl, hbound.mono (List.subset_append_right pre l)⟩, Guarded.single_iff.2 ⟨.inr rfl, ?_⟩⟩
    refine (hpre.append h.no_look).append (List.forall_mem_singleton.2 ?_)
    exact fun p r h => by cases h
  | @registered l t t' ok h =>
    have hbound := (h.bound_of_ok rfl).mono (List.subset_append_right pre l)
    exact Guarded.append_iff.2 ⟨h.guarded hpre, ⟨rfl, hbound⟩,
      Guarded.single_iff.2 ⟨rfl, rfl, hbound.mono (List.subset_append_left _ _)⟩⟩

theorem guarded_finds {o : Option UInt32} (h : FindsPid pidPath l o)
    (hpre : ∃ t, (t, .lock lockPath true) ∈ pre) : Guarded (BindMay ownPid) pre l := by
  have hlooks : ∀ {p l b pre}, Looks p l b →
      (∃ t content, (t, .readToString pidPath content) ∈ pre) → Guarded (BindMay ownPid) pre l := by
    intro p l b pre h hread
    refine .of_forall fun ⟨t, c⟩ hc pre' hpre' => ?_
    obtain ⟨q, r, -, hcall⟩ := h.calls _ hc
    obtain rfl : c = _ := hcall
    obtain ⟨u, content, hmem⟩ := hread
    exact ⟨u, content, hpre'.subset hmem⟩
  cases h with
  | absent h => exact Guarded.single_iff.2 ⟨rfl, hpre⟩
  | @dead t content p l h hl => exact ⟨⟨rfl, hpre⟩, hlooks hl ⟨t, content, by simp⟩⟩
  | @alive t content p l h hl => exact ⟨⟨rfl, hpre⟩, hlooks hl ⟨t, content, by simp⟩⟩

theorem unclaimed_of_finds (h : FindsPid pidPath l none) (t t' : ℕ) : Unclaimed
    ([(t, .open lockPath true), (t', .lock lockPath true)] ++ l) := by
  refine ⟨⟨t', by simp⟩, ?_, ?_⟩
  · cases h with
    | @absent u content h => exact ⟨u, content, by simp⟩
    | @dead u content p l h hl => exact ⟨u, content, by simp⟩
  · rintro ⟨u, p, r, hmem, hr⟩
    rcases List.mem_cons.1 hmem with heq | hmem
    · cases heq
    rcases List.mem_cons.1 hmem with heq | hmem
    · cases heq
    · exact h.foundAlive.1 ⟨u, p, r, hmem, hr⟩ rfl

theorem Binds.guarded (h : Binds ownPid retryMax retryInterval l r) :
    Guarded (BindMay ownPid) [] l := by
  have hno : ∀ name : Str, ∀ t ok, ∀ c ∈ [((t : ℕ), SysCall.removeFile name ok)],
      ∀ p r, c.2 ≠ .testKillProcess p r := fun name t ok =>
    List.forall_mem_singleton.2 fun p r h => by cases h
  cases h with
  | unopened => exact Guarded.single_iff.2 rfl
  | unlocked => exact ⟨rfl, rfl, trivial⟩
  | @locked t t' l r h =>
    refine ⟨rfl, rfl, ?_⟩
    have hlocked : ∃ u, (u, SysCall.lock lockPath true) ∈
        [(t, SysCall.open lockPath true), (t', .lock lockPath true)] := ⟨t', by simp⟩
    cases h with
    | running h => exact guarded_finds h hlocked
    | absent h hr =>
      have hclear := unclaimed_of_finds h t t'
      exact Guarded.append_iff.2 ⟨guarded_finds h hlocked, ⟨.inr rfl, hclear⟩,
        hr.guarded (hclear.append (hno _ _ _))⟩
    | stale h hr =>
      have hclear := unclaimed_of_finds h t t'
      exact Guarded.append_iff.2 ⟨guarded_finds h hlocked, ⟨.inl rfl, hclear⟩,
        ⟨.inr rfl, hclear.append (hno _ _ _)⟩,
        hr.guarded ((hclear.append (hno _ _ _)).append (hno _ _ _))⟩

/-- What is bound is bound under the lock. -/
theorem Binds.locked_of_bound (h : Binds ownPid retryMax retryInterval l r) (hbound : Bound l) :
    ∃ before t after, l = before ++ (t, .bind socketPath .ok) :: after ∧
      ∃ u, (u, .lock lockPath true) ∈ before := by
  obtain ⟨t, hmem⟩ := hbound
  obtain ⟨before, after, rfl⟩ := List.append_of_mem hmem
  obtain ⟨-, hlock, -⟩ := Guarded.iff_split.1 h.guarded before _ after rfl
  exact ⟨before, t, after, rfl, hlock⟩

/-- **Whom a start may hit.**  Whatever the rest of the system does meanwhile, a daemon that starts
removes and binds only under the lock, after it has read the pid file and as long as it has not
found the process of it; it writes nothing but its own pid to the pid file, once it has bound the
socket; and it sends no signal and no request. -/
theorem bind_guarded (ownPid : UInt32) (retryMax retryInterval : ℕ) (w : World) :
    Guarded (BindMay ownPid) [] (traceOf (bindWith ownPid retryMax retryInterval) w) := by
  obtain ⟨-, h⟩ := traceOf_spec (does_bindWith ownPid retryMax retryInterval w)
  exact h.guarded

end Guarded

/-! ## What it says -/

section Result

variable {ownPid : UInt32} {retryMax retryInterval : ℕ} {l : List (ℕ × SysCall)}
  {r : Except DaemonError Unit}

theorem Retries.bounds {socket : Str} {n : ℕ} (h : Retries socket retryInterval n l r) :
    l.length ≤ 2 * n + 1 ∧ pauses l ≤ n * retryInterval := by
  induction h with
  | bound => exact ⟨Nat.succ_le_succ (Nat.zero_le _), Nat.zero_le _⟩
  | exhausted => exact ⟨Nat.le_refl 1, Nat.zero_le _⟩
  | @again n t t' l r h ih =>
    obtain ⟨hlen, hpause⟩ := ih
    have hcons : pauses ((t, .bind socket .addrInUse) :: (t', .sleep retryInterval) :: l) =
        0 + (retryInterval + pauses l) := rfl
    have hmul : (n + 1) * retryInterval = n * retryInterval + retryInterval := Nat.succ_mul _ _
    rw [hcons, hmul, List.length_cons, List.length_cons]
    omega
  | failed => exact ⟨Nat.succ_le_succ (Nat.zero_le _), Nat.zero_le _⟩

theorem Registers.bounds (h : Registers ownPid retryMax retryInterval l r) :
    l.length ≤ 2 * retryMax + 3 ∧ pauses l ≤ retryMax * retryInterval := by
  cases h with
  | unbound h =>
    obtain ⟨hlen, hpause⟩ := h.bounds
    exact ⟨by omega, hpause⟩
  | unrestricted h =>
    obtain ⟨hlen, hpause⟩ := h.bounds
    rw [List.length_append, pauses_append]
    exact ⟨Nat.add_le_add_right hlen 2, hpause⟩
  | registered h =>
    obtain ⟨hlen, hpause⟩ := h.bounds
    rw [List.length_append, pauses_append]
    exact ⟨Nat.add_le_add_right hlen 2, hpause⟩

theorem Takes.bounds (h : Takes ownPid retryMax retryInterval l r) :
    l.length ≤ 2 * retryMax + 7 ∧ pauses l ≤ retryMax * retryInterval := by
  cases h with
  | running h =>
    obtain ⟨hlen, hpause⟩ := h.bounds
    rw [hpause]
    exact ⟨by omega, Nat.zero_le _⟩
  | @absent l l' t ok r h hr =>
    obtain ⟨hlen, hpause⟩ := h.bounds
    obtain ⟨hlen', hpause'⟩ := hr.bounds
    have hcons : pauses ((t, .removeFile socketPath ok) :: l') = 0 + pauses l' := rfl
    rw [List.length_append, List.length_cons, pauses_append, hcons]
    omega
  | @stale l l' t t' ok ok' r h hr =>
    obtain ⟨hlen, hpause⟩ := h.bounds
    obtain ⟨hlen', hpause'⟩ := hr.bounds
    have hcons : pauses ((t, .removeFile pidPath ok) :: (t', .removeFile socketPath ok') :: l') =
        0 + (0 + pauses l') := rfl
    rw [List.length_append, List.length_cons, List.length_cons, pauses_append, hcons]
    omega

/-- The pid is written at the end of a start that succeeds, and else not at all. -/
theorem Registers.written (h : Registers ownPid retryMax retryInterval l r) :
    (r = .ok () → Bound l ∧ ∃ ok, lastCall l = some (.write pidPath (text ownPid) ok)) ∧
    ((∃ t name content ok, (t, .write name content ok) ∈ l) → r = .ok ()) := by
  have hretries : ∀ {n l r}, Retries socketPath retryInterval n l r →
      ∀ t name content ok, (t, .write name content ok) ∉ l := by
    intro n l r h t name content ok hmem
    rcases h.calls _ hmem with ⟨_, h⟩ | h
    · cases h
    · cases h
  have herror : ∀ e : DaemonError, (.error e : Except DaemonError Unit) ≠ .ok () := fun e h => by
    cases h
  cases h with
  | unbound h =>
    refine ⟨fun h => absurd h (herror _), ?_⟩
    rintro ⟨t, name, content, ok, hmem⟩
    exact absurd hmem (hretries h t name content ok)
  | unrestricted h =>
    refine ⟨fun h => absurd h (herror _), ?_⟩
    rintro ⟨t, name, content, ok, hmem⟩
    rcases List.mem_append.1 hmem with hmem | hmem
    · exact absurd hmem (hretries h t name content ok)
    rcases List.mem_cons.1 hmem with heq | hmem
    · cases heq
    · cases List.mem_singleton.1 hmem
  | @registered l t t' ok h =>
    refine ⟨fun _ => ⟨(h.bound_of_ok rfl).mono (List.subset_append_left _ _), ok, ?_⟩, fun _ => rfl⟩
    exact lastCall_append (lastCall_concat [(t, .setPermissions socketPath true)] t' _) l

theorem Registers.no_look (h : Registers ownPid retryMax retryInterval l r) :
    ∀ c ∈ l, ∀ p r, c.2 ≠ .testKillProcess p r := by
  have htwo : ∀ a b : ℕ × SysCall, (∀ p r, a.2 ≠ .testKillProcess p r) →
      (∀ p r, b.2 ≠ .testKillProcess p r) → ∀ c ∈ [a, b], ∀ p r, c.2 ≠ .testKillProcess p r :=
    fun a b ha hb => List.forall_mem_cons.2 ⟨ha, List.forall_mem_singleton.2 hb⟩
  cases h with
  | unbound h => exact h.no_look
  | unrestricted h =>
    exact List.forall_mem_append.2 ⟨h.no_look, htwo _ _ (fun p r h => by cases h)
      fun p r h => by cases h⟩
  | registered h =>
    exact List.forall_mem_append.2 ⟨h.no_look, htwo _ _ (fun p r h => by cases h)
      fun p r h => by cases h⟩

/-- Either a live daemon was found, and that was all, or none was, and the socket is bound next. -/
theorem Takes.found_or (h : Takes ownPid retryMax retryInterval l r) :
    (∃ p, FindsPid pidPath l (some p) ∧ r = .error .alreadyRunning) ∨
    ∃ pre l', l = pre ++ l' ∧ Registers ownPid retryMax retryInterval l' r ∧ ¬ FoundAlive pre ∧
      ∀ t name content ok, (t, .write name content ok) ∉ pre := by
  have hquiet : ∀ {l} removed, FindsPid pidPath l none →
      (∀ c ∈ removed, ∃ name ok, c.2 = SysCall.removeFile name ok) → ¬ FoundAlive (l ++ removed) ∧
        ∀ t name content ok, (t, .write name content ok) ∉ l ++ removed := by
    intro l removed h hremoved
    constructor
    · rintro ⟨t, p, r, hmem, hr⟩
      rcases List.mem_append.1 hmem with hmem | hmem
      · exact h.foundAlive.1 ⟨t, p, r, hmem, hr⟩ rfl
      · obtain ⟨_, _, heq⟩ := hremoved _ hmem
        cases heq
    · intro t name content ok hmem
      rcases List.mem_append.1 hmem with hmem | hmem
      · rcases h.calls _ hmem with ⟨_, heq⟩ | ⟨_, _, heq⟩
        · cases heq
        · cases heq
      · obtain ⟨_, _, heq⟩ := hremoved _ hmem
        cases heq
  cases h with
  | @running l p h => exact .inl ⟨p, h, rfl⟩
  | @absent l l' t ok r h hr =>
    have hpre := hquiet [(t, .removeFile socketPath ok)] h (List.forall_mem_singleton.2 ⟨_, _, rfl⟩)
    exact .inr ⟨_, l', (List.append_assoc l [_] l').symm, hr, hpre⟩
  | @stale l l' t t' ok ok' r h hr =>
    have hpre := hquiet [(t, .removeFile pidPath ok), (t', .removeFile socketPath ok')] h
      (List.forall_mem_cons.2 ⟨⟨_, _, rfl⟩, List.forall_mem_singleton.2 ⟨_, _, rfl⟩⟩)
    exact .inr ⟨_, l', (List.append_assoc l [_, _] l').symm, hr, hpre⟩

theorem FindsPid.quiet {o : Option UInt32} (h : FindsPid pidPath l o) :
    ∀ c ∈ l, ∀ files, c.2.effect files = files := by
  intro c hc files
  rcases h.calls c hc with ⟨_, heq⟩ | ⟨_, _, heq⟩
  · rw [heq]
    rfl
  · rw [heq]
    rfl

/-- The pid is written at the end of a start that succeeds, and a start that finds a live daemon
changes no file. -/
theorem Takes.result (h : Takes ownPid retryMax retryInterval l r) :
    (r = .ok () → Bound l ∧ ∃ ok, lastCall l = some (.write pidPath (text ownPid) ok)) ∧
    ((∃ t name content ok, (t, .write name content ok) ∈ l) → r = .ok ()) ∧
    (FoundAlive l → r = .error .alreadyRunning ∧ ∀ c ∈ l, ∀ files, c.2.effect files = files) := by
  rcases h.found_or with ⟨p, hfinds, rfl⟩ | ⟨pre, l', rfl, hr, hno, hwrite⟩
  · refine ⟨fun h => ?_, ?_, fun _ => ⟨rfl, FindsPid.quiet hfinds⟩⟩
    · cases h
    · rintro ⟨t, name, content, ok, hmem⟩
      rcases hfinds.calls _ hmem with ⟨_, heq⟩ | ⟨_, _, heq⟩
      · cases heq
      · cases heq
  · obtain ⟨hok, hwritten⟩ := hr.written
    refine ⟨fun h => ?_, ?_, ?_⟩
    · obtain ⟨hbound, ok, hlast⟩ := hok h
      exact ⟨hbound.mono (List.subset_append_right pre l'), ok, lastCall_append hlast pre⟩
    · rintro ⟨t, name, content, ok, hmem⟩
      rcases List.mem_append.1 hmem with hmem | hmem
      · exact absurd hmem (hwrite t name content ok)
      · exact hwritten ⟨t, name, content, ok, hmem⟩
    · rintro ⟨t, p, r', hmem, hr'⟩
      rcases List.mem_append.1 hmem with hmem | hmem
      · exact absurd ⟨t, p, r', hmem, hr'⟩ hno
      · exact absurd rfl (hr.no_look _ hmem p r')

theorem files_of_lastCall {w w' : World} {c : SysCall} (hrun : Run World.Step w l w')
    (h : lastCall l = some c) : ∃ files, w'.files = c.effect files := by
  obtain ⟨⟨t, d⟩, hlast, rfl : d = c⟩ := Option.map_eq_some_iff.1 h
  rw [← List.dropLast_append_getLast? _ hlast] at hrun
  obtain ⟨v, -, hstep⟩ := Run.snoc_iff.1 hrun
  obtain ⟨-⟩ := hstep
  exact ⟨v.filesNext, rfl⟩

theorem Binds.bounds (h : Binds ownPid retryMax retryInterval l r) :
    l.length ≤ 2 * retryMax + 9 ∧ pauses l ≤ retryMax * retryInterval := by
  cases h with
  | unopened => exact ⟨Nat.le_add_left 1 _, Nat.zero_le _⟩
  | unlocked => exact ⟨Nat.le_add_left 2 _, Nat.zero_le _⟩
  | @locked t t' l r h =>
    obtain ⟨hlen, hpause⟩ := h.bounds
    have hcons : pauses ((t, .open lockPath true) :: (t', .lock lockPath true) :: l) =
        0 + (0 + pauses l) := rfl
    rw [List.length_cons, List.length_cons, hcons]
    omega

/-- A start that succeeds ends with writing its pid, and no other writes to a file. -/
theorem Binds.result (h : Binds ownPid retryMax retryInterval l r) :
    (r = .ok () ↔ ∃ t name content ok, (t, .write name content ok) ∈ l) ∧
    (r = .ok () → Bound l ∧ ∃ ok, lastCall l = some (.write pidPath (text ownPid) ok)) ∧
    (FoundAlive l → r = .error .alreadyRunning ∧
      ∀ c ∈ l, ∀ files, ∀ name ≠ lockPath, c.2.effect files name = files name) := by
  have herror : (.error .failure : Except DaemonError Unit) ≠ .ok () := fun h => by cases h
  cases h with
  | unopened =>
    refine ⟨iff_of_false herror ?_, fun h => absurd h herror, ?_⟩
    · rintro ⟨t, name, content, ok, hmem⟩
      cases List.mem_singleton.1 hmem
    · rintro ⟨t, p, r, hmem, -⟩
      cases List.mem_singleton.1 hmem
  | unlocked =>
    refine ⟨iff_of_false herror ?_, fun h => absurd h herror, ?_⟩
    · rintro ⟨t, name, content, ok, hmem⟩
      simp at hmem
    · rintro ⟨t, p, r, hmem, -⟩
      simp at hmem
  | @locked t t' l r h =>
    obtain ⟨hok, hwritten, halive⟩ := h.result
    refine ⟨⟨fun h => ?_, ?_⟩, fun h => ?_, ?_⟩
    · obtain ⟨-, ok, hlast⟩ := hok h
      obtain ⟨⟨u, c⟩, hc, rfl : c = _⟩ := Option.map_eq_some_iff.1 hlast
      have hmem := List.mem_of_getLast? hc
      exact ⟨u, _, _, ok, List.mem_cons_of_mem _ (List.mem_cons_of_mem _ hmem)⟩
    · rintro ⟨u, name, content, ok, hmem⟩
      simp only [List.mem_cons, Prod.mk.injEq, reduceCtorEq, and_false, false_or] at hmem
      exact hwritten ⟨u, name, content, ok, hmem⟩
    · obtain ⟨hbound, ok, hlast⟩ := hok h
      exact ⟨hbound.mono fun c hc => List.mem_cons_of_mem _ (List.mem_cons_of_mem _ hc), ok,
        lastCall_append hlast [(t, .open lockPath true), (t', .lock lockPath true)]⟩
    · rintro ⟨u, p, r, hmem, hr⟩
      simp only [List.mem_cons, Prod.mk.injEq, reduceCtorEq, and_false, false_or] at hmem
      obtain ⟨hresult, hquiet⟩ := halive ⟨u, p, r, hmem, hr⟩
      refine ⟨hresult, List.forall_mem_cons.2 ⟨fun files name hname => ?_,
        List.forall_mem_cons.2 ⟨fun _ _ _ => rfl, fun c hc files name _ => ?_⟩⟩⟩
      · exact Function.update_of_ne hname _ files
      · rw [hquiet c hc files]

/-- **What the answer of a start means.**  It is yes exactly when the start has written to a file;
then it has bound the socket, and the last thing it did was to write its own pid, which is in the
pid file if that worked.  A start that finds a live daemon says so and has touched no file but
the lock. -/
theorem bind_result (ownPid : UInt32) (retryMax retryInterval : ℕ) (w : World) :
    ((bindWith ownPid retryMax retryInterval w).1 = .ok () ↔ ∃ t name content ok,
      (t, .write name content ok) ∈ traceOf (bindWith ownPid retryMax retryInterval) w) ∧
    ((bindWith ownPid retryMax retryInterval w).1 = .ok () →
      Bound (traceOf (bindWith ownPid retryMax retryInterval) w) ∧ ∃ ok,
        lastCall (traceOf (bindWith ownPid retryMax retryInterval) w) =
          some (.write pidPath (text ownPid) ok) ∧
        (ok = true → (bindWith ownPid retryMax retryInterval w).2.files pidPath =
          some (text ownPid))) ∧
    (FoundAlive (traceOf (bindWith ownPid retryMax retryInterval) w) →
      (bindWith ownPid retryMax retryInterval w).1 = .error .alreadyRunning ∧
      ∀ c ∈ traceOf (bindWith ownPid retryMax retryInterval) w, ∀ files, ∀ name ≠ lockPath,
        c.2.effect files name = files name) := by
  obtain ⟨hrun, h⟩ := traceOf_spec (does_bindWith ownPid retryMax retryInterval w)
  obtain ⟨hwritten, hok, halive⟩ := h.result
  refine ⟨hwritten, fun h => ?_, halive⟩
  obtain ⟨hbound, ok, hlast⟩ := hok h
  refine ⟨hbound, ok, hlast, ?_⟩
  rintro rfl
  obtain ⟨files, heq⟩ := files_of_lastCall hrun hlast
  rw [heq]
  exact Function.update_self pidPath (some (text ownPid)) files

/-- **A start ends.**  Whatever others do, it makes at most 29 calls, and takes no longer than a
second and what these calls take, the wait for the lock among them. -/
theorem bind_ends (ownPid : UInt32) (w : World) :
    (traceOf (SocketListener.bind ownPid) w).length ≤ 29 ∧
    (SocketListener.bind ownPid w).2.now ≤ w.now + 1000000000 +
      ∑ i ∈ Finset.range (traceOf (SocketListener.bind ownPid) w).length, (w.turns i).delay := by
  obtain ⟨hrun, h⟩ := traceOf_spec (does_bindWith ownPid BIND_RETRY_MAX BIND_RETRY_INTERVAL w)
  obtain ⟨hlen, hpause⟩ := h.bounds
  have hnow := World.now_of_run hrun
  have hretries : BIND_RETRY_MAX * BIND_RETRY_INTERVAL = 1000000000 := rfl
  unfold pauses at hpause
  rw [hretries] at hpause
  refine ⟨hlen, ?_⟩
  change (bindWith ownPid BIND_RETRY_MAX BIND_RETRY_INTERVAL w).2.now ≤ w.now + 1000000000 +
    ∑ i ∈ Finset.range (traceOf (bindWith ownPid BIND_RETRY_MAX BIND_RETRY_INTERVAL) w).length,
      (w.turns i).delay
  omega

end Result

/-! ## After a start -/

section Serving

/-- The pid file names the process and is left alone, and the process is there for every look to
come. -/
def Serving (ownPid : UInt32) (w : World) : Prop :=
  w.files pidPath = some (text ownPid) ∧ ∃ p, toPid ownPid = some p ∧
    ∀ n, (∀ files : BaseDir, (w.turns n).files files pidPath = files pidPath) ∧
      (w.turns n).kill p ≠ .error

variable {ownPid : UInt32} {w w' : World} {l : List (ℕ × SysCall)} {c : ℕ × SysCall}

theorem Serving.step (h : Serving ownPid w) (hstep : World.Step w c w')
    (hc : ∀ files, c.2.effect files pidPath = files pidPath) : Serving ownPid w' := by
  obtain ⟨hfile, p, hp, hothers⟩ := h
  obtain ⟨hanswer⟩ := hstep
  refine ⟨?_, p, hp, fun n => hothers (n + 1)⟩
  show SysCall.effect _ w.filesNext pidPath = some (text ownPid)
  rw [hc, World.filesNext, (hothers 0).1, hfile]

theorem Serving.run (h : Serving ownPid w) (hrun : Run World.Step w l w')
    (hl : ∀ c ∈ l, ∀ files, c.2.effect files pidPath = files pidPath) : Serving ownPid w' := by
  induction hrun with
  | nil => exact h
  | cons hstep _ ih =>
    rw [List.forall_mem_cons] at hl
    exact ih (h.step hstep hl.1) hl.2

theorem effect_open (ok : Bool) (files : BaseDir) :
    (SysCall.open lockPath ok).effect files pidPath = files pidPath := by
  have hname : pidPath ≠ lockPath := by decide
  cases ok with
  | true => exact Function.update_of_ne hname _ files
  | false => rfl

theorem Serving.finding (h : Serving ownPid w) {o : Option UInt32} (hl : FindsPid pidPath l o)
    (hrun : Run World.Step w l w') : Serving ownPid w' :=
  h.run hrun fun c hc files => congrFun (FindsPid.quiet hl c hc files) pidPath

theorem Serving.looks (h : Serving ownPid w) {b : Bool} (hl : Looks ownPid l b)
    (hrun : Run World.Step w l w') : b = true := by
  obtain ⟨-, p, hp, hothers⟩ := h
  cases hl with
  | noPid h =>
    rw [hp] at h
    cases h
  | @call q t result h =>
    obtain rfl : p = q := Option.some.inj (hp.symm.trans h)
    obtain ⟨hanswer⟩ := Run.single_iff.1 hrun
    obtain rfl : result = (w.turns 0).kill p := hanswer
    have hfound := (hothers 0).2
    cases hr : (w.turns 0).kill p with
    | ok => rfl
    | perm => rfl
    | error => exact absurd hr hfound

/-- A look for the daemon finds it. -/
theorem Serving.finds (h : Serving ownPid w) {o : Option UInt32} (hl : FindsPid pidPath l o)
    (hrun : Run World.Step w l w') : o = some ownPid := by
  have hread : ∀ {t content l}, Run World.Step w ((t, .readToString pidPath content) :: l) w' →
      content.bind parse = some ownPid ∧ ∃ v, Serving ownPid v ∧ Run World.Step v l w' := by
    intro t content l hrun
    obtain ⟨v, hstep, hrun⟩ := Run.cons_iff.1 hrun
    refine ⟨?_, v, h.step hstep fun _ => rfl, hrun⟩
    obtain ⟨hanswer⟩ := hstep
    obtain ⟨hfile, p, hp, hothers⟩ := h
    obtain rfl : content = w.filesNext pidPath := hanswer
    rw [World.filesNext, (hothers 0).1, hfile]
    exact parse_text ownPid
  cases hl with
  | absent hp =>
    obtain ⟨hown, -⟩ := hread hrun
    rw [hown] at hp
    cases hp
  | dead hp hl =>
    obtain ⟨hown, v, hv, hrun⟩ := hread hrun
    obtain rfl := Option.some.inj (hown.symm.trans hp)
    cases hv.looks hl hrun
  | alive hp hl => exact hp.symm.trans (hread hrun).1

theorem Serving.getPid (h : Serving ownPid w) :
    (DaemonLifecycle.getPid w).1 = some ownPid ∧ Serving ownPid (DaemonLifecycle.getPid w).2 := by
  obtain ⟨hrun, hl⟩ := traceOf_spec (DaemonLifecycle.does_getPid w)
  exact ⟨h.finds hl hrun, h.finding hl hrun⟩

theorem Serving.takes (h : Serving ownPid w) {other : UInt32} {retryMax retryInterval : ℕ}
    {r : Except DaemonError Unit} (hl : Takes other retryMax retryInterval l r)
    (hrun : Run World.Step w l w') : r = .error .alreadyRunning ∧ Serving ownPid w' := by
  have habsent : ∀ {l l'}, FindsPid pidPath l none → ¬ Run World.Step w (l ++ l') w' := by
    intro l l' hl hrun
    obtain ⟨v, hrun, -⟩ := Run.append_iff.1 hrun
    cases h.finds hl hrun
  cases hl with
  | running hl => exact ⟨rfl, h.finding hl hrun⟩
  | absent hl hr => exact absurd hrun (habsent hl)
  | stale hl hr => exact absurd hrun (habsent hl)

theorem Serving.bindWith (h : Serving ownPid w) (other : UInt32) (retryMax retryInterval : ℕ) :
    (∃ e, (bindWith other retryMax retryInterval w).1 = .error e) ∧
    Serving ownPid (bindWith other retryMax retryInterval w).2 := by
  obtain ⟨hrun, hl⟩ := traceOf_spec (does_bindWith other retryMax retryInterval w)
  generalize traceOf (SocketListener.bindWith other retryMax retryInterval) w = l at hl hrun
  generalize SocketListener.bindWith other retryMax retryInterval w = result at hl hrun ⊢
  obtain ⟨r, w'⟩ := result
  dsimp only at hl hrun ⊢
  cases hl with
  | unopened => exact ⟨⟨_, rfl⟩, h.run hrun (List.forall_mem_singleton.2 fun _ => rfl)⟩
  | unlocked =>
    exact ⟨⟨_, rfl⟩, h.run hrun (List.forall_mem_cons.2
      ⟨effect_open true, List.forall_mem_singleton.2 fun _ => rfl⟩)⟩
  | locked hl =>
    obtain ⟨v, hopen, hrun⟩ := Run.cons_iff.1 hrun
    obtain ⟨u, hlock, hrun⟩ := Run.cons_iff.1 hrun
    have hu := (h.step hopen (effect_open true)).step hlock fun _ => rfl
    obtain ⟨rfl, hserving⟩ := hu.takes hl hrun
    exact ⟨⟨_, rfl⟩, hserving⟩

/-- What is done to a daemon that does not change it. -/
inductive Command
  | start (ownPid : UInt32) (retryMax retryInterval : ℕ)
  | getPid

inductive Outcome
  | started (result : Except DaemonError Unit)
  | pid (found : Option UInt32)

def Command.exec : Command → StateM World Outcome
  | .start ownPid retryMax retryInterval => do
    return .started (← SocketListener.bindWith ownPid retryMax retryInterval)
  | .getPid => do return .pid (← DaemonLifecycle.getPid)

def execAll : List Command → StateM World (List Outcome)
  | [] => return []
  | c :: cs => do
    let o ← c.exec
    let os ← execAll cs
    return o :: os

/-- A start is refused, and a look for the daemon finds it. -/
def Outcome.Names (ownPid : UInt32) : Outcome → Prop
  | .started result => ∃ e, result = .error e
  | .pid found => found = some ownPid

theorem Serving.exec (h : Serving ownPid w) (c : Command) :
    (c.exec w).1.Names ownPid ∧ Serving ownPid (c.exec w).2 := by
  cases c with
  | start other retryMax retryInterval => exact h.bindWith other retryMax retryInterval
  | getPid => exact h.getPid

theorem Serving.execAll (h : Serving ownPid w) (cs : List Command) :
    (∀ o ∈ (execAll cs w).1, o.Names ownPid) ∧ Serving ownPid (execAll cs w).2 := by
  induction cs generalizing w with
  | nil => exact ⟨List.forall_mem_nil _, h⟩
  | cons c cs ih =>
    obtain ⟨hc, h'⟩ := h.exec c
    obtain ⟨hcs, h''⟩ := ih h'
    exact ⟨List.forall_mem_cons.2 ⟨hc, hcs⟩, h''⟩

/-- **One daemon at a time, and it is found.**  Once a start has written its pid, and as long as the
pid file is left alone and the process lives, every later start is refused and every look for the
daemon names it, in any order of them. -/
theorem start_serves (retryMax retryInterval : ℕ) (hwritten : lastCall
      (traceOf (SocketListener.bindWith ownPid retryMax retryInterval) w) =
        some (.write pidPath (text ownPid) true))
    {p : ℕ} (hp : toPid ownPid = some p)
    (hothers : ∀ n (files : BaseDir),
      ((SocketListener.bindWith ownPid retryMax retryInterval w).2.turns n).files files pidPath =
        files pidPath)
    (halive : ∀ n,
      ((SocketListener.bindWith ownPid retryMax retryInterval w).2.turns n).kill p ≠ .error)
    (cs : List Command) :
    ∀ o ∈ (execAll cs (SocketListener.bindWith ownPid retryMax retryInterval w).2).1,
      o.Names ownPid := by
  obtain ⟨hrun, -⟩ := traceOf_spec (does_bindWith ownPid retryMax retryInterval w)
  obtain ⟨files, heq⟩ := files_of_lastCall hrun hwritten
  have hfile : (SocketListener.bindWith ownPid retryMax retryInterval w).2.files pidPath =
      some (text ownPid) := by
    rw [heq]
    exact Function.update_self pidPath (some (text ownPid)) files
  have hserving : Serving ownPid (SocketListener.bindWith ownPid retryMax retryInterval w).2 :=
    ⟨hfile, p, hp, fun n => ⟨hothers n, halive n⟩⟩
  exact (hserving.execAll cs).1

/-- A system in which nobody else does anything, and every process is there. -/
def idleWorld : World where
  now := 0
  files := fun _ => none
  turns := fun _ => ⟨0, id, fun _ => .ok, [], none, true⟩
  calls := []

theorem start_serves_idle : List.Forall (Outcome.Names 42)
    (execAll [.getPid, .start 43 0 0, .getPid] (SocketListener.bindWith 42 0 0 idleWorld).2).1 :=
  List.forall_iff_forall_mem.2
    (start_serves 0 0 (by decide) (p := 42) (by decide) (fun _ _ => rfl) (fun _ h => by cases h) _)

end Serving

/-! ## Among other daemons -/

section Among

open Endpoint (Act Phase Process Moves)

/-- The step of a process that a call is in the model of many daemons.  A refused `bind` is none: the
process tries again, or gives up. -/
def actOf : SysCall → Option Act
  | .lock _ true => some .lock
  | .readToString _ _ => some .check
  | .removeFile name _ => some (if name = pidPath then .removeStalePid else .removeStaleSocket)
  | .bind _ .ok => some .bind
  | .write _ _ _ => some .writePid
  | _ => none

def acts (l : List (ℕ × SysCall)) : List Act := l.filterMap fun c => actOf c.2

/-- A process goes from one phase to another in one step, with some files and other processes. -/
def Goes (φ : Phase) (a : Act) (φ' : Phase) : Prop :=
  ∃ p alive f d f' d', Moves p alive a f d f' d' ∧ d.phase = φ ∧ d'.phase = φ'

variable {ownPid : UInt32} {retryMax retryInterval : ℕ} {l : List (ℕ × SysCall)}
  {r : Except DaemonError Unit}

theorem Retries.acts_eq {n : ℕ} (h : Retries socketPath retryInterval n l r) :
    acts l = if r = .ok () then [.bind] else [] := by
  induction h with
  | bound => rfl
  | exhausted => rfl
  | again h ih => exact ih
  | failed => rfl

theorem Registers.acts_eq (h : Registers ownPid retryMax retryInterval l r) :
    (r = .ok () → acts l = [.bind, .writePid]) ∧ (r = .error .alreadyRunning → acts l = []) := by
  cases h with
  | unbound h =>
    have hacts := h.acts_eq
    rw [if_neg (fun h => by cases h)] at hacts
    refine ⟨fun h => ?_, fun _ => hacts⟩
    cases h
  | unrestricted =>
    constructor
    · intro h
      cases h
    · intro h
      cases h
  | registered h =>
    have hacts := h.acts_eq
    rw [if_pos rfl] at hacts
    refine ⟨fun _ => ?_, fun h => by cases h⟩
    rw [acts, List.filterMap_append, ← acts, hacts]
    rfl

theorem acts_finds {o : Option UInt32} (h : FindsPid pidPath l o) : acts l = [.check] := by
  have hlooks : ∀ {p l b}, Looks p l b → acts l = [] := by
    intro p l b h
    cases h with
    | noPid => rfl
    | call => rfl
  cases h with
  | absent => rfl
  | dead _ hl => exact congrArg (Act.check :: ·) (hlooks hl)
  | alive _ hl => exact congrArg (Act.check :: ·) (hlooks hl)

theorem goes_bind {φ : Phase} (hφ : φ = .bound ∨ φ = .exited) : Goes .cleared .bind φ := by
  rcases hφ with rfl | rfl
  · exact ⟨0, fun _ => False, ⟨none, none, none⟩, { Process.start with phase := .cleared }, _, _,
      .bind rfl rfl, rfl, rfl⟩
  · exact ⟨0, fun _ => False, ⟨some 1, none, none⟩, { Process.start with phase := .cleared }, _, _,
      .bindFails rfl nofun, rfl, rfl⟩

/-- The way from a file that names no live process to an endpoint without files. -/
theorem goes_cleared {stale : List Act} (h : stale = [] ∨ stale = [.removeStalePid]) :
    Run Goes .idle ([.lock, .check] ++ (stale ++ [.removeStaleSocket])) .cleared := by
  have hlock : Goes .idle .lock .locked :=
    ⟨0, fun _ => False, ⟨none, none, none⟩, .start, _, _, .lock rfl rfl, rfl, rfl⟩
  have hsocket : Goes .unbound .removeStaleSocket .cleared :=
    ⟨0, fun _ => False, ⟨none, none, none⟩, { Process.start with phase := .unbound }, _, _,
      .removeStaleSocket rfl, rfl, rfl⟩
  rcases h with rfl | rfl
  · have hcheck : Goes .locked .check .unbound :=
      ⟨0, fun _ => False, ⟨none, none, none⟩, { Process.start with phase := .locked }, _, _,
        .checkNone rfl rfl, rfl, rfl⟩
    exact .cons hlock (.cons hcheck (.cons hsocket (.nil _)))
  · have hcheck : Goes .locked .check .stale :=
      ⟨0, fun _ => False, ⟨none, some 1, none⟩, { Process.start with phase := .locked }, _, _,
        .checkDead rfl rfl id, rfl, rfl⟩
    have hpid : Goes .stale .removeStalePid .unbound :=
      ⟨0, fun _ => False, ⟨none, some 1, none⟩, { Process.start with phase := .stale }, _, _,
        .removeStalePid rfl, rfl, rfl⟩
    exact .cons hlock (.cons hcheck (.cons hpid (.cons hsocket (.nil _))))

theorem goes_serving : Run Goes .cleared [.bind, .writePid, .unlock] .serving := by
  have hwrite : Goes .bound .writePid .registered :=
    ⟨0, fun _ => False, ⟨none, none, none⟩, { Process.start with phase := .bound }, _, _,
      .writePid rfl, rfl, rfl⟩
  have hunlock : Goes .registered .unlock .serving :=
    ⟨0, fun _ => False, ⟨none, none, none⟩, { Process.start with phase := .registered }, _, _,
      .unlock rfl, rfl, rfl⟩
  exact .cons (goes_bind (.inl rfl)) (.cons hwrite (.cons hunlock (.nil _)))

/-- A process that finds another one alive gives up. -/
theorem goes_exited : Run Goes .idle [.lock, .check] .exited := by
  have hlock : Goes .idle .lock .locked :=
    ⟨0, fun _ => True, ⟨none, none, none⟩, .start, _, _, .lock rfl rfl, rfl, rfl⟩
  have hcheck : Goes .locked .check .exited :=
    ⟨0, fun _ => True, ⟨none, some 1, none⟩, { Process.start with phase := .locked }, _, _,
      .checkAlive rfl rfl trivial, rfl, rfl⟩
  exact .cons hlock (.cons hcheck (.nil _))

/-- The steps of a start go as far as its answer says. -/
def GoesOn (steps : List Act) (r : Except DaemonError Unit) : Prop :=
  (r = .ok () → Run Goes .idle (steps ++ [.unlock]) .serving) ∧
    (r = .error .alreadyRunning →
      Run Goes .idle steps .exited ∨ Run Goes .idle (steps ++ [.bind]) .exited)

theorem goesOn_failure (steps : List Act) : GoesOn steps (.error .failure) := by
  constructor
  · intro h
    cases h
  · intro h
    cases h

theorem Registers.goesOn (h : Registers ownPid retryMax retryInterval l r) {stale : List Act}
    (hstale : stale = [] ∨ stale = [.removeStalePid]) :
    GoesOn ([.lock, .check] ++ (stale ++ [.removeStaleSocket]) ++ acts l) r := by
  obtain ⟨hok, hrunning⟩ := h.acts_eq
  refine ⟨fun h => ?_, fun h => .inr ?_⟩
  · rw [hok h, List.append_assoc]
    exact Run.append_iff.2 ⟨_, goes_cleared hstale, goes_serving⟩
  · rw [hrunning h, List.append_nil]
    exact Run.append_iff.2 ⟨_, goes_cleared hstale, Run.single_iff.2 (goes_bind (.inr rfl))⟩

theorem Takes.goesOn (h : Takes ownPid retryMax retryInterval l r) :
    GoesOn (.lock :: acts l) r := by
  cases h with
  | running h =>
    refine ⟨fun h => ?_, fun _ => .inl ?_⟩
    · cases h
    · rw [acts_finds h]
      exact goes_exited
  | absent h hr =>
    have hsteps := hr.goesOn (.inl rfl)
    rw [acts, List.filterMap_append, ← acts, acts_finds h]
    exact hsteps
  | stale h hr =>
    have hsteps := hr.goesOn (.inr rfl)
    rw [acts, List.filterMap_append, ← acts, acts_finds h]
    exact hsteps

theorem Binds.goesOn (h : Binds ownPid retryMax retryInterval l r) : GoesOn (acts l) r := by
  cases h with
  | unopened => exact goesOn_failure _
  | unlocked => exact goesOn_failure _
  | locked h => exact h.goesOn

/-- **A start is the start of a process among many.**  One that succeeds makes the steps from taking the
lock to serving, the last of which gives the lock up; one that finds another daemon, or the socket in
use to the end, gives up where the model of many daemons does. -/
theorem bindWith_goesOn (ownPid : UInt32) (retryMax retryInterval : ℕ) (w : World) :
    GoesOn (acts (traceOf (bindWith ownPid retryMax retryInterval) w))
      (bindWith ownPid retryMax retryInterval w).1 := by
  obtain ⟨-, h⟩ := traceOf_spec (does_bindWith ownPid retryMax retryInterval w)
  exact h.goesOn

end Among

end SocketListener

end MergeReady.Daemon
