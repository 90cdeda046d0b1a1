import MergeReady.Daemon.Pid

/-!
# Stopping the daemon

`daemon stop` asks the daemon over its socket, waits for the process of the pid file to go, and
sends it a signal when it does not.  The socket, the pid file and the process can each be gone or be
someone else's by the time they are used.
-/

namespace MergeReady.Daemon

open MergeReady.Lib
open MergeReady.Shared

/-! ## Names -/

def DAEMON_VERSION : Str := CARGO_PKG_VERSION.toList

def SOCKET_PREFIX : Str := "daemon-".toList
def SOCKET_EXT : Str := ".sock".toList
def PID_EXT : Str := ".pid".toList

/-- The files of a daemon, by their names in the base directory. -/
def socketPath : Str := SOCKET_PREFIX ++ DAEMON_VERSION ++ SOCKET_EXT

def pidPath : Str := SOCKET_PREFIX ++ DAEMON_VERSION ++ PID_EXT

def lockPath : Str := "daemon.lock".toList

/-! ## The client -/

namespace DaemonClient

variable (socketPath : Str)

/-- Any response at all says that the daemon stops. -/
def stop : StateM World Bool := do
  let response ← Sys.send socketPath .stop
  return response.isSome

end DaemonClient

/-! ## The life of a daemon -/

namespace DaemonLifecycle

/-- 2 s -/
def STOP_TIMEOUT : ℕ := 2000000000

/-- The process of the pid file, if it is there. -/
def getPid : StateM World (Option UInt32) := do
  match ← Pid.read pidPath with
  | none => return none
  | some p => return if ← Pid.isAlive p then some p else none

def terminateAndWait (p : UInt32) (pidPath : Str) : StateM World Bool := do
  if ← Pid.terminate p then Pid.waitUntilGone p pidPath STOP_TIMEOUT else return false

def waitOrTerminate (p : UInt32) (pidPath : Str) : StateM World Bool := do
  if ← Pid.waitUntilGone p pidPath STOP_TIMEOUT then return true
  else terminateAndWait p pidPath

/-- `running_pid.or_else(|| pid::read(&pid_path))` -/
def orRead (runningPid : Option UInt32) : StateM World (Option UInt32) :=
  match runningPid with
  | some p => return some p
  | none => Pid.read pidPath

/-- `stop` when the daemon has not answered. -/
def stopUnanswered (runningPid : Option UInt32) : StateM World Bool := do
  match ← orRead runningPid with
  | none => return false
  | some p =>
    if ← Pid.isAlive p then terminateAndWait p pidPath
    else
      Pid.remove pidPath
      return false

def stop : StateM World Bool := do
  let runningPid ← getPid
  if ← DaemonClient.stop socketPath then
    match runningPid with
    | none => return true
    | some p => waitOrTerminate p pidPath
  else stopUnanswered runningPid

end DaemonLifecycle

/-! ## What stopping does -/

section

variable {path : Str} {l l' : List (ℕ × SysCall)} {p : UInt32} {b : Bool}

/-- The calls of a wait with its time. -/
inductive WaitsFor (p : UInt32) (path : Str) (timeout : ℕ) : List (ℕ × SysCall) → Bool → Prop
  | start {l : List (ℕ × SysCall)} {t : ℕ} {b : Bool} (h : Pid.Waits p path (t + timeout) l b) :
      WaitsFor p path timeout ((t, .now) :: l) b

inductive TerminatesAndWaits (p : UInt32) (path : Str) : List (ℕ × SysCall) → Bool → Prop
  | unsent {l : List (ℕ × SysCall)} (h : Pid.Terminates p l false) :
      TerminatesAndWaits p path l false
  | sent {l l' : List (ℕ × SysCall)} {b : Bool} (h : Pid.Terminates p l true)
      (hw : WaitsFor p path DaemonLifecycle.STOP_TIMEOUT l' b) :
      TerminatesAndWaits p path (l ++ l') b

inductive WaitsOrTerminates (p : UInt32) (path : Str) : List (ℕ × SysCall) → Bool → Prop
  | gone {l : List (ℕ × SysCall)} (h : WaitsFor p path DaemonLifecycle.STOP_TIMEOUT l true) :
      WaitsOrTerminates p path l true
  | late {l l' : List (ℕ × SysCall)} {b : Bool}
      (h : WaitsFor p path DaemonLifecycle.STOP_TIMEOUT l false)
      (ht : TerminatesAndWaits p path l' b) : WaitsOrTerminates p path (l ++ l') b

/-- The calls that look for the process of a pid file. -/
inductive FindsPid (path : Str) : List (ℕ × SysCall) → Option UInt32 → Prop
  | absent {t : ℕ} {content : Option Str} (h : content.bind Pid.parse = none) :
      FindsPid path [(t, .readToString path content)] none
  | dead {t : ℕ} {content : Option Str} {p : UInt32} {l : List (ℕ × SysCall)}
      (h : content.bind Pid.parse = some p) (hl : Pid.Looks p l false) :
      FindsPid path ((t, .readToString path content) :: l) none
  | alive {t : ℕ} {content : Option Str} {p : UInt32} {l : List (ℕ × SysCall)}
      (h : content.bind Pid.parse = some p) (hl : Pid.Looks p l true) :
      FindsPid path ((t, .readToString path content) :: l) (some p)

/-- The calls of `or_else`, which reads the pid file again when it named no live process. -/
inductive Rereads : Option UInt32 → List (ℕ × SysCall) → Option UInt32 → Prop
  | known {p : UInt32} : Rereads (some p) [] (some p)
  | read {t : ℕ} {content : Option Str} :
      Rereads none [(t, .readToString pidPath content)] (content.bind Pid.parse)

inductive StopsUnanswered (runningPid : Option UInt32) : List (ℕ × SysCall) → Bool → Prop
  | none {l : List (ℕ × SysCall)} (h : Rereads runningPid l none) :
      StopsUnanswered runningPid l false
  | dead {l l' : List (ℕ × SysCall)} {p : UInt32} {t : ℕ} {ok : Bool}
      (h : Rereads runningPid l (some p)) (hl : Pid.Looks p l' false) :
      StopsUnanswered runningPid (l ++ (l' ++ [(t, .removeFile pidPath ok)])) false
  | alive {l l' l'' : List (ℕ × SysCall)} {p : UInt32} {b : Bool}
      (h : Rereads runningPid l (some p)) (hl : Pid.Looks p l' true)
      (ht : TerminatesAndWaits p pidPath l'' b) : StopsUnanswered runningPid (l ++ (l' ++ l'')) b

/-- The calls of `stop`. -/
inductive Stops : List (ℕ × SysCall) → Bool → Prop
  | answered {l : List (ℕ × SysCall)} {t : ℕ} {reply : Response} (h : FindsPid pidPath l none) :
      Stops (l ++ [(t, .send socketPath .stop (some reply))]) true
  | waited {l l' : List (ℕ × SysCall)} {t : ℕ} {reply : Response} {p : UInt32} {b : Bool}
      (h : FindsPid pidPath l (some p)) (hw : WaitsOrTerminates p pidPath l' b) :
      Stops (l ++ (t, .send socketPath .stop (some reply)) :: l') b
  | unanswered {l l' : List (ℕ × SysCall)} {t : ℕ} {runningPid : Option UInt32} {b : Bool}
      (h : FindsPid pidPath l runningPid) (hu : StopsUnanswered runningPid l' b) :
      Stops (l ++ (t, .send socketPath .stop none) :: l') b

end

namespace DaemonLifecycle

variable (p : UInt32) (path : Str) (timeout : ℕ) (w : World)

theorem does_waitUntilGone : Does World.Step (Pid.waitUntilGone p path timeout) w
    fun l b _ => WaitsFor p path timeout l b :=
  (Pid.does_waitUntilGone p path w timeout).mono fun l b _ _ h => by
    obtain ⟨t, l', rfl, hw⟩ := h
    exact .start hw

theorem does_terminateAndWait : Does World.Step (terminateAndWait p path) w
    fun l b _ => TerminatesAndWaits p path l b :=
  (Pid.does_terminate p w).bind fun l sent v _ h => by
    cases sent with
    | true => exact (does_waitUntilGone p path STOP_TIMEOUT v).mono fun l' b _ _ hw => .sent h hw
    | false =>
      refine .pure ?_
      rw [List.append_nil]
      exact .unsent h

theorem does_waitOrTerminate : Does World.Step (waitOrTerminate p path) w
    fun l b _ => WaitsOrTerminates p path l b :=
  (does_waitUntilGone p path STOP_TIMEOUT w).bind fun l gone v _ h => by
    cases gone with
    | true =>
      refine .pure ?_
      rw [List.append_nil]
      exact .gone h
    | false => exact (does_terminateAndWait p path v).mono fun l' b _ _ ht => .late h ht

theorem does_getPid : Does World.Step getPid w fun l a _ => FindsPid pidPath l a :=
  (Pid.does_read pidPath w).bind fun l a v _ h => by
    obtain ⟨content, rfl, rfl⟩ := h
    cases hp : content.bind Pid.parse with
    | none => exact .pure (.absent hp)
    | some p =>
      refine (Pid.does_isAlive p v).bind fun l alive u _ hl => .pure ?_
      rw [List.append_nil]
      cases alive with
      | true => exact .alive hp hl
      | false => exact .dead hp hl

theorem does_orRead (runningPid : Option UInt32) : Does World.Step (orRead runningPid) w
    fun l a _ => Rereads runningPid l a := by
  cases runningPid with
  | some p => exact .pure .known
  | none =>
    refine (Pid.does_read pidPath w).mono fun l a _ _ h => ?_
    obtain ⟨content, rfl, rfl⟩ := h
    exact .read

theorem does_stopUnanswered (runningPid : Option UInt32) :
    Does World.Step (stopUnanswered runningPid) w fun l b _ => StopsUnanswered runningPid l b :=
  (does_orRead w runningPid).bind fun l a v _ h => by
    cases a with
    | none =>
      refine .pure ?_
      rw [List.append_nil]
      exact .none h
    | some p =>
      refine (Pid.does_isAlive p v).bind fun l' alive u _ hl => ?_
      cases alive with
      | true => exact (does_terminateAndWait p pidPath u).mono fun l'' b _ _ ht => .alive h hl ht
      | false =>
        refine (Pid.does_remove pidPath u).bind fun l'' _ x _ hr => .pure ?_
        obtain ⟨ok, rfl⟩ := hr
        exact .dead h hl

theorem does_stopRequest (socket : Str) : Does World.Step (DaemonClient.stop socket) w
    fun l b _ => ∃ t reply, l = [(t, .send socket .stop reply)] ∧ b = reply.isSome :=
  (makes_send socket .stop w).bind fun _ reply u _ h => .pure ⟨u.now, reply, by rw [h]; rfl, rfl⟩

theorem does_stop : Does World.Step stop w fun l b _ => Stops l b :=
  (does_getPid w).bind fun l runningPid v _ h =>
    (does_stopRequest v socketPath).bind fun l' answered u _ hs => by
      obtain ⟨t, reply, rfl, rfl⟩ := hs
      cases reply with
      | none =>
        exact (does_stopUnanswered u runningPid).mono fun l'' b _ _ hu => .unanswered h hu
      | some reply =>
        cases runningPid with
        | none => exact .pure (.answered h)
        | some p =>
          exact (does_waitOrTerminate p pidPath u).mono fun l'' b _ _ hw => .waited h hw

end DaemonLifecycle

/-! ## What stopping never does -/

section Guarded

open Pid
open DaemonLifecycle (STOP_TIMEOUT)

/-- What `stop` may do after the calls `before`: send a signal only to the recorded process, while
it is there, at most once, and not before the daemon has left the request unanswered or has had its
time; and remove the pid file only when it has seen the recorded process gone. -/
def StopMay (before : List (ℕ × SysCall)) : ℕ × SysCall → Prop
  | (t, .killProcess p _) =>
    (0 < p ∧ p < 2 ^ 31) ∧
    (∃ pid, toPid pid = some p ∧ Recorded pidPath pid before ∧ SeenAlive pid before) ∧
    (∀ c ∈ before, ∀ q r, c.2 ≠ .killProcess q r) ∧
    ((∃ t₀, (t₀, .send socketPath .stop none) ∈ before) ∨
      ∃ t₀ reply, (t₀, .send socketPath .stop (some reply)) ∈ before ∧ t₀ + STOP_TIMEOUT ≤ t)
  | (_, .removeFile name _) =>
    name = pidPath ∧ ∃ pid, Recorded pidPath pid before ∧ SeenGone pid before
  | (_, .send socket request _) => socket = socketPath ∧ request = .stop
  | (_, .readToString name _) => name = pidPath
  | (_, .testKillProcess p _) => ∃ pid, toPid pid = some p ∧ Recorded pidPath pid before
  | (_, .now) => True
  | (_, .sleep _) => True
  | _ => False

variable {pre l : List (ℕ × SysCall)} {p : UInt32} {b : Bool} {timeout : ℕ}

theorem guarded_looks (h : Looks p l b) (hrec : Recorded pidPath p pre) : Guarded StopMay pre l :=
  .of_forall fun c hc pre' hpre => by
    obtain ⟨q, r, hq, heq⟩ := h.calls c hc
    obtain ⟨t, call⟩ := c
    obtain rfl : call = .testKillProcess q r := heq
    exact ⟨p, hq, hrec.mono hpre⟩

theorem guarded_waitsFor (h : WaitsFor p pidPath timeout l b) (hrec : Recorded pidPath p pre) :
    Guarded StopMay pre l := by
  obtain ⟨h⟩ := h
  refine ⟨trivial, Waits.guarded ?_ ?_ h⟩
  · rintro pre' ⟨t, call⟩ hpre hcall
    rcases hcall with h | h | ⟨q, r, hq, h⟩
    · obtain rfl : call = .now := h
      trivial
    · obtain rfl : call = .sleep POLL_INTERVAL := h
      trivial
    · obtain rfl : call = .testKillProcess q r := h
      exact ⟨p, hq, hrec.mono ((List.prefix_append _ _).trans hpre)⟩
  · intro pre' t ok hpre hgone
    exact ⟨rfl, p, hrec.mono ((List.prefix_append _ _).trans hpre), hgone⟩

theorem WaitsFor.calls {path : Str} (h : WaitsFor p path timeout l b) : ∀ c ∈ l, c.2 = .now ∨
    c.2 = .sleep POLL_INTERVAL ∨ (∃ q r, c.2 = .testKillProcess q r) ∨
    ∃ ok, c.2 = .removeFile path ok := by
  obtain ⟨h⟩ := h
  intro c hc
  rcases List.mem_cons.1 hc with rfl | hc
  · exact .inl rfl
  rcases h.calls c hc with h | h | ⟨q, r, -, h⟩ | ⟨-, ok, h⟩
  · exact .inl h
  · exact .inr (.inl h)
  · exact .inr (.inr (.inl ⟨q, r, h⟩))
  · exact .inr (.inr (.inr ⟨ok, h⟩))

theorem WaitsFor.no_kill (h : WaitsFor p pidPath timeout l b) :
    ∀ c ∈ l, ∀ q r, c.2 ≠ .killProcess q r := by
  intro c hc q r heq
  rcases h.calls c hc with h | h | ⟨_, _, h⟩ | ⟨_, h⟩
  all_goals
    rw [h] at heq
    cases heq

theorem guarded_terminatesAndWaits (h : TerminatesAndWaits p pidPath l b)
    (hrec : Recorded pidPath p pre) (hseen : SeenAlive p pre)
    (hno : ∀ c ∈ pre, ∀ q r, c.2 ≠ .killProcess q r)
    (hasked : ∀ c ∈ l, (∃ t₀, (t₀, .send socketPath .stop none) ∈ pre) ∨
      ∃ t₀ reply, (t₀, .send socketPath .stop (some reply)) ∈ pre ∧ t₀ + STOP_TIMEOUT ≤ c.1) :
    Guarded StopMay pre l := by
  have hkill : ∀ {l b}, Terminates p l b →
      (∀ c ∈ l, (∃ t₀, (t₀, .send socketPath .stop none) ∈ pre) ∨
      ∃ t₀ reply, (t₀, .send socketPath .stop (some reply)) ∈ pre ∧ t₀ + STOP_TIMEOUT ≤ c.1) →
      Guarded StopMay pre l := by
    intro l b h hl
    cases h with
    | noPid h => trivial
    | call h =>
      have hmay := hl _ List.mem_cons_self
      exact Guarded.single_iff.2 ⟨toPid_bounds h, ⟨p, h, hrec, hseen⟩, hno, hmay⟩
  cases h with
  | unsent h => exact hkill h hasked
  | sent h hw =>
    refine Guarded.append_iff.2 ⟨hkill h fun c hc => hasked c (List.mem_append_left _ hc), ?_⟩
    exact guarded_waitsFor hw (hrec.mono (List.prefix_append _ _))

theorem FindsPid.calls {path : Str} {o : Option UInt32} (h : FindsPid path l o) : ∀ c ∈ l,
    (∃ content, c.2 = .readToString path content) ∨ ∃ q r, c.2 = .testKillProcess q r := by
  have hlooks : ∀ {p l b}, Looks p l b → ∀ c ∈ l, ∃ q r, c.2 = .testKillProcess q r := by
    intro p l b h c hc
    obtain ⟨q, r, -, heq⟩ := h.calls c hc
    exact ⟨q, r, heq⟩
  cases h with
  | absent h => exact List.forall_mem_singleton.2 (.inl ⟨_, rfl⟩)
  | dead h hl => exact List.forall_mem_cons.2 ⟨.inl ⟨_, rfl⟩, fun c hc => .inr (hlooks hl c hc)⟩
  | alive h hl => exact List.forall_mem_cons.2 ⟨.inl ⟨_, rfl⟩, fun c hc => .inr (hlooks hl c hc)⟩

theorem recorded_of_parse {path : Str} {t : ℕ} {content : Option Str}
    (h : content.bind Pid.parse = some p) (hmem : (t, .readToString path content) ∈ l) :
    Recorded path p l := by
  obtain ⟨text, rfl, hparse⟩ := Option.bind_eq_some_iff.1 h
  exact ⟨t, text, hmem, hparse⟩

theorem FindsPid.found {path : Str} {o : Option UInt32} (h : FindsPid path l o) (ho : o = some p) :
    Recorded path p l ∧ SeenAlive p l := by
  cases h with
  | absent h => cases ho
  | dead h hl => cases ho
  | @alive t content q l h hl =>
    obtain rfl := Option.some.inj ho
    exact ⟨recorded_of_parse h List.mem_cons_self, hl.seenAlive.append [_]⟩

theorem FindsPid.guarded {o : Option UInt32} (h : FindsPid pidPath l o) : Guarded StopMay [] l := by
  cases h with
  | absent h => exact Guarded.single_iff.2 rfl
  | dead h hl => exact ⟨rfl, guarded_looks hl (recorded_of_parse h List.mem_cons_self)⟩
  | alive h hl => exact ⟨rfl, guarded_looks hl (recorded_of_parse h List.mem_cons_self)⟩

theorem FindsPid.no_kill {o : Option UInt32} (h : FindsPid pidPath l o) :
    ∀ c ∈ l, ∀ q r, c.2 ≠ .killProcess q r := by
  intro c hc q r heq
  rcases h.calls c hc with ⟨_, h⟩ | ⟨_, _, h⟩
  all_goals
    rw [h] at heq
    cases heq

theorem Rereads.calls {runningPid o : Option UInt32} (h : Rereads runningPid l o) :
    ∀ c ∈ l, ∃ content, c.2 = .readToString pidPath content := by
  cases h with
  | known => exact List.forall_mem_nil _
  | read => exact List.forall_mem_singleton.2 ⟨_, rfl⟩

theorem Rereads.spec {runningPid : Option UInt32} (h : Rereads runningPid l (some p))
    (hpre : ∀ q, runningPid = some q → Recorded pidPath q pre) :
    Guarded StopMay pre l ∧ Recorded pidPath p (pre ++ l) := by
  generalize ho : some p = o at h
  cases h with
  | @known q =>
    obtain rfl := Option.some.inj ho
    exact ⟨trivial, (hpre p rfl).mono (List.prefix_append _ _)⟩
  | read =>
    exact ⟨Guarded.single_iff.2 rfl,
      recorded_of_parse ho.symm (List.mem_append_right _ List.mem_cons_self)⟩

theorem guarded_waitsOrTerminates {t : ℕ} {reply : Response} (h : WaitsOrTerminates p pidPath l b)
    (hrec : Recorded pidPath p (pre ++ [(t, .send socketPath .stop (some reply))]))
    (hno : ∀ c ∈ pre, ∀ q r, c.2 ≠ .killProcess q r)
    (htimed : World.Timed ((t, .send socketPath .stop (some reply)) :: l)) :
    Guarded StopMay (pre ++ [(t, .send socketPath .stop (some reply))]) l := by
  cases h with
  | gone h => exact guarded_waitsFor h hrec
  | @late l l' b h ht =>
    refine Guarded.append_iff.2 ⟨guarded_waitsFor h hrec, ?_⟩
    have hkill := h.no_kill
    obtain ⟨hw⟩ := h
    rename_i l u
    refine guarded_terminatesAndWaits ht (hrec.mono (List.prefix_append _ _)) ?_ ?_ ?_
    · have := hw.seenAlive.append (pre ++ [(t, .send socketPath .stop (some reply)), (u, .now)])
      simpa using this
    · intro c hc
      rcases List.mem_append.1 hc with hc | hc
      · rcases List.mem_append.1 hc with hc | hc
        · exact hno c hc
        · obtain rfl := List.mem_singleton.1 hc
          exact fun q r h => by cases h
      · exact hkill c hc
    · intro c hc
      refine .inr ⟨t, reply, by simp, ?_⟩
      -- asked, started to wait, gave up waiting, sent the signal
      obtain ⟨l'', v, rfl, hv⟩ := hw.late_cases
      rw [World.Timed, List.pairwise_cons] at htimed
      have hstart : t + 0 ≤ u := htimed.1 (u, .now) (by simp)
      obtain ⟨-, -, hcross⟩ := List.pairwise_append.1 htimed.2
      have hlate : v + c.2.pause ≤ c.1 := hcross (v, .now) (by simp) c hc
      omega

theorem stopsUnanswered_guarded {runningPid : Option UInt32} {t : ℕ}
    (h : StopsUnanswered runningPid l b) (hsent : (t, .send socketPath .stop none) ∈ pre)
    (hno : ∀ c ∈ pre, ∀ q r, c.2 ≠ .killProcess q r)
    (hpre : ∀ q, runningPid = some q → Recorded pidPath q pre) : Guarded StopMay pre l := by
  cases h with
  | none h =>
    generalize ho : Option.none = o at h
    cases h with
    | known => cases ho
    | read => exact Guarded.single_iff.2 rfl
  | dead h hl =>
    obtain ⟨hguard, hrec⟩ := h.spec hpre
    refine Guarded.append_iff.2 ⟨hguard, Guarded.append_iff.2 ⟨guarded_looks hl hrec, ?_⟩⟩
    exact Guarded.single_iff.2
      ⟨rfl, _, hrec.mono (List.prefix_append _ _), hl.seenGone.append _⟩
  | alive h hl ht =>
    obtain ⟨hguard, hrec⟩ := h.spec hpre
    refine Guarded.append_iff.2 ⟨hguard, Guarded.append_iff.2 ⟨guarded_looks hl hrec, ?_⟩⟩
    refine guarded_terminatesAndWaits ht (hrec.mono (List.prefix_append _ _))
      (hl.seenAlive.append _) ?_ fun c hc => .inl ⟨t, by simp [hsent]⟩
    intro c hc
    rcases List.mem_append.1 hc with hc | hc
    · rcases List.mem_append.1 hc with hc | hc
      · exact hno c hc
      · intro q r heq
        obtain ⟨_, h'⟩ := h.calls c hc
        rw [h'] at heq
        cases heq
    · intro q r heq
      obtain ⟨q', r', -, h'⟩ := hl.calls c hc
      rw [h'] at heq
      cases heq

theorem Stops.guarded (h : Stops l b) (htimed : World.Timed l) : Guarded StopMay [] l := by
  cases h with
  | answered h =>
    exact Guarded.append_iff.2 ⟨h.guarded, Guarded.single_iff.2 ⟨rfl, rfl⟩⟩
  | waited h hw =>
    obtain ⟨-, htimed', -⟩ := List.pairwise_append.1 htimed
    refine Guarded.append_iff.2 ⟨h.guarded, ⟨rfl, rfl⟩, ?_⟩
    have hrec := (h.found rfl).1
    exact guarded_waitsOrTerminates hw (hrec.mono (List.prefix_append _ _)) h.no_kill htimed'
  | @unanswered l l' t runningPid b h hu =>
    refine Guarded.append_iff.2 ⟨h.guarded, ⟨rfl, rfl⟩, ?_⟩
    refine stopsUnanswered_guarded hu (t := t) (List.mem_append_right _ List.mem_cons_self) ?_ ?_
    · intro c hc
      rcases List.mem_append.1 hc with hc | hc
      · exact h.no_kill c hc
      · obtain rfl := List.mem_singleton.1 hc
        exact fun q r h => by cases h
    · exact fun q hq => (h.found hq).1.mono (List.prefix_append _ _)

/-- **Whom a stop may hit.**  Whatever the rest of the system does meanwhile, `stop` sends a signal
at most once, only to the process that it has read from the pid file (a pid between 1 and
`i32::MAX`, so never a group of processes) and has just seen alive, and only after the daemon left
the request unanswered or had two seconds after its answer; and it removes nothing but the pid file,
and this only when the last look at that process did not find it. -/
theorem stop_guarded (w : World) : Guarded StopMay [] (traceOf DaemonLifecycle.stop w) := by
  obtain ⟨hrun, h⟩ := traceOf_spec (DaemonLifecycle.does_stop w)
  exact h.guarded (World.timed_of_run hrun).1

end Guarded

/-! ## What stopping says -/

section Result

open Pid
open DaemonLifecycle (STOP_TIMEOUT)

/-- The daemon has answered. -/
def Answered (l : List (ℕ × SysCall)) : Prop :=
  ∃ t reply, (t, .send socketPath .stop (some reply)) ∈ l

/-- A signal was sent. -/
def Signalled (l : List (ℕ × SysCall)) : Prop := ∃ t p, (t, .killProcess p .ok) ∈ l

/-- A process was found. -/
def FoundAlive (l : List (ℕ × SysCall)) : Prop :=
  ∃ t p r, (t, .testKillProcess p r) ∈ l ∧ r ≠ .error

def lastCall (l : List (ℕ × SysCall)) : Option SysCall := l.getLast?.map Prod.snd

variable {l l' : List (ℕ × SysCall)} {p : UInt32} {b : Bool} {timeout : ℕ} {path : Str}
  {c : SysCall}

theorem lastCall_concat (l : List (ℕ × SysCall)) (t : ℕ) (c : SysCall) :
    lastCall (l ++ [(t, c)]) = some c := by
  rw [lastCall, List.getLast?_concat]
  rfl

theorem lastCall_append (h : lastCall l' = some c) (l : List (ℕ × SysCall)) :
    lastCall (l ++ l') = some c := by
  obtain ⟨⟨t, d⟩, hlast, rfl⟩ := Option.map_eq_some_iff.1 h
  rw [lastCall, List.getLast?_append, hlast]
  rfl

/-- The last thing done was to try to remove the file. -/
def EndsRemoving (path : Str) (l : List (ℕ × SysCall)) : Prop :=
  ∃ ok, lastCall l = some (.removeFile path ok)

theorem not_endsRemoving (h : lastCall l = some c) (hc : ∀ ok, c ≠ .removeFile path ok) :
    ¬ EndsRemoving path l := by
  rintro ⟨ok, hlast⟩
  exact hc ok (Option.some.inj (h.symm.trans hlast))

theorem WaitsFor.endsRemoving (h : WaitsFor p path timeout l b) (pre : List (ℕ × SysCall)) :
    EndsRemoving path (pre ++ l) ↔ b = true := by
  obtain ⟨h⟩ := h
  cases b with
  | true =>
    obtain ⟨l', t, ok, rfl, -, -⟩ := h.gone_cases
    exact iff_of_true ⟨ok, lastCall_append (lastCall_concat (_ :: l') t _) pre⟩ rfl
  | false =>
    obtain ⟨l', t, rfl, -⟩ := h.late_cases
    exact iff_of_false (not_endsRemoving (lastCall_append (lastCall_concat (_ :: l') t _) pre)
      fun ok => nofun) Bool.false_ne_true

theorem Looks.lastCall (h : Looks p l true) : ∃ q r, lastCall l = some (.testKillProcess q r) := by
  obtain ⟨q, l', l'', t, r, -, rfl, -, -⟩ := h.seenAlive
  have hlen := h.length_le
  rw [List.length_append, List.length_cons] at hlen
  obtain rfl : l'' = [] := List.length_eq_zero_iff.1 (by omega)
  exact ⟨q, r, lastCall_concat l' t _⟩

/-- A signal that is sent in vain leaves the file. -/
theorem TerminatesAndWaits.endsRemoving (h : TerminatesAndWaits p path l b) {pre : List (ℕ × SysCall)}
    (hpre : ¬ EndsRemoving path pre) :
    (EndsRemoving path (pre ++ l) ↔ b = true) ∧ (b = true → Signalled l) := by
  cases h with
  | unsent h =>
    refine ⟨iff_of_false ?_ Bool.false_ne_true, fun h => absurd h Bool.false_ne_true⟩
    generalize false = sent at h
    cases h with
    | noPid h => rwa [List.append_nil]
    | call h => exact not_endsRemoving (lastCall_concat pre _ _) fun ok => nofun
  | @sent l l' b h hw =>
    rw [← List.append_assoc]
    constructor
    · exact hw.endsRemoving _
    · intro _
      generalize hb : true = sent at h
      cases h with
      | noPid h => cases hb
      | @call q t r h =>
        obtain rfl : r = .ok := of_decide_eq_true hb.symm
        exact ⟨t, q, List.mem_append_left _ List.mem_cons_self⟩

theorem FindsPid.foundAlive {o : Option UInt32} (h : FindsPid pidPath l o) :
    FoundAlive l ↔ o ≠ none := by
  have hdead : ∀ {p l}, Looks p l false → ∀ t q r, (t, .testKillProcess q r) ∈ l → r = .error := by
    intro p l h t q r hmem
    rcases h.seenGone with hp | ⟨q', l', t', -, rfl⟩
    · obtain ⟨_, _, hq, -⟩ := h.calls _ hmem
      rw [hp] at hq
      cases hq
    · have hlen := h.length_le
      rw [List.length_append, List.length_singleton] at hlen
      obtain rfl : l' = [] := List.length_eq_zero_iff.1 (by omega)
      cases List.mem_singleton.1 hmem
      rfl
  cases h with
  | absent h =>
    refine iff_of_false ?_ fun h => h rfl
    rintro ⟨t, q, r, hmem, -⟩
    cases List.mem_singleton.1 hmem
  | dead h hl =>
    refine iff_of_false ?_ fun h => h rfl
    rintro ⟨t, q, r, hmem, hr⟩
    rcases List.mem_cons.1 hmem with heq | hmem
    · cases heq
    · exact hr (hdead hl t q r hmem)
  | alive h hl =>
    refine iff_of_true ?_ (Option.some_ne_none _)
    obtain ⟨q, l', l'', t, r, -, rfl, hr, -⟩ := hl.seenAlive
    exact ⟨t, q, r, by simp, hr⟩

theorem WaitsOrTerminates.endsRemoving (h : WaitsOrTerminates p path l b) (pre : List (ℕ × SysCall)) :
    EndsRemoving path (pre ++ l) ↔ b = true := by
  cases h with
  | gone h => exact h.endsRemoving pre
  | late h ht =>
    rw [← List.append_assoc]
    exact (ht.endsRemoving fun hend => Bool.false_ne_true ((h.endsRemoving pre).1 hend)).1

theorem StopsUnanswered.no_send {runningPid : Option UInt32} (h : StopsUnanswered runningPid l b) :
    ∀ c ∈ l, ∀ s r a, c.2 ≠ .send s r a := by
  have hread : ∀ {l o}, Rereads runningPid l o → ∀ c ∈ l, ∀ s r a, c.2 ≠ .send s r a := by
    intro l o h c hc s r a heq
    obtain ⟨_, h⟩ := h.calls c hc
    rw [h] at heq
    cases heq
  have hlooks : ∀ {p l b}, Looks p l b → ∀ c ∈ l, ∀ s r a, c.2 ≠ .send s r a := by
    intro p l b h c hc s r a heq
    obtain ⟨_, _, -, h⟩ := h.calls c hc
    rw [h] at heq
    cases heq
  have hkill : ∀ {p l b}, Terminates p l b → ∀ c ∈ l, ∀ s r a, c.2 ≠ .send s r a := by
    intro p l b h
    cases h with
    | noPid h => exact List.forall_mem_nil _
    | call h => exact List.forall_mem_singleton.2 fun s r a h => by cases h
  intro c hc
  cases h with
  | none h => exact hread h c hc
  | dead h hl =>
    rcases List.mem_append.1 hc with hc | hc
    · exact hread h c hc
    rcases List.mem_append.1 hc with hc | hc
    · exact hlooks hl c hc
    · obtain rfl := List.mem_singleton.1 hc
      exact fun s r a h => by cases h
  | alive h hl ht =>
    rcases List.mem_append.1 hc with hc | hc
    · exact hread h c hc
    rcases List.mem_append.1 hc with hc | hc
    · exact hlooks hl c hc
    cases ht with
    | unsent ht => exact hkill ht c hc
    | sent ht hw =>
      rcases List.mem_append.1 hc with hc | hc
      · exact hkill ht c hc
      · intro s r a heq
        rcases hw.calls c hc with h | h | ⟨_, _, h⟩ | ⟨_, h⟩
        all_goals
          rw [h] at heq
          cases heq

theorem Signalled.append (h : Signalled l) (pre : List (ℕ × SysCall)) : Signalled (pre ++ l) := by
  obtain ⟨t, q, hmem⟩ := h
  exact ⟨t, q, List.mem_append_right _ hmem⟩

theorem StopsUnanswered.result {runningPid : Option UInt32} (h : StopsUnanswered runningPid l b)
    {pre : List (ℕ × SysCall)} (hno : ∀ c ∈ pre, ∀ q r, c.2 ≠ .killProcess q r) :
    b = true ↔ Signalled (pre ++ l) ∧ EndsRemoving pidPath (pre ++ l) := by
  cases h with
  | none h =>
    generalize ho : Option.none = o at h
    cases h with
    | known => cases ho
    | read =>
      refine iff_of_false Bool.false_ne_true ?_
      rintro ⟨-, ok, hlast⟩
      rw [lastCall_concat] at hlast
      cases hlast
  | dead h hl =>
    refine iff_of_false Bool.false_ne_true ?_
    rintro ⟨⟨t, q, hmem⟩, -⟩
    rcases List.mem_append.1 hmem with hmem | hmem
    · exact hno _ hmem q .ok rfl
    rcases List.mem_append.1 hmem with hmem | hmem
    · obtain ⟨_, h⟩ := h.calls _ hmem
      cases h
    rcases List.mem_append.1 hmem with hmem | hmem
    · obtain ⟨_, _, -, h⟩ := hl.calls _ hmem
      cases h
    · cases List.mem_singleton.1 hmem
  | @alive l l' l'' p b h hl ht =>
    obtain ⟨q, r, hlast⟩ := Looks.lastCall hl
    have hlast' := lastCall_append (lastCall_append hlast l) pre
    have hend : ¬ EndsRemoving pidPath (pre ++ (l ++ l')) := not_endsRemoving hlast' fun ok => nofun
    have hresult := ht.endsRemoving hend
    have heq : pre ++ (l ++ (l' ++ l'')) = pre ++ (l ++ l') ++ l'' := by simp
    rw [heq, hresult.1]
    exact ⟨fun hb => ⟨(hresult.2 hb).append _, hb⟩, fun h => h.2⟩

/-- **What the answer of a stop means.**  It is yes exactly when the daemon has answered and there
was no live process to wait for, or the daemon has answered or a signal was sent and the last thing
the stop did was to remove the pid file, or to try; before that it has seen the recorded process
gone, and after a removal that worked there is no pid file. -/
theorem stop_result (w : World) :
    ((DaemonLifecycle.stop w).1 = true ↔
      Answered (traceOf DaemonLifecycle.stop w) ∧ ¬ FoundAlive (traceOf DaemonLifecycle.stop w) ∨
      (Answered (traceOf DaemonLifecycle.stop w) ∨ Signalled (traceOf DaemonLifecycle.stop w)) ∧
        EndsRemoving pidPath (traceOf DaemonLifecycle.stop w)) ∧
    ∀ ok, lastCall (traceOf DaemonLifecycle.stop w) = some (.removeFile pidPath ok) →
      (ok = true → (DaemonLifecycle.stop w).2.files pidPath = none) ∧ ∃ l t p,
        traceOf DaemonLifecycle.stop w = l ++ [(t, .removeFile pidPath ok)] ∧
        Recorded pidPath p l ∧ SeenGone p l := by
  obtain ⟨hrun, h⟩ := traceOf_spec (DaemonLifecycle.does_stop w)
  have hguard := h.guarded (World.timed_of_run hrun).1
  generalize traceOf DaemonLifecycle.stop w = l at h hrun hguard ⊢
  generalize DaemonLifecycle.stop w = result at h hrun ⊢
  obtain ⟨b, w'⟩ := result
  dsimp only at h hrun ⊢
  constructor
  · cases h with
    | @answered l t reply h =>
      refine iff_of_true rfl (.inl ⟨⟨t, reply, by simp⟩, ?_⟩)
      rintro ⟨u, q, r, hmem, hr⟩
      rcases List.mem_append.1 hmem with hmem | hmem
      · exact h.foundAlive.1 ⟨u, q, r, hmem, hr⟩ rfl
      · cases List.mem_singleton.1 hmem
    | @waited l l' t reply p b h hw =>
      obtain ⟨u, q, r, hmem, hr⟩ := h.foundAlive.2 (Option.some_ne_none p)
      have hfound : FoundAlive (l ++ (t, .send socketPath .stop (some reply)) :: l') :=
        ⟨u, q, r, List.mem_append_left _ hmem, hr⟩
      have hanswered : Answered (l ++ (t, .send socketPath .stop (some reply)) :: l') :=
        ⟨t, reply, by simp⟩
      have heq : l ++ (t, .send socketPath .stop (some reply)) :: l' =
        (l ++ [(t, .send socketPath .stop (some reply))]) ++ l' := by simp
      rw [← hw.endsRemoving (l ++ [(t, .send socketPath .stop (some reply))]), ← heq]
      exact ⟨fun h => .inr ⟨.inl hanswered, h⟩, fun h =>
        h.elim (fun h => absurd hfound h.2) And.right⟩
    | @unanswered l l' t runningPid b h hu =>
      have hsend : ∀ c ∈ l ++ [(t, SysCall.send socketPath .stop none)],
          ∀ q r, c.2 ≠ .killProcess q r := by
        intro c hc
        rcases List.mem_append.1 hc with hc | hc
        · exact h.no_kill c hc
        · obtain rfl := List.mem_singleton.1 hc
          exact fun q r h => by cases h
      have hno : ¬ Answered (l ++ (t, .send socketPath .stop none) :: l') := by
        rintro ⟨u, reply, hmem⟩
        rcases List.mem_append.1 hmem with hmem | hmem
        · rcases h.calls _ hmem with ⟨_, h⟩ | ⟨_, _, h⟩
          · cases h
          · cases h
        rcases List.mem_cons.1 hmem with h | hmem
        · cases h
        · exact hu.no_send _ hmem _ _ _ rfl
      have heq : l ++ (t, .send socketPath .stop none) :: l' =
        (l ++ [(t, .send socketPath .stop none)]) ++ l' := by simp
      rw [hu.result hsend, ← heq]
      exact ⟨fun h => .inr ⟨.inr h.1, h.2⟩, fun h => h.elim (fun h => absurd h.1 hno) fun h =>
        ⟨h.1.resolve_left hno, h.2⟩⟩
  · intro ok hlast
    obtain ⟨⟨t, c⟩, hc, rfl : c = _⟩ := Option.map_eq_some_iff.1 hlast
    obtain ⟨l', rfl⟩ : ∃ l', l = l' ++ [(t, .removeFile pidPath ok)] :=
      ⟨l.dropLast, (List.dropLast_append_getLast? _ hc).symm⟩
    obtain ⟨-, hmay⟩ := Guarded.append_iff.1 hguard
    obtain ⟨-, p, hrec, hgone⟩ := Guarded.single_iff.1 hmay
    obtain ⟨v, -, hstep⟩ := Run.snoc_iff.1 hrun
    refine ⟨fun hok => ?_, l', t, p, rfl, hrec, hgone⟩
    subst hok
    cases hstep
    show Function.update v.filesNext pidPath none pidPath = none
    exact Function.update_self _ _ _

end Result

/-! ## How long stopping takes -/

section Time

open Pid
open DaemonLifecycle (STOP_TIMEOUT)

/-- The time that the calls ask to wait, in all. -/
def pauses (l : List (ℕ × SysCall)) : ℕ := (l.map fun c => c.2.pause).sum

variable {l l' : List (ℕ × SysCall)} {p : UInt32} {b : Bool} {timeout : ℕ} {path : Str}

theorem pauses_append (l l' : List (ℕ × SysCall)) : pauses (l ++ l') = pauses l + pauses l' := by
  rw [pauses, List.map_append, List.sum_append]
  rfl

theorem pauses_eq_zero (h : ∀ c ∈ l, c.2.pause = 0) : pauses l = 0 :=
  List.sum_eq_zero fun n hn => by
    obtain ⟨c, hc, rfl⟩ := List.mem_map.1 hn
    exact h c hc

/-- A wait looks once more than it sleeps, and sleeps while there is time left. -/
theorem WaitsFor.rounds (h : WaitsFor p path timeout l b) (htimed : World.Timed l) :
    ∃ n, l.length ≤ 3 * n + 3 ∧ pauses l = n * POLL_INTERVAL ∧
      (n = 0 ∨ (n - 1) * POLL_INTERVAL < timeout) := by
  cases h with
  | @start l t b h =>
    rw [World.Timed, List.pairwise_cons] at htimed
    have hstart : ∀ c ∈ l, t ≤ c.1 := fun c hc =>
      (Nat.le_add_right t c.2.pause).trans (htimed.1 c hc)
    obtain ⟨n, hlen, hpause, hn⟩ := h.rounds htimed.2 hstart
    refine ⟨n, Nat.succ_le_succ hlen, ?_, hn.imp_right fun hn => by omega⟩
    rw [← hpause, pauses, List.map_cons, List.sum_cons]
    exact Nat.zero_add _

theorem WaitsFor.stop_bounds (h : WaitsFor p path STOP_TIMEOUT l b) (htimed : World.Timed l) :
    l.length ≤ 303 ∧ pauses l ≤ STOP_TIMEOUT := by
  obtain ⟨n, hlen, hpause, hn⟩ := h.rounds htimed
  unfold STOP_TIMEOUT POLL_INTERVAL at *
  omega

theorem Terminates.bounds (h : Terminates p l b) : l.length ≤ 1 ∧ pauses l = 0 := by
  cases h with
  | noPid h => exact ⟨Nat.zero_le 1, rfl⟩
  | call h => exact ⟨Nat.le_refl 1, rfl⟩

theorem TerminatesAndWaits.bounds (h : TerminatesAndWaits p path l b) (htimed : World.Timed l) :
    l.length ≤ 304 ∧ pauses l ≤ STOP_TIMEOUT := by
  cases h with
  | unsent h =>
    obtain ⟨hlen, hpause⟩ := Terminates.bounds h
    omega
  | sent h hw =>
    obtain ⟨hlen, hpause⟩ := Terminates.bounds h
    obtain ⟨hlen', hpause'⟩ := hw.stop_bounds (List.pairwise_append.1 htimed).2.1
    rw [List.length_append, pauses_append]
    omega

theorem WaitsOrTerminates.bounds (h : WaitsOrTerminates p path l b) (htimed : World.Timed l) :
    l.length ≤ 607 ∧ pauses l ≤ 2 * STOP_TIMEOUT := by
  cases h with
  | gone h =>
    obtain ⟨hlen, hpause⟩ := h.stop_bounds htimed
    omega
  | late h ht =>
    obtain ⟨hl, hl', -⟩ := List.pairwise_append.1 htimed
    obtain ⟨hlen, hpause⟩ := h.stop_bounds hl
    obtain ⟨hlen', hpause'⟩ := ht.bounds hl'
    rw [List.length_append, pauses_append]
    omega

theorem FindsPid.bounds {o : Option UInt32} (h : FindsPid pidPath l o) :
    l.length ≤ 2 ∧ pauses l = 0 := by
  constructor
  · cases h with
    | absent h => exact Nat.le_succ 1
    | dead h hl => exact Nat.succ_le_succ hl.length_le
    | alive h hl => exact Nat.succ_le_succ hl.length_le
  · refine pauses_eq_zero fun c hc => ?_
    rcases h.calls c hc with ⟨_, h⟩ | ⟨_, _, h⟩
    · rw [h]
      rfl
    · rw [h]
      rfl

theorem Rereads.bounds {runningPid o : Option UInt32} (h : Rereads runningPid l o) :
    l.length ≤ 1 ∧ pauses l = 0 := by
  cases h with
  | known => exact ⟨Nat.zero_le 1, rfl⟩
  | read => exact ⟨Nat.le_refl 1, rfl⟩

theorem StopsUnanswered.bounds {runningPid : Option UInt32} (h : StopsUnanswered runningPid l b)
    (htimed : World.Timed l) : l.length ≤ 306 ∧ pauses l ≤ STOP_TIMEOUT := by
  cases h with
  | none h =>
    obtain ⟨hlen, hpause⟩ := h.bounds
    omega
  | @dead l l' p t ok h hl =>
    obtain ⟨hlen, hpause⟩ := h.bounds
    have hlooks := hl.length_le
    have hremove : pauses [(t, SysCall.removeFile pidPath ok)] = 0 := rfl
    have hpause' : pauses l' = 0 := hl.pause
    rw [List.length_append, List.length_append, List.length_singleton, pauses_append, pauses_append]
    omega
  | @alive l l' l'' p b h hl ht =>
    obtain ⟨hlen, hpause⟩ := h.bounds
    have hlooks := hl.length_le
    have hpause' : pauses l' = 0 := hl.pause
    obtain ⟨-, htimed', -⟩ := List.pairwise_append.1 htimed
    obtain ⟨hlen'', hpause''⟩ := ht.bounds (List.pairwise_append.1 htimed').2.1
    rw [List.length_append, List.length_append, pauses_append, pauses_append]
    omega

theorem Stops.bounds (h : Stops l b) (htimed : World.Timed l) :
    l.length ≤ 610 ∧ pauses l ≤ 2 * STOP_TIMEOUT := by
  cases h with
  | answered h =>
    obtain ⟨hlen, hpause⟩ := h.bounds
    rw [List.length_append, List.length_singleton, pauses_append, hpause]
    exact ⟨by omega, Nat.zero_le _⟩
  | @waited l l' t reply p b h hw =>
    obtain ⟨hlen, hpause⟩ := h.bounds
    obtain ⟨-, htimed', -⟩ := List.pairwise_append.1 htimed
    obtain ⟨hlen', hpause'⟩ := hw.bounds (List.pairwise_cons.1 htimed').2
    have hcons : pauses ((t, .send socketPath .stop (some reply)) :: l') = pauses l' :=
      Nat.zero_add _
    rw [List.length_append, List.length_cons, pauses_append, hcons]
    omega
  | @unanswered l l' t runningPid b h hu =>
    obtain ⟨hlen, hpause⟩ := h.bounds
    obtain ⟨-, htimed', -⟩ := List.pairwise_append.1 htimed
    obtain ⟨hlen', hpause'⟩ := hu.bounds (List.pairwise_cons.1 htimed').2
    have hcons : pauses ((t, .send socketPath .stop none) :: l') = pauses l' := Nat.zero_add _
    rw [List.length_append, List.length_cons, pauses_append, hcons]
    omega

/-- **A stop ends.**  It makes at most 610 calls, and takes no longer than four seconds and what
these calls take. -/
theorem stop_ends (w : World) :
    (traceOf DaemonLifecycle.stop w).length ≤ 610 ∧
    (DaemonLifecycle.stop w).2.now ≤ w.now + 4000000000 +
      ∑ i ∈ Finset.range (traceOf DaemonLifecycle.stop w).length, (w.turns i).delay := by
  obtain ⟨hrun, h⟩ := traceOf_spec (DaemonLifecycle.does_stop w)
  obtain ⟨hlen, hpause⟩ := h.bounds (World.timed_of_run hrun).1
  have hnow := World.now_of_run hrun
  have htimeout : 2 * STOP_TIMEOUT = 4000000000 := rfl
  unfold pauses at hpause
  refine ⟨hlen, ?_⟩
  omega

end Time

end MergeReady.Daemon
