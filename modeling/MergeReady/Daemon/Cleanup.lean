import MergeReady.Daemon.Stop

/-!
# Cleaning up after old versions

A daemon that has started looks for the pid files of other versions, stops the daemons that are
still there, and removes the files of all of them, while it serves and while others start and stop.
-/

namespace MergeReady.Daemon

open MergeReady.Lib
open MergeReady.Shared

/-! ## Old files -/

/-- `path.file_stem()`: the name without its extension, where a dot in front starts none. -/
def fileStem (name : Str) : Str :=
  let stem := (name.rdropWhile (· ≠ '.')).dropLast
  if stem = [] then name else stem

/-- `path.with_file_name(format!("{stem}.sock"))` -/
def sockOf (pidPath : Str) : Str := fileStem pidPath ++ SOCKET_EXT

/-- A pid file, but not that of this version. -/
def isOldPidFile (name : Str) : Bool :=
  SOCKET_PREFIX.isPrefixOf name && PID_EXT.isSuffixOf name && decide (name ≠ pidPath)

def oldDaemonPidFiles : StateM World (List Str) := do
  let names ← Sys.readDir
  return names.filter isOldPidFile

/-! ## The clean-up -/

namespace Restart

/-- 5 s -/
def OLD_DAEMON_STOP_TIMEOUT : ℕ := 5000000000

def removeBoth (oldPidPath : Str) : StateM World Unit := do
  let _ ← Sys.removeFile (sockOf oldPidPath)
  let _ ← Sys.removeFile oldPidPath

def cleanupOne (oldPidPath : Str) : StateM World Unit := do
  match ← Pid.read oldPidPath with
  | none => removeBoth oldPidPath
  | some p =>
    if ← Pid.isAlive p then
      let _ ← DaemonClient.stop (sockOf oldPidPath)
      -- the files go in any case
      let _ ← Pid.waitUntilGone p oldPidPath OLD_DAEMON_STOP_TIMEOUT
      removeBoth oldPidPath
    else removeBoth oldPidPath

def cleanupEach : List Str → StateM World Unit
  | [] => return ()
  | oldPidPath :: rest => do
    cleanupOne oldPidPath
    cleanupEach rest

def cleanupOldVersions : StateM World Unit := do cleanupEach (← oldDaemonPidFiles)

end Restart

/-! ## Names of files -/

section Names

variable {name v ext : Str}

theorem rdropWhile_append_cons {c : Char} {q : Char → Bool} {s t : Str} (hc : ¬ q c)
    (ht : ∀ d ∈ t, q d) : (s ++ c :: t).rdropWhile q = s ++ [c] := by
  have hdrop : (t.reverse ++ c :: s.reverse).dropWhile q = (c :: s.reverse).dropWhile q :=
    List.dropWhile_append_of_pos fun d hd => ht d (List.mem_reverse.1 hd)
  rw [List.rdropWhile, List.reverse_append, List.reverse_cons, List.append_assoc,
    List.singleton_append, hdrop, List.dropWhile_cons_of_neg hc, List.reverse_cons,
    List.reverse_reverse]

theorem fileStem_pid (v : Str) : fileStem (SOCKET_PREFIX ++ v ++ PID_EXT) = SOCKET_PREFIX ++ v := by
  have hdrop : (SOCKET_PREFIX ++ v ++ PID_EXT).rdropWhile (· ≠ '.') =
      SOCKET_PREFIX ++ v ++ ['.'] :=
    rdropWhile_append_cons (by decide) (List.all_eq_true.1 (by decide))
  have hne : SOCKET_PREFIX ++ v ≠ [] := List.append_ne_nil_of_left_ne_nil (by decide) v
  unfold fileStem
  rw [hdrop, List.dropLast_concat]
  exact if_neg hne

theorem sockOf_pid (v : Str) :
    sockOf (SOCKET_PREFIX ++ v ++ PID_EXT) = SOCKET_PREFIX ++ v ++ SOCKET_EXT :=
  congrArg (· ++ SOCKET_EXT) (fileStem_pid v)

/-- The `-` in front of the version is none of the extension. -/
theorem isOldPidFile_iff : isOldPidFile name = true ↔
    ∃ v, v ≠ DAEMON_VERSION ∧ name = SOCKET_PREFIX ++ v ++ PID_EXT := by
  simp only [isOldPidFile, Bool.and_eq_true, decide_eq_true_eq, List.isPrefixOf_iff_prefix,
    List.isSuffixOf_iff_suffix]
  constructor
  · rintro ⟨⟨⟨t, rfl⟩, u, hu⟩, hne⟩
    rcases List.append_eq_append_iff.1 hu with ⟨m, hfront, hext⟩ | ⟨m, -, rfl⟩
    · have hm : m = [] := by
        by_contra hm
        obtain ⟨l, c, rfl⟩ := List.eq_nil_or_concat' m |>.resolve_left hm
        have hlast : SOCKET_PREFIX.getLast? = some c := by
          rw [hfront, ← List.append_assoc, List.getLast?_concat]
        obtain rfl : '-' = c := Option.some.inj hlast
        have hmem : '-' ∈ PID_EXT := by
          rw [hext]
          simp
        exact absurd hmem (by decide)
      subst hm
      refine ⟨[], by decide, ?_⟩
      rw [List.nil_append] at hext
      rw [List.append_nil, hext]
    · rw [← List.append_assoc] at hne ⊢
      refine ⟨m, fun h => hne ?_, rfl⟩
      rw [h]
      rfl
  · rintro ⟨v, hv, rfl⟩
    refine ⟨⟨⟨v ++ PID_EXT, (List.append_assoc _ _ _).symm⟩, SOCKET_PREFIX ++ v, rfl⟩, fun h =>
      hv ?_⟩
    exact List.append_cancel_left (List.append_cancel_right h)

end Names

/-! ## What the clean-up does -/

namespace Restart

open Pid

inductive RemovesBoth (path : Str) : List (ℕ × SysCall) → Prop
  | both {t t' : ℕ} {ok ok' : Bool} :
      RemovesBoth path [(t, .removeFile (sockOf path) ok), (t', .removeFile path ok')]

/-- The calls of `cleanup_one`. -/
inductive CleansUp (path : Str) : List (ℕ × SysCall) → Prop
  | stale {l l' : List (ℕ × SysCall)} (h : FindsPid path l none) (hr : RemovesBoth path l') :
      CleansUp path (l ++ l')
  | alive {l l' l'' : List (ℕ × SysCall)} {t : ℕ} {reply : Option Response} {p : UInt32} {b : Bool}
      (h : FindsPid path l (some p)) (hw : WaitsFor p path OLD_DAEMON_STOP_TIMEOUT l' b)
      (hr : RemovesBoth path l'') :
      CleansUp path (l ++ (t, .send (sockOf path) .stop reply) :: (l' ++ l''))

inductive CleansEach : List Str → List (ℕ × SysCall) → Prop
  | nil : CleansEach [] []
  | cons {path : Str} {paths : List Str} {l l' : List (ℕ × SysCall)} (h : CleansUp path l)
      (hrest : CleansEach paths l') : CleansEach (path :: paths) (l ++ l')

theorem does_removeBoth (path : Str) (w : World) : Does World.Step (removeBoth path) w
    fun l _ _ => RemovesBoth path l :=
  (makes_removeFile (sockOf path) w).bind fun l _ v _ h =>
    (makes_removeFile path v).bind fun l' _ u _ h' => .pure (by rw [h, h']; exact .both)

theorem does_cleanupOne (path : Str) (w : World) :
    Does World.Step (cleanupOne path) w fun l _ _ => CleansUp path l :=
  (does_read path w).bind fun l o v _ h => by
    obtain ⟨content, rfl, rfl⟩ := h
    cases hp : content.bind parse with
    | none => exact (does_removeBoth path v).mono fun l' _ _ _ hr => .stale (.absent hp) hr
    | some p =>
      refine (does_isAlive p v).bind fun l' alive u _ hl => ?_
      cases alive with
      | false =>
        refine (does_removeBoth path u).mono fun l'' _ _ _ hr => ?_
        exact .stale (l := _ :: l') (.dead hp hl) hr
      | true =>
        refine (DaemonLifecycle.does_stopRequest u (sockOf path)).bind fun l₁ _ u₁ _ hs =>
          (DaemonLifecycle.does_waitUntilGone p path OLD_DAEMON_STOP_TIMEOUT u₁).bind
            fun l₂ _ u₂ _ hw => (does_removeBoth path u₂).mono fun l₃ _ _ _ hr => ?_
        obtain ⟨t, reply, rfl, -⟩ := hs
        have hfinds : FindsPid path ((v.now, .readToString path content) :: l') (some p) :=
          .alive hp hl
        have hclean : CleansUp path (((v.now, .readToString path content) :: l') ++
            (t, .send (sockOf path) .stop reply) :: (l₂ ++ l₃)) := .alive hfinds hw hr
        exact hclean

theorem does_cleanupEach (paths : List Str) (w : World) :
    Does World.Step (cleanupEach paths) w fun l _ _ => CleansEach paths l := by
  induction paths generalizing w with
  | nil => exact .pure .nil
  | cons path paths ih =>
    exact (does_cleanupOne path w).bind fun l _ v _ h => (ih v).mono fun l' _ _ _ hrest =>
      .cons h hrest

theorem does_cleanupOldVersions (w : World) : Does World.Step cleanupOldVersions w
    fun l _ _ => ∃ t names l', l = (t, .readDir names) :: l' ∧
      CleansEach (names.filter isOldPidFile) l' :=
  Does.bind (R := fun l paths _ => ∃ t names, l = [(t, .readDir names)] ∧
      paths = names.filter isOldPidFile)
    ((makes_readDir w).bind fun _ names v _ h => .pure ⟨v.now, names, by rw [h]; rfl, rfl⟩)
    fun l paths v _ h => by
      obtain ⟨t, names, rfl, rfl⟩ := h
      exact (does_cleanupEach _ v).mono fun l' _ _ _ hl => ⟨t, names, l', rfl, hl⟩

/-! ## What is removed -/

variable {l l' : List (ℕ × SysCall)} {path : Str} {paths : List Str}

/-- What a clean-up of one version calls. -/
inductive CleansCall (path : Str) : SysCall → Prop
  | now : CleansCall path .now
  | sleep {duration : ℕ} : CleansCall path (.sleep duration)
  | read {content : Option Str} : CleansCall path (.readToString path content)
  | look {q : ℕ} {r : KillResult} : CleansCall path (.testKillProcess q r)
  | stop {reply : Option Response} : CleansCall path (.send (sockOf path) .stop reply)
  | removeSock {ok : Bool} : CleansCall path (.removeFile (sockOf path) ok)
  | removePid {ok : Bool} : CleansCall path (.removeFile path ok)

theorem RemovesBoth.calls (h : RemovesBoth path l) : ∀ c ∈ l, CleansCall path c.2 := by
  obtain ⟨⟩ := h
  exact List.forall_mem_cons.2 ⟨.removeSock, List.forall_mem_singleton.2 .removePid⟩

theorem CleansUp.calls (h : CleansUp path l) : ∀ c ∈ l, CleansCall path c.2 := by
  have hfinds : ∀ {l o}, FindsPid path l o → ∀ c ∈ l, CleansCall path c.2 := by
    intro l o h c hc
    rcases h.calls c hc with ⟨content, h⟩ | ⟨q, r, h⟩
    · rw [h]
      exact .read
    · rw [h]
      exact .look
  intro c hc
  cases h with
  | stale h hr =>
    rcases List.mem_append.1 hc with hc | hc
    · exact hfinds h c hc
    · exact hr.calls c hc
  | alive h hw hr =>
    rcases List.mem_append.1 hc with hc | hc
    · exact hfinds h c hc
    rcases List.mem_cons.1 hc with rfl | hc
    · exact .stop
    rcases List.mem_append.1 hc with hc | hc
    · rcases hw.calls c hc with h | h | ⟨q, r, h⟩ | ⟨ok, h⟩
      · rw [h]
        exact .now
      · rw [h]
        exact .sleep
      · rw [h]
        exact .look
      · rw [h]
        exact .removePid
    · exact hr.calls c hc

/-- A removal of the file is tried. -/
def Removes (name : Str) (l : List (ℕ × SysCall)) : Prop := ∃ t ok, (t, .removeFile name ok) ∈ l

theorem Removes.mono {name : Str} (h : Removes name l) (hl : ∀ c ∈ l, c ∈ l') : Removes name l' := by
  obtain ⟨t, ok, hmem⟩ := h
  exact ⟨t, ok, hl _ hmem⟩

theorem RemovesBoth.removes (h : RemovesBoth path l) : Removes (sockOf path) l ∧ Removes path l := by
  obtain ⟨⟩ := h
  exact ⟨⟨_, _, List.mem_cons_self⟩, _, _, List.mem_cons_of_mem _ List.mem_cons_self⟩

/-- The removal of both files is tried, whatever was found. -/
theorem CleansUp.removes (h : CleansUp path l) : Removes (sockOf path) l ∧ Removes path l := by
  cases h with
  | stale h hr =>
    exact ⟨hr.removes.1.mono (by simp +contextual), hr.removes.2.mono (by simp +contextual)⟩
  | alive h hw hr =>
    exact ⟨hr.removes.1.mono (by simp +contextual), hr.removes.2.mono (by simp +contextual)⟩

theorem CleansEach.calls (h : CleansEach paths l) :
    ∀ c ∈ l, ∃ path ∈ paths, CleansCall path c.2 := by
  induction h with
  | nil => exact List.forall_mem_nil _
  | @cons path paths l l' h hrest ih =>
    intro c hc
    rcases List.mem_append.1 hc with hc | hc
    · exact ⟨path, List.mem_cons_self, h.calls c hc⟩
    · obtain ⟨path', hmem, hcall⟩ := ih c hc
      exact ⟨path', List.mem_cons_of_mem _ hmem, hcall⟩

theorem CleansEach.removes (h : CleansEach paths l) (hpath : path ∈ paths) :
    Removes (sockOf path) l ∧ Removes path l := by
  induction h with
  | nil => cases hpath
  | @cons path' paths l l' h hrest ih =>
    have hleft : ∀ c ∈ l, c ∈ l ++ l' := fun _ hc => List.mem_append_left _ hc
    have hright : ∀ c ∈ l', c ∈ l ++ l' := fun _ hc => List.mem_append_right _ hc
    rcases List.mem_cons.1 hpath with rfl | hpath
    · exact ⟨h.removes.1.mono hleft, h.removes.2.mono hleft⟩
    · exact ⟨(ih hpath).1.mono hright, (ih hpath).2.mono hright⟩

/-- A file that others leave alone is gone once a removal of it has worked, and as it was when none has.
-/
theorem files_of_run {w w' : World} {name : Str} (hrun : Run World.Step w l w')
    (hothers : ∀ n f, (w.turns n).files f name = f name)
    (hl : ∀ c ∈ l, (∃ ok, c.2 = .removeFile name ok) ∨ ∀ f, c.2.effect f name = f name) :
    ((∃ t, (t, .removeFile name true) ∈ l) → w'.files name = none) ∧
    ((∀ t, (t, .removeFile name true) ∉ l) → w'.files name = w.files name) := by
  induction hrun with
  | nil w => exact ⟨fun ⟨_, h⟩ => absurd h (List.not_mem_nil), fun _ => rfl⟩
  | @cons w v w' c l hstep hrun ih =>
    obtain ⟨hc⟩ := hstep
    rename_i c
    rw [List.forall_mem_cons] at hl
    obtain ⟨ih₁, ih₂⟩ := ih (fun n => hothers (n + 1)) hl.2
    have hnext : w.filesNext name = w.files name := hothers 0 w.files
    by_cases hmem : ∃ t, (t, .removeFile name true) ∈ l
    · obtain ⟨t, ht⟩ := hmem
      exact ⟨fun _ => ih₁ ⟨t, ht⟩, fun h => absurd (List.mem_cons_of_mem _ ht) (h t)⟩
    · have hend := ih₂ fun t ht => hmem ⟨t, ht⟩
      constructor
      · rintro ⟨t, ht⟩
        rcases List.mem_cons.1 ht with heq | ht
        · obtain rfl : .removeFile name true = c := congrArg Prod.snd heq
          rw [hend]
          exact Function.update_self _ _ _
        · exact absurd ⟨t, ht⟩ hmem
      · intro h
        rw [hend, ← hnext]
        rcases hl.1 with ⟨ok, heq⟩ | heq
        · obtain rfl : c = .removeFile name ok := heq
          cases ok with
          | true => exact absurd List.mem_cons_self (h _)
          | false => rfl
        · exact heq _

/-- A file that others leave alone is gone once a removal of it was tried that nothing stood in the way
of. -/
theorem gone_of_run {w w' : World} {name : Str} (hrun : Run World.Step w l w')
    (hothers : ∀ n f, (w.turns n).files f name = f name) (hok : ∀ n, (w.turns n).ok = true)
    (hl : ∀ c ∈ l, (∃ ok, c.2 = .removeFile name ok) ∨ ∀ f, c.2.effect f name = f name)
    (hremoves : Removes name l) : w'.files name = none := by
  obtain ⟨hgone, hkept⟩ := files_of_run hrun hothers hl
  by_cases hmem : ∃ t, (t, .removeFile name true) ∈ l
  · exact hgone hmem
  obtain ⟨t, ok, ht⟩ := hremoves
  cases ok with
  | true => exact absurd ⟨t, ht⟩ hmem
  | false =>
    -- the answer says that there was no file
    obtain ⟨pre, post, rfl⟩ := List.append_of_mem ht
    obtain ⟨v, hpre, hpost⟩ := Run.append_iff.1 hrun
    obtain ⟨u, hstep, -⟩ := Run.cons_iff.1 hpost
    have hbefore : v.files name = w.files name := (files_of_run hpre hothers fun c hc =>
      hl c (List.mem_append_left _ hc)).2 fun t ht => hmem ⟨t, List.mem_append_left _ ht⟩
    rw [hkept fun t ht => hmem ⟨t, ht⟩, ← hbefore]
    cases hstep with
    | call hanswer =>
      have hresult : false = removeResult (v.turns 0) v.filesNext name := hanswer
      unfold removeResult World.filesNext at hresult
      rw [World.turns_of_run hpre, hok, Bool.and_true, hothers] at hresult
      exact Option.isNone_iff_eq_none.1 (Option.isSome_eq_false_iff.1 hresult.symm)

/-- A file of another version. -/
def OldFile (v name : Str) : Prop :=
  name = SOCKET_PREFIX ++ v ++ PID_EXT ∨ name = SOCKET_PREFIX ++ v ++ SOCKET_EXT

theorem OldFile.ne_current {v name : Str} (h : OldFile v name) (hv : v ≠ DAEMON_VERSION) :
    name ≠ socketPath ∧ name ≠ pidPath ∧ name ≠ lockPath := by
  have hpid : ∀ u : Str, (u ++ PID_EXT).getLast? = some 'd' := fun u => by
    rw [List.getLast?_append]
    rfl
  have hsock : ∀ u : Str, (u ++ SOCKET_EXT).getLast? = some 'k' := fun u => by
    rw [List.getLast?_append]
    rfl
  have hlock : ∀ u : Str, SOCKET_PREFIX ++ u ≠ lockPath := fun u h => by
    have htake := congrArg (List.take SOCKET_PREFIX.length) h
    rw [List.take_left] at htake
    exact absurd htake (by decide)
  have hsame : ∀ ext : Str, SOCKET_PREFIX ++ v ++ ext ≠ SOCKET_PREFIX ++ DAEMON_VERSION ++ ext :=
    fun ext h => hv (List.append_cancel_left (List.append_cancel_right h))
  have hmixed : ∀ u u' : Str, u ++ PID_EXT ≠ u' ++ SOCKET_EXT := fun u u' h => by
    have hlast := congrArg List.getLast? h
    rw [hpid, hsock] at hlast
    exact absurd hlast (by decide)
  rcases h with rfl | rfl
  · refine ⟨hmixed _ _, hsame _, ?_⟩
    rw [List.append_assoc]
    exact hlock _
  · refine ⟨hsame _, (hmixed _ _).symm, ?_⟩
    rw [List.append_assoc]
    exact hlock _

theorem CleansCall.effect {path name : Str} {c : SysCall} (h : CleansCall path c) :
    (∃ ok, c = .removeFile name ok) ∨ ∀ f, c.effect f name = f name := by
  have hremove : ∀ (other : Str) (ok : Bool), (∃ ok', SysCall.removeFile other ok =
      .removeFile name ok') ∨ ∀ f, (SysCall.removeFile other ok).effect f name = f name := by
    intro other ok
    by_cases heq : other = name
    · exact .inl ⟨ok, by rw [heq]⟩
    · refine .inr fun f => ?_
      cases ok with
      | true => exact Function.update_of_ne (Ne.symm heq) _ _
      | false => rfl
  cases h with
  | removeSock => exact hremove _ _
  | removePid => exact hremove _ _
  | now => exact .inr fun f => rfl
  | sleep => exact .inr fun f => rfl
  | read => exact .inr fun f => rfl
  | look => exact .inr fun f => rfl
  | stop => exact .inr fun f => rfl

theorem exists_version_of_mem {names : List Str} (h : path ∈ names.filter isOldPidFile) :
    ∃ v, v ≠ DAEMON_VERSION ∧ SOCKET_PREFIX ++ v ++ PID_EXT ∈ names ∧
      path = SOCKET_PREFIX ++ v ++ PID_EXT := by
  obtain ⟨hmem, hold⟩ := List.mem_filter.1 h
  obtain ⟨v, hv, rfl⟩ := isOldPidFile_iff.1 hold
  exact ⟨v, hv, hmem, rfl⟩

/-- What is removed is of a version whose pid file was listed. -/
theorem CleansEach.oldFile {names : List Str} {name : Str} {t : ℕ} {ok : Bool}
    (h : CleansEach (names.filter isOldPidFile) l) (hmem : (t, .removeFile name ok) ∈ l) :
    ∃ v, v ≠ DAEMON_VERSION ∧ SOCKET_PREFIX ++ v ++ PID_EXT ∈ names ∧ OldFile v name := by
  obtain ⟨path, hpath, hcall⟩ := h.calls _ hmem
  obtain ⟨v, hv, hlisted, rfl⟩ := exists_version_of_mem hpath
  refine ⟨v, hv, hlisted, ?_⟩
  generalize hc : SysCall.removeFile name ok = c at hcall
  cases hcall with
  | removeSock =>
    rw [sockOf_pid] at hc
    exact .inr (SysCall.removeFile.inj hc).1
  | removePid => exact .inl (SysCall.removeFile.inj hc).1
  | _ => cases hc

/-- **What a clean-up leaves.**  The clean-up tries to remove the pid file of every other version that
stands in the directory, and the socket beside it, whether that daemon was dead, stopped in time or did
not stop at all.  A file that nobody else touches meanwhile is gone afterwards exactly if a removal of
it worked, or it was not there; so those files are all gone if no call fails.  Every other file is as it
was, and so are the files of this version. -/
theorem cleanup_files (w : World) {name : Str}
    (hothers : ∀ n f, (w.turns n).files f name = f name) :
    ((∃ v, v ≠ DAEMON_VERSION ∧ SOCKET_PREFIX ++ v ++ PID_EXT ∈ (w.turns 0).names ∧
      OldFile v name) → (∃ t ok, (t, .removeFile name ok) ∈ traceOf cleanupOldVersions w) ∧
        ((∀ n, (w.turns n).ok = true) → (cleanupOldVersions w).2.files name = none)) ∧
    ((∃ t, (t, .removeFile name true) ∈ traceOf cleanupOldVersions w) →
      (cleanupOldVersions w).2.files name = none) ∧
    ((∀ t, (t, .removeFile name true) ∉ traceOf cleanupOldVersions w) →
      (cleanupOldVersions w).2.files name = w.files name) ∧
    ((∀ v, v ≠ DAEMON_VERSION → SOCKET_PREFIX ++ v ++ PID_EXT ∈ (w.turns 0).names →
      ¬ OldFile v name) → (cleanupOldVersions w).2.files name = w.files name) ∧
    (name = socketPath ∨ name = pidPath ∨ name = lockPath →
      (cleanupOldVersions w).2.files name = w.files name) := by
  obtain ⟨hrun, t, names, l', htrace, hl⟩ := traceOf_spec (does_cleanupOldVersions w)
  rw [htrace] at hrun ⊢
  have hnames : names = (w.turns 0).names := by
    obtain ⟨v, hstep, -⟩ := Run.cons_iff.1 hrun
    cases hstep
    assumption
  rw [← hnames]
  have heffect : ∀ c ∈ (t, SysCall.readDir names) :: l', (∃ ok, c.2 = .removeFile name ok) ∨
      ∀ f, c.2.effect f name = f name := List.forall_mem_cons.2 ⟨.inr fun f => rfl, fun c hc => by
    obtain ⟨path, -, hcall⟩ := hl.calls c hc
    exact hcall.effect⟩
  obtain ⟨hgone, hkept⟩ := files_of_run hrun hothers heffect
  have hunchanged : (∀ v, v ≠ DAEMON_VERSION → SOCKET_PREFIX ++ v ++ PID_EXT ∈ names →
      ¬ OldFile v name) → (cleanupOldVersions w).2.files name = w.files name := by
    intro hnot
    refine hkept fun u hu => ?_
    rcases List.mem_cons.1 hu with heq | hu
    · cases heq
    obtain ⟨v, hv, hmem, hold⟩ := hl.oldFile hu
    exact hnot v hv hmem hold
  refine ⟨?_, hgone, hkept, hunchanged, fun hcurrent => hunchanged fun v hv _ hold => ?_⟩
  · rintro ⟨v, hv, hmem, hold⟩
    have hpath : SOCKET_PREFIX ++ v ++ PID_EXT ∈ names.filter isOldPidFile :=
      List.mem_filter.2 ⟨hmem, isOldPidFile_iff.2 ⟨v, hv, rfl⟩⟩
    have hremoves : Removes name l' := by
      obtain ⟨hsock, hpid⟩ := hl.removes hpath
      rw [sockOf_pid] at hsock
      rcases hold with rfl | rfl
      · exact hpid
      · exact hsock
    have htried := hremoves.mono fun c hc => List.mem_cons_of_mem (t, SysCall.readDir names) hc
    exact ⟨htried, fun hok => gone_of_run hrun hothers hok heffect htried⟩
  · obtain ⟨h₁, h₂, h₃⟩ := hold.ne_current hv
    rcases hcurrent with h | h | h
    · exact h₁ h
    · exact h₂ h
    · exact h₃ h

/-- One stale pid file, and nobody else around; a removal works or not. -/
def staleWorld (ok : Bool) : World where
  now := 0
  files name := if name = "daemon-1.0.4.pid".toList then some "77".toList else none
  turns _ :=
    { delay := 0, files := id, kill := fun _ => .error, names := ["daemon-1.0.4.pid".toList]
      reply := none, ok := ok }
  calls := []

theorem cleanup_files_stale :
    (cleanupOldVersions (staleWorld true)).2.files "daemon-1.0.4.pid".toList = none ∧
    (cleanupOldVersions (staleWorld false)).2.files "daemon-1.0.4.pid".toList =
      some "77".toList := by
  constructor
  · exact ((cleanup_files (staleWorld true) fun _ _ => rfl).1
      ⟨"1.0.4".toList, by decide, List.mem_cons_self, .inl rfl⟩).2 fun _ => rfl
  · have htrace : traceOf cleanupOldVersions (staleWorld false) =
        [(0, .readDir ["daemon-1.0.4.pid".toList]),
          (0, .readToString "daemon-1.0.4.pid".toList (some "77".toList)),
          (0, .testKillProcess 77 .error), (0, .removeFile "daemon-1.0.4.sock".toList false),
          (0, .removeFile "daemon-1.0.4.pid".toList false)] := by decide
    refine (cleanup_files (staleWorld false) fun _ _ => rfl).2.2.1 fun t hmem => ?_
    rw [htrace] at hmem
    simp at hmem

/-! ## What the clean-up never does -/

/-- What a clean-up may do after the calls `before`: ask only daemons of other versions to stop,
whose pid file names a process that it has seen alive, and remove only files of other versions. -/
def CleanupMay (before : List (ℕ × SysCall)) : ℕ × SysCall → Prop
  | (_, .send socket request _) => request = .stop ∧ ∃ v pid, v ≠ DAEMON_VERSION ∧
    socket = SOCKET_PREFIX ++ v ++ SOCKET_EXT ∧
    Recorded (SOCKET_PREFIX ++ v ++ PID_EXT) pid before ∧ SeenAlive pid before
  | (_, .removeFile name _) => ∃ v, v ≠ DAEMON_VERSION ∧ OldFile v name
  | (_, .readToString name _) => ∃ v, v ≠ DAEMON_VERSION ∧ OldFile v name
  | (_, .testKillProcess _ _) => True
  | (_, .readDir _) => True
  | (_, .now) => True
  | (_, .sleep _) => True
  | _ => False

theorem CleansUp.guarded {v : Str} (hv : v ≠ DAEMON_VERSION)
    (h : CleansUp (SOCKET_PREFIX ++ v ++ PID_EXT) l) (pre : List (ℕ × SysCall)) :
    Guarded CleanupMay pre l := by
  have hpid : OldFile v (SOCKET_PREFIX ++ v ++ PID_EXT) := .inl rfl
  have hsock : OldFile v (sockOf (SOCKET_PREFIX ++ v ++ PID_EXT)) := .inr (sockOf_pid v)
  have hfinds : ∀ {pre l o}, FindsPid (SOCKET_PREFIX ++ v ++ PID_EXT) l o →
      Guarded CleanupMay pre l := fun h => .of_forall fun ⟨t, c⟩ hc pre' _ => by
    rcases h.calls _ hc with ⟨content, hcall⟩ | ⟨q, r, hcall⟩
    · obtain rfl : c = _ := hcall
      exact ⟨v, hv, hpid⟩
    · obtain rfl : c = _ := hcall
      trivial
  have hremove : ∀ {pre l}, RemovesBoth (SOCKET_PREFIX ++ v ++ PID_EXT) l →
      Guarded CleanupMay pre l := fun h => by
    obtain ⟨⟩ := h
    exact ⟨⟨v, hv, hsock⟩, ⟨v, hv, hpid⟩, trivial⟩
  cases h with
  | stale h hr => exact Guarded.append_iff.2 ⟨hfinds h, hremove hr⟩
  | @alive l l' l'' t reply p b h hw hr =>
    obtain ⟨hrec, hseen⟩ := h.found rfl
    refine Guarded.append_iff.2 ⟨hfinds h, ⟨rfl, v, p, hv, sockOf_pid v, ?_, hseen.append pre⟩,
      Guarded.append_iff.2 ⟨?_, hremove hr⟩⟩
    · obtain ⟨u, content, hmem, hparse⟩ := hrec
      exact ⟨u, content, List.mem_append_right _ hmem, hparse⟩
    · refine .of_forall fun ⟨u, c⟩ hc pre' _ => ?_
      rcases hw.calls _ hc with hcall | hcall | ⟨q, r, hcall⟩ | ⟨ok, hcall⟩
      · obtain rfl : c = _ := hcall
        trivial
      · obtain rfl : c = _ := hcall
        trivial
      · obtain rfl : c = _ := hcall
        trivial
      · obtain rfl : c = _ := hcall
        exact ⟨v, hv, hpid⟩

/-- **Whom a clean-up may hit.**  Whatever the rest of the system does meanwhile, the clean-up sends
no signal, writes no file, asks only daemons of other versions to stop, each after it has read the
pid of a live process from its pid file, and touches no file of this version and not the lock. -/
theorem cleanup_guarded (w : World) :
    Guarded CleanupMay [] (traceOf cleanupOldVersions w) ∧
    ∀ t name ok, (t, .removeFile name ok) ∈ traceOf cleanupOldVersions w →
      name ≠ socketPath ∧ name ≠ pidPath ∧ name ≠ lockPath := by
  obtain ⟨-, t, names, l, heq, hl⟩ := traceOf_spec (does_cleanupOldVersions w)
  have hold : ∀ path ∈ names.filter isOldPidFile, ∃ v, v ≠ DAEMON_VERSION ∧
      path = SOCKET_PREFIX ++ v ++ PID_EXT := fun path hpath =>
    isOldPidFile_iff.1 (List.mem_filter.1 hpath).2
  generalize names.filter isOldPidFile = paths at hl hold
  have heach : ∀ pre, Guarded CleanupMay pre l := by
    clear heq
    induction hl with
    | nil => exact fun _ => trivial
    | cons h hrest ih =>
      rw [List.forall_mem_cons] at hold
      obtain ⟨⟨v, hv, rfl⟩, hpaths⟩ := hold
      exact fun pre => Guarded.append_iff.2 ⟨h.guarded hv pre, ih hpaths _⟩
  rw [heq]
  have hguard : Guarded CleanupMay [] ((t, .readDir names) :: l) := ⟨trivial, heach _⟩
  refine ⟨hguard, fun u name ok hmem => ?_⟩
  obtain ⟨before, after, hsplit⟩ := List.append_of_mem hmem
  obtain ⟨v, hv, hname⟩ := Guarded.iff_split.1 hguard before _ after hsplit
  exact hname.ne_current hv

end Restart

end MergeReady.Daemon
