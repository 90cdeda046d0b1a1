import Mathlib.Logic.Function.Basic
import MergeReady.Lib.Digits
import MergeReady.Lib.Effect
import MergeReady.Lib.Machine

/-!
# The rotating log writer

`logger.rs`: the diagnostic log is one active file and numbered backups, and a writer that moves the
active file to backup 1 (and every backup one further) when a write would make it too long.

Every file operation can fail: `Disk.fault` counts the operations that still succeed before one fails.
On a disk without a fault each operation and each function has one outcome, and the `Yields` lemmas
say which; `rotated` is what `rotate_files` makes of the directory.
-/

namespace MergeReady.Evaluation

open Lib

/-! ## The policy -/

structure LogRotationPolicy where
  max_bytes : UInt64
  max_backups : UInt32
deriving DecidableEq

/-- `DEFAULT_LOG_MAX_BYTES` -/
def defaultLogMaxBytes : UInt64 := 1024 * 1024

/-- `DEFAULT_LOG_MAX_BACKUPS` -/
def defaultLogMaxBackups : UInt32 := 4

/-- The two functions that read a limit differ in the type of the number only: `parse` reads one. -/
def parsePositive {α : Type} [LT α] [DecidableLT α] [OfNat α 0] (parse : Str → Option α)
    (value : Option Str) (default : α) : α :=
  ((value.bind fun v => parse (Str.trim v)).filter fun v => 0 < v).getD default

def parsePositiveU64 : Option Str → UInt64 → UInt64 :=
  parsePositive fun s => (s.parseUnsigned (2 ^ 64)).map UInt64.ofNat

def parsePositiveU32 : Option Str → UInt32 → UInt32 :=
  parsePositive fun s => (s.parseUnsigned (2 ^ 32)).map UInt32.ofNat

def LogRotationPolicy.parse (max_bytes max_backups : Option Str) : LogRotationPolicy where
  max_bytes := parsePositiveU64 max_bytes defaultLogMaxBytes
  max_backups := parsePositiveU32 max_backups defaultLogMaxBackups

theorem parsePositive_pos {α : Type} [LT α] [DecidableLT α] [OfNat α 0] {parse : Str → Option α}
    {default : α} (hpos : 0 < default) (value : Option Str) :
    0 < parsePositive parse value default := by
  unfold parsePositive
  cases h : (value.bind fun v => parse (Str.trim v)).filter fun v => 0 < v with
  | none => exact hpos
  | some n => exact of_decide_eq_true (Option.filter_eq_some_iff.1 h).2

/-- Whatever the environment holds, a policy read from it has both limits at least 1. -/
theorem LogRotationPolicy.parse_pos (max_bytes max_backups : Option Str) :
    1 ≤ (parse max_bytes max_backups).max_bytes.toNat ∧
      1 ≤ (parse max_bytes max_backups).max_backups.toNat := by
  have hbytes : 0 < parsePositiveU64 max_bytes defaultLogMaxBytes :=
    parsePositive_pos (by decide) max_bytes
  have hbackups : 0 < parsePositiveU32 max_backups defaultLogMaxBackups :=
    parsePositive_pos (by decide) max_backups
  rw [UInt64.lt_iff_toNat_lt] at hbytes
  rw [UInt32.lt_iff_toNat_lt] at hbackups
  exact ⟨hbytes, hbackups⟩

/-! ## The directory -/

/-- A file of the directory: the active one, or `backup_path` of an index. -/
inductive LogPath
  | active
  | backup (index : ℕ)
deriving DecidableEq

/-- The content of a file, whose length `metadata` reports as a `u64`. -/
structure LogFile where
  bytes : List UInt8
  len_lt : bytes.length < 2 ^ 64
deriving DecidableEq

/-- `OpenOptions::create` makes an empty file. -/
def LogFile.empty : LogFile := ⟨[], by decide⟩

/-- `Metadata::len` -/
def LogFile.len (f : LogFile) : UInt64 := UInt64.ofNat f.bytes.length

@[simp] theorem LogFile.toNat_len (f : LogFile) : f.len.toNat = f.bytes.length :=
  UInt64.toNat_ofNat_of_lt' f.len_lt

/-- How many bytes of a buffer one `File::write` appends: what the system accepts of it, and never
more than a file can hold. -/
def LogFile.taken (f : LogFile) (buf : List UInt8) (accepted : ℕ) : ℕ :=
  min (min accepted buf.length) (2 ^ 64 - 1 - f.bytes.length)

def LogFile.append (f : LogFile) (buf : List UInt8) (accepted : ℕ) : LogFile where
  bytes := f.bytes ++ buf.take (f.taken buf accepted)
  len_lt := by
    have := f.len_lt
    rw [List.length_append, List.length_take]
    unfold taken
    omega

theorem LogFile.taken_le (f : LogFile) (buf : List UInt8) (accepted : ℕ) :
    f.taken buf accepted ≤ buf.length :=
  (Nat.min_le_left _ _).trans (Nat.min_le_right _ _)

theorem LogFile.length_append (f : LogFile) (buf : List UInt8) (accepted : ℕ) :
    (f.append buf accepted).bytes.length = f.bytes.length + f.taken buf accepted := by
  unfold append
  rw [List.length_append, List.length_take, Nat.min_eq_left (f.taken_le buf accepted)]

abbrev LogDir := LogPath → Option LogFile

/-- The directory, and when the next failure of a file operation is due.  `rotations` is a history
that no function reads: the directories on which `rotate_files` was called, the last call first. -/
structure Disk where
  dir : LogDir
  fault : Option ℕ
  rotations : List LogDir

/-- `io::Error` -/
inductive IoError
  | notFound
  | failed
  | other (message : String)
deriving DecidableEq

/-! ## File operations -/

/-- What every file operation does first: it fails when a fault is due. -/
def operation : Effect Disk IoError Unit := do
  match (← get).fault with
  | none => pure ()
  | some 0 => do
    modify fun d => { d with fault := none }
    throw .failed
  | some (n + 1) => modify fun d => { d with fault := some n }

/-- `std::fs::metadata`, of which the code reads the length. -/
def metadata (path : LogPath) : Effect Disk IoError UInt64 := do
  operation
  match (← get).dir path with
  | some f => pure f.len
  | none => throw .notFound

/-- `std::fs::remove_file` -/
def removeFile (path : LogPath) : Effect Disk IoError Unit := do
  operation
  match (← get).dir path with
  | some _ => modify fun d => { d with dir := Function.update d.dir path none }
  | none => throw .notFound

/-- `std::fs::rename`, which replaces a file at its destination. -/
def rename (src dst : LogPath) : Effect Disk IoError Unit := do
  operation
  match (← get).dir src with
  | some f => modify fun d =>
      { d with dir := Function.update (Function.update d.dir src none) dst (some f) }
  | none => throw .notFound

/-- The open active file; the writer opens no other one, and gives it up before it moves it. -/
structure LogHandle
deriving DecidableEq

def openActiveLog : Effect Disk IoError LogHandle := do
  operation
  modify fun d =>
    { d with dir := Function.update d.dir .active (some ((d.dir .active).getD .empty)) }
  pure ⟨⟩

/-- `File::flush` -/
def LogHandle.flush (_ : LogHandle) : Effect Disk IoError Unit := operation

/-- `File::write` on a file opened to append, when the system takes up to `accepted` bytes.  A file
that lost its name takes them too, and nobody finds them. -/
def LogHandle.write (_ : LogHandle) (buf : List UInt8) (accepted : ℕ) :
    Effect Disk IoError ℕ := do
  operation
  match (← get).dir .active with
  | some f => do
    modify fun d => { d with dir := Function.update d.dir .active (some (f.append buf accepted)) }
    pure (f.taken buf accepted)
  | none => pure (LogFile.empty.taken buf accepted)

def removeIfExists (path : LogPath) : Effect Disk IoError Unit := do
  match ← (removeFile path).result with
  | .ok () => pure ()
  | .error .notFound => pure ()
  | .error e => throw e

def renameIfExists (src dst : LogPath) : Effect Disk IoError Unit := do
  match ← (rename src dst).result with
  | .ok () => pure ()
  | .error .notFound => pure ()
  | .error e => throw e

/-- The loop of `rotate_files` over `(1..=n).rev()`. -/
def shiftBackups : ℕ → Effect Disk IoError Unit
  | 0 => pure ()
  | n + 1 => do
    renameIfExists (.backup (n + 1)) (.backup (n + 2))
    shiftBackups n

def rotateFiles (max_backups : UInt32) : Effect Disk IoError Unit := do
  modify fun d => { d with rotations := d.dir :: d.rotations }
  removeIfExists (.backup max_backups.toNat)
  shiftBackups (max_backups.toNat - 1)
  match ← (metadata .active).result with
  | .ok len => if 0 < len then rename .active (.backup 1) else removeIfExists .active
  | .error .notFound => pure ()
  | .error e => throw e

/-! ## The writer -/

/-- `RotatingLogWriter`, whose `path` is `.active`. -/
structure RotatingLogWriter where
  file : Option LogHandle
  current_size : UInt64
  policy : LogRotationPolicy
deriving DecidableEq

/-- A writer and the disk it works on. -/
structure LogSession where
  disk : Disk
  writer : RotatingLogWriter

def onDisk {α : Type} (x : Effect Disk IoError α) : Effect LogSession IoError α :=
  x.within LogSession.disk fun d s => { s with disk := d }

namespace RotatingLogWriter

/-- `Result::map_or` -/
def mapOr {α β : Type} (default : β) (f : α → β) : Except IoError α → β
  | .ok a => f a
  | .error _ => default

def «open» (policy : LogRotationPolicy) : Effect Disk IoError RotatingLogWriter := do
  let oversize := mapOr false (fun len => decide (policy.max_bytes < len))
    (← (metadata .active).result)
  (if oversize then rotateFiles policy.max_backups else pure ())
  let current_size := mapOr 0 id (← (metadata .active).result)
  let file ← openActiveLog
  pure { file := some file, current_size, policy }

def fileMut : Effect LogSession IoError LogHandle := do
  match (← get).writer.file with
  | some file => pure file
  | none => throw (.other "log file is not open")

def rotate : Effect LogSession IoError Unit := do
  let self := (← get).writer
  match self.file with
  | some file => do
    modify fun s => { s with writer := { s.writer with file := none } }
    onDisk file.flush
  | none => pure ()
  onDisk (rotateFiles self.policy.max_backups)
  let file ← onDisk openActiveLog
  modify fun s => { s with writer := { s.writer with file := some file, current_size := 0 } }

def write (buf : List UInt8) (accepted : ℕ) : Effect LogSession IoError ℕ :=
  if buf = [] then pure 0
  else do
    let incoming := u64Sat buf.length
    let self := (← get).writer
    (if self.policy.max_bytes < satAdd self.current_size incoming then rotate else pure ())
    let file ← fileMut
    let written ← onDisk (file.write buf accepted)
    modify fun s => { s with
      writer := { s.writer with current_size := satAdd s.writer.current_size (u64Sat written) } }
    let self := (← get).writer
    (if self.policy.max_bytes < self.current_size then rotate else pure ())
    pure written

end RotatingLogWriter

/-! ## What the operations do on a disk without a fault -/

section Yields

open Effect

variable {dir : LogDir} {rs : List LogDir} {path src dst : LogPath}

theorem operation_yields : Yields operation ⟨dir, none, rs⟩ () ⟨dir, none, rs⟩ := rfl

theorem metadata_yields {f : LogFile} (h : dir path = some f) :
    Yields (metadata path) ⟨dir, none, rs⟩ f.len ⟨dir, none, rs⟩ := by
  refine operation_yields.bind (yields_get.bind ?_)
  simp only [h]
  exact yields_pure

theorem metadata_fails (h : dir path = none) :
    Fails (metadata path) ⟨dir, none, rs⟩ .notFound ⟨dir, none, rs⟩ := by
  refine operation_yields.bind_fails (yields_get.bind_fails ?_)
  simp only [h]
  exact fails_throw

theorem removeFile_yields {f : LogFile} (h : dir path = some f) : Yields (removeFile path)
    ⟨dir, none, rs⟩ () ⟨Function.update dir path none, none, rs⟩ := by
  refine operation_yields.bind (yields_get.bind ?_)
  simp only [h]
  exact yields_modify _

theorem removeFile_fails (h : dir path = none) :
    Fails (removeFile path) ⟨dir, none, rs⟩ .notFound ⟨dir, none, rs⟩ := by
  refine operation_yields.bind_fails (yields_get.bind_fails ?_)
  simp only [h]
  exact fails_throw

theorem rename_yields {f : LogFile} (h : dir src = some f) :
    Yields (rename src dst) ⟨dir, none, rs⟩ ()
      ⟨Function.update (Function.update dir src none) dst (some f), none, rs⟩ := by
  refine operation_yields.bind (yields_get.bind ?_)
  simp only [h]
  exact yields_modify _

theorem rename_fails (h : dir src = none) :
    Fails (rename src dst) ⟨dir, none, rs⟩ .notFound ⟨dir, none, rs⟩ := by
  refine operation_yields.bind_fails (yields_get.bind_fails ?_)
  simp only [h]
  exact fails_throw

theorem removeIfExists_yields : Yields (removeIfExists path) ⟨dir, none, rs⟩ ()
    ⟨Function.update dir path none, none, rs⟩ := by
  cases h : dir path with
  | none =>
    rw [Function.update_eq_self_iff.2 h.symm]
    exact (removeFile_fails h).result.bind yields_pure
  | some f => exact (removeFile_yields h).result.bind yields_pure

/-- A rename onto a missing file moves what is there, also when nothing is. -/
theorem renameIfExists_yields (hdst : dir dst = none) :
    Yields (renameIfExists src dst) ⟨dir, none, rs⟩ ()
      ⟨Function.update (Function.update dir src none) dst (dir src), none, rs⟩ := by
  cases h : dir src with
  | none =>
    have hsrc : Function.update dir src none = dir := Function.update_eq_self_iff.2 h.symm
    rw [hsrc, Function.update_eq_self_iff.2 hdst.symm]
    exact (rename_fails h).result.bind yields_pure
  | some f => exact (rename_yields h).result.bind yields_pure

theorem openActiveLog_yields : Yields openActiveLog ⟨dir, none, rs⟩ ⟨⟩
    ⟨Function.update dir .active (some ((dir .active).getD .empty)), none, rs⟩ :=
  operation_yields.bind ((yields_modify _).bind yields_pure)

theorem LogHandle.write_yields (h : LogHandle) {f : LogFile} (hf : dir .active = some f)
    (buf : List UInt8) (accepted : ℕ) : Yields (h.write buf accepted) ⟨dir, none, rs⟩
      (f.taken buf accepted)
      ⟨Function.update dir .active (some (f.append buf accepted)), none, rs⟩ := by
  refine operation_yields.bind (yields_get.bind ?_)
  simp only [hf]
  exact (yields_modify _).bind yields_pure

/-- The directory after the first `n` backups have moved one further, of which the one behind them
had been removed. -/
def shifted (n : ℕ) (dir : LogDir) : LogDir
  | .active => dir .active
  | .backup 0 => dir (.backup 0)
  | .backup 1 => none
  | .backup (i + 2) => if i < n then dir (.backup (i + 1)) else dir (.backup (i + 2))

theorem shifted_succ {n : ℕ} (h : dir (.backup (n + 2)) = none) :
    shifted n (Function.update (Function.update dir (.backup (n + 1)) none) (.backup (n + 2))
      (dir (.backup (n + 1)))) = shifted (n + 1) dir := by
  funext p
  match p with
  | .active => rfl
  | .backup 0 => simp [shifted]
  | .backup 1 => rfl
  | .backup (i + 2) =>
    rcases Nat.lt_trichotomy i n with hi | rfl | hi
    · have h1 : i ≠ n := Nat.ne_of_lt hi
      simp [shifted, hi, Nat.lt_succ_of_lt hi, h1, show i ≠ n + 1 by omega]
    · simp [shifted]
    · have h1 : i ≠ n := Nat.ne_of_gt hi
      simp [shifted, Nat.not_lt_of_gt hi, h1, show i + 1 ≠ n by omega, show ¬ i < n + 1 by omega]

/-- The loop finds the slot it moves a backup to empty: it moved the one there before, and the last
one was removed. -/
theorem shiftBackups_yields (n : ℕ) (h : dir (.backup (n + 1)) = none) :
    Yields (shiftBackups n) ⟨dir, none, rs⟩ () ⟨shifted n dir, none, rs⟩ := by
  induction n generalizing dir with
  | zero =>
    have hdir : shifted 0 dir = dir := by
      funext p
      match p with
      | .active => rfl
      | .backup 0 => rfl
      | .backup 1 => exact h.symm
      | .backup (i + 2) => simp [shifted]
    rw [hdir]
    exact yields_pure
  | succ n ih =>
    rw [← shifted_succ h]
    refine (renameIfExists_yields h).bind (ih ?_)
    simp

/-- The active file as a rotation takes it out: nothing when it is missing or empty. -/
def rotatedOut (dir : LogDir) : Option LogFile :=
  (dir .active).filter fun f => f.bytes ≠ []

/-- What `rotate_files` makes of a directory. -/
def rotated (n : ℕ) (dir : LogDir) : LogDir
  | .active => none
  | .backup 0 => dir (.backup 0)
  | .backup 1 => rotatedOut dir
  | .backup (i + 2) => if i + 2 ≤ n then dir (.backup (i + 1)) else dir (.backup (i + 2))

theorem rotated_eq {n : ℕ} (hn : 1 ≤ n) :
    Function.update (Function.update (shifted (n - 1) (Function.update dir (.backup n) none))
      .active none) (.backup 1) (rotatedOut dir) = rotated n dir := by
  obtain ⟨n, rfl⟩ := Nat.exists_eq_add_of_le' hn
  funext p
  match p with
  | .active => rfl
  | .backup 0 => simp [shifted, rotated]
  | .backup 1 => simp [rotated]
  | .backup (i + 2) =>
    by_cases hi : i < n
    · simp [shifted, rotated, hi, Nat.succ_le_of_lt hi, Nat.ne_of_lt hi]
    · have h1 : ¬ i + 1 ≤ n := by omega
      simp [shifted, rotated, hi, h1, show i + 1 ≠ n by omega]

theorem rotateFiles_yields {max_backups : UInt32} (hn : 1 ≤ max_backups.toNat) :
    Yields (rotateFiles max_backups) ⟨dir, none, rs⟩ ()
      ⟨rotated max_backups.toNat dir, none, dir :: rs⟩ := by
  have hslot : Function.update dir (.backup max_backups.toNat) none
      (.backup (max_backups.toNat - 1 + 1)) = none := by
    rw [Nat.sub_add_cancel hn, Function.update_self]
  refine (yields_modify _).bind (removeIfExists_yields.bind ((shiftBackups_yields _ hslot).bind ?_))
  rw [← rotated_eq hn]
  generalize hfirst : shifted (max_backups.toNat - 1)
    (Function.update dir (.backup max_backups.toNat) none) = moved
  have hactive : moved .active = dir .active := by rw [← hfirst]; rfl
  -- backup 1 has moved on, so a rotation that takes nothing out leaves it missing
  have hslot1 : Function.update (Function.update moved .active none) (.backup 1) none =
      Function.update moved .active none :=
    Function.update_eq_self_iff.2 (by rw [← hfirst]; rfl)
  cases hdir : dir .active with
  | none =>
    have hout : rotatedOut dir = none := by rw [rotatedOut, hdir]; rfl
    refine (metadata_fails (hactive.trans hdir)).result.bind ?_
    rw [hout, hslot1, Function.update_eq_self_iff.2 (hactive.trans hdir).symm]
    exact yields_pure
  | some f =>
    refine (metadata_yields (hactive.trans hdir)).result.bind (Yields.ite ?_ ?_)
    · intro hlen
      have hne : f.bytes ≠ [] := by
        rintro hf
        rw [UInt64.lt_iff_toNat_lt, LogFile.toNat_len, hf] at hlen
        exact absurd hlen (by decide)
      have hout : rotatedOut dir = some f := by simp [rotatedOut, hdir, hne]
      rw [hout]
      exact rename_yields (hactive.trans hdir)
    · intro hlen
      have hempty : f.bytes = [] := by
        rw [UInt64.lt_iff_toNat_lt, LogFile.toNat_len] at hlen
        exact List.eq_nil_of_length_eq_zero (Nat.eq_zero_of_not_pos hlen)
      have hout : rotatedOut dir = none := by simp [rotatedOut, hdir, hempty]
      rw [hout, hslot1]
      exact removeIfExists_yields

theorem onDisk_yields {α : Type} {x : Effect Disk IoError α} {s : LogSession} {a : α} {d : Disk}
    (h : Yields x s.disk a d) : Yields (onDisk x) s a { s with disk := d } :=
  Yields.within h

end Yields

/-! ## What the writer does on a disk without a fault -/

namespace LogSession

open Effect

/-- A writer between two calls, on a disk without a fault. -/
structure Ready (s : LogSession) : Prop where
  fault : s.disk.fault = none
  file : s.writer.file = some ⟨⟩
  active : ∃ f, s.disk.dir .active = some f
  backups : 1 ≤ s.writer.policy.max_backups.toNat

def activeFile (s : LogSession) : LogFile := (s.disk.dir .active).getD .empty

/-- What `rotate` makes of a session. -/
def rotated (s : LogSession) : LogSession where
  disk := { s.disk with
    dir := Function.update (Evaluation.rotated s.writer.policy.max_backups.toNat s.disk.dir)
      .active (some .empty)
    rotations := s.disk.dir :: s.disk.rotations }
  writer := { s.writer with file := some ⟨⟩, current_size := 0 }

/-- The session after the active file took bytes of a buffer. -/
def appended (s : LogSession) (buf : List UInt8) (accepted : ℕ) : LogSession where
  disk := { s.disk with
    dir := Function.update s.disk.dir .active (some (s.activeFile.append buf accepted)) }
  writer := { s.writer with
    current_size := satAdd s.writer.current_size (u64Sat (s.activeFile.taken buf accepted)) }

/-- The session after the check whether `size` passes the limit. -/
def checked (s : LogSession) (size : UInt64) : LogSession :=
  if s.writer.policy.max_bytes < size then s.rotated else s

/-- The session whose active file takes the bytes of a write. -/
def prepared (s : LogSession) (buf : List UInt8) : LogSession :=
  s.checked (satAdd s.writer.current_size (u64Sat buf.length))

/-- What `write` makes of a session. -/
def written (s : LogSession) (buf : List UInt8) (accepted : ℕ) : LogSession :=
  if buf = [] then s
  else
    ((s.prepared buf).appended buf accepted).checked
      ((s.prepared buf).appended buf accepted).writer.current_size

/-- How many bytes `write` reports. -/
def count (s : LogSession) (buf : List UInt8) (accepted : ℕ) : ℕ :=
  if buf = [] then 0 else (s.prepared buf).activeFile.taken buf accepted

variable {s : LogSession} {buf : List UInt8} {accepted : ℕ}

theorem Ready.activeFile_eq (hs : s.Ready) : s.disk.dir .active = some s.activeFile := by
  obtain ⟨f, hf⟩ := hs.active
  rw [activeFile, hf]
  rfl

/-- After a rotation the writer is ready, whether it had a file before or not. -/
theorem rotated_ready (hfault : s.disk.fault = none)
    (hn : 1 ≤ s.writer.policy.max_backups.toNat) : s.rotated.Ready where
  fault := hfault
  file := rfl
  active := ⟨.empty, by simp [LogSession.rotated]⟩
  backups := hn

theorem Ready.rotated (hs : s.Ready) : s.rotated.Ready := rotated_ready hs.fault hs.backups

theorem Ready.appended (hs : s.Ready) : (s.appended buf accepted).Ready where
  fault := hs.fault
  file := hs.file
  active := ⟨s.activeFile.append buf accepted, by simp [LogSession.appended]⟩
  backups := hs.backups

theorem Ready.checked (hs : s.Ready) (size : UInt64) : (s.checked size).Ready := by
  unfold LogSession.checked
  split
  · exact hs.rotated
  · exact hs

theorem Ready.prepared (hs : s.Ready) : (s.prepared buf).Ready := hs.checked _

theorem Ready.written (hs : s.Ready) : (s.written buf accepted).Ready := by
  unfold LogSession.written
  split
  · exact hs
  · exact hs.prepared.appended.checked _

theorem rotate_yields (hfault : s.disk.fault = none)
    (hn : 1 ≤ s.writer.policy.max_backups.toNat) :
    Yields RotatingLogWriter.rotate s () s.rotated := by
  obtain ⟨⟨dir, fault, rs⟩, ⟨file, size, policy⟩⟩ := s
  obtain rfl : fault = none := hfault
  refine yields_get.bind ?_
  cases file with
  | none =>
    refine (onDisk_yields (rotateFiles_yields hn)).bind ?_
    exact (onDisk_yields openActiveLog_yields).bind (yields_modify _)
  | some file =>
    refine (yields_modify _).bind ((onDisk_yields operation_yields).bind ?_)
    refine (onDisk_yields (rotateFiles_yields hn)).bind ?_
    exact (onDisk_yields openActiveLog_yields).bind (yields_modify _)

theorem Ready.rotate_yields (hs : s.Ready) : Yields RotatingLogWriter.rotate s () s.rotated :=
  LogSession.rotate_yields hs.fault hs.backups

/-- A check at the end of a call, or before the file takes anything. -/
theorem Ready.check_yields (hs : s.Ready) (size : UInt64) :
    Yields (if s.writer.policy.max_bytes < size then RotatingLogWriter.rotate else pure ()) s ()
      (s.checked size) := by
  unfold LogSession.checked
  split
  · exact hs.rotate_yields
  · exact yields_pure

theorem Ready.append_yields (hs : s.Ready) (buf : List UInt8) (accepted : ℕ) :
    Yields (onDisk (LogHandle.write ⟨⟩ buf accepted)) s (s.activeFile.taken buf accepted)
      { s with disk := (s.appended buf accepted).disk } := by
  have hf := hs.activeFile_eq
  obtain ⟨⟨dir, fault, rs⟩, ⟨file, size, policy⟩⟩ := s
  obtain ⟨rfl, -, -, -⟩ := hs
  exact onDisk_yields (LogHandle.write_yields ⟨⟩ hf buf accepted)

/-- The check before a write, and then the write. -/
theorem write_yields_of_prepared
    (hcheck : Yields (if s.writer.policy.max_bytes < satAdd s.writer.current_size (u64Sat buf.length)
      then RotatingLogWriter.rotate else pure ()) s () (s.prepared buf))
    (hp : (s.prepared buf).Ready) (hbuf : buf ≠ []) (accepted : ℕ) :
    Yields (RotatingLogWriter.write buf accepted) s (s.count buf accepted)
      (s.written buf accepted) := by
  unfold RotatingLogWriter.write LogSession.count LogSession.written
  rw [if_neg hbuf, if_neg hbuf, if_neg hbuf]
  refine yields_get.bind (hcheck.bind ?_)
  have hfile : Yields RotatingLogWriter.fileMut (s.prepared buf) ⟨⟩ (s.prepared buf) := by
    refine yields_get.bind ?_
    simp only [hp.file]
    exact yields_pure
  refine hfile.bind ((hp.append_yields buf accepted).bind ((yields_modify _).bind ?_))
  exact yields_get.bind ((hp.appended.check_yields _).bind yields_pure)

/-- A write on a disk without a fault succeeds, and this is what it does. -/
theorem Ready.write_yields (hs : s.Ready) (buf : List UInt8) (accepted : ℕ) :
    Yields (RotatingLogWriter.write buf accepted) s (s.count buf accepted)
      (s.written buf accepted) := by
  by_cases hbuf : buf = []
  · subst hbuf
    exact yields_pure
  · exact write_yields_of_prepared (hs.check_yields _) hs.prepared hbuf accepted

end LogSession

/-- The directory on which `open` opens the active file. -/
def openDir (policy : LogRotationPolicy) (dir : LogDir) : LogDir :=
  if policy.max_bytes < (dir .active).elim 0 LogFile.len then
    rotated policy.max_backups.toNat dir
  else dir

/-- The session of a writer just opened. -/
def opened (policy : LogRotationPolicy) (dir : LogDir) : LogSession where
  disk :=
    { dir := Function.update (openDir policy dir) .active
        (some ((openDir policy dir .active).getD .empty))
      fault := none
      rotations := if policy.max_bytes < (dir .active).elim 0 LogFile.len then [dir] else [] }
  writer :=
    { file := some ⟨⟩
      current_size := (openDir policy dir .active).elim 0 LogFile.len
      policy := policy }

section

open Effect

theorem metadata_result_yields (dir : LogDir) (rs : List LogDir) :
    ∃ r, Yields (metadata .active).result ⟨dir, none, rs⟩ r ⟨dir, none, rs⟩ ∧
      ∀ {β : Type} (default : β) (f : UInt64 → β), RotatingLogWriter.mapOr default f r =
        (dir .active).elim default fun file => f file.len := by
  cases h : dir .active with
  | none => exact ⟨_, (metadata_fails h).result, fun _ _ => rfl⟩
  | some f => exact ⟨_, (metadata_yields h).result, fun _ _ => rfl⟩

theorem open_yields {policy : LogRotationPolicy} (hn : 1 ≤ policy.max_backups.toNat)
    (dir : LogDir) : Yields (RotatingLogWriter.«open» policy) ⟨dir, none, []⟩
      (opened policy dir).writer (opened policy dir).disk := by
  obtain ⟨r, hr, hoversize⟩ := metadata_result_yields dir []
  have hcond : RotatingLogWriter.mapOr false (fun len => decide (policy.max_bytes < len)) r = true ↔
      policy.max_bytes < (dir .active).elim 0 LogFile.len := by
    rw [hoversize]
    cases dir .active with
    | none => simp
    | some f => exact decide_eq_true_iff
  have hrotate : Yields (if RotatingLogWriter.mapOr false
      (fun len => decide (policy.max_bytes < len)) r then rotateFiles policy.max_backups
      else pure ()) ⟨dir, none, []⟩ ()
      ⟨openDir policy dir, none, (opened policy dir).disk.rotations⟩ := by
    refine Yields.ite ?_ ?_
    · intro h
      simp only [openDir, opened, hcond.1 h, if_true]
      exact rotateFiles_yields hn
    · intro h
      simp only [openDir, opened, mt hcond.2 h, if_false]
      exact yields_pure
  obtain ⟨r', hr', hsize⟩ := metadata_result_yields (openDir policy dir)
    (opened policy dir).disk.rotations
  refine hr.bind (hrotate.bind (hr'.bind (openActiveLog_yields.bind ?_)))
  rw [hsize]
  exact yields_pure

theorem opened_ready {policy : LogRotationPolicy} (hn : 1 ≤ policy.max_backups.toNat)
    (dir : LogDir) : (opened policy dir).Ready where
  fault := rfl
  file := rfl
  active := ⟨(openDir policy dir .active).getD .empty, by simp [opened]⟩
  backups := hn

end

end MergeReady.Evaluation
