import MergeReady.Evaluation.Logger
import MergeReady.Lib.Run
import MergeReady.Lib.Window

/-!
# What the log directory holds

Runs of writes through one `RotatingLogWriter` on a disk without a fault, with any part of each buffer
taken.  Two facts about the directory they leave:

* read from the last backup to the active file, it is the end of everything written
  (`open_log_suffix`), and the active file is as long as the writer believes and within the limit;
* backup `i` is what the `i`-th last call of `rotate_files` took out (`Window`), which may be nothing.
  A call that finds an empty active file moves the backups all the same, and so drops one for nothing:
  as long as no such call meets a backup, the latest files are all there (`rotations_keep_latest`).
-/

namespace MergeReady.Evaluation

open Lib Effect

/-! ## Runs of writes -/

/-- One call of `write`: its buffer, what the system would take of it, and what it reported. -/
structure LogWrite where
  buf : List UInt8
  accepted : ℕ
  written : ℕ

/-- The bytes a call reports as written. -/
def LogWrite.reported (w : LogWrite) : List UInt8 := w.buf.take w.written

/-- The call succeeds from `s` and leaves `t`. -/
def Writes (s : LogSession) (w : LogWrite) (t : LogSession) : Prop :=
  Yields (RotatingLogWriter.write w.buf w.accepted) s w.written t

theorem LogSession.Ready.writes_iff {s t : LogSession} {w : LogWrite} (hs : s.Ready) :
    Writes s w t ↔ w.written = s.count w.buf w.accepted ∧ t = s.written w.buf w.accepted := by
  constructor
  · intro h
    exact h.det (hs.write_yields w.buf w.accepted)
  · rintro ⟨hw, rfl⟩
    have h := hs.write_yields w.buf w.accepted
    rw [← hw] at h
    exact h

/-! ## The log as one text -/

def content (dir : LogDir) (path : LogPath) : List UInt8 := (dir path).elim [] LogFile.bytes

/-- Backups `n` down to 1, one after the other. -/
def backupsText : ℕ → LogDir → List UInt8
  | 0, _ => []
  | n + 1, dir => content dir (.backup (n + 1)) ++ backupsText n dir

/-- Backups `n` down to 1, then the active file. -/
def logText (n : ℕ) (dir : LogDir) : List UInt8 := backupsText n dir ++ content dir .active

theorem backupsText_update_active (n : ℕ) (dir : LogDir) (f : Option LogFile) :
    backupsText n (Function.update dir .active f) = backupsText n dir := by
  induction n with
  | zero => rfl
  | succ n ih =>
    rw [backupsText, backupsText, ih]
    rfl

theorem content_rotatedOut (dir : LogDir) :
    (rotatedOut dir).elim [] LogFile.bytes = content dir .active := by
  unfold rotatedOut content
  cases dir .active with
  | none => rfl
  | some f =>
    by_cases hf : f.bytes = []
    · simp [Option.filter_some, hf]
    · simp [Option.filter_some, hf]

/-- A rotation keeps every backup but the last, and the active file comes after them. -/
theorem backupsText_rotated {n m : ℕ} (h : m + 1 ≤ n) (dir : LogDir) :
    backupsText (m + 1) (rotated n dir) = backupsText m dir ++ content dir .active := by
  induction m with
  | zero =>
    rw [backupsText, backupsText, backupsText, List.append_nil, List.nil_append]
    exact content_rotatedOut dir
  | succ m ih =>
    have hcontent : content (rotated n dir) (.backup (m + 2)) = content dir (.backup (m + 1)) := by
      simp [content, rotated, h]
    rw [backupsText, ih (Nat.le_of_succ_le h), hcontent, backupsText, List.append_assoc]

namespace LogSession

variable {s : LogSession} {buf : List UInt8} {accepted : ℕ}

def text (s : LogSession) : List UInt8 := logText s.writer.policy.max_backups.toNat s.disk.dir

theorem Ready.text_rotated (hs : s.Ready) : s.rotated.text <:+ s.text := by
  obtain ⟨n, hn⟩ := Nat.exists_eq_add_of_le' hs.backups
  have hnew : s.rotated.text = backupsText n s.disk.dir ++ content s.disk.dir .active := by
    show logText s.writer.policy.max_backups.toNat _ = _
    simp only [logText, LogSession.rotated, hn, backupsText_update_active,
      backupsText_rotated (Nat.le_refl (n + 1))]
    simp [content, LogFile.empty]
  have hold : s.text = content s.disk.dir (.backup (n + 1)) ++
      (backupsText n s.disk.dir ++ content s.disk.dir .active) := by
    rw [text, logText, hn, backupsText, List.append_assoc]
  rw [hnew, hold]
  exact List.suffix_append _ _

theorem Ready.text_appended (hs : s.Ready) : (s.appended buf accepted).text =
    s.text ++ buf.take (s.activeFile.taken buf accepted) := by
  have hold : content s.disk.dir .active = s.activeFile.bytes := by
    rw [content, hs.activeFile_eq]
    rfl
  have hnew : content (s.appended buf accepted).disk.dir .active =
      s.activeFile.bytes ++ buf.take (s.activeFile.taken buf accepted) := by
    simp [content, LogSession.appended, LogFile.append]
  rw [text, logText, hnew, text, logText, hold, List.append_assoc]
  congr 1
  exact backupsText_update_active _ _ _

/-- The writer's counter is the length of the active file. -/
def Sized (s : LogSession) : Prop := s.activeFile.bytes.length = s.writer.current_size.toNat

theorem sized_rotated : s.rotated.Sized := by
  simp [Sized, activeFile, LogSession.rotated, LogFile.empty]

theorem Sized.appended (h : s.Sized) : (s.appended buf accepted).Sized := by
  have hlen : (s.appended buf accepted).activeFile = s.activeFile.append buf accepted := by
    simp [activeFile, LogSession.appended]
  have hlt := (s.activeFile.append buf accepted).len_lt
  rw [LogFile.length_append] at hlt
  unfold Sized at h ⊢
  rw [hlen, LogFile.length_append]
  show _ = (satAdd s.writer.current_size _).toNat
  rw [toNat_satAdd, toNat_u64Sat]
  omega

/-- What is so between two calls, of a writer opened under `policy` on the directory `dir`, after
calls that reported `bytes`. -/
structure Kept (policy : LogRotationPolicy) (dir : LogDir) (bytes : List UInt8) (s : LogSession) :
    Prop where
  ready : s.Ready
  same_policy : s.writer.policy = policy
  sized : s.Sized
  others : ∀ i, i = 0 ∨ policy.max_backups.toNat < i → s.disk.dir (.backup i) = dir (.backup i)
  text : s.text <:+ logText policy.max_backups.toNat dir ++ bytes

variable {policy : LogRotationPolicy} {dir : LogDir} {bytes : List UInt8}

theorem rotated_others {n : ℕ} (dir : LogDir) (hn : 1 ≤ n) {i : ℕ} (hi : i = 0 ∨ n < i) :
    Evaluation.rotated n dir (.backup i) = dir (.backup i) := by
  match i with
  | 0 => rfl
  | 1 => omega
  | i + 2 =>
    have : ¬ i + 2 ≤ n := by omega
    simp [Evaluation.rotated, this]

theorem Kept.rotated (h : s.Kept policy dir bytes) : s.rotated.Kept policy dir bytes where
  ready := h.ready.rotated
  same_policy := h.same_policy
  sized := sized_rotated
  others := by
    intro i hi
    rw [← h.others i hi]
    have hn := h.ready.backups
    rw [← h.same_policy] at hi
    exact rotated_others s.disk.dir hn hi
  text := h.ready.text_rotated.trans h.text

theorem Kept.checked (h : s.Kept policy dir bytes) (size : UInt64) :
    (s.checked size).Kept policy dir bytes := by
  unfold LogSession.checked
  split
  · exact h.rotated
  · exact h

theorem Kept.appended (h : s.Kept policy dir bytes) : (s.appended buf accepted).Kept policy dir
    (bytes ++ buf.take (s.activeFile.taken buf accepted)) where
  ready := h.ready.appended
  same_policy := h.same_policy
  sized := h.sized.appended
  others := h.others
  text := by
    rw [h.ready.text_appended, ← List.append_assoc]
    obtain ⟨front, hfront⟩ := h.text
    exact ⟨front, by rw [← hfront, List.append_assoc]⟩

/-- One call, what it reports included. -/
theorem Kept.written (h : s.Kept policy dir bytes) : (s.written buf accepted).Kept policy dir
    (bytes ++ buf.take (s.count buf accepted)) := by
  unfold LogSession.written count
  split
  · simpa using h
  · exact (h.checked _).appended.checked _

/-- The counter is within the limit. -/
def Limited (s : LogSession) : Prop := s.writer.current_size ≤ s.writer.policy.max_bytes

theorem limited_checked : (s.checked s.writer.current_size).Limited := by
  unfold checked
  split
  · exact UInt64.zero_le
  · exact UInt64.not_lt.1 ‹_›

theorem Limited.written (h : s.Limited) : (s.written buf accepted).Limited := by
  unfold LogSession.written
  split
  · exact h
  · exact limited_checked

/-- The session of a writer on a directory as it is, before `open` looks at the size. -/
def unchecked (policy : LogRotationPolicy) (dir : LogDir) : LogSession where
  disk :=
    { dir := Function.update dir .active (some ((dir .active).getD .empty))
      fault := none
      rotations := [] }
  writer :=
    { file := some ⟨⟩
      current_size := (dir .active).elim 0 LogFile.len
      policy := policy }

/-- Opening checks the size as the end of a call does. -/
theorem opened_eq (policy : LogRotationPolicy) (dir : LogDir) :
    opened policy dir =
      (unchecked policy dir).checked (unchecked policy dir).writer.current_size := by
  unfold LogSession.checked
  split
  · rename_i h
    change policy.max_bytes < (dir .active).elim 0 LogFile.len at h
    have hsame : Function.update dir .active (some ((dir .active).getD .empty)) = dir := by
      cases hdir : dir .active with
      | none =>
        rw [hdir] at h
        exact absurd h (UInt64.not_lt.2 UInt64.zero_le)
      | some f => exact Function.update_eq_self_iff.2 hdir.symm
    simp only [opened, openDir, h, if_true, LogSession.rotated, unchecked, hsame,
      Evaluation.rotated, Option.getD_none, Option.elim_none]
  · rename_i h
    change ¬ policy.max_bytes < (dir .active).elim 0 LogFile.len at h
    simp only [opened, openDir, h, if_false, unchecked]

theorem kept_unchecked (hn : 1 ≤ policy.max_backups.toNat) (dir : LogDir) :
    (unchecked policy dir).Kept policy dir [] where
  ready := ⟨rfl, rfl, ⟨(dir .active).getD .empty, by simp [unchecked]⟩, hn⟩
  same_policy := rfl
  sized := by
    cases h : dir .active with
    | none => simp [Sized, activeFile, unchecked, h, LogFile.empty]
    | some f => simp [Sized, activeFile, unchecked, h]
  others := fun _ _ => rfl
  text := by
    have hactive : content (Function.update dir .active (some ((dir .active).getD .empty))) .active =
        content dir .active := by
      cases h : dir .active with
      | none => simp [content, h, LogFile.empty]
      | some f => simp [content, h]
    show logText policy.max_backups.toNat (unchecked policy dir).disk.dir <:+ _
    rw [List.append_nil, unchecked, logText, backupsText_update_active, hactive]
    exact List.suffix_rfl

theorem kept_opened (hn : 1 ≤ policy.max_backups.toNat) (dir : LogDir) :
    (opened policy dir).Kept policy dir [] := by
  rw [opened_eq]
  exact (kept_unchecked hn dir).checked _

theorem limited_opened (policy : LogRotationPolicy) (dir : LogDir) :
    (opened policy dir).Limited := by
  rw [opened_eq]
  exact limited_checked

/-- Along a run of writes. -/
theorem kept_run {ls : List LogWrite} {s t : LogSession} (hs : s.Kept policy dir [])
    (hsize : s.Limited) (hr : Run Writes s ls t) :
    t.Kept policy dir (ls.flatMap LogWrite.reported) ∧ t.Limited := by
  refine hr.history (P := fun ls t => t.Kept policy dir (ls.flatMap LogWrite.reported) ∧ t.Limited)
    ⟨hs, hsize⟩ ?_
  rintro ls t l u - ⟨ht, hlim⟩ hl
  obtain ⟨hw, rfl⟩ := ht.ready.writes_iff.1 hl
  refine ⟨?_, hlim.written⟩
  rw [List.flatMap_append, List.flatMap_singleton, LogWrite.reported, hw]
  exact ht.written

end LogSession

/-- Opened on any directory, and after every run of writes, of which each may have been taken in part
only, the active file is as long as the counter says and within the limit, the backups are those of
the policy, and the log is the end of what was there and what was reported as written. -/
theorem open_log_suffix (policy : LogRotationPolicy) (hn : 1 ≤ policy.max_backups.toNat)
    (dir : LogDir) :
    ∃ writer disk, Yields (RotatingLogWriter.«open» policy) ⟨dir, none, []⟩ writer disk ∧
      ∀ ls s, Run Writes ⟨disk, writer⟩ ls s →
        (∃ f, s.disk.dir .active = some f ∧
          f.bytes.length = s.writer.current_size.toNat) ∧
        s.writer.current_size ≤ policy.max_bytes ∧
        (∀ i, i = 0 ∨ policy.max_backups.toNat < i →
          s.disk.dir (.backup i) = dir (.backup i)) ∧
        logText policy.max_backups.toNat s.disk.dir <:+
          logText policy.max_backups.toNat dir ++ ls.flatMap LogWrite.reported ∧
        ∀ buf accepted, ∃ n t, n ≤ buf.length ∧ Writes s ⟨buf, accepted, n⟩ t := by
  refine ⟨_, _, open_yields hn dir, fun ls s hr => ?_⟩
  obtain ⟨hkept, hlim⟩ := LogSession.kept_run (LogSession.kept_opened hn dir)
    (LogSession.limited_opened policy dir) hr
  refine ⟨⟨s.activeFile, hkept.ready.activeFile_eq, hkept.sized⟩, ?_, hkept.others, ?_, ?_⟩
  · rw [← hkept.same_policy]
    exact hlim
  · have htext := hkept.text
    rw [LogSession.text, hkept.same_policy] at htext
    exact htext
  · intro buf accepted
    refine ⟨s.count buf accepted, _, ?_, hkept.ready.write_yields buf accepted⟩
    unfold LogSession.count
    split
    · exact Nat.zero_le _
    · exact LogFile.taken_le _ _ _

/-- A log of ten bytes and two backups, on an empty directory. -/
theorem open_log_suffix_ten :
    ∃ writer disk, Yields (RotatingLogWriter.«open» ⟨10, 2⟩) ⟨fun _ => none, none, []⟩ writer disk ∧
      ∀ ls s, Run Writes ⟨disk, writer⟩ ls s →
        s.writer.current_size ≤ 10 ∧ logText 2 s.disk.dir <:+ ls.flatMap LogWrite.reported := by
  obtain ⟨writer, disk, hopen, h⟩ := open_log_suffix ⟨10, 2⟩ (by decide) fun _ => none
  refine ⟨writer, disk, hopen, fun ls s hr => ?_⟩
  obtain ⟨-, hsize, -, htext, -⟩ := h ls s hr
  exact ⟨hsize, htext⟩

/-! ## Which files the backups are -/

/-- What the calls of `rotate_files` took out, the last call first. -/
def outs (rotations : List LogDir) : List (Option LogFile) := rotations.map rotatedOut

/-- Backup `i + 1` is what the `i`-th call before the last one took out. -/
def Window (n : ℕ) (dir : LogDir) (rotations : List LogDir) : Prop :=
  ∀ i < n, dir (.backup (i + 1)) = (outs rotations)[i]?.join

/-- There is a file with content under the path. -/
def Filled (dir : LogDir) (path : LogPath) : Prop := ∃ f, dir path = some f ∧ f.bytes ≠ []

/-- A call of `rotate_files` on the directory deletes a file with content only when every other slot
holds one. -/
def DropsLast (n : ℕ) (dir : LogDir) : Prop :=
  Filled dir (.backup n) → ∀ i, 1 ≤ i → i < n → Filled dir (.backup i)

/-- The backups that exist, the latest first. -/
def present (n : ℕ) (dir : LogDir) : List LogFile :=
  (List.range n).filterMap fun i => dir (.backup (i + 1))

/-- Of the files with content that were taken out, the latest `n` are there. -/
def LatestKept (n : ℕ) (disk : Disk) : Prop :=
  ((outs disk.rotations).reduceOption.take n).Sublist (present n disk.dir)

theorem rotatedOut_ne_nil {dir : LogDir} {f : LogFile} (h : rotatedOut dir = some f) :
    f.bytes ≠ [] := by
  have := (Option.filter_eq_some_iff.1 h).2
  simpa using this

theorem mem_outs_ne_nil {rotations : List LogDir} {f : LogFile}
    (h : f ∈ (outs rotations).reduceOption) : f.bytes ≠ [] := by
  obtain ⟨dir, -, hdir⟩ := List.mem_map.1 (List.reduceOption_mem_iff.1 h)
  exact rotatedOut_ne_nil hdir

theorem window_rotated {n : ℕ} {dir : LogDir} {rotations : List LogDir}
    (h : Window n dir rotations) : Window n (rotated n dir) (dir :: rotations) := by
  intro i hi
  match i with
  | 0 => rfl
  | i + 1 =>
    have hdir : rotated n dir (.backup (i + 2)) = dir (.backup (i + 1)) := by
      simp [rotated, Nat.succ_le_of_lt hi]
    rw [hdir, h i (Nat.lt_of_succ_lt hi)]
    rfl

theorem Window.present_eq {n : ℕ} {dir : LogDir} {rotations : List LogDir}
    (h : Window n dir rotations) : present n dir = ((outs rotations).take n).reduceOption := by
  rw [← filterMap_slots]
  exact List.filterMap_congr fun i hi => h i (List.mem_range.1 hi)

theorem Window.dropsLast {n : ℕ} {dir : LogDir} {rotations : List LogDir}
    (h : Window n dir rotations) (hg : GapFree (outs rotations)) : DropsLast n dir := by
  rintro ⟨f, hf, -⟩ i hi hin
  obtain ⟨i, rfl⟩ := Nat.exists_eq_add_of_le' hi
  obtain ⟨n, rfl⟩ := Nat.exists_eq_add_of_le' (Nat.zero_lt_of_lt hin)
  rw [h n (Nat.lt_succ_self n)] at hf
  obtain ⟨g, hmem, hg⟩ := hg.join_of_lt hf (Nat.lt_of_succ_lt_succ hin)
  exact ⟨g, by rw [h i (Nat.lt_of_succ_lt hin), hg], mem_outs_ne_nil hmem⟩

namespace LogSession

variable {s : LogSession} {buf : List UInt8} {accepted : ℕ}

/-- The write finds the active file empty and its buffer alone over the limit, so that it rotates an
empty file, and some backup exists. -/
def RotatesEmpty (s : LogSession) (buf : List UInt8) : Prop :=
  s.activeFile.bytes = [] ∧ s.writer.policy.max_bytes < u64Sat buf.length ∧
    ∃ i, 1 ≤ i ∧ i ≤ s.writer.policy.max_backups.toNat ∧ s.disk.dir (.backup i) ≠ none

/-- The backups are a window on what the calls of `rotate_files` took out. -/
structure Windowed (s : LogSession) : Prop where
  ready : s.Ready
  sized : s.Sized
  window : Window s.writer.policy.max_backups.toNat s.disk.dir s.disk.rotations

theorem Windowed.rotated (h : s.Windowed) : s.rotated.Windowed :=
  ⟨h.ready.rotated, sized_rotated, window_rotated h.window⟩

theorem Windowed.appended (h : s.Windowed) : (s.appended buf accepted).Windowed :=
  ⟨h.ready.appended, h.sized.appended, h.window⟩

theorem Windowed.checked (h : s.Windowed) (size : UInt64) : (s.checked size).Windowed := by
  unfold LogSession.checked
  split
  · exact h.rotated
  · exact h

theorem Windowed.written (h : s.Windowed) : (s.written buf accepted).Windowed := by
  unfold LogSession.written
  split
  · exact h
  · exact (h.checked _).appended.checked _

theorem windowed_opened {policy : LogRotationPolicy} (hn : 1 ≤ policy.max_backups.toNat) :
    (opened policy fun _ => none).Windowed := by
  have hkept := kept_opened hn fun _ => none
  refine ⟨hkept.ready, hkept.sized, fun i _ => ?_⟩
  have hno : ¬ policy.max_bytes < (0 : UInt64) := UInt64.not_lt.2 UInt64.zero_le
  simp [opened, openDir, hno, outs]

/-- What is so besides as long as no write rotates an empty file onto a backup. -/
structure Tight (s : LogSession) : Prop extends s.Windowed where
  gapFree : GapFree (outs s.disk.rotations)
  drops : ∀ dir ∈ s.disk.rotations, DropsLast s.writer.policy.max_backups.toNat dir

/-- Of a directory without a backup nothing was taken out before. -/
theorem Tight.outs_none (h : s.Tight) (hnone : ∀ i, 1 ≤ i →
    i ≤ s.writer.policy.max_backups.toNat → s.disk.dir (.backup i) = none) :
    ∀ o ∈ outs s.disk.rotations, o = none := by
  have hn := h.ready.backups
  have hfirst : (outs s.disk.rotations).reduceOption[0]? = none := by
    rw [← h.gapFree.getElem?_join, ← h.window 0 hn]
    exact hnone 1 (Nat.le_refl 1) hn
  have hnil : (outs s.disk.rotations).reduceOption = [] :=
    List.length_eq_zero_iff.1 (Nat.le_zero.1 (List.getElem?_eq_none_iff.1 hfirst))
  obtain ⟨k, hk⟩ := List.reduceOption_eq_nil_iff _ |>.1 hnil
  intro o ho
  exact List.eq_of_mem_replicate (hk ▸ ho)

theorem Tight.rotated (h : s.Tight) (hempty : s.activeFile.bytes = [] → ∀ i, 1 ≤ i →
    i ≤ s.writer.policy.max_backups.toNat → s.disk.dir (.backup i) = none) : s.rotated.Tight where
  toWindowed := h.toWindowed.rotated
  gapFree := by
    show GapFree (rotatedOut s.disk.dir :: outs s.disk.rotations)
    cases hout : rotatedOut s.disk.dir with
    | some f => exact h.gapFree.some_cons f
    | none =>
      have hbytes : s.activeFile.bytes = [] := by
        rw [rotatedOut, h.ready.activeFile_eq, Option.filter_eq_none_iff] at hout
        simpa using hout
      exact gapFree_none_cons.2 (h.outs_none (hempty hbytes))
  drops := by
    intro dir hdir
    rcases List.mem_cons.1 hdir with rfl | hdir
    · exact h.window.dropsLast h.gapFree
    · exact h.drops dir hdir

theorem Tight.appended (h : s.Tight) : (s.appended buf accepted).Tight where
  toWindowed := h.toWindowed.appended
  gapFree := h.gapFree
  drops := h.drops

theorem Tight.checked (h : s.Tight) {size : UInt64}
    (hempty : s.writer.policy.max_bytes < size → s.activeFile.bytes = [] → ∀ i, 1 ≤ i →
      i ≤ s.writer.policy.max_backups.toNat → s.disk.dir (.backup i) = none) :
    (s.checked size).Tight := by
  unfold LogSession.checked
  split
  · exact h.rotated (hempty ‹_›)
  · exact h

theorem Sized.eq_zero (h : s.Sized) (hempty : s.activeFile.bytes = []) :
    s.writer.current_size = 0 := by
  rw [Sized, hempty] at h
  exact UInt64.toNat.inj h.symm

theorem satAdd_zero (size : UInt64) : satAdd 0 size = size := by
  apply UInt64.toNat.inj
  have := size.toNat_lt
  rw [toNat_satAdd]
  simp
  omega

/-- A write whose buffer is not over the limit on an empty active file, or that meets no backup. -/
theorem Tight.written (h : s.Tight) (hbuf : ¬ s.RotatesEmpty buf) :
    (s.written buf accepted).Tight := by
  unfold LogSession.written
  split
  · exact h
  · have hprepared : (s.prepared buf).Tight := by
      refine h.checked fun hover hempty i hi hin => ?_
      rw [h.sized.eq_zero hempty, satAdd_zero] at hover
      by_contra hsome
      exact hbuf ⟨hempty, hover, i, hi, hin, hsome⟩
    refine hprepared.appended.checked fun hover hempty => ?_
    -- the file is over the limit, so it is not empty
    rw [hprepared.appended.sized.eq_zero hempty] at hover
    exact absurd hover (UInt64.not_lt.2 UInt64.zero_le)

theorem suffix_rotations_checked (size : UInt64) :
    s.disk.rotations <:+ (s.checked size).disk.rotations := by
  unfold checked
  split
  · exact List.suffix_cons _ _
  · exact List.suffix_rfl

theorem suffix_rotations_written :
    s.disk.rotations <:+ (s.written buf accepted).disk.rotations := by
  unfold LogSession.written
  split
  · exact List.suffix_rfl
  · exact (suffix_rotations_checked _).trans
      (suffix_rotations_checked (s := (s.prepared buf).appended buf accepted) _)

/-- A write that rotates an empty file onto a backup leaves a gap before it. -/
theorem Tight.gap_of_rotatesEmpty (h : s.Tight) (hbuf : s.RotatesEmpty buf) :
    ¬ GapFree (outs (s.written buf accepted).disk.rotations) := by
  obtain ⟨hempty, hover, i, hi, hin, hsome⟩ := hbuf
  intro hgap
  have hprepared : s.prepared buf = s.rotated := by
    unfold prepared LogSession.checked
    rw [h.sized.eq_zero hempty, satAdd_zero]
    exact if_pos hover
  have hne : buf ≠ [] := by
    rintro rfl
    exact absurd hover (UInt64.not_lt.2 UInt64.zero_le)
  have hsuffix : s.rotated.disk.rotations <:+ (s.written buf accepted).disk.rotations := by
    unfold LogSession.written
    rw [if_neg hne, hprepared]
    exact suffix_rotations_checked (s := s.rotated.appended buf accepted) _
  have hout : rotatedOut s.disk.dir = none := by
    simp [rotatedOut, h.ready.activeFile_eq, Option.filter_some, hempty]
  -- the calls so far would have taken nothing out
  have hcons : GapFree (none :: outs s.disk.rotations) := by
    have hcut := hgap.of_suffix (hsuffix.map rotatedOut)
    rw [← hout]
    exact hcut
  have hnone := gapFree_none_cons.1 hcons
  obtain ⟨i, rfl⟩ := Nat.exists_eq_add_of_le' hi
  rw [h.window i hin] at hsome
  cases hget : (outs s.disk.rotations)[i]? with
  | none => simp [hget] at hsome
  | some o => simp [hget, hnone o (List.mem_of_getElem? hget)] at hsome

theorem tight_opened {policy : LogRotationPolicy} (hn : 1 ≤ policy.max_backups.toNat) :
    (opened policy fun _ => none).Tight where
  toWindowed := windowed_opened hn
  gapFree := by
    have hno : ¬ policy.max_bytes < (0 : UInt64) := UInt64.not_lt.2 UInt64.zero_le
    simp only [opened, Option.elim_none, hno, if_false]
    exact gapFree_nil
  drops := by
    have hno : ¬ policy.max_bytes < (0 : UInt64) := UInt64.not_lt.2 UInt64.zero_le
    simp [opened, hno]

theorem Tight.latestKept (h : s.Tight) :
    LatestKept s.writer.policy.max_backups.toNat s.disk := by
  rw [LatestKept, h.window.present_eq, h.gapFree.reduceOption_take]

/-- Every call of `rotate_files` deleted a file with content only when all slots held one, and the
latest files are there. -/
def KeepsLatest (s : LogSession) : Prop :=
  (∀ dir ∈ s.disk.rotations, DropsLast s.writer.policy.max_backups.toNat dir) ∧
    LatestKept s.writer.policy.max_backups.toNat s.disk

/-- A write that does not rotate an empty file onto a backup. -/
def TightWrites (s : LogSession) (w : LogWrite) (t : LogSession) : Prop :=
  ¬ s.RotatesEmpty w.buf ∧ Writes s w t

end LogSession

theorem windowed_run {policy : LogRotationPolicy} (hn : 1 ≤ policy.max_backups.toNat)
    {ls : List LogWrite} {s : LogSession}
    (hr : Run Writes (opened policy fun _ => none) ls s) : s.Windowed := by
  refine hr.invariant (P := LogSession.Windowed) ?_ (LogSession.windowed_opened hn)
  intro s w t hs hwrites
  obtain ⟨-, rfl⟩ := hs.ready.writes_iff.1 hwrites
  exact hs.written

theorem tight_run {policy : LogRotationPolicy} (hn : 1 ≤ policy.max_backups.toNat)
    {ls : List LogWrite} {s : LogSession}
    (hr : Run LogSession.TightWrites (opened policy fun _ => none) ls s) : s.Tight := by
  refine hr.invariant (P := LogSession.Tight) ?_ (LogSession.tight_opened hn)
  rintro s w t hs ⟨hw, hwrites⟩
  obtain ⟨-, rfl⟩ := hs.ready.writes_iff.1 hwrites
  exact hs.written hw

/-- In a run on an empty directory none of whose writes rotates an empty file onto a backup, the files
with content are deleted when all slots are used only, and the latest ones stay. -/
theorem rotations_keep_latest (policy : LogRotationPolicy)
    (hn : 1 ≤ policy.max_backups.toNat) :
    ∃ writer disk, Yields (RotatingLogWriter.«open» policy) ⟨fun _ => none, none, []⟩ writer disk ∧
      ∀ ls s, Run LogSession.TightWrites ⟨disk, writer⟩ ls s → s.KeepsLatest := by
  refine ⟨_, _, open_yields hn _, fun ls s hr => ?_⟩
  have htight : s.Tight := tight_run hn hr
  exact ⟨htight.drops, htight.latestKept⟩

/-- Three bytes, written whole. -/
def threeBytes (b : UInt8) : LogWrite := ⟨[b, b, b], 3, 3⟩

theorem tightWrites_threeBytes {s : LogSession} (b : UInt8) (hs : s.Ready)
    (hpolicy : s.writer.policy = ⟨4, 2⟩) (hcount : s.count [b, b, b] 3 = 3) :
    s.TightWrites (threeBytes b) (s.written [b, b, b] 3) ∧ (s.written [b, b, b] 3).Ready := by
  refine ⟨⟨?_, hs.writes_iff.2 ⟨hcount.symm, rfl⟩⟩, hs.written⟩
  rintro ⟨-, hover, -⟩
  rw [hpolicy] at hover
  revert hover
  exact of_decide_eq_false rfl

/-- The fourth write deletes what the first one wrote, with both backups used. -/
theorem rotations_keep_latest_four :
    ∃ writer disk s, Yields (RotatingLogWriter.«open» ⟨4, 2⟩) ⟨fun _ => none, none, []⟩ writer disk ∧
      Run LogSession.TightWrites ⟨disk, writer⟩ ([97, 98, 99, 100].map threeBytes) s ∧
      s.KeepsLatest ∧ s.disk.rotations.length = 3 ∧
      content s.disk.dir (.backup 2) = [98, 98, 98] ∧
      content s.disk.dir (.backup 1) = [99, 99, 99] := by
  obtain ⟨writer, disk, hopen, hkeeps⟩ := rotations_keep_latest ⟨4, 2⟩ (by decide)
  obtain ⟨rfl, rfl⟩ := hopen.det (open_yields (by decide) _)
  have h₀ : (opened ⟨4, 2⟩ fun _ => none).Ready := opened_ready (by decide) _
  obtain ⟨hw₁, h₁⟩ := tightWrites_threeBytes 97 h₀ rfl rfl
  obtain ⟨hw₂, h₂⟩ := tightWrites_threeBytes 98 h₁ rfl rfl
  obtain ⟨hw₃, h₃⟩ := tightWrites_threeBytes 99 h₂ rfl rfl
  obtain ⟨hw₄, -⟩ := tightWrites_threeBytes 100 h₃ rfl rfl
  have hr : Run LogSession.TightWrites (opened ⟨4, 2⟩ fun _ => none)
      ([97, 98, 99, 100].map threeBytes) _ := .cons hw₁ (.cons hw₂ (.cons hw₃ (.cons hw₄ (.nil _))))
  exact ⟨_, _, _, hopen, hr, hkeeps _ _ hr, rfl, rfl, rfl⟩

/-- Two lines that are each over the limit, with two backups: the first is deleted while backup 1 is
free. -/
theorem not_rotations_keep_latest :
    ¬ ∀ (policy : LogRotationPolicy), 1 ≤ policy.max_bytes.toNat →
      1 ≤ policy.max_backups.toNat → ∀ writer disk,
      Yields (RotatingLogWriter.«open» policy) ⟨fun _ => none, none, []⟩ writer disk →
      ∀ ls s, Run Writes ⟨disk, writer⟩ ls s → s.KeepsLatest := by
  intro h
  have hready : (opened ⟨1, 2⟩ fun _ => none).Ready := opened_ready (by decide) _
  have hfirst := hready.write_yields [97, 97] 2
  have hready' : ((opened ⟨1, 2⟩ fun _ => none).written [97, 97] 2).Ready := hready.written
  have hsecond := hready'.write_yields [98, 98] 2
  obtain ⟨hdrops, -⟩ := h ⟨1, 2⟩ (by decide) (by decide) _ _ (open_yields (by decide) _)
    [⟨[97, 97], 2, 2⟩, ⟨[98, 98], 2, 2⟩] _ (.cons hfirst (.cons hsecond (.nil _)))
  obtain ⟨f, hf, -⟩ := hdrops _ (List.mem_cons_self ..) ⟨⟨[97, 97], by decide⟩, rfl, by decide⟩ 1
    (by decide) (by decide)
  cases hf

/-- Whatever the writes, the latest files are all there exactly when none of the last `max_backups`
calls of `rotate_files` found an empty active file, or nothing was taken out before them. -/
theorem latestKept_iff {policy : LogRotationPolicy} (hn : 1 ≤ policy.max_backups.toNat)
    {ls : List LogWrite} {s : LogSession} (hr : Run Writes (opened policy fun _ => none) ls s) :
    LatestKept s.writer.policy.max_backups.toNat s.disk ↔
      (∀ o ∈ (outs s.disk.rotations).take s.writer.policy.max_backups.toNat, o.isSome) ∨
        ∀ o ∈ (outs s.disk.rotations).drop s.writer.policy.max_backups.toNat, o = none := by
  rw [LatestKept, (windowed_run hn hr).window.present_eq]
  exact take_reduceOption_sublist_iff _ _

/-- The runs none of whose writes rotates an empty file onto a backup are those that leave no gap
between the files taken out. -/
theorem run_tight_iff {policy : LogRotationPolicy} (hn : 1 ≤ policy.max_backups.toNat)
    (ls : List LogWrite) (s : LogSession) :
    Run LogSession.TightWrites (opened policy fun _ => none) ls s ↔
      Run Writes (opened policy fun _ => none) ls s ∧ GapFree (outs s.disk.rotations) := by
  constructor
  · intro hr
    exact ⟨hr.mono fun _ _ _ h => h.2, (tight_run hn hr).gapFree⟩
  · rintro ⟨hr, hgap⟩
    refine hr.history (P := fun ls t => GapFree (outs t.disk.rotations) →
      Run LogSession.TightWrites (opened policy fun _ => none) ls t) (fun _ => .nil _) ?_ hgap
    intro ls t w u hrun ih hwrites hgap
    obtain ⟨-, rfl⟩ := (windowed_run hn hrun).ready.writes_iff.1 hwrites
    have hr' := ih (hgap.of_suffix (LogSession.suffix_rotations_written.map rotatedOut))
    refine hr'.snoc ⟨fun hempty => ?_, hwrites⟩
    exact (tight_run hn hr').gap_of_rotatesEmpty hempty hgap

end MergeReady.Evaluation
