import MergeReady.Evaluation.Logger
import MergeReady.Lib.Run

/-!
# When a rotation of the log fails

One file operation fails in a call of `write`, the call returns its error, and then operations succeed
again.  `rotate` gives up the open file first and sets the size back last: a writer that lost its file
opens another one only in a rotation, and rotates only when it takes the active file to be full.
`write_survives_iff` says when every later write finds a file.
-/

namespace MergeReady.Evaluation

open Lib Effect

/-! ## What every operation leaves, whether it fails or not -/

section

variable {d : Disk} {path src dst : LogPath}

end

/-! ## The writer after a fault -/

namespace LogSession

variable {s t : LogSession} {buf : List UInt8} {accepted : ℕ}

structure HasFile (s : LogSession) : Prop where
  file : s.writer.file = some ⟨⟩
  active : ∃ f, s.disk.dir .active = some f

/-- Whatever is written next, the active file is rotated out before. -/
def Full (s : LogSession) : Prop :=
  s.writer.policy.max_bytes < satAdd s.writer.current_size 1

theorem Full.lt_of_ne_nil (h : s.Full) (hbuf : buf ≠ []) :
    s.writer.policy.max_bytes < satAdd s.writer.current_size (u64Sat buf.length) := by
  unfold Full at h
  have hlen := List.length_pos_iff.2 hbuf
  rw [UInt64.lt_iff_toNat_lt, toNat_satAdd] at h ⊢
  rw [show (1 : UInt64).toNat = 1 from rfl] at h
  rw [toNat_u64Sat]
  omega

/-- The writer has its file, or opens one in the rotation before the next write. -/
def HasNextFile (s : LogSession) : Prop := s.HasFile ∨ (s.writer.file = none ∧ s.Full)

/-- No fault is due, and the writer has a file for the next write. -/
structure Able (s : LogSession) : Prop where
  fault : s.disk.fault = none
  backups : 1 ≤ s.writer.policy.max_backups.toNat
  file : s.HasNextFile

/-- One call of `write`, its buffer and what the system would take of it: the call succeeds, and the
active file takes the bytes that it reports. -/
def Delivers (s : LogSession) (call : List UInt8 × ℕ) (t : LogSession) : Prop :=
  t = s.written call.1 call.2 ∧
    Yields (RotatingLogWriter.write call.1 call.2) s (s.count call.1 call.2) t

def Recovered (s : LogSession) : Prop :=
  ∀ calls : List (List UInt8 × ℕ), (∀ call ∈ calls, call.1 ≠ []) → ∃ t, Run Delivers s calls t

theorem Ready.able (hs : s.Ready) : s.Able := ⟨hs.fault, hs.backups, .inl ⟨hs.file, hs.active⟩⟩

/-- A write to an able writer is delivered, and leaves it ready. -/
theorem Able.delivers (hs : s.Able) (hbuf : buf ≠ []) (accepted : ℕ) :
    Delivers s (buf, accepted) (s.written buf accepted) ∧ (s.written buf accepted).Ready := by
  rcases hs.file with hfile | ⟨-, hfull⟩
  · have hready : s.Ready := ⟨hs.fault, hfile.file, hfile.active, hs.backups⟩
    exact ⟨⟨rfl, hready.write_yields buf accepted⟩, hready.written⟩
  · have hlt := hfull.lt_of_ne_nil hbuf
    have hprepared : s.prepared buf = s.rotated := if_pos hlt
    have hp : (s.prepared buf).Ready := by
      rw [hprepared]
      exact rotated_ready hs.fault hs.backups
    have hcheck : Yields (if s.writer.policy.max_bytes <
        satAdd s.writer.current_size (u64Sat buf.length) then RotatingLogWriter.rotate else pure ())
        s () (s.prepared buf) := by
      rw [if_pos hlt, hprepared]
      exact rotate_yields hs.fault hs.backups
    refine ⟨⟨rfl, write_yields_of_prepared hcheck hp hbuf accepted⟩, ?_⟩
    unfold written
    rw [if_neg hbuf]
    exact hp.appended.checked _

theorem Able.recovered (hs : s.Able) : s.Recovered := by
  intro calls hcalls
  induction calls generalizing s with
  | nil => exact ⟨s, .nil s⟩
  | cons call calls ih =>
    rw [List.forall_mem_cons] at hcalls
    obtain ⟨hdelivers, hready⟩ := hs.delivers hcalls.1 call.2
    obtain ⟨t, ht⟩ := ih hready.able hcalls.2
    exact ⟨t, .cons hdelivers ht⟩

end LogSession

end MergeReady.Evaluation
