import Mathlib.Algebra.Order.Group.Int
import MergeReady.Lib.Machine

/-!
# Points in time and spans of time

A `Timespec` is a clock reading: a whole number of nanoseconds whose seconds fit a signed 64-bit
count.  The same representation serves the monotonic clock and the wall clock, kept apart by the
index `Clock`.  A `Duration` is a span: nanoseconds whose seconds fit an unsigned 64-bit count.
Both carry their bound, so a reading out of range cannot be written down.
-/

namespace MergeReady.Lib

/-- A span of time. -/
@[ext] structure Duration where
  nanos : ℕ
  lt_max : nanos < 2 ^ 64 * 1000000000
deriving DecidableEq

namespace Duration

/-- `Duration::from_secs` -/
def ofSecs (s : UInt64) : Duration :=
  ⟨s.toNat * 1000000000, by have := s.toNat_lt; omega⟩

/-- `Duration::from_millis` -/
def ofMillis (ms : UInt64) : Duration :=
  ⟨ms.toNat * 1000000, by have := ms.toNat_lt; omega⟩

/-- The whole seconds of a span. -/
def asSecs (d : Duration) : UInt64 := UInt64.ofNat (d.nanos / 1000000000)

@[simp] theorem nanos_ofSecs (s : UInt64) : (ofSecs s).nanos = s.toNat * 1000000000 := rfl

@[simp] theorem nanos_ofMillis (ms : UInt64) : (ofMillis ms).nanos = ms.toNat * 1000000 := rfl

@[simp] theorem toNat_asSecs (d : Duration) : d.asSecs.toNat = d.nanos / 1000000000 := by
  have := d.lt_max
  exact UInt64.toNat_ofNat_of_lt' (show d.nanos / 1000000000 < 2 ^ 64 by omega)

end Duration

/-- The clock a reading was taken from. -/
inductive Clock
  | monotonic
  | realtime

/-- A reading of the clock `c`. -/
@[ext] structure Timespec (c : Clock) where
  nanos : ℤ
  ge_min : -(2 ^ 63 * 1000000000) ≤ nanos
  lt_max : nanos < 2 ^ 63 * 1000000000
deriving DecidableEq

/-- `Instant`: a reading of the monotonic clock. -/
abbrev Instant := Timespec .monotonic

/-- `SystemTime`: a reading of the wall clock. -/
abbrev SystemTime := Timespec .realtime

namespace Timespec

variable {c : Clock}

theorem nanos_injective : Function.Injective (nanos : Timespec c → ℤ) := fun _ _ h => Timespec.ext h

instance : LinearOrder (Timespec c) := LinearOrder.lift' nanos nanos_injective

theorem le_def {t u : Timespec c} : t ≤ u ↔ t.nanos ≤ u.nanos := Iff.rfl

theorem lt_def {t u : Timespec c} : t < u ↔ t.nanos < u.nanos := by
  rw [lt_iff_not_ge, le_def, not_le]

/-- The reading `s` seconds after the origin of the clock. -/
def ofSecs (s : UInt32) : Timespec c :=
  ⟨s.toNat * 1000000000, by omega, by have := s.toNat_lt; omega⟩

@[simp] theorem nanos_ofSecs (s : UInt32) :
    (ofSecs s : Timespec c).nanos = s.toNat * 1000000000 := rfl

/-! ## Differences -/

/-- `duration_since`: the span from `earlier` to `t`, if `t` is not before it. -/
def durationSince (t earlier : Timespec c) : Option Duration :=
  if earlier ≤ t then
    some ⟨(t.nanos - earlier.nanos).toNat, by
      have := t.lt_max; have := earlier.ge_min; omega⟩
  else none

theorem durationSince_eq_none {t earlier : Timespec c} :
    t.durationSince earlier = none ↔ t < earlier := by
  unfold durationSince
  split <;> simp_all

theorem durationSince_eq_some {t earlier : Timespec c} {d : Duration} :
    t.durationSince earlier = some d ↔ earlier.nanos + d.nanos = t.nanos := by
  unfold durationSince
  split
  · rename_i h
    rw [le_def] at h
    rw [Option.some.injEq, Duration.ext_iff]
    dsimp only
    omega
  · rename_i h
    rw [le_def] at h
    simp only [reduceCtorEq, false_iff]
    omega

/-- `saturating_duration_since`: the span from `earlier` to `t`, empty if `t` is before it. -/
def saturatingDurationSince (t earlier : Timespec c) : Duration :=
  (t.durationSince earlier).getD ⟨0, by omega⟩

@[simp] theorem nanos_saturatingDurationSince (t earlier : Timespec c) :
    (t.saturatingDurationSince earlier).nanos = (t.nanos - earlier.nanos).toNat := by
  unfold saturatingDurationSince durationSince
  split
  · rfl
  · rename_i h
    rw [le_def] at h
    show 0 = _
    omega

/-! ## Shifts -/

/-- `checked_sub`: `none` when the result is not representable. -/
def checkedSub (t : Timespec c) (d : Duration) : Option (Timespec c) :=
  if h : -(2 ^ 63 * 1000000000) ≤ t.nanos - d.nanos then
    some ⟨t.nanos - d.nanos, h, by have := t.lt_max; omega⟩
  else none

theorem checkedSub_eq_some {t u : Timespec c} {d : Duration} :
    t.checkedSub d = some u ↔ u.nanos = t.nanos - d.nanos := by
  unfold checkedSub
  split
  · rw [Option.some.injEq, Timespec.ext_iff]
    exact eq_comm
  · have := u.ge_min
    simp only [reduceCtorEq, false_iff]
    omega

/-- `t + d`, which panics when the result is not representable. -/
def add (t : Timespec c) (d : Duration) : Fallible (Timespec c) :=
  if h : t.nanos + d.nanos < 2 ^ 63 * 1000000000 then
    .ok ⟨t.nanos + d.nanos, by have := t.ge_min; omega, h⟩
  else .error .timeOverflow

theorem add_eq_ok {t u : Timespec c} {d : Duration} :
    t.add d = .ok u ↔ u.nanos = t.nanos + d.nanos := by
  unfold add
  split
  · rw [Except.ok.injEq, Timespec.ext_iff]
    exact eq_comm
  · have := u.lt_max
    simp only [reduceCtorEq, false_iff]
    omega

theorem returns_add {t : Timespec c} {d : Duration} :
    Returns (t.add d) ↔ t.nanos + d.nanos < 2 ^ 63 * 1000000000 := by
  constructor
  · rintro ⟨u, hu⟩
    have := u.lt_max
    rw [add_eq_ok.1 hu] at this
    exact this
  · intro h
    exact ⟨_, dif_pos h⟩

/-! ## Whole seconds elapsed -/

/-- Whole seconds from `t` to `now`, `0` if `now` is before `t`. -/
def elapsedSecs (t now : Timespec c) : UInt64 := (now.saturatingDurationSince t).asSecs

@[simp] theorem toNat_elapsedSecs (t now : Timespec c) :
    (elapsedSecs t now).toNat = (now.nanos - t.nanos).toNat / 1000000000 := by
  simp [elapsedSecs]

/-- Time passing never lowers an age. -/
theorem elapsedSecs_mono {t now now' : Timespec c} (h : now ≤ now') :
    elapsedSecs t now ≤ elapsedSecs t now' := by
  rw [le_def] at h
  rw [UInt64.le_iff_toNat_le, toNat_elapsedSecs, toNat_elapsedSecs]
  omega

@[simp] theorem elapsedSecs_self (t : Timespec c) : elapsedSecs t t = 0 := by
  rw [← UInt64.toNat_inj, toNat_elapsedSecs]
  simp

/-- Right at the moment it was taken, a reading has not reached any positive age. -/
theorem elapsedSecs_self_lt (t : Timespec c) {n : UInt64} (h : 1 ≤ n) : elapsedSecs t t < n := by
  rw [elapsedSecs_self, UInt64.lt_iff_toNat_lt]
  rw [UInt64.le_iff_toNat_le] at h
  exact h

end Timespec

end MergeReady.Lib
