import MergeReady.Daemon.Backoff

/-!
# One alarm for each pause

A snapshot that calls for a pause is announced when it moves the end of the pause.  The end is
computed from both clocks; while they advance together it comes out the same for every observation of
one snapshot, and after the reset the snapshot no longer gives one.  So a snapshot seen again and again
is announced once.
-/

namespace MergeReady.Daemon

open MergeReady.Lib

def Effect.isAlarm : Effect → Bool
  | enterBackoff _ => true
  | spawnRefresh _ _ => false
  | emitOutput _ => false
  | recordExpired _ => false

def Call.alarms (c : Call) : ℕ := c.effects.countP Effect.isAlarm

theorem Call.alarms_eq_zero {c : Call} (h : ¬ c.Alarms) : c.alarms = 0 := by
  unfold Call.alarms
  rw [List.countP_eq_zero]
  intro eff heff hal
  cases eff with
  | enterBackoff u => exact h ⟨u, heff⟩
  | spawnRefresh => cases hal
  | emitOutput => cases hal
  | recordExpired => cases hal

/-- The observations of the list are of one snapshot, and in all of them the wall clock is `δ`
nanoseconds ahead of the monotonic one; the times of the calls do not decrease. -/
structure Lockstep (snapshot : RateLimitSnapshot) (δ : ℤ) (calls : List Call) : Prop where
  ordered : TimesOrdered calls
  observed : ∀ c ∈ calls, ∀ ev, c.op = .rateLimit ev →
    ev.snapshot = snapshot ∧ ev.nowWall.nanos = ev.now.nanos + δ

/-- The end of the pause the snapshot calls for, on the monotonic clock. -/
def pauseEnd (snapshot : RateLimitSnapshot) (δ : ℤ) : ℤ :=
  snapshot.bottleneckResetAt.nanos - δ + BACKOFF_SAFETY_MARGIN.nanos

/-- The pause of the snapshot is on, or its end has passed by the time of the calls to come. -/
def Announced (snapshot : RateLimitSnapshot) (δ : ℤ) (calls : List Call) (s : CacheStore) : Prop :=
  (∃ u, s.backoffUntil = some u ∧ u.nanos = pauseEnd snapshot δ) ∨
    ∀ c ∈ calls, pauseEnd snapshot δ ≤ c.op.now.nanos

section

variable {snapshot : RateLimitSnapshot} {δ : ℤ} {c : Call} {calls : List Call} {s s' : CacheStore}

theorem Lockstep.tail (h : Lockstep snapshot δ (c :: calls)) : Lockstep snapshot δ calls :=
  ⟨(List.pairwise_cons.1 h.ordered).2, fun d hd => h.observed d (List.mem_cons_of_mem _ hd)⟩

theorem Lockstep.end_eq {ev : RateLimitObservedEvent} {effects : List Effect} {u : Instant}
    (h : Lockstep snapshot δ (⟨.rateLimit ev, effects⟩ :: calls))
    (hu : u.nanos = ev.now.nanos + (ev.snapshot.bottleneckResetAt.nanos - ev.nowWall.nanos) +
      BACKOFF_SAFETY_MARGIN.nanos) : u.nanos = pauseEnd snapshot δ := by
  obtain ⟨rfl, hwall⟩ := h.observed _ List.mem_cons_self ev rfl
  unfold pauseEnd
  omega

/-- **A pause that has been announced is not announced again.** -/
theorem Announced.step (hann : Announced snapshot δ (c :: calls) s)
    (hlock : Lockstep snapshot δ (c :: calls)) (hst : Step s c s') :
    c.alarms = 0 ∧ Announced snapshot δ calls s' := by
  have hp := hst.pauseStep
  have hlater : (∀ d ∈ c :: calls, pauseEnd snapshot δ ≤ d.op.now.nanos) →
      ∀ d ∈ calls, pauseEnd snapshot δ ≤ d.op.now.nanos :=
    fun hpast d hd => hpast d (List.mem_cons_of_mem _ hd)
  unfold Announced at hann ⊢
  generalize s.backoffUntil = o at hp hann
  generalize s'.backoffUntil = o' at hp ⊢
  cases hp with
  | kept hop hn => exact ⟨Call.alarms_eq_zero hn, hann.imp_right hlater⟩
  | @ended input effects t ho hle hn =>
    refine ⟨Call.alarms_eq_zero hn, .inr ?_⟩
    rcases hann with ⟨u, hu, hend⟩ | hpast
    · -- the pause ended at this tick, and no call to come is before it
      obtain rfl := Option.some.inj (ho.symm.trans hu)
      intro d hd
      have hcd : input.now ≤ d.op.now := (List.pairwise_cons.1 hlock.ordered).1 d hd
      have := Timespec.le_def.1 (le_trans hle hcd)
      omega
    · exact hlater hpast
  | ignored => exact ⟨rfl, hann.imp_right hlater⟩
  | @paused ev u hlow hnext hu =>
    have hend := hlock.end_eq hu
    rcases hann with ⟨v, rfl, hv⟩ | hpast
    · obtain rfl : v = u := Timespec.ext (hv.trans hend.symm)
      rw [if_pos rfl] at hlock ⊢
      exact ⟨rfl, .inl ⟨v, rfl, hv⟩⟩
    · -- the reset lies before the end of the pause, so it cannot still be to come
      have hnow := hpast _ List.mem_cons_self
      have hnext := Timespec.le_def.1 hnext
      have hmargin : (0 : ℤ) < BACKOFF_SAFETY_MARGIN.nanos := by decide
      change pauseEnd snapshot δ ≤ ev.now.nanos at hnow
      omega

/-- A call announces at most one pause, and one it announces has been announced from then on. -/
theorem Lockstep.step (hlock : Lockstep snapshot δ (c :: calls)) (hst : Step s c s') :
    c.alarms = 0 ∨ (c.alarms ≤ 1 ∧ Announced snapshot δ calls s') := by
  have hp := hst.pauseStep
  unfold Announced
  generalize s.backoffUntil = o at hp
  generalize s'.backoffUntil = o' at hp ⊢
  cases hp with
  | kept _ hn => exact .inl (Call.alarms_eq_zero hn)
  | ended _ _ hn => exact .inl (Call.alarms_eq_zero hn)
  | ignored => exact .inl rfl
  | @paused ev u hlow hnext hu =>
    refine .inr ⟨?_, .inl ⟨u, rfl, hlock.end_eq hu⟩⟩
    unfold Call.alarms
    dsimp only
    split
    · exact Nat.zero_le 1
    · exact le_refl 1

/-- **At most one announcement in a run that observes one snapshot.** -/
theorem Lockstep.run {t : CacheStore} (hlock : Lockstep snapshot δ calls)
    (hr : Run Step s calls t) : (calls.flatMap Call.effects).countP Effect.isAlarm ≤ 1 := by
  rw [List.countP_flatMap]
  refine (Run.sum_le_one (P := fun calls _ => Lockstep snapshot δ calls)
    (Q := fun calls s => Lockstep snapshot δ calls ∧ Announced snapshot δ calls s) ?_ ?_ hr).2 hlock
  · intro c calls s s' hlock hst
    rcases hlock.step hst with hzero | ⟨hone, hann⟩
    · exact .inl ⟨hzero, hlock.tail⟩
    · exact .inr ⟨hone, hlock.tail, hann⟩
  · rintro c calls s s' ⟨hlock, hann⟩ hst
    obtain ⟨hzero, hann'⟩ := hann.step hlock hst
    exact ⟨hzero, hlock.tail, hann'⟩

theorem Lockstep.observed_late {c : Call} {ev : RateLimitObservedEvent}
    (hlock : Lockstep snapshot δ calls) (hmem : c ∈ calls) (hst : Step s c s')
    (hop : c.op = .rateLimit ev) (hlate : snapshot.bottleneckResetAt < ev.nowWall) :
    s'.backoffUntil = s.backoffUntil ∧ ¬ c.Alarms := by
  obtain ⟨op, effects⟩ := c
  dsimp only at hop
  subst hop
  obtain ⟨rfl, -⟩ := hlock.observed _ hmem ev rfl
  have hp := hst.pauseStep
  generalize s.backoffUntil = o at hp ⊢
  generalize s'.backoffUntil = o' at hp ⊢
  cases hp with
  | kept hop => exact absurd rfl (hop ev)
  | ignored => exact ⟨rfl, fun ⟨v, hv⟩ => by cases hv⟩
  | paused _ hnext => exact absurd hlate (not_lt.2 hnext)

end

theorem enterBackoff_mem_iff {s s' : CacheStore} {ev : RateLimitObservedEvent}
    {effects : List Effect} (h : onRateLimitObserved s ev = .ok (s', effects)) :
    effects.length ≤ 1 ∧
      ∀ u, .enterBackoff u ∈ effects ↔ s'.backoffUntil = some u ∧ s.backoffUntil ≠ some u := by
  have hp := pauseStep_onRateLimitObserved h
  generalize s.backoffUntil = o at hp ⊢
  generalize s'.backoffUntil = o' at hp ⊢
  cases hp with
  | kept hop => exact absurd rfl (hop ev)
  | ignored =>
    refine ⟨Nat.zero_le _, fun u => ⟨nofun, ?_⟩⟩
    rintro ⟨hu, hne⟩
    exact absurd hu hne
  | @paused _ u =>
    by_cases hsame : o = some u
    · rw [if_pos hsame]
      refine ⟨Nat.zero_le _, fun v => ⟨nofun, ?_⟩⟩
      rintro ⟨hv, hne⟩
      exact absurd (hsame.trans hv) hne
    · rw [if_neg hsame]
      refine ⟨le_refl _, fun v => ?_⟩
      rw [List.mem_singleton]
      constructor
      · intro hv
        obtain rfl := Effect.enterBackoff.inj hv
        exact ⟨rfl, hsame⟩
      · rintro ⟨hv, -⟩
        rw [Option.some.inj hv]

/-- **When a pause is announced.**  An observation announces a pause exactly when it moves the end of
the pause, to the end it announces, and leaves the entries alone.  A run that observes one snapshot,
with the two clocks in lockstep, announces at most one pause, and an observation after the reset leaves
the pause as it is. -/
theorem announced_once :
    (∀ s s' ev effects, onRateLimitObserved s ev = .ok (s', effects) →
      s'.entries = s.entries ∧ effects.length ≤ 1 ∧
        ∀ u, .enterBackoff u ∈ effects ↔ s'.backoffUntil = some u ∧ s.backoffUntil ≠ some u) ∧
    ∀ snapshot δ s t calls, Lockstep snapshot δ calls → Run Step s calls t →
      (calls.flatMap Call.effects).countP Effect.isAlarm ≤ 1 ∧
        ∀ before c after u u' ev, calls = before ++ c :: after → Run Step s before u →
          Step u c u' → c.op = .rateLimit ev → snapshot.bottleneckResetAt < ev.nowWall →
          u'.backoffUntil = u.backoffUntil ∧ ¬ c.Alarms := by
  refine ⟨?_, ?_⟩
  · intro s s' ev effects h
    exact ⟨(onRateLimitObserved_ok h).1, enterBackoff_mem_iff h⟩
  · intro snapshot δ s t calls hlock hr
    refine ⟨hlock.run hr, ?_⟩
    rintro before c after u u' ev rfl - hst hop hlate
    exact hlock.observed_late (List.mem_append_right _ List.mem_cons_self) hst hop hlate

namespace Drained

def snapshot : RateLimitSnapshot :=
  { coreRemaining := 0, coreLimit := 5000, graphqlRemaining := 4000, graphqlLimit := 5000
    coreResetAt := .ofSecs 60, graphqlResetAt := .ofSecs 60, fetchedAt := .ofSecs 0 }

def observation (secs : UInt32) : Op :=
  .rateLimit { snapshot := snapshot, now := .ofSecs secs, nowWall := .ofSecs secs }

/-- Two observations before the reset, one after it, a tick that ends the pause and one more
observation. -/
def calls : List Call :=
  [⟨observation 0, [.enterBackoff BothLow.resumeAt]⟩, ⟨observation 30, []⟩, ⟨observation 61, []⟩,
    ⟨DaemonServerConfig.defaults.tick (.ofSecs 62) (.ofSecs 62), []⟩, ⟨observation 63, []⟩]

end Drained

open Drained in
theorem announced_once_drained :
    (calls.flatMap Call.effects).countP Effect.isAlarm ≤ 1 ∧
      ∃ s s', Step s ⟨observation 63, []⟩ s' ∧ s'.backoffUntil = s.backoffUntil := by
  have hlock : Lockstep snapshot 0 calls := by
    refine ⟨by unfold TimesOrdered; decide, ?_⟩
    intro c hc ev hop
    simp only [calls, List.mem_cons, List.not_mem_nil, or_false] at hc
    rcases hc with rfl | rfl | rfl | rfl | rfl <;> cases hop <;> exact ⟨rfl, rfl⟩
  have hr : Run Step .new calls ⟨∅, some snapshot, none⟩ :=
    run_of_exec (calls.map Call.op) rfl
  have hbefore : Run Step .new (calls.take 4) ⟨∅, some snapshot, none⟩ :=
    run_of_exec ((calls.take 4).map Call.op) rfl
  have hstep : Step ⟨∅, some snapshot, none⟩ ⟨observation 63, []⟩ ⟨∅, some snapshot, none⟩ :=
    Step.of_run rfl
  obtain ⟨hcount, hlate⟩ := announced_once.2 snapshot 0 .new _ calls hlock hr
  exact ⟨hcount, _, _, hstep,
    (hlate (calls.take 4) _ [] _ _ _ rfl hbefore hstep rfl (by decide)).1⟩

end MergeReady.Daemon
