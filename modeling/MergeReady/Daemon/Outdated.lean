import MergeReady.Daemon.Scaling

/-!
# Outdated snapshots

A snapshot is kept until the next one is observed, also when both of its resets have passed.  Then the
time to the reset no longer stretches an interval, but the ratio and a resource that was used up still
do.  This file says when a tick under an outdated snapshot starts the refreshes that a tick without a
snapshot would start.
-/

namespace MergeReady.Daemon

open MergeReady.Lib

/-! ## The refreshes a tick starts -/

/-- The entry is one the loop of a tick may refresh: active, and with no lock that is still good. -/
def Refreshable (input : SchedulerTickInput) (e : CacheEntryState) : Prop :=
  e.isActive = true ∧
    (e.isRefreshing = true → refreshLockExpired e input.refreshLockTimeoutSecs input.now = true)

theorem tickInterval_releaseExpiredLock (input : SchedulerTickInput)
    (snapshot : Option RateLimitSnapshot) (cost : UInt64) (e : CacheEntryState) :
    tickInterval input snapshot cost (releaseExpiredLock input e) =
      tickInterval input snapshot cost e := by
  unfold releaseExpiredLock
  split <;> rfl

theorem cwd_releaseExpiredLock (input : SchedulerTickInput) (e : CacheEntryState) :
    (releaseExpiredLock input e).cwd = e.cwd := by
  unfold releaseExpiredLock
  split <;> rfl

theorem cwd_countColdRefresh (input : SchedulerTickInput) (e : CacheEntryState) :
    (countColdRefresh input e).cwd = e.cwd := by
  unfold countColdRefresh
  split <;> rfl

section

variable {input : SchedulerTickInput} {snapshot : Option RateLimitSnapshot} {cost : UInt64}
  {e : CacheEntryState}

/-- What the loop does with an entry that may be refreshed and has reached its interval. -/
theorem tickEntry_of_due (id : RepoId) (he : Refreshable input e)
    (hage : tickInterval input snapshot cost e ≤ (fetchedAtElapsed e input.now).asSecs) :
    tickEntry input snapshot cost id e =
      ((countColdRefresh input (releaseExpiredLock input e)).withMarkRefreshing input.now,
        [.spawnRefresh id e.cwd]) := by
  have hidle := isRefreshing_releaseExpiredLock_eq_false.2 he.2
  have hreached : ¬ (fetchedAtElapsed e input.now).asSecs < tickInterval input snapshot cost e :=
    UInt64.not_lt.2 hage
  unfold tickEntry
  dsimp only
  rw [fetchedAtElapsed_releaseExpiredLock, tickInterval_releaseExpiredLock, cwd_countColdRefresh,
    cwd_releaseExpiredLock]
  simp [he.1, hidle, hreached]

theorem tickEntry_of_not_due (id : RepoId)
    (h : ¬ (Refreshable input e ∧
      tickInterval input snapshot cost e ≤ (fetchedAtElapsed e input.now).asSecs)) :
    tickEntry input snapshot cost id e =
      (if e.isActive then releaseExpiredLock input e else e, []) := by
  unfold tickEntry
  dsimp only
  rw [fetchedAtElapsed_releaseExpiredLock, tickInterval_releaseExpiredLock]
  cases ha : e.isActive with
  | false => simp
  | true =>
    cases hr : (releaseExpiredLock input e).isRefreshing with
    | true => simp
    | false =>
      have hnot : ¬ tickInterval input snapshot cost e ≤ (fetchedAtElapsed e input.now).asSecs :=
        fun hage => h ⟨⟨ha, isRefreshing_releaseExpiredLock_eq_false.1 hr⟩, hage⟩
      simp [UInt64.not_le.1 hnot]

theorem mem_tickEntry_iff {id : RepoId} {eff : Effect} :
    eff ∈ (tickEntry input snapshot cost id e).2 ↔ Refreshable input e ∧
      tickInterval input snapshot cost e ≤ (fetchedAtElapsed e input.now).asSecs ∧
      eff = .spawnRefresh id e.cwd := by
  rw [← and_assoc]
  by_cases h : Refreshable input e ∧
      tickInterval input snapshot cost e ≤ (fetchedAtElapsed e input.now).asSecs
  · rw [tickEntry_of_due id h.1 h.2, List.mem_singleton, and_iff_right h]
  · simp [tickEntry_of_not_due id h, h]

end

/-- A tick of a store that is not paused starts the refreshes of the entries that are kept, can be
refreshed and have reached their interval. -/
theorem spawnRefresh_mem_tick {s : CacheStore} {input : SchedulerTickInput}
    (hb : s.isBackedOff input.now = false) (id : RepoId) (cwd : String) :
    Effect.spawnRefresh id cwd ∈ (onSchedulerTick s input).2 ↔
      ∃ e, s.entry id = some e ∧ isExpired e input.entryMaxAgeSecs input.now = false ∧
        Refreshable input e ∧
        tickInterval input s.latestRateLimit (tickCost s input) e ≤
          (fetchedAtElapsed e input.now).asSecs ∧ cwd = e.cwd := by
  simp only [spawnRefresh_mem_onSchedulerTick hb, mem_tickEntry_iff, Effect.spawnRefresh.injEq,
    true_and]

/-! ## Intervals under an outdated snapshot -/

theorem RateLimitSnapshot.bottleneckResetAt_le {snapshot : RateLimitSnapshot} {t : SystemTime}
    (hcore : snapshot.coreResetAt ≤ t) (hgraphql : snapshot.graphqlResetAt ≤ t) :
    snapshot.bottleneckResetAt ≤ t := by
  unfold bottleneckResetAt
  dsimp only
  split
  · exact hcore
  · split
    · exact hgraphql
    · exact max_le hcore hgraphql

/-- The interval `base` seconds stretched for a quota of which `used` basis points are used; sums and
products are cut off at the largest `u64`. -/
def stretched (base alphaX10 used : ℕ) : ℕ :=
  min (base + min (base * alphaX10 * (used * used / 10000)) (2 ^ 64 - 1) / 100000) (2 ^ 64 - 1)

theorem budgetTerm_eq_zero_of_outdated {nowWall : SystemTime} {snapshot : RateLimitSnapshot}
    (hpast : snapshot.bottleneckResetAt ≤ nowWall) (cost weight : UInt64) :
    (computeBudgetTerm cost (min (snapshot.secsUntilReset nowWall) RESET_WINDOW_CAP_SECS)
      (bottleneckBudget snapshot) weight snapshot.bottleneckRatioBp).toNat = 0 := by
  have hsecs : (min (snapshot.secsUntilReset nowWall) RESET_WINDOW_CAP_SECS).toNat = 0 := by
    have hpast := Timespec.le_def.1 hpast
    rw [RateLimitSnapshot.secsUntilReset_eq_zero.2 (by omega), toNat_min64]
    exact Nat.zero_min _
  rw [toNat_computeBudgetTerm, hsecs, Nat.mul_zero, Nat.zero_mul, Nat.zero_mul, Nat.zero_min,
    Nat.zero_div]

/-- Under an outdated snapshot an age reaches the interval when it reaches the base, the base
stretched for the ratio, and the late cold interval if a resource is used up. -/
theorem scaled_le_iff_of_outdated {p : RefreshPolicy} {e : CacheEntryState} {now : Instant}
    {nowWall : SystemTime} {snapshot : RateLimitSnapshot}
    (hpast : snapshot.bottleneckResetAt ≤ nowWall) (cost age : UInt64) :
    p.effectiveRefreshIntervalSecsScaled e (some snapshot) cost now nowWall ≤ age ↔
      p.effectiveRefreshIntervalSecs e now ≤ age ∧
        stretched (p.effectiveRefreshIntervalSecs e now).toNat
          (scalingParams (p.effectiveMode e now)).alphaX10.toNat
          (10000 - snapshot.bottleneckRatioBp.toNat) ≤ age.toNat ∧
        (snapshot.isExhausted = true → p.coldLateSecs ≤ age) := by
  by_cases hbase : p.effectiveRefreshIntervalSecs e now = u64Max
  · rw [scaled_of_never hbase, hbase]
    constructor
    · intro h
      have hage := UInt64.le_iff_toNat_le.1 h
      have hlate := p.coldLateSecs.toNat_lt
      rw [toNat_u64Max] at hage
      refine ⟨h, ?_, fun _ => ?_⟩
      · unfold stretched
        omega
      · rw [UInt64.le_iff_toNat_le]
        omega
    · exact fun h => h.1
  · have hbudget := budgetTerm_eq_zero_of_outdated hpast cost
      (scalingParams (p.effectiveMode e now)).weightX10
    have hfloor : (if snapshot.isExhausted = true then p.coldLateSecs.toNat else 0) ≤ age.toNat ↔
        (snapshot.isExhausted = true → p.coldLateSecs ≤ age) := by
      rw [UInt64.le_iff_toNat_le]
      split
      · rename_i hex
        exact ⟨fun h _ => h, fun h => h hex⟩
      · rename_i hex
        exact iff_of_true (Nat.zero_le _) fun h => absurd h hex
    rw [UInt64.le_iff_toNat_le, toNat_scaled hbase, hbudget, toNat_computeRatioTerm, Nat.max_le,
      Nat.max_le, Nat.max_le, hfloor]
    constructor
    · rintro ⟨⟨⟨hle, hratio⟩, -⟩, hlate⟩
      exact ⟨UInt64.le_iff_toNat_le.2 hle, hratio, hlate⟩
    · rintro ⟨hle, hratio, hlate⟩
      exact ⟨⟨⟨UInt64.le_iff_toNat_le.1 hle, hratio⟩, Nat.zero_le _⟩, hlate⟩

/-! ## Ticks under an outdated snapshot -/

theorem tickInterval_none (input : SchedulerTickInput) (cost : UInt64) (e : CacheEntryState) :
    tickInterval input none cost e = input.policy.effectiveRefreshIntervalSecs e input.now := by
  unfold tickInterval RefreshPolicy.effectiveRefreshIntervalSecsScaled
  dsimp only
  split <;> rfl

/-- Every entry that is due at its base interval has an age the outdated snapshot does not hold up:
the base stretched for its ratio, and the late cold interval if a resource was used up. -/
def HoldsNothingUp (s : CacheStore) (input : SchedulerTickInput) (snapshot : RateLimitSnapshot) :
    Prop :=
  ∀ id e, s.entry id = some e → isExpired e input.entryMaxAgeSecs input.now = false →
    Refreshable input e →
    input.policy.effectiveRefreshIntervalSecs e input.now ≤ (fetchedAtElapsed e input.now).asSecs →
    stretched (input.policy.effectiveRefreshIntervalSecs e input.now).toNat
        (scalingParams (input.policy.effectiveMode e input.now)).alphaX10.toNat
        (10000 - snapshot.bottleneckRatioBp.toNat) ≤ (fetchedAtElapsed e input.now).asSecs.toNat ∧
      (snapshot.isExhausted = true →
        input.policy.coldLateSecs ≤ (fetchedAtElapsed e input.now).asSecs)

/-- **When an outdated snapshot does not throttle.**  At a tick after both resets the same refreshes
start as without a snapshot exactly when the snapshot holds no entry up. -/
theorem outdated_snapshot_iff {s : CacheStore} {input : SchedulerTickInput}
    {snapshot : RateLimitSnapshot} (hs : s.latestRateLimit = some snapshot)
    (hb : s.isBackedOff input.now = false) (hcore : snapshot.coreResetAt ≤ input.nowWall)
    (hgraphql : snapshot.graphqlResetAt ≤ input.nowWall) :
    (∀ id cwd, Effect.spawnRefresh id cwd ∈ (onSchedulerTick s input).2 ↔
        Effect.spawnRefresh id cwd ∈ (onSchedulerTick (s.withLatestRateLimit none) input).2) ↔
      HoldsNothingUp s input snapshot := by
  have hpast := RateLimitSnapshot.bottleneckResetAt_le hcore hgraphql
  have hdue : ∀ e, _ ↔ _ := fun e => @scaled_le_iff_of_outdated input.policy e input.now
    input.nowWall snapshot hpast (tickCost s input) (fetchedAtElapsed e input.now).asSecs
  have hwith := fun id cwd => spawnRefresh_mem_tick hb id cwd
  simp only [hs] at hwith
  have hwithout := fun id cwd =>
    spawnRefresh_mem_tick (show (s.withLatestRateLimit none).isBackedOff input.now = false from hb)
      id cwd
  constructor
  · intro hsame id e he hlive hfree hbase
    have hspawn : Effect.spawnRefresh id e.cwd ∈
        (onSchedulerTick (s.withLatestRateLimit none) input).2 := by
      refine (hwithout id e.cwd).2 ⟨e, he, hlive, hfree, ?_, rfl⟩
      rw [show (s.withLatestRateLimit none).latestRateLimit = none from rfl, tickInterval_none]
      exact hbase
    obtain ⟨e', he', -, -, hi, -⟩ := (hwith id e.cwd).1 ((hsame id e.cwd).2 hspawn)
    obtain rfl := Option.some.inj (he.symm.trans he')
    exact ((hdue e).1 hi).2
  · intro hnone id cwd
    rw [hwith, hwithout]
    constructor
    · rintro ⟨e, he, hlive, hfree, hi, rfl⟩
      refine ⟨e, he, hlive, hfree, ?_, rfl⟩
      rw [show (s.withLatestRateLimit none).latestRateLimit = none from rfl, tickInterval_none]
      exact ((hdue e).1 hi).1
    · rintro ⟨e, he, hlive, hfree, hi, rfl⟩
      rw [show (s.withLatestRateLimit none).latestRateLimit = none from rfl, tickInterval_none] at hi
      exact ⟨e, he, hlive, hfree, (hdue e).2 ⟨hi, hnone id e he hlive hfree hi⟩, rfl⟩

/-! ### After a quota that was used up -/

namespace Outlived

def repo : RepoId := ⟨"cbf29ce484222325"⟩

/-- `core` has `remaining` calls left; both resources are reset at 60 s. -/
def snapshot (remaining : UInt32) : RateLimitSnapshot :=
  { coreRemaining := remaining, coreLimit := 5000, graphqlRemaining := 5000, graphqlLimit := 5000
    coreResetAt := .ofSecs 60, graphqlResetAt := .ofSecs 60, fetchedAt := .ofSecs 2 }

def fetched : CacheEntryState :=
  (CacheEntryState.newLoading "/repo" "main" 5 (.ofSecs 0) (.ofSecs 0)).withRefreshCompleted
    "⧖ Wait for CI" [] .hot (.ofSecs 1) (.ofSecs 1)

/-- The daemon has fetched an entry at 1 s and observed the snapshot at 2 s. -/
def store (remaining : UInt32) (backoffUntil : Option Instant) : CacheStore :=
  { entries := AList.singleton repo fetched, latestRateLimit := some (snapshot remaining)
    backoffUntil := backoffUntil }

def calls (remaining : UInt32) : List Op :=
  [DaemonServerConfig.defaults.processQuery repo "main" "/repo" (.ofSecs 0) (.ofSecs 0),
    processUpdate repo "⧖ Wait for CI" .hot [] (.ofSecs 1) (.ofSecs 1),
    .rateLimit { snapshot := snapshot remaining, now := .ofSecs 2, nowWall := .ofSecs 2 }]

def input : SchedulerTickInput := DaemonServerConfig.defaults.tickInput (.ofSecs 120) (.ofSecs 120)

end Outlived

open Outlived in
theorem outdated_snapshot_iff_full :
    Effect.spawnRefresh repo "/repo" ∈ (onSchedulerTick (store 5000 none) input).2 ↔
      Effect.spawnRefresh repo "/repo" ∈
        (onSchedulerTick ((store 5000 none).withLatestRateLimit none) input).2 := by
  have hnone : HoldsNothingUp (store 5000 none) input (snapshot 5000) := by
    intro id e he _ _ _
    obtain ⟨rfl, rfl⟩ := CacheStore.entry_single_eq_some.1 he
    decide
  exact (outdated_snapshot_iff rfl rfl (by decide) (by decide)).2 hnone repo "/repo"

open Outlived in
/-- A snapshot of a quota that was used up holds the entry up after the reset. -/
theorem outdated_snapshot_throttles :
    Reachable (store 0 (some BothLow.resumeAt)) ∧
      (store 0 (some BothLow.resumeAt)).isBackedOff input.now = false ∧
      (snapshot 0).coreResetAt ≤ input.nowWall ∧ (snapshot 0).graphqlResetAt ≤ input.nowWall ∧
      Effect.spawnRefresh repo "/repo" ∉ (onSchedulerTick (store 0 (some BothLow.resumeAt)) input).2 ∧
      Effect.spawnRefresh repo "/repo" ∈
        (onSchedulerTick ((store 0 (some BothLow.resumeAt)).withLatestRateLimit none) input).2 := by
  refine ⟨Reachable.of_exec (calls 0) rfl, rfl, by decide, by decide, ?_, ?_⟩
  · decide
  · exact List.mem_singleton.2 rfl

end MergeReady.Daemon
