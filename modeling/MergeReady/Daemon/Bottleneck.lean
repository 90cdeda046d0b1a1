import MergeReady.Daemon.Scaling

/-!
# What of a snapshot matters

The ratio and the reset the daemon goes by are those of the bottleneck.  The remaining budget and the
test for a used-up resource look at both resources.  `SameReaction` says that two snapshots have the
same effect on every interval and every pause; this file says when two snapshots with one bottleneck
do.
-/

namespace MergeReady.Daemon

open MergeReady.Lib

def Resource.other : Resource → Resource
  | .core => .graphql
  | .graphql => .core

/-- The ratio of `r` is the smaller one. -/
def RateLimitSnapshot.IsBottleneck (s : RateLimitSnapshot) (r : Resource) : Prop :=
  s.ratio r < s.ratio r.other

structure AgreeOn (r : Resource) (a b : RateLimitSnapshot) : Prop where
  remaining : a.remaining r = b.remaining r
  limit : a.limit r = b.limit r
  resetAt : a.resetAt r = b.resetAt r

/-- What an observation does to the pause, and the effects it returns. -/
def pauseOf (x : Fallible (CacheStore × List Effect)) : Fallible (Option Instant × List Effect) :=
  x.map fun y => (y.1.backoffUntil, y.2)

/-- At this wall time the two snapshots give every entry under every policy the same interval, and
every observation of them has the same result for the pause. -/
structure SameReaction (a b : RateLimitSnapshot) (nowWall : SystemTime) : Prop where
  interval : ∀ (p : RefreshPolicy) (e : CacheEntryState) (cost : UInt64) (now : Instant),
    p.effectiveRefreshIntervalSecsScaled e (some a) cost now nowWall =
      p.effectiveRefreshIntervalSecsScaled e (some b) cost now nowWall
  pause : ∀ (s : CacheStore) (now : Instant),
    pauseOf (onRateLimitObserved s { snapshot := a, now := now, nowWall := nowWall }) =
      pauseOf (onRateLimitObserved s { snapshot := b, now := now, nowWall := nowWall })

/-! ## What is read off the bottleneck -/

namespace RateLimitSnapshot.IsBottleneck

variable {s : RateLimitSnapshot} {r : Resource}

theorem bottleneckRatioBp (h : s.IsBottleneck r) : s.bottleneckRatioBp = s.ratio r := by
  have h := UInt64.lt_iff_toNat_lt.1 h
  rw [← UInt64.toNat_inj]
  show (min (s.ratio .core) (s.ratio .graphql)).toNat = _
  rw [toNat_min64]
  cases r with
  | core =>
    change (s.ratio .core).toNat < (s.ratio .graphql).toNat at h
    omega
  | graphql =>
    change (s.ratio .graphql).toNat < (s.ratio .core).toNat at h
    omega

theorem bottleneckResetAt (h : s.IsBottleneck r) : s.bottleneckResetAt = s.resetAt r := by
  show (if s.ratio .core < s.ratio .graphql then s.resetAt .core
    else if s.ratio .graphql < s.ratio .core then s.resetAt .graphql
    else max (s.resetAt .core) (s.resetAt .graphql)) = _
  cases r with
  | core => exact if_pos h
  | graphql =>
    have hnot : ¬ s.ratio .core < s.ratio .graphql := by
      have h := UInt64.lt_iff_toNat_lt.1 h
      rw [UInt64.lt_iff_toNat_lt]
      exact Nat.lt_asymm h
    rw [if_neg hnot]
    exact if_pos h

end RateLimitSnapshot.IsBottleneck

/-- The part of the remaining budget a round may use. -/
def safeBudget (s : RateLimitSnapshot) : ℕ := max ((bottleneckBudget s).toNat * 95 / 100) 1

theorem pauseOf_congr {a b : RateLimitSnapshot} (hratio : a.bottleneckRatioBp = b.bottleneckRatioBp)
    (hreset : a.bottleneckResetAt = b.bottleneckResetAt) (hex : a.isExhausted = b.isExhausted)
    (s : CacheStore) (now : Instant) (nowWall : SystemTime) :
    pauseOf (onRateLimitObserved s { snapshot := a, now := now, nowWall := nowWall }) =
      pauseOf (onRateLimitObserved s { snapshot := b, now := now, nowWall := nowWall }) := by
  have henter : shouldEnterBackoff a = shouldEnterBackoff b := by
    unfold shouldEnterBackoff
    rw [hex, hratio]
  have hnext : nextBackoffUntil s { snapshot := a, now := now, nowWall := nowWall } =
      nextBackoffUntil s { snapshot := b, now := now, nowWall := nowWall } := by
    unfold nextBackoffUntil resetInstantFromSnapshot
    dsimp only
    rw [henter, hreset]
  have heff : ∀ o, backoffEffects s a o = backoffEffects s b o := by
    intro o
    unfold backoffEffects
    rw [henter]
  unfold onRateLimitObserved
  rw [hnext]
  dsimp only
  cases nextBackoffUntil s { snapshot := b, now := now, nowWall := nowWall } with
  | error => rfl
  | ok o =>
    show Except.ok (o, backoffEffects s a o) = Except.ok (o, backoffEffects s b o)
    rw [heff]

theorem toNat_budgetTerm (s : RateLimitSnapshot) (cost secs weight r : UInt64) :
    (computeBudgetTerm cost secs (bottleneckBudget s) weight r).toNat =
      min (cost.toNat * secs.toNat * weight.toNat * (10000 - r.toNat)) (2 ^ 64 - 1) /
        (safeBudget s * 100000) := toNat_computeBudgetTerm _ _ _ _ _

/-! ## Telling two snapshots apart -/

def zeroPolicy (coldLateSecs : UInt64) : RefreshPolicy :=
  { hotRecentQuerySecs := 0, hotWithQuerySecs := 0, hotWithoutQuerySecs := 0, warmRefreshSecs := 0
    warmToColdSecs := 0, coldEarlySecs := 0, coldLateSecs := coldLateSecs, coldEarlyLimit := 0 }

def hotEntry : CacheEntryState :=
  (CacheEntryState.newLoading "" "" 0 (.ofSecs 0) (.ofSecs 0)).withRefreshCompleted "" [] .hot
    (.ofSecs 0) (.ofSecs 0)

/-- Under the policy without intervals, the budget term and the late interval are all there is. -/
theorem toNat_scaled_zeroPolicy (s : RateLimitSnapshot) (late cost : UInt64) (nowWall : SystemTime) :
    ((zeroPolicy late).effectiveRefreshIntervalSecsScaled hotEntry (some s) cost (.ofSecs 0)
        nowWall).toNat =
      max (min (cost.toNat * min (s.secsUntilReset nowWall).toNat 3600 * 5 *
          (10000 - s.bottleneckRatioBp.toNat)) (2 ^ 64 - 1) / (safeBudget s * 100000))
        (if s.isExhausted then late.toNat else 0) := by
  have hbase : (zeroPolicy late).effectiveRefreshIntervalSecs hotEntry (.ofSecs 0) = 0 := rfl
  have hne : (zeroPolicy late).effectiveRefreshIntervalSecs hotEntry (.ofSecs 0) ≠ u64Max := by
    rw [hbase]
    decide
  rw [toNat_scaled hne, toNat_computeRatioTerm, toNat_budgetTerm, hbase, toNat_min64]
  show max (max (max 0 (min (0 + min (0 * _ * _) _ / 100000) _)) _) _ = _
  rw [Nat.zero_mul, Nat.zero_mul, Nat.zero_min, Nat.zero_div, Nat.zero_min, Nat.zero_max,
    Nat.zero_max]
  rfl

/-- Two different budgets are told apart by a cost whose budget term reaches 1800 s under the smaller
budget, and not under the larger one. -/
theorem exists_separating_cost {g d d' : ℕ} (hg : 1 ≤ g) (hg' : g ≤ 180000000) (hd : 1 ≤ d)
    (hlt : d < d') (hd' : d' ≤ 2 ^ 32) :
    ∃ c < 2 ^ 64, min (c * g) (2 ^ 64 - 1) / (d' * 100000) <
      min (c * g) (2 ^ 64 - 1) / (d * 100000) := by
  -- the least cost that reaches it
  have hsplit := Nat.div_add_mod' (1800 * (d * 100000) + g - 1) g
  have hrest := Nat.mod_lt (1800 * (d * 100000) + g - 1) hg
  generalize (1800 * (d * 100000) + g - 1) / g = c at hsplit
  generalize (1800 * (d * 100000) + g - 1) % g = rest at hsplit hrest
  have hlower : 1800 * (d * 100000) ≤ c * g := by omega
  have hself : c ≤ c * g := Nat.le_mul_of_pos_right c hg
  refine ⟨c, by omega, ?_⟩
  rw [show min (c * g) (2 ^ 64 - 1) = c * g by omega]
  have hmore : c * g / (d' * 100000) < 1800 := by
    apply Nat.div_lt_of_lt_mul
    omega
  have hless : 1800 ≤ c * g / (d * 100000) := by
    rw [Nat.le_div_iff_mul_le (by omega)]
    exact hlower
  omega

theorem one_le_safeBudget (s : RateLimitSnapshot) : 1 ≤ safeBudget s := le_max_right _ _

theorem safeBudget_le (s : RateLimitSnapshot) : safeBudget s ≤ 2 ^ 32 := by
  have := (bottleneckBudget s).toNat_lt
  unfold safeBudget
  omega

/-- Snapshots with the same ratio and reset, and with different budgets, give some entry different
intervals while the budget matters. -/
theorem exists_interval_ne {a b : RateLimitSnapshot} {nowWall : SystemTime}
    (hratio : a.bottleneckRatioBp = b.bottleneckRatioBp)
    (hsecs : a.secsUntilReset nowWall = b.secsUntilReset nowWall)
    (hlt : safeBudget a < safeBudget b) (hdep : a.bottleneckRatioBp.toNat < 10000)
    (hreset : a.secsUntilReset nowWall ≠ 0) :
    ∃ cost, (zeroPolicy 0).effectiveRefreshIntervalSecsScaled hotEntry (some a) cost (.ofSecs 0)
      nowWall ≠ (zeroPolicy 0).effectiveRefreshIntervalSecsScaled hotEntry (some b) cost (.ofSecs 0)
      nowWall := by
  have hpos : (a.secsUntilReset nowWall).toNat ≠ 0 := fun h => hreset (UInt64.toNat_inj.1 h)
  have hg : 1 ≤ min (a.secsUntilReset nowWall).toNat 3600 * 5 *
      (10000 - a.bottleneckRatioBp.toNat) := Nat.mul_pos (by omega) (by omega)
  have hg' : min (a.secsUntilReset nowWall).toNat 3600 * 5 * (10000 - a.bottleneckRatioBp.toNat) ≤
      180000000 :=
    Nat.mul_le_mul (show _ ≤ 18000 by omega) (show _ ≤ 10000 by omega)
  obtain ⟨c, hc, hsep⟩ := exists_separating_cost hg hg' (one_le_safeBudget a) hlt (safeBudget_le b)
  refine ⟨UInt64.ofNat c, ?_⟩
  intro heq
  have heq := congrArg UInt64.toNat heq
  rw [toNat_scaled_zeroPolicy, toNat_scaled_zeroPolicy, ← hratio, ← hsecs,
    UInt64.toNat_ofNat_of_lt' hc, UInt64.toNat_zero, ite_self, ite_self, Nat.max_zero,
    Nat.max_zero, Nat.mul_assoc, Nat.mul_assoc, ← Nat.mul_assoc _ 5] at heq
  omega

/-- The intervals are the same when the ratios, the times to the reset and the tests for a used-up
resource are, and the remaining budgets too unless the budget term is zero anyway. -/
theorem interval_congr {a b : RateLimitSnapshot} {nowWall : SystemTime}
    (hratio : a.bottleneckRatioBp = b.bottleneckRatioBp)
    (hsecs : a.secsUntilReset nowWall = b.secsUntilReset nowWall)
    (hex : a.isExhausted = b.isExhausted)
    (hbudget : safeBudget a = safeBudget b ∨ 10000 ≤ a.bottleneckRatioBp.toNat ∨
      a.secsUntilReset nowWall = 0)
    (p : RefreshPolicy) (e : CacheEntryState) (cost : UInt64) (now : Instant) :
    p.effectiveRefreshIntervalSecsScaled e (some a) cost now nowWall =
      p.effectiveRefreshIntervalSecsScaled e (some b) cost now nowWall := by
  by_cases hbase : p.effectiveRefreshIntervalSecs e now = u64Max
  · rw [scaled_of_never hbase, scaled_of_never hbase]
  · rw [← UInt64.toNat_inj, toNat_scaled hbase, toNat_scaled hbase, toNat_budgetTerm,
      toNat_budgetTerm, ← hratio, ← hsecs, ← hex]
    rcases hbudget with hbudget | hfull | hzero
    · rw [hbudget]
    · rw [Nat.sub_eq_zero_of_le hfull, Nat.mul_zero, Nat.zero_min, Nat.zero_div, Nat.zero_div]
    · rw [hzero, toNat_min64, UInt64.toNat_zero, Nat.zero_min, Nat.mul_zero, Nat.zero_mul,
        Nat.zero_mul, Nat.zero_min, Nat.zero_div, Nat.zero_div]

/-- **When only the bottleneck matters.**  Two snapshots that agree on a resource, the bottleneck of
both, have the same reaction exactly when both or neither count as used up, and the remaining budgets
allow a round the same, or the bottleneck has its full ratio, or its reset is less than a second
away. -/
theorem sameReaction_iff {a b : RateLimitSnapshot} {r : Resource} (h : AgreeOn r a b)
    (ha : a.IsBottleneck r) (hb : b.IsBottleneck r) (nowWall : SystemTime) :
    SameReaction a b nowWall ↔ a.isExhausted = b.isExhausted ∧
      (safeBudget a = safeBudget b ∨ 10000 ≤ (a.ratio r).toNat ∨
        (a.resetAt r).nanos < nowWall.nanos + 1000000000) := by
  have hratio : a.bottleneckRatioBp = b.bottleneckRatioBp := by
    rw [ha.bottleneckRatioBp, hb.bottleneckRatioBp]
    unfold RateLimitSnapshot.ratio
    rw [h.remaining, h.limit]
  have hreset : a.bottleneckResetAt = b.bottleneckResetAt := by
    rw [ha.bottleneckResetAt, hb.bottleneckResetAt, h.resetAt]
  have hsecs : a.secsUntilReset nowWall = b.secsUntilReset nowWall := by
    unfold RateLimitSnapshot.secsUntilReset
    rw [hreset]
  have hnear : a.secsUntilReset nowWall = 0 ↔
      (a.resetAt r).nanos < nowWall.nanos + 1000000000 := by
    rw [← ha.bottleneckResetAt]
    exact RateLimitSnapshot.secsUntilReset_eq_zero
  rw [← ha.bottleneckRatioBp, ← hnear]
  constructor
  · intro hsame
    refine ⟨?_, ?_⟩
    · have heq := congrArg UInt64.toNat (hsame.interval (zeroPolicy 1) hotEntry 0 (.ofSecs 0))
      simp only [toNat_scaled_zeroPolicy, UInt64.toNat_zero, Nat.zero_mul, Nat.zero_min,
        Nat.zero_div] at heq
      revert heq
      cases a.isExhausted <;> cases b.isExhausted <;> decide
    · by_contra hno
      rw [not_or, not_or] at hno
      obtain ⟨hbudget, hdep, hpos⟩ := hno
      rcases Nat.lt_or_gt_of_ne hbudget with hlt | hlt
      · obtain ⟨cost, hne⟩ := exists_interval_ne hratio hsecs hlt (by omega) hpos
        exact hne (hsame.interval _ _ _ _)
      · obtain ⟨cost, hne⟩ := exists_interval_ne hratio.symm hsecs.symm hlt
          (by rw [← hratio]; omega) (by rw [← hsecs]; exact hpos)
        exact hne (hsame.interval _ _ _ _).symm
  · rintro ⟨hex, hbudget⟩
    exact ⟨interval_congr hratio hsecs hex hbudget,
      fun s now => pauseOf_congr hratio hreset hex s now nowWall⟩

/-! ### One bottleneck, several other resources -/

namespace HalfCore

/-- `core` is at 50 % until 60 s; `graphql` varies. -/
def snapshot (remaining limit : UInt32) : RateLimitSnapshot :=
  { coreRemaining := 2500, coreLimit := 5000, graphqlRemaining := remaining, graphqlLimit := limit
    coreResetAt := .ofSecs 60, graphqlResetAt := .ofSecs 90, fetchedAt := .ofSecs 0 }

theorem agreeOn (remaining limit remaining' limit' : UInt32) :
    AgreeOn .core (snapshot remaining limit) (snapshot remaining' limit') := ⟨rfl, rfl, rfl⟩

end HalfCore

open HalfCore in
theorem sameReaction_graphql :
    SameReaction (snapshot 4000 5000) (snapshot 5000 5000) (.ofSecs 0) := by
  refine (sameReaction_iff (agreeOn 4000 5000 5000 5000) ?_ ?_ (.ofSecs 0)).2 ⟨rfl, .inl rfl⟩
  · unfold RateLimitSnapshot.IsBottleneck
    decide
  · unfold RateLimitSnapshot.IsBottleneck
    decide

open HalfCore in
/-- A `graphql` without a limit counts as used up and pauses the daemon; a small one sets the budget
of a round. -/
theorem not_sameReaction_graphql :
    (snapshot 0 0).IsBottleneck .core ∧ (snapshot 60 100).IsBottleneck .core ∧
      (snapshot 5000 5000).IsBottleneck .core ∧
      AgreeOn .core (snapshot 0 0) (snapshot 5000 5000) ∧
      ¬ SameReaction (snapshot 0 0) (snapshot 5000 5000) (.ofSecs 0) ∧
      AgreeOn .core (snapshot 60 100) (snapshot 5000 5000) ∧
      ¬ SameReaction (snapshot 60 100) (snapshot 5000 5000) (.ofSecs 0) := by
  have hcore : ∀ s : RateLimitSnapshot, s.ratio .core < s.ratio .graphql → s.IsBottleneck .core :=
    fun _ h => h
  refine ⟨hcore _ (by decide), hcore _ (by decide), hcore _ (by decide), agreeOn _ _ _ _, ?_,
    agreeOn _ _ _ _, ?_⟩
  · intro h
    have hpause : (.ok (some BothLow.resumeAt, [.enterBackoff BothLow.resumeAt]) :
        Fallible (Option Instant × List Effect)) = .ok (none, []) := h.pause .new (.ofSecs 0)
    cases hpause
  · intro h
    have hinterval : (26 : UInt64) = 0 := h.interval (zeroPolicy 0) hotEntry 100 (.ofSecs 0)
    exact absurd hinterval (by decide)

end MergeReady.Daemon
