import MergeReady.Daemon.Backoff

/-!
# The stretched interval

The two terms of `effectiveRefreshIntervalSecsScaled` as formulas over the naturals, and in what they
are monotone: the longer the time to the reset, the smaller the budget and the smaller the ratio, the
longer the interval.  A drained quota stretches the interval unless the bottleneck moves to a resource
that is reset sooner.
-/

namespace MergeReady.Daemon

open MergeReady.Lib

/-! ## The time to the reset -/

/-- The time to the reset counts whole seconds, and none once it has passed. -/
theorem RateLimitSnapshot.secsUntilReset_eq_zero {snapshot : RateLimitSnapshot} {t : SystemTime} :
    snapshot.secsUntilReset t = 0 ↔
      snapshot.bottleneckResetAt.nanos < t.nanos + 1000000000 := by
  unfold secsUntilReset
  cases hd : snapshot.bottleneckResetAt.durationSince t with
  | none =>
    have hpast := Timespec.lt_def.1 (Timespec.durationSince_eq_none.1 hd)
    exact iff_of_true rfl (by omega)
  | some d =>
    have hd := Timespec.durationSince_eq_some.1 hd
    rw [← UInt64.toNat_inj]
    dsimp only
    rw [Duration.toNat_asSecs, UInt64.toNat_zero]
    omega

/-! ## The two terms -/

/-- The part of the quota that is used, in basis points. -/
theorem toNat_depletion (r : UInt64) : (satSub RATIO_SCALE_BP r).toNat = 10000 - r.toNat :=
  toNat_satSub _ _

theorem toNat_computeRatioTerm (base r alpha : UInt64) :
    (computeRatioTerm base r alpha).toNat =
      min (base.toNat + min (base.toNat * alpha.toNat *
        ((10000 - r.toNat) * (10000 - r.toNat) / 10000)) (2 ^ 64 - 1) / 100000) (2 ^ 64 - 1) := by
  have hsq : (satMul (satSub RATIO_SCALE_BP r) (satSub RATIO_SCALE_BP r)).toNat =
      (10000 - r.toNat) * (10000 - r.toNat) := by
    have hle : (10000 - r.toNat) * (10000 - r.toNat) ≤ 10000 * 10000 :=
      Nat.mul_le_mul (by omega) (by omega)
    rw [toNat_satMul, toNat_depletion]
    omega
  unfold computeRatioTerm
  dsimp only
  rw [toNat_satAdd, UInt64.toNat_div, show satMul base alpha = u64Sat _ from rfl, satMul_u64Sat,
    toNat_u64Sat, UInt64.toNat_div, hsq]
  rfl

/-- The share of the remaining budget a refresh may use: 95 %, and never nothing. -/
theorem toNat_safety (budget : UInt32) :
    (max (satMul budget.toUInt64 SAFETY_NUM / SAFETY_DEN) 1).toNat =
      max (budget.toNat * 95 / 100) 1 := by
  have hlt := budget.toNat_lt
  have hmul : (satMul budget.toUInt64 SAFETY_NUM).toNat = budget.toNat * 95 := by
    rw [toNat_satMul, UInt32.toNat_toUInt64, show SAFETY_NUM.toNat = 95 from rfl]
    omega
  rw [toNat_max64, UInt64.toNat_div, hmul]
  rfl

theorem toNat_computeBudgetTerm (cost secs weight r : UInt64) (budget : UInt32) :
    (computeBudgetTerm cost secs budget weight r).toNat =
      min (cost.toNat * secs.toNat * weight.toNat * (10000 - r.toNat)) (2 ^ 64 - 1) /
        (max (budget.toNat * 95 / 100) 1 * 100000) := by
  have hlt := budget.toNat_lt
  have hdenom : (satMul (satMul (max (satMul budget.toUInt64 SAFETY_NUM / SAFETY_DEN) 1) SCALE_X10)
      RATIO_SCALE_BP).toNat = max (budget.toNat * 95 / 100) 1 * 100000 := by
    rw [toNat_satMul, toNat_satMul, toNat_safety, show SCALE_X10.toNat = 10 from rfl,
      show RATIO_SCALE_BP.toNat = 10000 from rfl]
    omega
  unfold computeBudgetTerm
  dsimp only
  split
  · rename_i hzero
    rw [hzero, UInt64.toNat_zero] at hdenom
    omega
  · rw [UInt64.toNat_div, hdenom, show satMul cost secs = u64Sat _ from rfl, satMul_u64Sat,
      satMul_u64Sat, toNat_u64Sat, toNat_depletion]

theorem computeRatioTerm_anti {r r' : UInt64} (h : r' ≤ r) (base alpha : UInt64) :
    computeRatioTerm base r alpha ≤ computeRatioTerm base r' alpha := by
  have h := UInt64.le_iff_toNat_le.1 h
  rw [UInt64.le_iff_toNat_le, toNat_computeRatioTerm, toNat_computeRatioTerm]
  have hdep : 10000 - r.toNat ≤ 10000 - r'.toNat := by omega
  have hsq : (10000 - r.toNat) * (10000 - r.toNat) / 10000 ≤
      (10000 - r'.toNat) * (10000 - r'.toNat) / 10000 :=
    Nat.div_le_div_right (Nat.mul_le_mul hdep hdep)
  have hnumer := Nat.mul_le_mul_left (base.toNat * alpha.toNat) hsq
  have hbonus : min (base.toNat * alpha.toNat * ((10000 - r.toNat) * (10000 - r.toNat) / 10000))
        (2 ^ 64 - 1) / 100000 ≤
      min (base.toNat * alpha.toNat * ((10000 - r'.toNat) * (10000 - r'.toNat) / 10000))
        (2 ^ 64 - 1) / 100000 := Nat.div_le_div_right (by omega)
  omega

/-- A longer time to the reset, a smaller budget and a smaller ratio stretch more. -/
theorem computeBudgetTerm_mono {secs secs' r r' : UInt64} {budget budget' : UInt32}
    (hs : secs ≤ secs') (hb : budget' ≤ budget) (hr : r' ≤ r) (cost weight : UInt64) :
    computeBudgetTerm cost secs budget weight r ≤
      computeBudgetTerm cost secs' budget' weight r' := by
  have hs := UInt64.le_iff_toNat_le.1 hs
  have hb := UInt32.le_iff_toNat_le.1 hb
  have hr := UInt64.le_iff_toNat_le.1 hr
  rw [UInt64.le_iff_toNat_le, toNat_computeBudgetTerm, toNat_computeBudgetTerm]
  have hnumer : cost.toNat * secs.toNat * weight.toNat * (10000 - r.toNat) ≤
      cost.toNat * secs'.toNat * weight.toNat * (10000 - r'.toNat) :=
    Nat.mul_le_mul (Nat.mul_le_mul_right _ (Nat.mul_le_mul_left _ hs)) (by omega)
  apply Nat.div_le_div
  · omega
  · omega
  · omega

/-! ## The interval -/

/-- The interval under a snapshot, unless the entry is never refreshed: the longest of the base, the
two terms, and the late cold interval when a resource is used up. -/
theorem toNat_scaled {p : RefreshPolicy} {e : CacheEntryState} {now : Instant}
    (hbase : p.effectiveRefreshIntervalSecs e now ≠ u64Max) (snapshot : RateLimitSnapshot)
    (cost : UInt64) (nowWall : SystemTime) :
    (p.effectiveRefreshIntervalSecsScaled e (some snapshot) cost now nowWall).toNat =
      max (max (max (p.effectiveRefreshIntervalSecs e now).toNat
        (computeRatioTerm (p.effectiveRefreshIntervalSecs e now) snapshot.bottleneckRatioBp
          (scalingParams (p.effectiveMode e now)).alphaX10).toNat)
        (computeBudgetTerm cost (min (snapshot.secsUntilReset nowWall) RESET_WINDOW_CAP_SECS)
          (bottleneckBudget snapshot) (scalingParams (p.effectiveMode e now)).weightX10
          snapshot.bottleneckRatioBp).toNat)
        (if snapshot.isExhausted then p.coldLateSecs.toNat else 0) := by
  unfold RefreshPolicy.effectiveRefreshIntervalSecsScaled
  dsimp only
  rw [if_neg hbase]
  split
  · simp only [toNat_max64]
  · simp only [toNat_max64, Nat.max_zero]

theorem scaled_of_never {p : RefreshPolicy} {e : CacheEntryState} {now : Instant}
    (hbase : p.effectiveRefreshIntervalSecs e now = u64Max) (snapshot : Option RateLimitSnapshot)
    (cost : UInt64) (nowWall : SystemTime) :
    p.effectiveRefreshIntervalSecsScaled e snapshot cost now nowWall = u64Max := by
  unfold RefreshPolicy.effectiveRefreshIntervalSecsScaled
  dsimp only
  rw [if_pos hbase, hbase]

/-- **What the interval is monotone in**: the ratio, the budget, the time to the reset and whether a
resource is used up. -/
theorem scaled_mono {a b : RateLimitSnapshot} {nowWall : SystemTime}
    (hratio : b.bottleneckRatioBp ≤ a.bottleneckRatioBp)
    (hbudget : bottleneckBudget b ≤ bottleneckBudget a)
    (hsecs : min (a.secsUntilReset nowWall) RESET_WINDOW_CAP_SECS ≤
      min (b.secsUntilReset nowWall) RESET_WINDOW_CAP_SECS)
    (hexhausted : a.isExhausted = true → b.isExhausted = true)
    (p : RefreshPolicy) (e : CacheEntryState) (cost : UInt64) (now : Instant) :
    p.effectiveRefreshIntervalSecsScaled e (some a) cost now nowWall ≤
      p.effectiveRefreshIntervalSecsScaled e (some b) cost now nowWall := by
  by_cases hbase : p.effectiveRefreshIntervalSecs e now = u64Max
  · rw [scaled_of_never hbase, scaled_of_never hbase]
    exact UInt64.le_refl _
  · have hterm := UInt64.le_iff_toNat_le.1 (computeRatioTerm_anti hratio
      (p.effectiveRefreshIntervalSecs e now) (scalingParams (p.effectiveMode e now)).alphaX10)
    have hshare := UInt64.le_iff_toNat_le.1 (computeBudgetTerm_mono hsecs hbudget hratio cost
      (scalingParams (p.effectiveMode e now)).weightX10)
    have hfloor : (if a.isExhausted = true then p.coldLateSecs.toNat else 0) ≤
        if b.isExhausted = true then p.coldLateSecs.toNat else 0 := by
      by_cases ha : a.isExhausted = true
      · rw [if_pos ha, if_pos (hexhausted ha)]
      · rw [if_neg ha]
        exact Nat.zero_le _
    rw [UInt64.le_iff_toNat_le, toNat_scaled hbase, toNat_scaled hbase]
    exact max_le_max (max_le_max (max_le_max (le_refl _) hterm) hshare) hfloor

/-! ## A quota that drains -/

/-- The snapshot `b` has the limits and the resets of `a`, and no more left of either resource. -/
structure Drained (a b : RateLimitSnapshot) : Prop where
  limit : ∀ r, b.limit r = a.limit r
  resetAt : ∀ r, b.resetAt r = a.resetAt r
  remaining : ∀ r, b.remaining r ≤ a.remaining r

/-- The snapshot with both resources reset at `t`. -/
def RateLimitSnapshot.withResets (s : RateLimitSnapshot) (t : SystemTime) : RateLimitSnapshot :=
  { s with coreResetAt := t, graphqlResetAt := t }

theorem RateLimitSnapshot.bottleneckResetAt_withResets (s : RateLimitSnapshot) (t : SystemTime) :
    (s.withResets t).bottleneckResetAt = t := by
  unfold bottleneckResetAt withResets
  dsimp only
  split
  · rfl
  · split
    · rfl
    · exact max_self t

theorem ratioBp_mono {a b : UInt32} (h : b ≤ a) (limit : UInt32) : ratioBp b limit ≤ ratioBp a limit := by
  have h := UInt32.le_iff_toNat_le.1 h
  have ha := a.toNat_lt
  unfold ratioBp
  split
  · exact UInt64.le_refl _
  · rw [UInt64.le_iff_toNat_le, UInt64.toNat_div, UInt64.toNat_div]
    apply Nat.div_le_div_right
    rw [toNat_satMul, toNat_satMul, UInt32.toNat_toUInt64, UInt32.toNat_toUInt64]
    have := Nat.mul_le_mul_right RATIO_SCALE_BP.toNat h
    omega

namespace Drained

variable {a b : RateLimitSnapshot}

theorem ratio (h : Drained a b) (r : Resource) : b.ratio r ≤ a.ratio r := by
  unfold RateLimitSnapshot.ratio
  rw [h.limit r]
  exact ratioBp_mono (h.remaining r) _

theorem bottleneckRatioBp (h : Drained a b) : b.bottleneckRatioBp ≤ a.bottleneckRatioBp := by
  have hcore := UInt64.le_iff_toNat_le.1 (h.ratio .core)
  have hgraphql := UInt64.le_iff_toNat_le.1 (h.ratio .graphql)
  show min (b.ratio .core) (b.ratio .graphql) ≤ min (a.ratio .core) (a.ratio .graphql)
  rw [UInt64.le_iff_toNat_le, toNat_min64, toNat_min64]
  omega

theorem bottleneckBudget (h : Drained a b) : bottleneckBudget b ≤ bottleneckBudget a := by
  have hcore := UInt32.le_iff_toNat_le.1 (h.remaining .core)
  have hgraphql := UInt32.le_iff_toNat_le.1 (h.remaining .graphql)
  show min (b.remaining .core) (b.remaining .graphql) ≤ min (a.remaining .core) (a.remaining .graphql)
  rw [UInt32.le_iff_toNat_le, toNat_min32, toNat_min32]
  omega

theorem isExhausted (h : Drained a b) (ha : a.isExhausted = true) : b.isExhausted = true := by
  have hcore := UInt32.le_iff_toNat_le.1 (h.remaining .core)
  have hgraphql := UInt32.le_iff_toNat_le.1 (h.remaining .graphql)
  have hzero : ∀ x : UInt32, (x == 0) = true ↔ x.toNat = 0 := fun x => by
    rw [beq_iff_eq, ← UInt32.toNat_inj]
    rfl
  change (a.remaining .core == 0 || a.remaining .graphql == 0) = true at ha
  show (b.remaining .core == 0 || b.remaining .graphql == 0) = true
  rw [Bool.or_eq_true, hzero, hzero] at ha ⊢
  omega

end Drained

/-- **Less quota never means a shorter interval, for one time to the reset.**  The interval under the
drained snapshot is at least the one under the first snapshot's quota with the bottleneck's reset as
it is after draining.  So it is not shorter than under the first snapshot unless the bottleneck's reset
has come closer. -/
theorem scaled_drained {a b : RateLimitSnapshot} (h : Drained a b) (p : RefreshPolicy)
    (e : CacheEntryState) (cost : UInt64) (now : Instant) (nowWall : SystemTime) :
    p.effectiveRefreshIntervalSecsScaled e (some (a.withResets b.bottleneckResetAt)) cost now
        nowWall ≤ p.effectiveRefreshIntervalSecsScaled e (some b) cost now nowWall ∧
      (min (a.secsUntilReset nowWall) RESET_WINDOW_CAP_SECS ≤
          min (b.secsUntilReset nowWall) RESET_WINDOW_CAP_SECS →
        p.effectiveRefreshIntervalSecsScaled e (some a) cost now nowWall ≤
          p.effectiveRefreshIntervalSecsScaled e (some b) cost now nowWall) := by
  have hsecs : (a.withResets b.bottleneckResetAt).secsUntilReset nowWall =
      b.secsUntilReset nowWall := by
    unfold RateLimitSnapshot.secsUntilReset
    rw [RateLimitSnapshot.bottleneckResetAt_withResets]
  constructor
  · refine scaled_mono ?_ ?_ ?_ ?_ p e cost now
    · exact h.bottleneckRatioBp
    · exact h.bottleneckBudget
    · rw [hsecs]
      exact UInt64.le_refl _
    · exact h.isExhausted
  · intro hnear
    exact scaled_mono h.bottleneckRatioBp h.bottleneckBudget hnear h.isExhausted p e cost now

namespace Draining

/-- `core` is at 50 % until 3600 s, `graphql` is full until 10 s. -/
def before : RateLimitSnapshot :=
  { coreRemaining := 2500, coreLimit := 5000, graphqlRemaining := 5000, graphqlLimit := 5000
    coreResetAt := .ofSecs 3600, graphqlResetAt := .ofSecs 10, fetchedAt := .ofSecs 0 }

/-- `graphql` falls below `core`. -/
def after : RateLimitSnapshot := { before with graphqlRemaining := 2000 }

def further : RateLimitSnapshot := { before with coreRemaining := 1000 }

def entry : CacheEntryState :=
  (CacheEntryState.newLoading "/repo" "main" 5 (.ofSecs 0) (.ofSecs 0)).withRefreshCompleted
    "⧖ Wait for CI" [] .hot (.ofSecs 1) (.ofSecs 1)

/-- Its interval at 2 s, in a round that costs 100 calls. -/
def interval (snapshot : RateLimitSnapshot) : UInt64 :=
  DaemonServerConfig.defaults.policy.effectiveRefreshIntervalSecsScaled entry (some snapshot) 100
    (.ofSecs 2) (.ofSecs 2)

theorem drained : Drained before after :=
  ⟨fun r => by cases r <;> rfl, fun r => by cases r <;> rfl, fun r => by cases r <;> decide⟩

end Draining

open Draining in
theorem scaled_drained_core : interval before ≤ interval further := by
  have h : Drained before further :=
    ⟨fun r => by cases r <;> rfl, fun r => by cases r <;> rfl, fun r => by cases r <;> decide⟩
  exact (scaled_drained h _ entry 100 _ _).2 (by decide)

open Draining in
/-- The bottleneck moves to `graphql`, whose reset is near: 37 s become 4 s. -/
theorem not_scaled_mono_drained :
    Drained before after ∧ (∀ r, 0 < before.limit r) ∧ interval before = 37 ∧
      interval after = 4 := by
  refine ⟨drained, ?_, by decide, by decide⟩
  intro r
  cases r <;> decide

end MergeReady.Daemon
