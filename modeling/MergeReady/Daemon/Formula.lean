import Mathlib.Algebra.Order.Floor.Semifield
import Mathlib.Data.Nat.Cast.Order.Field
import Mathlib.Data.Rat.Floor
import Mathlib.Tactic.FieldSimp
import Mathlib.Tactic.Linarith
import Mathlib.Tactic.NormNum
import Mathlib.Tactic.Positivity
import Mathlib.Tactic.Ring
import MergeReady.Daemon.Scaling

/-!
# The interval formula

Scaling keeps entries in order: one that is as warm as another and has no longer base interval is
refreshed no later (`scaled_priority`).  The two terms are the documented ones up to their floors, and
in the range of real values nothing in them saturates (`terms_documented`).
-/

namespace MergeReady.Daemon

open MergeReady.Lib

/-! ## Warmer entries first -/

def EffectiveMode.rank : EffectiveMode → ℕ
  | .hot => 0
  | .warm => 1
  | .cold => 2

theorem scalingParams_mono {m m' : EffectiveMode} (h : m.rank ≤ m'.rank) :
    (scalingParams m).alphaX10 ≤ (scalingParams m').alphaX10 ∧
      (scalingParams m).weightX10 ≤ (scalingParams m').weightX10 := by
  revert h
  cases m <;> cases m' <;> decide

theorem computeRatioTerm_mono {base base' alpha alpha' : UInt64} (hbase : base ≤ base')
    (halpha : alpha ≤ alpha') (r : UInt64) :
    computeRatioTerm base r alpha ≤ computeRatioTerm base' r alpha' := by
  have hbase := UInt64.le_iff_toNat_le.1 hbase
  have halpha := UInt64.le_iff_toNat_le.1 halpha
  rw [UInt64.le_iff_toNat_le, toNat_computeRatioTerm, toNat_computeRatioTerm]
  have hnumer := Nat.mul_le_mul_right ((10000 - r.toNat) * (10000 - r.toNat) / 10000)
    (Nat.mul_le_mul hbase halpha)
  have hbonus : min (base.toNat * alpha.toNat * ((10000 - r.toNat) * (10000 - r.toNat) / 10000))
        (2 ^ 64 - 1) / 100000 ≤
      min (base'.toNat * alpha'.toNat * ((10000 - r.toNat) * (10000 - r.toNat) / 10000))
        (2 ^ 64 - 1) / 100000 := Nat.div_le_div_right (min_le_min hnumer (le_refl _))
  omega

theorem computeBudgetTerm_mono_cost {cost cost' weight weight' : UInt64} (hcost : cost ≤ cost')
    (hweight : weight ≤ weight') (secs : UInt64) (budget : UInt32) (r : UInt64) :
    computeBudgetTerm cost secs budget weight r ≤ computeBudgetTerm cost' secs budget weight' r := by
  have hcost := UInt64.le_iff_toNat_le.1 hcost
  have hweight := UInt64.le_iff_toNat_le.1 hweight
  rw [UInt64.le_iff_toNat_le, toNat_computeBudgetTerm, toNat_computeBudgetTerm]
  refine Nat.div_le_div_right (min_le_min ?_ (le_refl _))
  exact Nat.mul_le_mul_right _ (Nat.mul_le_mul (Nat.mul_le_mul_right _ hcost) hweight)

section

variable {p : RefreshPolicy} {e e' : CacheEntryState} {cost cost' : UInt64} {now : Instant}

theorem scaled_le_of_never (h : p.effectiveRefreshIntervalSecs e' now = u64Max)
    (snapshot : Option RateLimitSnapshot) (nowWall : SystemTime) (x : UInt64) :
    x ≤ p.effectiveRefreshIntervalSecsScaled e' snapshot cost' now nowWall := by
  have hlt := x.toNat_lt
  rw [scaled_of_never h, UInt64.le_iff_toNat_le, toNat_u64Max]
  omega

/-- **The interval grows with the mode, the base interval and the cost.** -/
theorem scaled_le_scaled (hmode : (p.effectiveMode e now).rank ≤ (p.effectiveMode e' now).rank)
    (hbase : p.effectiveRefreshIntervalSecs e now ≤ p.effectiveRefreshIntervalSecs e' now)
    (hcost : cost ≤ cost') (snapshot : Option RateLimitSnapshot) (nowWall : SystemTime) :
    p.effectiveRefreshIntervalSecsScaled e snapshot cost now nowWall ≤
      p.effectiveRefreshIntervalSecsScaled e' snapshot cost' now nowWall := by
  by_cases hnever : p.effectiveRefreshIntervalSecs e' now = u64Max
  · exact scaled_le_of_never hnever _ _ _
  have hnever' : p.effectiveRefreshIntervalSecs e now ≠ u64Max := by
    intro h
    have hlt := (p.effectiveRefreshIntervalSecs e' now).toNat_lt
    rw [h, UInt64.le_iff_toNat_le, toNat_u64Max] at hbase
    refine hnever (UInt64.toNat_inj.1 ?_)
    rw [toNat_u64Max]
    omega
  cases snapshot with
  | none =>
    unfold RefreshPolicy.effectiveRefreshIntervalSecsScaled
    dsimp only
    rw [if_neg hnever, if_neg hnever']
    exact hbase
  | some snapshot =>
    obtain ⟨halpha, hweight⟩ := scalingParams_mono hmode
    have hratio := UInt64.le_iff_toNat_le.1
      (computeRatioTerm_mono hbase halpha snapshot.bottleneckRatioBp)
    have hbudget := UInt64.le_iff_toNat_le.1 (computeBudgetTerm_mono_cost hcost hweight
      (min (snapshot.secsUntilReset nowWall) RESET_WINDOW_CAP_SECS) (bottleneckBudget snapshot)
      snapshot.bottleneckRatioBp)
    rw [UInt64.le_iff_toNat_le, toNat_scaled hnever', toNat_scaled hnever]
    exact max_le_max (max_le_max (max_le_max (UInt64.le_iff_toNat_le.1 hbase) hratio) hbudget)
      (le_refl _)

end

/-- **Scaling keeps the priority of warmer entries**, and never shortens an interval when the cost of
a cycle grows. -/
theorem scaled_priority (p : RefreshPolicy) (snapshot : Option RateLimitSnapshot) (now : Instant)
    (nowWall : SystemTime) :
    (∀ e₁ e₂ cost, (p.effectiveMode e₁ now).rank ≤ (p.effectiveMode e₂ now).rank →
      p.effectiveRefreshIntervalSecs e₁ now ≤ p.effectiveRefreshIntervalSecs e₂ now →
      p.effectiveRefreshIntervalSecsScaled e₁ snapshot cost now nowWall ≤
        p.effectiveRefreshIntervalSecsScaled e₂ snapshot cost now nowWall) ∧
    ∀ e cost cost', cost ≤ cost' →
      p.effectiveRefreshIntervalSecsScaled e snapshot cost now nowWall ≤
        p.effectiveRefreshIntervalSecsScaled e snapshot cost' now nowWall := by
  constructor
  · intro e₁ e₂ cost hmode hbase
    exact scaled_le_scaled hmode hbase (UInt64.le_refl cost) snapshot nowWall
  · intro e cost cost' hcost
    exact scaled_le_scaled (le_refl _) (UInt64.le_refl _) hcost snapshot nowWall

namespace Priority

def entry (refreshMode : RefreshMode) : CacheEntryState :=
  (CacheEntryState.newLoading "/repo" "main" 5 (.ofSecs 0) (.ofSecs 0)).withRefreshCompleted
    "⧖ Wait for CI" [] refreshMode (.ofSecs 1) (.ofSecs 1)

/-- `core` has 20 % left until 1900 s. -/
def snapshot : RateLimitSnapshot :=
  { coreRemaining := 1000, coreLimit := 5000, graphqlRemaining := 5000, graphqlLimit := 5000
    coreResetAt := .ofSecs 1900, graphqlResetAt := .ofSecs 1900, fetchedAt := .ofSecs 90 }

/-- The interval at 100 s, when a cycle costs `cost`. -/
def interval (refreshMode : RefreshMode) (cost : UInt64) : UInt64 :=
  DaemonServerConfig.defaults.policy.effectiveRefreshIntervalSecsScaled (entry refreshMode)
    (some snapshot) cost (.ofSecs 100) (.ofSecs 100)

end Priority

open Priority in
/-- CI that is running comes before CI that is done. -/
theorem scaled_priority_low : interval .hot 8 ≤ interval .warm 8 ∧
    interval .hot 8 ≤ interval .hot 800 ∧
    (interval .hot 8, interval .warm 8, interval .hot 800) = (29, 986, 606) := by
  obtain ⟨hmode, hcost⟩ := scaled_priority DaemonServerConfig.defaults.policy (some snapshot)
    (.ofSecs 100) (.ofSecs 100)
  exact ⟨hmode _ _ _ (by decide) (by decide), hcost _ _ _ (by decide), by decide⟩

/-! ## The terms with every cut-off noticed -/

/-- `a.saturating_add(b)`, or nothing where it is cut off. -/
def exactAdd (a b : UInt64) : Option UInt64 :=
  if a.toNat + b.toNat < 2 ^ 64 then some (satAdd a b) else none

def exactSub (a b : UInt64) : Option UInt64 := if b ≤ a then some (satSub a b) else none

def exactMul (a b : UInt64) : Option UInt64 :=
  if a.toNat * b.toNat < 2 ^ 64 then some (satMul a b) else none

/-- `computeRatioTerm`, or nothing when an operation in it saturates. -/
def exactRatioTerm (base ratioBp alphaX10 : UInt64) : Option UInt64 := do
  let oneMinusR ← exactSub RATIO_SCALE_BP ratioBp
  let oneMinusRSqBp := (← exactMul oneMinusR oneMinusR) / RATIO_SCALE_BP
  let bonusNumer ← exactMul (← exactMul base alphaX10) oneMinusRSqBp
  let bonus := bonusNumer / (← exactMul SCALE_X10 RATIO_SCALE_BP)
  exactAdd base bonus

def exactBudgetTerm (totalCostPerCycle secsUntilReset : UInt64) (budgetRemaining : UInt32)
    (weightX10 ratioBp : UInt64) : Option UInt64 := do
  let safety := (← exactMul budgetRemaining.toUInt64 SAFETY_NUM) / SAFETY_DEN
  let safety := max safety 1
  let depletionBp ← exactSub RATIO_SCALE_BP ratioBp
  let numer ← exactMul (← exactMul (← exactMul totalCostPerCycle secsUntilReset) weightX10) depletionBp
  let denom ← exactMul (← exactMul safety SCALE_X10) RATIO_SCALE_BP
  if denom = 0 then pure u64Max else pure (numer / denom)

section

variable {a b : UInt64}

theorem exactAdd_eq (h : a.toNat + b.toNat < 2 ^ 64) : exactAdd a b = some (satAdd a b) := if_pos h

theorem exactSub_eq (h : b ≤ a) : exactSub a b = some (satSub a b) := if_pos h

theorem exactMul_eq (h : a.toNat * b.toNat < 2 ^ 64) : exactMul a b = some (satMul a b) := if_pos h

theorem toNat_satMul_of_lt (h : a.toNat * b.toNat < 2 ^ 64) :
    (satMul a b).toNat = a.toNat * b.toNat := by
  rw [toNat_satMul]
  omega

end

/-- The values in the range of real ones, for which the terms are exact. -/
structure Ranged (base r alpha cost secs weight : UInt64) : Prop where
  base : base.toNat ≤ 10 ^ 12
  ratio : r.toNat ≤ 10000
  alpha : alpha = 30 ∨ alpha = 70 ∨ alpha = 150
  cost : cost.toNat ≤ 2 ^ 32
  secs : secs.toNat ≤ 3600
  weight : weight = 5 ∨ weight = 10 ∨ weight = 20

section

variable {base r alpha cost secs weight : UInt64}

theorem Ranged.alpha_le (h : Ranged base r alpha cost secs weight) : alpha.toNat ≤ 150 := by
  rcases h.alpha with rfl | rfl | rfl <;> decide

theorem Ranged.weight_le (h : Ranged base r alpha cost secs weight) : weight.toNat ≤ 20 := by
  rcases h.weight with rfl | rfl | rfl <;> decide

theorem depletion_sq_le (r : ℕ) : (10000 - r) * (10000 - r) / 10000 ≤ 10000 :=
  Nat.div_le_of_le_mul (Nat.mul_le_mul (Nat.sub_le _ _) (Nat.sub_le _ _))

theorem Ranged.bonus_le (h : Ranged base r alpha cost secs weight) :
    base.toNat * alpha.toNat * ((10000 - r.toNat) * (10000 - r.toNat) / 10000) ≤
      10 ^ 12 * 150 * 10000 :=
  Nat.mul_le_mul (Nat.mul_le_mul h.base h.alpha_le) (depletion_sq_le _)

theorem Ranged.numer_le (h : Ranged base r alpha cost secs weight) :
    cost.toNat * secs.toNat * weight.toNat * (10000 - r.toNat) ≤ 2 ^ 32 * 3600 * 20 * 10000 :=
  Nat.mul_le_mul (Nat.mul_le_mul (Nat.mul_le_mul h.cost h.secs) h.weight_le) (Nat.sub_le _ _)

theorem Ranged.toNat_ratioTerm (h : Ranged base r alpha cost secs weight) :
    (computeRatioTerm base r alpha).toNat = base.toNat + base.toNat * alpha.toNat *
      ((10000 - r.toNat) * (10000 - r.toNat) / 10000) / 100000 := by
  have hbase := h.base
  have hbonus := h.bonus_le
  rw [toNat_computeRatioTerm]
  omega

theorem Ranged.toNat_budgetTerm (h : Ranged base r alpha cost secs weight) (budget : UInt32) :
    (computeBudgetTerm cost secs budget weight r).toNat =
      cost.toNat * secs.toNat * weight.toNat * (10000 - r.toNat) /
        (max (budget.toNat * 95 / 100) 1 * 100000) := by
  have hnumer := h.numer_le
  rw [toNat_computeBudgetTerm]
  congr 1
  omega

/-- **No operation of the ratio term saturates.** -/
theorem Ranged.exactRatioTerm_eq (h : Ranged base r alpha cost secs weight) :
    exactRatioTerm base r alpha = some (computeRatioTerm base r alpha) := by
  have hbase := h.base
  have hbonus := h.bonus_le
  have hdep := toNat_depletion r
  have hsub := exactSub_eq (show r ≤ RATIO_SCALE_BP from UInt64.le_iff_toNat_le.2 h.ratio)
  have hsq : (satSub RATIO_SCALE_BP r).toNat * (satSub RATIO_SCALE_BP r).toNat < 2 ^ 64 := by
    rw [hdep]
    exact lt_of_le_of_lt (Nat.mul_le_mul (Nat.sub_le _ _) (Nat.sub_le _ _)) (by decide)
  have hbp : base.toNat * alpha.toNat < 2 ^ 64 :=
    lt_of_le_of_lt (Nat.mul_le_mul hbase h.alpha_le) (by decide)
  have hnumer : (satMul base alpha).toNat *
      (satMul (satSub RATIO_SCALE_BP r) (satSub RATIO_SCALE_BP r) / RATIO_SCALE_BP).toNat ≤
        10 ^ 12 * 150 * 10000 := by
    rw [toNat_satMul_of_lt hbp, UInt64.toNat_div, toNat_satMul_of_lt hsq, hdep]
    exact hbonus
  have hnumer' := lt_of_le_of_lt hnumer (by decide : 10 ^ 12 * 150 * 10000 < 2 ^ 64)
  have hsum : base.toNat + (satMul (satMul base alpha)
      (satMul (satSub RATIO_SCALE_BP r) (satSub RATIO_SCALE_BP r) / RATIO_SCALE_BP) /
        satMul SCALE_X10 RATIO_SCALE_BP).toNat < 2 ^ 64 := by
    rw [UInt64.toNat_div, toNat_satMul_of_lt hnumer']
    have hdiv := Nat.div_le_self ((satMul base alpha).toNat *
      (satMul (satSub RATIO_SCALE_BP r) (satSub RATIO_SCALE_BP r) / RATIO_SCALE_BP).toNat)
      (satMul SCALE_X10 RATIO_SCALE_BP).toNat
    omega
  have hscale := exactMul_eq (a := SCALE_X10) (b := RATIO_SCALE_BP) (by decide)
  unfold exactRatioTerm
  simp only [hsub, exactMul_eq hsq, exactMul_eq hbp, exactMul_eq hnumer', hscale,
    exactAdd_eq hsum, Option.bind_eq_bind, Option.bind_some]
  rfl

theorem Ranged.exactBudgetTerm_eq (h : Ranged base r alpha cost secs weight) (budget : UInt32) :
    exactBudgetTerm cost secs budget weight r =
      some (computeBudgetTerm cost secs budget weight r) := by
  have hbudget := budget.toNat_lt
  have hdep := toNat_depletion r
  have hsub := exactSub_eq (show r ≤ RATIO_SCALE_BP from UInt64.le_iff_toNat_le.2 h.ratio)
  have hshare : budget.toUInt64.toNat * SAFETY_NUM.toNat < 2 ^ 64 := by
    rw [UInt32.toNat_toUInt64, show SAFETY_NUM.toNat = 95 from rfl]
    omega
  have hsafety := toNat_safety budget
  have hcost : cost.toNat * secs.toNat < 2 ^ 64 :=
    lt_of_le_of_lt (Nat.mul_le_mul h.cost h.secs) (by decide)
  have hweight : (satMul cost secs).toNat * weight.toNat < 2 ^ 64 := by
    rw [toNat_satMul_of_lt hcost]
    exact lt_of_le_of_lt (Nat.mul_le_mul (Nat.mul_le_mul h.cost h.secs) h.weight_le) (by decide)
  have hnumer : (satMul (satMul cost secs) weight).toNat * (satSub RATIO_SCALE_BP r).toNat <
      2 ^ 64 := by
    rw [toNat_satMul_of_lt hweight, toNat_satMul_of_lt hcost, hdep]
    exact lt_of_le_of_lt h.numer_le (by decide)
  have hten : (max (satMul budget.toUInt64 SAFETY_NUM / SAFETY_DEN) 1).toNat * SCALE_X10.toNat <
      2 ^ 64 := by
    rw [hsafety, show SCALE_X10.toNat = 10 from rfl]
    omega
  have hdenom : (satMul (max (satMul budget.toUInt64 SAFETY_NUM / SAFETY_DEN) 1) SCALE_X10).toNat *
      RATIO_SCALE_BP.toNat < 2 ^ 64 := by
    rw [toNat_satMul_of_lt hten, hsafety, show SCALE_X10.toNat = 10 from rfl,
      show RATIO_SCALE_BP.toNat = 10000 from rfl]
    omega
  unfold exactBudgetTerm
  rw [exactMul_eq hshare, Option.bind_eq_bind, Option.bind_some]
  dsimp only
  rw [hsub, Option.bind_some, exactMul_eq hcost, Option.bind_some, exactMul_eq hweight,
    Option.bind_some, exactMul_eq hnumer, Option.bind_some, exactMul_eq hten, Option.bind_some,
    exactMul_eq hdenom, Option.bind_some]
  unfold computeBudgetTerm
  dsimp only
  split
  · rfl
  · rfl

end

/-! ## The documented terms -/

/-- `base * (1 + alpha * (1 - r)^2)` -/
def documentedRatioTerm (base alpha r : ℚ) : ℚ := base * (1 + alpha * (1 - r) ^ 2)

/-- `cost * secs * weight * (1 - r) / safety` -/
def documentedBudgetTerm (cost secs weight r safety : ℚ) : ℚ :=
  cost * secs * weight * (1 - r) / safety

/-- 95 % of the budget, and not less than 1. -/
def safetyBudget (budget : ℕ) : ℕ := max 1 (95 * budget / 100)

theorem div_sub_one_le (n m : ℕ) : (n : ℚ) / m - 1 ≤ (n / m : ℕ) := by
  rw [← Nat.floor_div_eq_div (K := ℚ)]
  exact (Nat.sub_one_lt_floor _).le

/-- Rounding down twice, with a factor in between, is rounding down once up to the factor's share. -/
theorem nested_floor (c n m k : ℕ) :
    (c * n / (m * k) - c / k - 1 : ℚ) ≤ (c * (n / m) / k : ℕ) ∧
      ((c * (n / m) / k : ℕ) : ℚ) ≤ c * n / (m * k) := by
  have hc : (0 : ℚ) ≤ c / k := by positivity
  have hshape : (c * n / (m * k) : ℚ) = c / k * (n / m) := by
    rw [div_mul_div_comm, mul_comm (m : ℚ)]
  have houter := div_sub_one_le (c * (n / m)) k
  have houter' : ((c * (n / m) / k : ℕ) : ℚ) ≤ (c * (n / m) : ℕ) / k := Nat.cast_div_le
  have hinner := mul_le_mul_of_nonneg_left (div_sub_one_le n m) hc
  have hinner' := mul_le_mul_of_nonneg_left (@Nat.cast_div_le ℚ _ _ _ n m) hc
  rw [Nat.cast_mul, mul_div_right_comm] at houter houter'
  rw [hshape]
  constructor
  · linarith
  · linarith

section

variable {base r alpha cost secs weight : UInt64}

theorem Ranged.cast_depletion (h : Ranged base r alpha cost secs weight) :
    ((10000 - r.toNat : ℕ) : ℚ) = 10000 * (1 - r.toNat / 10000) := by
  rw [Nat.cast_sub h.ratio]
  ring

/-- **The ratio term is the documented one** up to its floors. -/
theorem Ranged.ratioTerm_bounds (h : Ranged base r alpha cost secs weight) :
    documentedRatioTerm base.toNat (alpha.toNat / 10) (r.toNat / 10000)
        - base.toNat * (alpha.toNat / 10) / 10000 - 1 ≤ (computeRatioTerm base r alpha).toNat ∧
      ((computeRatioTerm base r alpha).toNat : ℚ) ≤
        documentedRatioTerm base.toNat (alpha.toNat / 10) (r.toNat / 10000) := by
  obtain ⟨hlow, hhigh⟩ := nested_floor (base.toNat * alpha.toNat)
    ((10000 - r.toNat) * (10000 - r.toNat)) 10000 100000
  have hexact : ((base.toNat * alpha.toNat : ℕ) *
      ((10000 - r.toNat) * (10000 - r.toNat) : ℕ) / ((10000 : ℕ) * (100000 : ℕ)) : ℚ) =
        base.toNat * (alpha.toNat / 10) * (1 - r.toNat / 10000) ^ 2 := by
    rw [Nat.cast_mul, Nat.cast_mul, h.cast_depletion]
    push_cast
    ring
  have hshare : ((base.toNat * alpha.toNat : ℕ) / (100000 : ℕ) : ℚ) =
      base.toNat * (alpha.toNat / 10) / 10000 := by
    push_cast
    ring
  rw [hexact, hshare] at hlow
  rw [hexact] at hhigh
  rw [h.toNat_ratioTerm, Nat.cast_add]
  unfold documentedRatioTerm
  constructor
  · linarith
  · linarith

/-- **The budget term is the documented one**, rounded down. -/
theorem Ranged.budgetTerm_eq_floor (h : Ranged base r alpha cost secs weight) (budget : UInt32) :
    (computeBudgetTerm cost secs budget weight r).toNat =
      ⌊documentedBudgetTerm cost.toNat secs.toNat (weight.toNat / 10) (r.toNat / 10000)
        (safetyBudget budget.toNat)⌋₊ := by
  have hsafety : (0 : ℚ) < safetyBudget budget.toNat :=
    Nat.cast_pos.2 (lt_of_lt_of_le Nat.one_pos (Nat.le_max_left _ _))
  have hexact : documentedBudgetTerm cost.toNat secs.toNat (weight.toNat / 10) (r.toNat / 10000)
      (safetyBudget budget.toNat) =
        ((cost.toNat * secs.toNat * weight.toNat * (10000 - r.toNat) : ℕ) : ℚ) /
          (safetyBudget budget.toNat * 100000 : ℕ) := by
    unfold documentedBudgetTerm
    rw [Nat.cast_mul, h.cast_depletion]
    push_cast
    field_simp
    ring
  rw [hexact, Nat.floor_div_eq_div, h.toNat_budgetTerm, safetyBudget, max_comm,
    Nat.mul_comm budget.toNat 95]

end

/-- **In the range of real values the terms are exact and the documented ones**: nothing in them is
cut off, the ratio term is at most two floors below its formula, the budget term is its formula
rounded down, and a full quota stretches nothing. -/
theorem terms_documented {base r alpha cost secs weight : UInt64}
    (h : Ranged base r alpha cost secs weight) (budget : UInt32) :
    exactRatioTerm base r alpha = some (computeRatioTerm base r alpha) ∧
    exactBudgetTerm cost secs budget weight r = some (computeBudgetTerm cost secs budget weight r) ∧
    documentedRatioTerm base.toNat (alpha.toNat / 10) (r.toNat / 10000)
        - base.toNat * (alpha.toNat / 10) / 10000 - 1 ≤ (computeRatioTerm base r alpha).toNat ∧
    ((computeRatioTerm base r alpha).toNat : ℚ) ≤
        documentedRatioTerm base.toNat (alpha.toNat / 10) (r.toNat / 10000) ∧
    (computeBudgetTerm cost secs budget weight r).toNat =
      ⌊documentedBudgetTerm cost.toNat secs.toNat (weight.toNat / 10) (r.toNat / 10000)
        (safetyBudget budget.toNat)⌋₊ ∧
    (r = 10000 → computeRatioTerm base r alpha = base ∧
      computeBudgetTerm cost secs budget weight r = 0) := by
  refine ⟨h.exactRatioTerm_eq, h.exactBudgetTerm_eq budget, h.ratioTerm_bounds.1,
    h.ratioTerm_bounds.2, h.budgetTerm_eq_floor budget, ?_⟩
  rintro rfl
  constructor
  · rw [← UInt64.toNat_inj, h.toNat_ratioTerm, show (10000 : UInt64).toNat = 10000 from rfl]
    simp
  · rw [← UInt64.toNat_inj, h.toNat_budgetTerm, show (10000 : UInt64).toNat = 10000 from rfl]
    simp

/-- Half of a quota of 5000, a warm entry and an hour to the reset. -/
theorem terms_documented_half :
    (documentedRatioTerm 60 (70 / 10) (5000 / 10000) - 60 * (70 / 10) / 10000 - 1 ≤
      ((computeRatioTerm 60 5000 70).toNat : ℚ)) ∧
    (computeBudgetTerm 120 3600 2500 10 5000).toNat =
      ⌊documentedBudgetTerm 120 3600 (10 / 10) (5000 / 10000) (safetyBudget 2500)⌋₊ := by
  have h : Ranged 60 5000 70 120 3600 10 :=
    ⟨by decide, by decide, .inr (.inl rfl), by decide, by decide, .inr (.inl rfl)⟩
  obtain ⟨-, -, hlow, -, hbudget, -⟩ := terms_documented h 2500
  exact ⟨hlow, hbudget⟩

end MergeReady.Daemon
