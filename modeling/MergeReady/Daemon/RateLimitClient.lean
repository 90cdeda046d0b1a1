import MergeReady.Daemon.Backoff
import MergeReady.Daemon.Scaling

/-!
# From a rate-limit answer to a pause

What `parse_rate_limit_json` makes of an answer, what is computed from the snapshot, and what panics
on the way: a division by zero never does, a sum of a time and a span does when the reset is too far
away.
-/

namespace MergeReady.Daemon

open MergeReady.Lib

/-! ## The answer -/

structure ResourceInfo where
  limit : UInt32
  remaining : UInt32
  reset : UInt64
deriving DecidableEq

structure Resources where
  core : ResourceInfo
  graphql : ResourceInfo
deriving DecidableEq

structure RateLimitResponse where
  resources : Resources
deriving DecidableEq

def UNIX_EPOCH : SystemTime := .ofSecs 0

/-- `response` is what the bytes are as JSON, if they have the fields. -/
def parseRateLimitJson (response : Option RateLimitResponse) (fetchedAt : Instant) :
    Fallible (Option RateLimitSnapshot) :=
  match response with
  | none => .ok none
  | some response => do
    let coreResetAt ← UNIX_EPOCH.add (.ofSecs response.resources.core.reset)
    let graphqlResetAt ← UNIX_EPOCH.add (.ofSecs response.resources.graphql.reset)
    return some
      { coreRemaining := response.resources.core.remaining
        coreLimit := response.resources.core.limit
        graphqlRemaining := response.resources.graphql.remaining
        graphqlLimit := response.resources.graphql.limit
        coreResetAt
        graphqlResetAt
        fetchedAt }

/-! ## Divisions

The functions of a snapshot once more, with the division of the source, which panics when the divisor
is zero; everything else in them saturates. -/

/-- `a / b`, or `none` for the panic. -/
def divChecked (a b : UInt64) : Option UInt64 := if b = 0 then none else some (a / b)

theorem divChecked_of_ne {a b : UInt64} (h : b ≠ 0) : divChecked a b = some (a / b) := if_neg h

def ratioBpChecked (remaining limit : UInt32) : Option UInt64 :=
  if limit = 0 then some RATIO_SCALE_BP
  else divChecked (satMul remaining.toUInt64 RATIO_SCALE_BP) limit.toUInt64

namespace RateLimitSnapshot

def bottleneckResetAtChecked (s : RateLimitSnapshot) : Option SystemTime := do
  let coreRatio ← ratioBpChecked s.coreRemaining s.coreLimit
  let graphqlRatio ← ratioBpChecked s.graphqlRemaining s.graphqlLimit
  return if coreRatio < graphqlRatio then s.coreResetAt
    else if graphqlRatio < coreRatio then s.graphqlResetAt
    else max s.coreResetAt s.graphqlResetAt

def secsUntilResetChecked (s : RateLimitSnapshot) (now : SystemTime) : Option UInt64 := do
  let resetAt ← s.bottleneckResetAtChecked
  return match resetAt.durationSince now with
    | some d => d.asSecs
    | none => 0

def bottleneckRatioBpChecked (s : RateLimitSnapshot) : Option UInt64 := do
  let coreRatio ← ratioBpChecked s.coreRemaining s.coreLimit
  let graphqlRatio ← ratioBpChecked s.graphqlRemaining s.graphqlLimit
  return min coreRatio graphqlRatio

end RateLimitSnapshot

def computeRatioTermChecked (base ratioBp alphaX10 : UInt64) : Option UInt64 := do
  let oneMinusR := satSub RATIO_SCALE_BP ratioBp
  let oneMinusRSqBp ← divChecked (satMul oneMinusR oneMinusR) RATIO_SCALE_BP
  let bonusNumer := satMul (satMul base alphaX10) oneMinusRSqBp
  let bonus ← divChecked bonusNumer (satMul SCALE_X10 RATIO_SCALE_BP)
  return satAdd base bonus

def computeBudgetTermChecked (totalCostPerCycle secsUntilReset : UInt64) (budgetRemaining : UInt32)
    (weightX10 ratioBp : UInt64) : Option UInt64 := do
  let safety ← divChecked (satMul budgetRemaining.toUInt64 SAFETY_NUM) SAFETY_DEN
  let safety := max safety 1
  let depletionBp := satSub RATIO_SCALE_BP ratioBp
  let numer := satMul (satMul (satMul totalCostPerCycle secsUntilReset) weightX10) depletionBp
  let denom := satMul (satMul safety SCALE_X10) RATIO_SCALE_BP
  if denom = 0 then some u64Max else divChecked numer denom

def RefreshPolicy.scaledChecked (p : RefreshPolicy) (entry : CacheEntryState)
    (snapshot : Option RateLimitSnapshot) (totalCostPerCycle : UInt64) (now : Instant)
    (nowWall : SystemTime) : Option UInt64 :=
  let base := p.effectiveRefreshIntervalSecs entry now
  if base = u64Max then some base
  else
    match snapshot with
    | none => some base
    | some snapshot => do
      let params := scalingParams (p.effectiveMode entry now)
      let ratioBp ← snapshot.bottleneckRatioBpChecked
      let secsUntilReset := min (← snapshot.secsUntilResetChecked nowWall) RESET_WINDOW_CAP_SECS
      let ratioTerm ← computeRatioTermChecked base ratioBp params.alphaX10
      let budgetTerm ← computeBudgetTermChecked totalCostPerCycle secsUntilReset
        (bottleneckBudget snapshot) params.weightX10 ratioBp
      let scaled := max (max base ratioTerm) budgetTerm
      return if snapshot.isExhausted then max scaled p.coldLateSecs else scaled

/-- A limit is divided by only when it is not zero. -/
theorem ratioBpChecked_eq (remaining limit : UInt32) :
    ratioBpChecked remaining limit = some (ratioBp remaining limit) := by
  unfold ratioBpChecked ratioBp
  split
  · rfl
  · rename_i hlimit
    refine divChecked_of_ne fun hzero => hlimit ?_
    rw [← UInt32.toNat_inj, ← UInt32.toNat_toUInt64, hzero]
    rfl

namespace RateLimitSnapshot

variable (s : RateLimitSnapshot)

theorem bottleneckResetAtChecked_eq : s.bottleneckResetAtChecked = some s.bottleneckResetAt := by
  unfold bottleneckResetAtChecked
  rw [ratioBpChecked_eq, ratioBpChecked_eq]
  rfl

theorem secsUntilResetChecked_eq (now : SystemTime) :
    s.secsUntilResetChecked now = some (s.secsUntilReset now) := by
  unfold secsUntilResetChecked
  rw [bottleneckResetAtChecked_eq]
  rfl

theorem bottleneckRatioBpChecked_eq : s.bottleneckRatioBpChecked = some s.bottleneckRatioBp := by
  unfold bottleneckRatioBpChecked
  rw [ratioBpChecked_eq, ratioBpChecked_eq]
  rfl

end RateLimitSnapshot

theorem computeRatioTermChecked_eq (base r alpha : UInt64) :
    computeRatioTermChecked base r alpha = some (computeRatioTerm base r alpha) := by
  have hscale : RATIO_SCALE_BP ≠ 0 := by decide
  have hdenom : satMul SCALE_X10 RATIO_SCALE_BP ≠ 0 := by decide
  unfold computeRatioTermChecked
  dsimp only
  rw [divChecked_of_ne hscale, Option.bind_eq_bind, Option.bind_some, divChecked_of_ne hdenom]
  rfl

theorem computeBudgetTermChecked_eq (cost secs : UInt64) (budget : UInt32) (weight r : UInt64) :
    computeBudgetTermChecked cost secs budget weight r =
      some (computeBudgetTerm cost secs budget weight r) := by
  have hden : SAFETY_DEN ≠ 0 := by decide
  unfold computeBudgetTermChecked computeBudgetTerm
  rw [divChecked_of_ne hden, Option.bind_eq_bind, Option.bind_some]
  dsimp only
  split
  · rfl
  · rename_i hdenom
    exact divChecked_of_ne hdenom

/-- **No division in an interval is by zero.** -/
theorem scaledChecked_eq (p : RefreshPolicy) (e : CacheEntryState)
    (snapshot : Option RateLimitSnapshot) (cost : UInt64) (now : Instant) (nowWall : SystemTime) :
    p.scaledChecked e snapshot cost now nowWall =
      some (p.effectiveRefreshIntervalSecsScaled e snapshot cost now nowWall) := by
  unfold RefreshPolicy.scaledChecked RefreshPolicy.effectiveRefreshIntervalSecsScaled
  dsimp only
  split
  · rfl
  · cases snapshot with
    | none => rfl
    | some snapshot =>
      dsimp only
      rw [snapshot.bottleneckRatioBpChecked_eq, snapshot.secsUntilResetChecked_eq]
      simp only [Option.bind_eq_bind, Option.bind_some, computeRatioTermChecked_eq,
        computeBudgetTermChecked_eq]
      rfl

/-! ## The observer -/

/-- What is computed from a snapshot on the way to the intervals. -/
structure Divides (snapshot : RateLimitSnapshot) : Prop where
  ratio : snapshot.bottleneckRatioBpChecked.isSome
  resetAt : snapshot.bottleneckResetAtChecked.isSome
  secs : ∀ nowWall, (snapshot.secsUntilResetChecked nowWall).isSome
  interval : ∀ (p : RefreshPolicy) e cost now nowWall,
    (p.scaledChecked e (some snapshot) cost now nowWall).isSome

/-- The answer is parsed, and whatever is then computed from it, at whatever time, and observing it
at this time, ends without a panic. -/
def Completes (response : RateLimitResponse) (fetchedAt now : Instant) (nowWall : SystemTime) : Prop :=
  ∃ snapshot, parseRateLimitJson (some response) fetchedAt = .ok (some snapshot) ∧
    Divides snapshot ∧ ∀ store, Returns (onRateLimitObserved store { snapshot, now, nowWall })

theorem divides (snapshot : RateLimitSnapshot) : Divides snapshot where
  ratio := by rw [snapshot.bottleneckRatioBpChecked_eq]; rfl
  resetAt := by rw [snapshot.bottleneckResetAtChecked_eq]; rfl
  secs nowWall := by rw [snapshot.secsUntilResetChecked_eq]; rfl
  interval p e cost now nowWall := by rw [scaledChecked_eq]; rfl

namespace Resources

/-- A resource is used up, or the smaller ratio is at the threshold or below. -/
def CallsForPause (r : Resources) : Prop :=
  r.core.remaining = 0 ∨ r.graphql.remaining = 0 ∨
    min (ratioBp r.core.remaining r.core.limit) (ratioBp r.graphql.remaining r.graphql.limit) ≤
      BACKOFF_THRESHOLD_BP

/-- The reset field of the resource with the smaller ratio. -/
def bottleneckReset (r : Resources) : UInt64 :=
  let coreRatio := ratioBp r.core.remaining r.core.limit
  let graphqlRatio := ratioBp r.graphql.remaining r.graphql.limit
  if coreRatio < graphqlRatio then r.core.reset
  else if graphqlRatio < coreRatio then r.graphql.reset
  else max r.core.reset r.graphql.reset

end Resources

/-- The resets are seconds of the wall clock, and where the answer calls for a pause, its end is a
reading of the monotonic clock. -/
structure Representable (r : Resources) (now : Instant) (nowWall : SystemTime) : Prop where
  core : r.core.reset.toNat < 2 ^ 63
  graphql : r.graphql.reset.toNat < 2 ^ 63
  pause : r.CallsForPause → nowWall.nanos ≤ r.bottleneckReset.toNat * 1000000000 →
    now.nanos + (r.bottleneckReset.toNat * 1000000000 - nowWall.nanos) + 1500000000 <
      2 ^ 63 * 1000000000

@[simp] theorem nanos_epoch : UNIX_EPOCH.nanos = 0 := rfl

theorem returns_epoch_add {reset : UInt64} :
    Returns (UNIX_EPOCH.add (.ofSecs reset)) ↔ reset.toNat < 2 ^ 63 := by
  rw [Timespec.returns_add, nanos_epoch, Duration.nanos_ofSecs]
  omega

theorem epoch_add_eq_ok {reset : UInt64} {t : SystemTime}
    (h : UNIX_EPOCH.add (.ofSecs reset) = .ok t) : t.nanos = reset.toNat * 1000000000 := by
  have ht := Timespec.add_eq_ok.1 h
  rw [nanos_epoch, Duration.nanos_ofSecs] at ht
  omega

/-- The snapshot of an answer: its fields, with the resets as readings of the wall clock. -/
structure Snapshots (r : Resources) (snapshot : RateLimitSnapshot) : Prop where
  coreRemaining : snapshot.coreRemaining = r.core.remaining
  coreLimit : snapshot.coreLimit = r.core.limit
  graphqlRemaining : snapshot.graphqlRemaining = r.graphql.remaining
  graphqlLimit : snapshot.graphqlLimit = r.graphql.limit
  coreResetAt : snapshot.coreResetAt.nanos = r.core.reset.toNat * 1000000000
  graphqlResetAt : snapshot.graphqlResetAt.nanos = r.graphql.reset.toNat * 1000000000

/-- Parsing panics when a reset is not a reading of the wall clock. -/
theorem returns_parseRateLimitJson (response : RateLimitResponse) (fetchedAt : Instant) :
    Returns (parseRateLimitJson (some response) fetchedAt) ↔
      response.resources.core.reset.toNat < 2 ^ 63 ∧
        response.resources.graphql.reset.toNat < 2 ^ 63 := by
  rw [← returns_epoch_add, ← returns_epoch_add]
  exact returns_bind_iff _ fun _ => returns_bind_ok _ _

theorem snapshots_of_parse {response : RateLimitResponse} {fetchedAt : Instant}
    {o : Option RateLimitSnapshot} (h : parseRateLimitJson (some response) fetchedAt = .ok o) :
    ∃ snapshot, o = some snapshot ∧ Snapshots response.resources snapshot := by
  obtain ⟨coreResetAt, hcore, h⟩ := bind_eq_ok.1 h
  obtain ⟨graphqlResetAt, hgraphql, h⟩ := bind_eq_ok.1 h
  cases h
  exact ⟨_, rfl, rfl, rfl, rfl, rfl, epoch_add_eq_ok hcore, epoch_add_eq_ok hgraphql⟩

namespace Snapshots

variable {r : Resources} {snapshot : RateLimitSnapshot}

theorem shouldEnterBackoff_iff (h : Snapshots r snapshot) :
    shouldEnterBackoff snapshot = true ↔ r.CallsForPause := by
  unfold shouldEnterBackoff Resources.CallsForPause RateLimitSnapshot.isExhausted
    RateLimitSnapshot.bottleneckRatioBp
  rw [h.coreRemaining, h.coreLimit, h.graphqlRemaining, h.graphqlLimit, ← or_assoc]
  split
  · next hex =>
    simp only [Bool.or_eq_true, beq_iff_eq] at hex
    exact iff_of_true rfl (.inl hex)
  · next hex =>
    simp only [Bool.or_eq_true, beq_iff_eq] at hex
    rw [decide_eq_true_eq, or_iff_right hex]

theorem bottleneckResetAt (h : Snapshots r snapshot) :
    snapshot.bottleneckResetAt.nanos = r.bottleneckReset.toNat * 1000000000 := by
  have hcore := h.coreResetAt
  have hgraphql := h.graphqlResetAt
  unfold RateLimitSnapshot.bottleneckResetAt Resources.bottleneckReset
  dsimp only
  rw [h.coreRemaining, h.coreLimit, h.graphqlRemaining, h.graphqlLimit]
  split
  · exact hcore
  split
  · exact hgraphql
  -- the later reset is the greater field
  rcases le_total snapshot.coreResetAt snapshot.graphqlResetAt with hle | hle
  · rw [max_eq_right hle, toNat_max64]
    rw [Timespec.le_def] at hle
    omega
  · rw [max_eq_left hle, toNat_max64]
    rw [Timespec.le_def] at hle
    omega

/-- Observing the snapshot panics when the end of the pause is no reading of the monotonic clock. -/
theorem returns_onRateLimitObserved (h : Snapshots r snapshot) (store : CacheStore) (now : Instant)
    (nowWall : SystemTime) :
    Returns (onRateLimitObserved store { snapshot, now, nowWall }) ↔
      (r.CallsForPause → nowWall.nanos ≤ r.bottleneckReset.toNat * 1000000000 →
        now.nanos + (r.bottleneckReset.toNat * 1000000000 - nowWall.nanos) + 1500000000 <
          2 ^ 63 * 1000000000) := by
  rw [Daemon.returns_onRateLimitObserved, returns_resetInstantFromSnapshot,
    h.shouldEnterBackoff_iff, Timespec.le_def, h.bottleneckResetAt]
  rfl

end Snapshots

theorem Completes.representable {response : RateLimitResponse} {fetchedAt now : Instant}
    {nowWall : SystemTime} (h : Completes response fetchedAt now nowWall) :
    Representable response.resources now nowWall := by
  obtain ⟨snapshot, hparse, -, hobserve⟩ := h
  obtain ⟨hcore, hgraphql⟩ := (returns_parseRateLimitJson response fetchedAt).1 ⟨_, hparse⟩
  obtain ⟨_, heq, hsnap⟩ := snapshots_of_parse hparse
  cases heq
  exact ⟨hcore, hgraphql, (hsnap.returns_onRateLimitObserved .new now nowWall).1 (hobserve .new)⟩

/-- **When an answer completes**: when its resets, and the end of the pause it calls for, are
representable. -/
theorem completes_iff (response : RateLimitResponse) (fetchedAt now : Instant)
    (nowWall : SystemTime) :
    Completes response fetchedAt now nowWall ↔ Representable response.resources now nowWall := by
  constructor
  · exact Completes.representable
  · rintro ⟨hcore, hgraphql, hpause⟩
    obtain ⟨o, hparse⟩ := (returns_parseRateLimitJson response fetchedAt).2 ⟨hcore, hgraphql⟩
    obtain ⟨snapshot, rfl, hsnap⟩ := snapshots_of_parse hparse
    exact ⟨snapshot, hparse, divides snapshot, fun store =>
      (hsnap.returns_onRateLimitObserved store now nowWall).2 hpause⟩

/-- An answer with this reset of `core`, of which `remaining` is left. -/
def coreResetAnswer (remaining : UInt32) (reset : UInt64) : RateLimitResponse :=
  ⟨⟨⟨5000, remaining, reset⟩, ⟨5000, 5000, 0⟩⟩⟩

/-- A reset that is no reading of the wall clock, and one so late that the pause cannot end. -/
theorem not_completes_late :
    ¬ Completes (coreResetAnswer 5000 9223372036854775808) (.ofSecs 0) (.ofSecs 0) (.ofSecs 0) ∧
    ¬ Completes (coreResetAnswer 0 9223372036854775807) (.ofSecs 0) (.ofSecs 0) (.ofSecs 0) := by
  constructor
  · intro h
    exact absurd h.representable.core (by decide)
  · intro h
    have hreset : (coreResetAnswer 0 9223372036854775807).resources.bottleneckReset =
        9223372036854775807 := by decide
    have hpause := h.representable.pause (.inl rfl)
    rw [hreset, Timespec.nanos_ofSecs, Timespec.nanos_ofSecs] at hpause
    exact absurd hpause (by decide)

end MergeReady.Daemon
