import MergeReady.Daemon.Entry
import MergeReady.Daemon.RateLimit

/-!
# Refresh intervals

`RefreshPolicy`: the base interval of an entry, the time to live of an answer, and the interval
stretched by a rate-limit snapshot.  All arithmetic is on `u64` and saturates.
-/

namespace MergeReady.Daemon

open MergeReady.Lib

/-! ## Ages of an entry -/

def isFresh (s : CacheEntryState) (ttl : UInt64) (now : Instant) : Bool :=
  decide (Timespec.elapsedSecs s.fetchedAt now ≤ ttl)

def isExpired (s : CacheEntryState) (maxAgeSecs : UInt64) (now : Instant) : Bool :=
  s.lastQueriedAt.any fun t => decide (maxAgeSecs ≤ Timespec.elapsedSecs t now)

def isCold (s : CacheEntryState) (warmToColdSecs : UInt64) (now : Instant) : Bool :=
  s.lastQueriedAt.any fun t => decide (warmToColdSecs ≤ Timespec.elapsedSecs t now)

def isColdOrNeverQueried (s : CacheEntryState) (warmToColdSecs : UInt64) (now : Instant) : Bool :=
  s.lastQueriedAt.all fun t => decide (warmToColdSecs ≤ Timespec.elapsedSecs t now)

def hasRecentQuery (s : CacheEntryState) (recentSecs : UInt64) (now : Instant) : Bool :=
  s.lastQueriedAt.any fun t => decide (Timespec.elapsedSecs t now ≤ recentSecs)

def refreshLockExpired (s : CacheEntryState) (timeoutSecs : UInt64) (now : Instant) : Bool :=
  s.refreshStartedAt.any fun t => decide (timeoutSecs ≤ Timespec.elapsedSecs t now)

def fetchedAtElapsed (s : CacheEntryState) (now : Instant) : Duration :=
  now.saturatingDurationSince s.fetchedAt

/-! ## Scaling -/

def SAFETY_NUM : UInt64 := 95
def SAFETY_DEN : UInt64 := 100
def RESET_WINDOW_CAP_SECS : UInt64 := 3600
def SCALE_X10 : UInt64 := 10

/-- The mode scaling goes by: warm counts as hot after a recent query and as cold after a long
silence. -/
inductive EffectiveMode
  | hot
  | warm
  | cold
deriving DecidableEq, Repr

structure ScalingParams where
  alphaX10 : UInt64
  weightX10 : UInt64

def scalingParams : EffectiveMode → ScalingParams
  | .hot => { alphaX10 := 30, weightX10 := 5 }
  | .warm => { alphaX10 := 70, weightX10 := 10 }
  | .cold => { alphaX10 := 150, weightX10 := 20 }

structure RefreshPolicy where
  hotRecentQuerySecs : UInt64
  hotWithQuerySecs : UInt64
  hotWithoutQuerySecs : UInt64
  warmRefreshSecs : UInt64
  warmToColdSecs : UInt64
  coldEarlySecs : UInt64
  coldLateSecs : UInt64
  coldEarlyLimit : UInt32
deriving DecidableEq

def bottleneckBudget (snapshot : RateLimitSnapshot) : UInt32 :=
  min snapshot.coreRemaining snapshot.graphqlRemaining

/-- `base * (1 + alpha * (1 - ratio)^2)` -/
def computeRatioTerm (base ratioBp alphaX10 : UInt64) : UInt64 :=
  let oneMinusR := satSub RATIO_SCALE_BP ratioBp
  let oneMinusRSqBp := satMul oneMinusR oneMinusR / RATIO_SCALE_BP
  let bonusNumer := satMul (satMul base alphaX10) oneMinusRSqBp
  let bonus := bonusNumer / satMul SCALE_X10 RATIO_SCALE_BP
  satAdd base bonus

/-- `cost * secs / safety budget * weight * (1 - ratio)` -/
def computeBudgetTerm (totalCostPerCycle secsUntilReset : UInt64) (budgetRemaining : UInt32)
    (weightX10 ratioBp : UInt64) : UInt64 :=
  let safety := satMul budgetRemaining.toUInt64 SAFETY_NUM / SAFETY_DEN
  let safety := max safety 1
  let depletionBp := satSub RATIO_SCALE_BP ratioBp
  let numer := satMul (satMul (satMul totalCostPerCycle secsUntilReset) weightX10) depletionBp
  let denom := satMul (satMul safety SCALE_X10) RATIO_SCALE_BP
  if denom = 0 then u64Max else numer / denom

namespace RefreshPolicy

def coldIntervalSecs (p : RefreshPolicy) (count : UInt32) : UInt64 :=
  if count < p.coldEarlyLimit then p.coldEarlySecs else p.coldLateSecs

/-- The interval of an entry in its present state. -/
def effectiveRefreshIntervalSecs (p : RefreshPolicy) (entry : CacheEntryState) (now : Instant) :
    UInt64 :=
  match entry.refreshMode with
  | .terminal => u64Max
  | .hot =>
    if hasRecentQuery entry p.hotRecentQuerySecs now then p.hotWithQuerySecs
    else p.hotWithoutQuerySecs
  | .warm =>
    if hasRecentQuery entry p.hotRecentQuerySecs now then p.hotWithQuerySecs
    else if isCold entry p.warmToColdSecs now then p.coldIntervalSecs entry.coldRefreshCount
    else p.warmRefreshSecs

/-- A terminal entry lives `warmRefreshSecs`, to notice a reopened PR. -/
def effectiveTtl (p : RefreshPolicy) (entry : CacheEntryState) (baseTtl : UInt64) : UInt64 :=
  if entry.refreshMode = .terminal then p.warmRefreshSecs else baseTtl

def effectiveMode (p : RefreshPolicy) (entry : CacheEntryState) (now : Instant) : EffectiveMode :=
  match entry.refreshMode with
  | .terminal => .cold
  | .hot => .hot
  | .warm =>
    if hasRecentQuery entry p.hotRecentQuerySecs now then .hot
    else if isCold entry p.warmToColdSecs now then .cold
    else .warm

/-- The interval stretched by what is left of the rate limit. -/
def effectiveRefreshIntervalSecsScaled (p : RefreshPolicy) (entry : CacheEntryState)
    (snapshot : Option RateLimitSnapshot) (totalCostPerCycle : UInt64) (now : Instant)
    (nowWall : SystemTime) : UInt64 :=
  let base := p.effectiveRefreshIntervalSecs entry now
  if base = u64Max then base
  else
    match snapshot with
    | none => base
    | some snapshot =>
      let params := scalingParams (p.effectiveMode entry now)
      let ratioBp := snapshot.bottleneckRatioBp
      let secsUntilReset := min (snapshot.secsUntilReset nowWall) RESET_WINDOW_CAP_SECS
      let ratioTerm := computeRatioTerm base ratioBp params.alphaX10
      let budgetTerm := computeBudgetTerm totalCostPerCycle secsUntilReset
        (bottleneckBudget snapshot) params.weightX10 ratioBp
      let scaled := max (max base ratioTerm) budgetTerm
      if snapshot.isExhausted then max scaled p.coldLateSecs else scaled

/-- Only a terminal entry has another time to live than the one given. -/
theorem effectiveTtl_of_ne {p : RefreshPolicy} {e : CacheEntryState} {ttl : UInt64}
    (h : e.refreshMode ≠ .terminal) : p.effectiveTtl e ttl = ttl := if_neg h

end RefreshPolicy

end MergeReady.Daemon
