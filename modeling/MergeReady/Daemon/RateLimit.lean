import MergeReady.Lib.Time

/-!
# Rate-limit snapshots

`RateLimitSnapshot` and its derived quantities.  Ratios are in basis points, rounded down; a
resource without a limit counts as full.  The bottleneck is the resource with the smaller ratio.
-/

namespace MergeReady.Daemon

open MergeReady.Lib

/-- The scale of a ratio: `10000` is `1.0`. -/
def RATIO_SCALE_BP : UInt64 := 10000

/-- `remaining / limit` in basis points; a limit of `0` gives the full ratio. -/
def ratioBp (remaining limit : UInt32) : UInt64 :=
  if limit = 0 then RATIO_SCALE_BP
  else satMul remaining.toUInt64 RATIO_SCALE_BP / limit.toUInt64

structure RateLimitSnapshot where
  coreRemaining : UInt32
  coreLimit : UInt32
  graphqlRemaining : UInt32
  graphqlLimit : UInt32
  coreResetAt : SystemTime
  graphqlResetAt : SystemTime
  fetchedAt : Instant
deriving DecidableEq

namespace RateLimitSnapshot

/-- The reset of the bottleneck: the resource with the smaller ratio, and the later reset of the two
when the ratios are equal. -/
def bottleneckResetAt (s : RateLimitSnapshot) : SystemTime :=
  let coreRatio := ratioBp s.coreRemaining s.coreLimit
  let graphqlRatio := ratioBp s.graphqlRemaining s.graphqlLimit
  if coreRatio < graphqlRatio then s.coreResetAt
  else if graphqlRatio < coreRatio then s.graphqlResetAt
  else max s.coreResetAt s.graphqlResetAt

/-- Whole seconds until the bottleneck's reset, `0` if it has passed. -/
def secsUntilReset (s : RateLimitSnapshot) (now : SystemTime) : UInt64 :=
  match s.bottleneckResetAt.durationSince now with
  | some d => d.asSecs
  | none => 0

def isExhausted (s : RateLimitSnapshot) : Bool :=
  s.coreRemaining == 0 || s.graphqlRemaining == 0

def bottleneckRatioBp (s : RateLimitSnapshot) : UInt64 :=
  min (ratioBp s.coreRemaining s.coreLimit) (ratioBp s.graphqlRemaining s.graphqlLimit)

end RateLimitSnapshot

end MergeReady.Daemon
