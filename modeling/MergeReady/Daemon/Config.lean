import MergeReady.Daemon.Runs

/-!
# Configuration

The values the daemon runs with when no environment variable overrides them, and the calls its
request handler and its state actor make with a configuration.
-/

namespace MergeReady.Daemon

open MergeReady.Lib

/-! ### Hot, warm and cold -/

def DEFAULT_HOT_RECENT_QUERY_SECS : UInt64 := 30
def DEFAULT_HOT_WITH_QUERY_SECS : UInt64 := 2
def DEFAULT_HOT_WITHOUT_QUERY_SECS : UInt64 := 10
def DEFAULT_WARM_REFRESH_SECS : UInt64 := 180
def DEFAULT_WARM_TO_COLD_SECS : UInt64 := 30 * 60
def DEFAULT_COLD_EARLY_SECS : UInt64 := 30 * 60
def DEFAULT_COLD_LATE_SECS : UInt64 := 60 * 60
def DEFAULT_COLD_EARLY_LIMIT : UInt32 := 10

/-! ### Entries -/

def DEFAULT_ENTRY_MAX_AGE_SECS : UInt64 := 2 * 24 * 60 * 60
def DEFAULT_STALE_TTL_SECS : UInt64 := 5
def DEFAULT_REFRESH_LOCK_TIMEOUT_SECS : UInt64 := 120

structure DaemonServerConfig where
  staleTtlSecs : UInt64
  refreshLockTimeoutSecs : UInt64
  entryMaxAgeSecs : UInt64
  policy : RefreshPolicy

namespace DaemonServerConfig

/-- `from_env` in an environment without overrides. -/
def defaults : DaemonServerConfig :=
  { staleTtlSecs := DEFAULT_STALE_TTL_SECS
    refreshLockTimeoutSecs := DEFAULT_REFRESH_LOCK_TIMEOUT_SECS
    entryMaxAgeSecs := DEFAULT_ENTRY_MAX_AGE_SECS
    policy :=
      { hotRecentQuerySecs := DEFAULT_HOT_RECENT_QUERY_SECS
        hotWithQuerySecs := DEFAULT_HOT_WITH_QUERY_SECS
        hotWithoutQuerySecs := DEFAULT_HOT_WITHOUT_QUERY_SECS
        warmRefreshSecs := DEFAULT_WARM_REFRESH_SECS
        warmToColdSecs := DEFAULT_WARM_TO_COLD_SECS
        coldEarlySecs := DEFAULT_COLD_EARLY_SECS
        coldLateSecs := DEFAULT_COLD_LATE_SECS
        coldEarlyLimit := DEFAULT_COLD_EARLY_LIMIT } }

variable (c : DaemonServerConfig)

/-- The input of a tick. -/
def tickInput (now : Instant) (nowWall : SystemTime) : SchedulerTickInput :=
  { now := now
    nowWall := nowWall
    policy := c.policy
    refreshLockTimeoutSecs := c.refreshLockTimeoutSecs
    entryMaxAgeSecs := c.entryMaxAgeSecs }

def processQuery (repoId : RepoId) (branch cwd : String) (now : Instant) (nowWall : SystemTime) :
    Op :=
  .query repoId { cwd := cwd, branch := branch, now := now, nowWall := nowWall,
                  staleTtl := c.staleTtlSecs } c.policy

def tick (now : Instant) (nowWall : SystemTime) : Op := .tick (c.tickInput now nowWall)

end DaemonServerConfig

def processUpdate (repoId : RepoId) (output : String) (refreshMode : RefreshMode)
    (prOutputs : List PrOutput) (now : Instant) (nowWall : SystemTime) : Op :=
  .refreshCompleted repoId { output := output, prOutputs := prOutputs, refreshMode := refreshMode,
                             now := now, nowWall := nowWall }

end MergeReady.Daemon
