import MergeReady.Lib.Time

/-!
# A cache entry and its builders

`CacheEntryState` with the four fetch states, the predicates that need no clock, and the builders
the transitions compose.  Each builder changes a few fields of the entry; the simp set of this file
says which.
-/

namespace MergeReady.Daemon

open MergeReady.Lib

/-- How often an entry is refreshed. -/
inductive RefreshMode
  /-- CI is running -/
  | hot
  /-- CI is done -/
  | warm
  /-- the PR is merged or closed -/
  | terminal
deriving DecidableEq, Repr

/-- The rendered output of one PR. -/
structure PrOutput where
  prId : UInt64
  output : String
deriving DecidableEq, Repr

/-- Identifies a repository and a branch of it. -/
structure RepoId where
  inner : String
deriving DecidableEq, Repr

/-- The state machine of a fetch. -/
inductive FetchState
  /-- the first refresh is running, nothing fetched -/
  | loading
  /-- the first refresh timed out and waits to be scheduled again, nothing fetched -/
  | pendingRetry
  /-- fetched, no refresh running -/
  | ready
  /-- fetched, and being refreshed -/
  | refreshing
deriving DecidableEq, Repr

structure CacheEntryState where
  output : String
  prOutputs : List PrOutput
  fetchState : FetchState
  fetchedAt : Instant
  fetchedAtWall : SystemTime
  refreshStartedAt : Option Instant
  cwd : String
  branch : String
  refreshMode : RefreshMode
  lastQueriedAt : Option Instant
  coldRefreshCount : UInt32
deriving DecidableEq

namespace CacheEntryState

/-! ## Predicates -/

def hasFetched (e : CacheEntryState) : Bool :=
  match e.fetchState with
  | .ready | .refreshing => true
  | .loading | .pendingRetry => false

def isRefreshing (e : CacheEntryState) : Bool :=
  match e.fetchState with
  | .loading | .refreshing => true
  | .pendingRetry | .ready => false

/-- Active entries are those refreshed in the background: an output, and not terminal. -/
def isActive (e : CacheEntryState) : Bool :=
  !e.output.isEmpty && e.refreshMode != .terminal

/-! ## Builders -/

/-- The entry of a first query.  `fetchedAt` is put `staleTtl + 1` seconds back, so that it is due
at once. -/
def newLoading (cwd branch : String) (staleTtl : UInt64) (now : Instant) (nowWall : SystemTime) :
    CacheEntryState :=
  let past := (now.checkedSub (Duration.ofSecs (satAdd staleTtl 1))).getD now
  { output := ""
    prOutputs := []
    fetchState := .loading
    fetchedAt := past
    fetchedAtWall := nowWall
    refreshStartedAt := some now
    cwd := cwd
    branch := branch
    refreshMode := .warm
    lastQueriedAt := some now
    coldRefreshCount := 0 }

/-- Notes the time of a query. -/
def withRecordQuery (e : CacheEntryState) (now : Instant) : CacheEntryState :=
  { e with lastQueriedAt := some now }

/-- Marks the start of a refresh. -/
def withMarkRefreshing (e : CacheEntryState) (now : Instant) : CacheEntryState :=
  { e with
    fetchState := match e.fetchState with
      | .loading | .pendingRetry => .loading
      | .ready | .refreshing => .refreshing
    refreshStartedAt := some now }

/-- Releases the refresh lock. -/
def withClearRefreshLock (e : CacheEntryState) : CacheEntryState :=
  { e with
    fetchState := match e.fetchState with
      | .loading | .pendingRetry => .pendingRetry
      | .ready | .refreshing => .ready
    refreshStartedAt := none }

def withResetColdCount (e : CacheEntryState) : CacheEntryState :=
  { e with coldRefreshCount := 0 }

def withIncrementColdCount (e : CacheEntryState) : CacheEntryState :=
  { e with coldRefreshCount := satAdd32 e.coldRefreshCount 1 }

/-- Terminal back to warm, to notice a reopened PR. -/
def withResetToWarm (e : CacheEntryState) : CacheEntryState :=
  { e with refreshMode := .warm }

/-- Stores the result of a refresh. -/
def withRefreshCompleted (e : CacheEntryState) (output : String) (prOutputs : List PrOutput)
    (refreshMode : RefreshMode) (now : Instant) (nowWall : SystemTime) : CacheEntryState :=
  { e with
    output := output
    prOutputs := prOutputs
    fetchState := .ready
    fetchedAt := now
    fetchedAtWall := nowWall
    refreshStartedAt := none
    refreshMode := refreshMode }

/-! ## What the predicates say -/

theorem hasFetched_of_loading {e : CacheEntryState} (h : e.fetchState = .loading) :
    e.hasFetched = false := by
  unfold hasFetched
  rw [h]

theorem isRefreshing_of_loading {e : CacheEntryState} (h : e.fetchState = .loading) :
    e.isRefreshing = true := by
  unfold isRefreshing
  rw [h]

theorem isActive_iff (e : CacheEntryState) :
    e.isActive = true ↔ e.output ≠ "" ∧ e.refreshMode ≠ .terminal := by
  unfold isActive
  simp

/-! ## What each builder leaves -/

section Builders

variable (e : CacheEntryState) (now : Instant)

@[simp] theorem isRefreshing_withMarkRefreshing : (e.withMarkRefreshing now).isRefreshing = true := by
  unfold isRefreshing withMarkRefreshing
  cases e.fetchState <;> rfl

@[simp] theorem refreshStartedAt_withMarkRefreshing :
    (e.withMarkRefreshing now).refreshStartedAt = some now := rfl

@[simp] theorem hasFetched_withMarkRefreshing :
    (e.withMarkRefreshing now).hasFetched = e.hasFetched := by
  unfold hasFetched withMarkRefreshing
  cases e.fetchState <;> rfl

@[simp] theorem output_withMarkRefreshing : (e.withMarkRefreshing now).output = e.output := rfl

@[simp] theorem prOutputs_withMarkRefreshing :
    (e.withMarkRefreshing now).prOutputs = e.prOutputs := rfl

@[simp] theorem refreshMode_withMarkRefreshing :
    (e.withMarkRefreshing now).refreshMode = e.refreshMode := rfl

@[simp] theorem fetchedAt_withMarkRefreshing :
    (e.withMarkRefreshing now).fetchedAt = e.fetchedAt := rfl

@[simp] theorem lastQueriedAt_withMarkRefreshing :
    (e.withMarkRefreshing now).lastQueriedAt = e.lastQueriedAt := rfl

@[simp] theorem cwd_withMarkRefreshing : (e.withMarkRefreshing now).cwd = e.cwd := rfl

@[simp] theorem isRefreshing_withClearRefreshLock : e.withClearRefreshLock.isRefreshing = false := by
  unfold isRefreshing withClearRefreshLock
  cases e.fetchState <;> rfl

@[simp] theorem refreshStartedAt_withClearRefreshLock :
    e.withClearRefreshLock.refreshStartedAt = none := rfl

@[simp] theorem hasFetched_withClearRefreshLock :
    e.withClearRefreshLock.hasFetched = e.hasFetched := by
  unfold hasFetched withClearRefreshLock
  cases e.fetchState <;> rfl

@[simp] theorem output_withClearRefreshLock : e.withClearRefreshLock.output = e.output := rfl

@[simp] theorem prOutputs_withClearRefreshLock :
    e.withClearRefreshLock.prOutputs = e.prOutputs := rfl

@[simp] theorem refreshMode_withClearRefreshLock :
    e.withClearRefreshLock.refreshMode = e.refreshMode := rfl

@[simp] theorem fetchedAt_withClearRefreshLock :
    e.withClearRefreshLock.fetchedAt = e.fetchedAt := rfl

@[simp] theorem lastQueriedAt_withClearRefreshLock :
    e.withClearRefreshLock.lastQueriedAt = e.lastQueriedAt := rfl

@[simp] theorem cwd_withClearRefreshLock : e.withClearRefreshLock.cwd = e.cwd := rfl

/-- Recording a query, and touching the cold counter or the mode, leave the fetch state alone. -/
@[simp] theorem fetchState_withRecordQuery : (e.withRecordQuery now).fetchState = e.fetchState := rfl

@[simp] theorem fetchState_withResetColdCount : e.withResetColdCount.fetchState = e.fetchState := rfl

@[simp] theorem fetchState_withIncrementColdCount :
    e.withIncrementColdCount.fetchState = e.fetchState := rfl

@[simp] theorem fetchState_withResetToWarm : e.withResetToWarm.fetchState = e.fetchState := rfl

theorem isRefreshing_congr {e e' : CacheEntryState} (h : e.fetchState = e'.fetchState) :
    e.isRefreshing = e'.isRefreshing := by
  unfold isRefreshing; rw [h]

theorem hasFetched_congr {e e' : CacheEntryState} (h : e.fetchState = e'.fetchState) :
    e.hasFetched = e'.hasFetched := by
  unfold hasFetched; rw [h]

/-- Marking a pending or a fetched entry, and clearing a lock, follow the state machine. -/
theorem fetchState_withMarkRefreshing :
    (e.withMarkRefreshing now).fetchState =
      if e.hasFetched then .refreshing else .loading := by
  unfold withMarkRefreshing hasFetched
  cases e.fetchState <;> rfl

theorem fetchState_withClearRefreshLock :
    e.withClearRefreshLock.fetchState = if e.hasFetched then .ready else .pendingRetry := by
  unfold withClearRefreshLock hasFetched
  cases e.fetchState <;> rfl

end Builders

end CacheEntryState

end MergeReady.Daemon
