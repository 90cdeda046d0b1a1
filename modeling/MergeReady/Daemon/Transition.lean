import MergeReady.Daemon.Store

/-!
# The four transitions of the store

`onQuery`, `onRefreshCompleted`, `onSchedulerTick` and `onRateLimitObserved`: each takes a store and
an event and gives the next store with the effects to carry out.  Only the last one adds a span to a
reading of the clock, so only it can panic.
-/

namespace MergeReady.Daemon

open MergeReady.Lib

def BACKOFF_THRESHOLD_BP : UInt64 := 500

/-- What a client sees before the first result. -/
def loadingOutput : String := "? loading"

/-! ## Queries -/

/-- The cold counter starts again when a query finds the entry cold. -/
def thawCold (policy : RefreshPolicy) (now : Instant) (entry : CacheEntryState) :
    CacheEntryState :=
  if isColdOrNeverQueried entry policy.warmToColdSecs now then entry.withResetColdCount else entry

/-- A terminal entry that is polled again is warm. -/
def reopenTerminal (entry : CacheEntryState) : CacheEntryState :=
  if entry.refreshMode = .terminal then entry.withResetToWarm else entry

section

variable (policy : RefreshPolicy) (now : Instant) (e : CacheEntryState)

@[simp] theorem fetchState_thawCold : (thawCold policy now e).fetchState = e.fetchState := by
  unfold thawCold; split <;> rfl

@[simp] theorem output_thawCold : (thawCold policy now e).output = e.output := by
  unfold thawCold; split <;> rfl

@[simp] theorem prOutputs_thawCold : (thawCold policy now e).prOutputs = e.prOutputs := by
  unfold thawCold; split <;> rfl

@[simp] theorem refreshMode_thawCold : (thawCold policy now e).refreshMode = e.refreshMode := by
  unfold thawCold; split <;> rfl

@[simp] theorem fetchedAt_thawCold : (thawCold policy now e).fetchedAt = e.fetchedAt := by
  unfold thawCold; split <;> rfl

@[simp] theorem refreshStartedAt_thawCold :
    (thawCold policy now e).refreshStartedAt = e.refreshStartedAt := by
  unfold thawCold; split <;> rfl

@[simp] theorem fetchState_reopenTerminal : (reopenTerminal e).fetchState = e.fetchState := by
  unfold reopenTerminal; split <;> rfl

@[simp] theorem output_reopenTerminal : (reopenTerminal e).output = e.output := by
  unfold reopenTerminal; split <;> rfl

@[simp] theorem prOutputs_reopenTerminal : (reopenTerminal e).prOutputs = e.prOutputs := by
  unfold reopenTerminal; split <;> rfl

end

def onQuery (store : CacheStore) (event : QueryEvent) (repoId : RepoId) (policy : RefreshPolicy) :
    CacheStore × List Effect :=
  match store.entry repoId with
  | some entry =>
    if isFresh entry (policy.effectiveTtl entry event.staleTtl) event.now then
      let newEntry := entry.withRecordQuery event.now
      (store.withEntries (store.entries.insert repoId newEntry), [.emitOutput newEntry.output])
    else
      let state := (thawCold policy event.now entry).withRecordQuery event.now
      if entry.isRefreshing then
        let output := if entry.hasFetched then entry.output else loadingOutput
        (store.withEntries (store.entries.insert repoId state), [.emitOutput output])
      else
        let state := (reopenTerminal state).withMarkRefreshing event.now
        (store.withEntries (store.entries.insert repoId state),
          [.emitOutput entry.output, .spawnRefresh repoId entry.cwd])
  | none =>
    let newEntry := CacheEntryState.newLoading event.cwd event.branch event.staleTtl event.now
      event.nowWall
    (store.withEntries (store.entries.insert repoId newEntry),
      [.emitOutput loadingOutput, .spawnRefresh repoId event.cwd])

/-! ## Completed refreshes -/

/-- The result of a refresh; an unknown `repoId` is ignored. -/
def onRefreshCompleted (store : CacheStore) (repoId : RepoId) (event : RefreshCompletedEvent) :
    CacheStore × List Effect :=
  match store.entry repoId with
  | some state =>
    let newState := state.withRefreshCompleted event.output event.prOutputs event.refreshMode
      event.now event.nowWall
    (store.withEntries (store.entries.insert repoId newState), [])
  | none => (store, [])

/-! ## The scheduler -/

/-- The cost of one round: one call and one more per PR, for each active entry. -/
def totalRefreshCost : List CacheEntryState → UInt64 :=
  List.foldl (fun total e =>
    if e.isActive then satAdd total (satAdd (u64Sat e.prOutputs.length) 1) else total) 0

/-- A lock that is too old is released. -/
def releaseExpiredLock (input : SchedulerTickInput) (e : CacheEntryState) : CacheEntryState :=
  if e.isRefreshing && refreshLockExpired e input.refreshLockTimeoutSecs input.now then
    e.withClearRefreshLock
  else e

/-- A refresh of a warm entry nobody asks about is counted as a cold one. -/
def countColdRefresh (input : SchedulerTickInput) (e : CacheEntryState) : CacheEntryState :=
  if e.refreshMode = .warm ∧ isCold e input.policy.warmToColdSecs input.now then
    e.withIncrementColdCount
  else e

section

variable (input : SchedulerTickInput) (e : CacheEntryState)

@[simp] theorem output_releaseExpiredLock : (releaseExpiredLock input e).output = e.output := by
  unfold releaseExpiredLock; split <;> rfl

@[simp] theorem prOutputs_releaseExpiredLock :
    (releaseExpiredLock input e).prOutputs = e.prOutputs := by
  unfold releaseExpiredLock; split <;> rfl

@[simp] theorem hasFetched_releaseExpiredLock :
    (releaseExpiredLock input e).hasFetched = e.hasFetched := by
  unfold releaseExpiredLock; split <;> simp

@[simp] theorem refreshMode_releaseExpiredLock :
    (releaseExpiredLock input e).refreshMode = e.refreshMode := by
  unfold releaseExpiredLock; split <;> rfl

@[simp] theorem fetchedAt_releaseExpiredLock :
    (releaseExpiredLock input e).fetchedAt = e.fetchedAt := by
  unfold releaseExpiredLock; split <;> rfl

@[simp] theorem fetchState_countColdRefresh :
    (countColdRefresh input e).fetchState = e.fetchState := by
  unfold countColdRefresh; split <;> rfl

@[simp] theorem output_countColdRefresh : (countColdRefresh input e).output = e.output := by
  unfold countColdRefresh; split <;> rfl

@[simp] theorem prOutputs_countColdRefresh :
    (countColdRefresh input e).prOutputs = e.prOutputs := by
  unfold countColdRefresh; split <;> rfl

@[simp] theorem refreshMode_countColdRefresh :
    (countColdRefresh input e).refreshMode = e.refreshMode := by
  unfold countColdRefresh; split <;> rfl

end

/-- The interval a tick goes by. -/
def tickInterval (input : SchedulerTickInput) (snapshot : Option RateLimitSnapshot)
    (totalCost : UInt64) (e : CacheEntryState) : UInt64 :=
  input.policy.effectiveRefreshIntervalSecsScaled e snapshot totalCost input.now input.nowWall

/-- The body of the tick's loop: what becomes of one entry, and what it asks for. -/
def tickEntry (input : SchedulerTickInput) (snapshot : Option RateLimitSnapshot)
    (totalCost : UInt64) (repoId : RepoId) (entry : CacheEntryState) :
    CacheEntryState × List Effect :=
  if !entry.isActive then (entry, [])
  else
    let e := releaseExpiredLock input entry
    if e.isRefreshing then (e, [])
    else
      if (fetchedAtElapsed e input.now).asSecs < tickInterval input snapshot totalCost e then (e, [])
      else
        let e := countColdRefresh input e
        (e.withMarkRefreshing input.now, [.spawnRefresh repoId e.cwd])

def onSchedulerTick (store : CacheStore) (input : SchedulerTickInput) :
    CacheStore × List Effect :=
  let now := input.now
  let backoffUntil := store.backoffUntil.filter fun t => !decide (t ≤ now)
  let clearedStore := store.withBackoffUntil backoffUntil
  if clearedStore.isBackedOff now then (clearedStore, [])
  else
    let expired := fun (_ : RepoId) e => isExpired e input.entryMaxAgeSecs now
    let removed := clearedStore.entries.entries.filter fun x => expired x.1 x.2
    let entries := clearedStore.entries.retain fun id e => !expired id e
    let totalCost := totalRefreshCost (entries.entries.map (·.2))
    let snapshot := clearedStore.latestRateLimit
    let step := tickEntry input snapshot totalCost
    let updated := entries.mapVal fun id e => (step id e).1
    (clearedStore.withEntries updated,
      removed.map (fun x => .recordExpired x.1) ++
        entries.entries.flatMap fun x => (step x.1 x.2).2)

/-! ## Rate limits -/

def shouldEnterBackoff (snapshot : RateLimitSnapshot) : Bool :=
  if snapshot.isExhausted then true
  else decide (snapshot.bottleneckRatioBp ≤ BACKOFF_THRESHOLD_BP)

def BACKOFF_SAFETY_MARGIN : Duration := Duration.ofMillis 1500

/-- The bottleneck's reset on the monotonic clock, plus the margin; `none` if it has passed. -/
def resetInstantFromSnapshot (snapshot : RateLimitSnapshot) (nowInstant : Instant)
    (nowWall : SystemTime) : Fallible (Option Instant) :=
  match snapshot.bottleneckResetAt.durationSince nowWall with
  | none => .ok none
  | some delta => do
    let t ← nowInstant.add delta
    let t ← t.add BACKOFF_SAFETY_MARGIN
    return some t

/-- The end of the pause after a snapshot: the bottleneck's reset when the snapshot calls for a
pause, and otherwise, or when that reset has passed, the end known before. -/
def nextBackoffUntil (store : CacheStore) (event : RateLimitObservedEvent) :
    Fallible (Option Instant) :=
  if shouldEnterBackoff event.snapshot then do
    let reset ← resetInstantFromSnapshot event.snapshot event.now event.nowWall
    return reset.or store.backoffUntil
  else return store.backoffUntil

/-- A pause is announced when it ends at another time than the one known before. -/
def backoffEffects (store : CacheStore) (snapshot : RateLimitSnapshot)
    (newBackoffUntil : Option Instant) : List Effect :=
  match newBackoffUntil with
  | some until_ =>
    if shouldEnterBackoff snapshot ∧ store.backoffUntil ≠ some until_ then [.enterBackoff until_]
    else []
  | none => []

def onRateLimitObserved (store : CacheStore) (event : RateLimitObservedEvent) :
    Fallible (CacheStore × List Effect) := do
  let newBackoffUntil ← nextBackoffUntil store event
  let newStore :=
    (store.withLatestRateLimit (some event.snapshot)).withBackoffUntil newBackoffUntil
  return (newStore, backoffEffects store event.snapshot newBackoffUntil)

end MergeReady.Daemon
