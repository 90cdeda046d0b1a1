import MergeReady.Daemon.Runs

/-!
# The invariant of an entry

`EntryInv` holds of every entry of every reachable store: the lock is held exactly while a refresh
runs, an entry without a result is blank, a terminal entry is idle, and no entry waits for a second
first refresh (a loading entry is blank, hence not active, hence no tick ever releases its lock).
-/

namespace MergeReady.Daemon

open MergeReady.Lib

/-- The stores that runs from the empty store reach. -/
def Reachable (s : CacheStore) : Prop := ∃ calls, Run Step .new calls s

theorem Reachable.new : Reachable .new := ⟨[], Run.nil _⟩

theorem Reachable.step {s s' : CacheStore} {c : Call} (h : Reachable s) (hs : Step s c s') :
    Reachable s' := by
  obtain ⟨calls, hr⟩ := h
  exact ⟨calls ++ [c], hr.snoc hs⟩

theorem Reachable.of_exec {s : CacheStore} (ops : List Op) {calls : List Call}
    (h : exec .new ops = .ok (s, calls)) : Reachable s := ⟨calls, run_of_exec ops h⟩

/-- A property of entries that every step keeps for every entry holds of all entries of all
reachable stores. -/
theorem Reachable.forall_entry {P : CacheEntryState → Prop}
    (hstep : ∀ s id c o o', EntryStep s id c o o' → (∀ e ∈ o, P e) → ∀ e ∈ o', P e)
    {s : CacheStore} (h : Reachable s) {id : RepoId} {e : CacheEntryState}
    (he : s.entry id = some e) : P e := by
  obtain ⟨calls, hr⟩ := h
  have hall : ∀ id, ∀ e ∈ s.entry id, P e := by
    refine Run.invariant (P := fun s => ∀ id, ∀ e ∈ s.entry id, P e) ?_ hr ?_
    · intro s c s' hs hst id
      exact hstep s id c _ _ (hst.entryStep id) (hs id)
    · intro id e hn
      rw [CacheStore.entry_new] at hn
      cases hn
  exact hall id e he

/-! ## The invariant -/

structure EntryInv (e : CacheEntryState) : Prop where
  lock : e.refreshStartedAt.isSome = e.isRefreshing
  blank : e.hasFetched = false → e.output = "" ∧ e.prOutputs = [] ∧ e.refreshMode = .warm
  terminal : e.refreshMode = .terminal → e.fetchState = .ready
  queried : e.lastQueriedAt.isSome = true
  started : e.fetchState ≠ .pendingRetry

namespace EntryInv

variable {e : CacheEntryState}

/-- An active entry has a result. -/
theorem hasFetched_of_active (h : EntryInv e) (ha : e.isActive = true) : e.hasFetched = true := by
  by_contra hn
  exact ((CacheEntryState.isActive_iff e).1 ha).1 (h.blank (by simpa using hn)).1

theorem recordQuery (h : EntryInv e) (now : Instant) : EntryInv (e.withRecordQuery now) :=
  ⟨h.lock, h.blank, h.terminal, rfl, h.started⟩

theorem thaw (h : EntryInv e) (p : RefreshPolicy) (now : Instant) : EntryInv (thawCold p now e) := by
  unfold thawCold
  split
  · exact ⟨h.lock, h.blank, h.terminal, h.queried, h.started⟩
  · exact h

theorem count (h : EntryInv e) (input : SchedulerTickInput) : EntryInv (countColdRefresh input e) := by
  unfold countColdRefresh
  split
  · exact ⟨h.lock, h.blank, h.terminal, h.queried, h.started⟩
  · exact h

theorem reopen (h : EntryInv e) : EntryInv (reopenTerminal e) := by
  unfold reopenTerminal
  split
  · refine ⟨h.lock, fun hn => ?_, fun ht => ?_, h.queried, h.started⟩
    · obtain ⟨ho, hp, -⟩ := h.blank hn
      exact ⟨ho, hp, rfl⟩
    · cases ht
  · exact h

theorem refreshMode_reopen (e : CacheEntryState) : (reopenTerminal e).refreshMode ≠ .terminal := by
  unfold reopenTerminal
  split
  · intro h; cases h
  · assumption

/-- Marking an entry that is not terminal. -/
theorem mark (h : EntryInv e) (hm : e.refreshMode ≠ .terminal) (now : Instant) :
    EntryInv (e.withMarkRefreshing now) := by
  refine ⟨?_, ?_, fun ht => absurd ht hm, h.queried, ?_⟩
  · rw [CacheEntryState.isRefreshing_withMarkRefreshing]; rfl
  · intro hn
    rw [CacheEntryState.hasFetched_withMarkRefreshing] at hn
    exact h.blank hn
  · rw [CacheEntryState.fetchState_withMarkRefreshing]
    split <;> simp

/-- Releasing the lock of an entry with a result. -/
theorem release (h : EntryInv e) (hf : e.hasFetched = true) (input : SchedulerTickInput) :
    EntryInv (releaseExpiredLock input e) := by
  unfold releaseExpiredLock
  split
  · refine ⟨?_, ?_, ?_, h.queried, ?_⟩
    · rw [CacheEntryState.isRefreshing_withClearRefreshLock]; rfl
    · intro hn
      rw [CacheEntryState.hasFetched_withClearRefreshLock, hf] at hn
      cases hn
    · intro _
      rw [CacheEntryState.fetchState_withClearRefreshLock, if_pos hf]
    · rw [CacheEntryState.fetchState_withClearRefreshLock, if_pos hf]
      simp
  · exact h

theorem newLoading (cwd branch : String) (ttl : UInt64) (now : Instant) (nowWall : SystemTime) :
    EntryInv (CacheEntryState.newLoading cwd branch ttl now nowWall) :=
  ⟨rfl, fun _ => ⟨rfl, rfl, rfl⟩, nofun, rfl, nofun⟩

theorem completed (h : EntryInv e) (ev : RefreshCompletedEvent) :
    EntryInv (e.withRefreshCompleted ev.output ev.prOutputs ev.refreshMode ev.now ev.nowWall) :=
  ⟨rfl, nofun, fun _ => rfl, h.queried, nofun⟩

end EntryInv

/-- **Every step keeps the invariant.** -/
theorem EntryInv.step {s : CacheStore} {id : RepoId} {c : Call} {o o' : Option CacheEntryState}
    (h : EntryStep s id c o o') (ho : ∀ e ∈ o, EntryInv e) : ∀ e ∈ o', EntryInv e := by
  intro e' he'
  cases h with
  | frame => exact ho e' he'
  | fresh =>
    cases he'
    exact (ho _ rfl).recordQuery _
  | busy =>
    cases he'
    exact ((ho _ rfl).thaw _ _).recordQuery _
  | stale =>
    cases he'
    exact (((ho _ rfl).thaw _ _).recordQuery _).reopen.mark (EntryInv.refreshMode_reopen _) _
  | miss =>
    cases he'
    exact EntryInv.newLoading _ _ _ _ _
  | completed =>
    cases he'
    exact (ho _ rfl).completed _
  | expired => cases he'
  | ticked hb ha ht =>
    cases he'
    cases ht with
    | inactive => exact ho _ rfl
    | locked => exact ho _ rfl
    | waiting ha =>
      exact (ho _ rfl).release ((ho _ rfl).hasFetched_of_active ha) _
    | spawned ha =>
      refine (((ho _ rfl).release ((ho _ rfl).hasFetched_of_active ha) _).count _).mark ?_ _
      rw [refreshMode_countColdRefresh, refreshMode_releaseExpiredLock]
      exact ((CacheEntryState.isActive_iff _).1 ha).2

/-- **The invariant holds of every entry of every reachable store.** -/
theorem Reachable.entryInv {s : CacheStore} (h : Reachable s) {id : RepoId} {e : CacheEntryState}
    (he : s.entry id = some e) : EntryInv e :=
  h.forall_entry (fun _ _ _ _ _ hs => EntryInv.step hs) he

/-! ## What the invariant says of the fields -/

namespace EntryInv

variable {e : CacheEntryState}

theorem started_iff (h : EntryInv e) :
    e.refreshStartedAt.isSome = true ↔ e.fetchState = .loading ∨ e.fetchState = .refreshing := by
  rw [h.lock]
  unfold CacheEntryState.isRefreshing
  cases e.fetchState <;> decide

/-- Before its first result an entry is as `newLoading` made it. -/
theorem blank_of_unfetched (h : EntryInv e)
    (hs : e.fetchState = .loading ∨ e.fetchState = .pendingRetry) :
    e.output = "" ∧ e.prOutputs = [] ∧ e.refreshMode = .warm := by
  apply h.blank
  unfold CacheEntryState.hasFetched
  rcases hs with hs | hs <;> rw [hs]

/-- Every entry has been queried, so the two tests for a cold one agree. -/
theorem isCold_eq (h : EntryInv e) (secs : UInt64) (now : Instant) :
    isCold e secs now = isColdOrNeverQueried e secs now := by
  obtain ⟨t, ht⟩ := Option.isSome_iff_exists.1 h.queried
  unfold isCold isColdOrNeverQueried
  rw [ht, Option.any_some, Option.all_some]

end EntryInv

/-- **The fields of every entry of every reachable store fit together.** -/
theorem Reachable.fields_consistent {s : CacheStore} (h : Reachable s) {id : RepoId}
    {e : CacheEntryState} (he : s.entry id = some e) :
    (e.refreshStartedAt.isSome = true ↔ e.fetchState = .loading ∨ e.fetchState = .refreshing) ∧
      (e.fetchState = .loading ∨ e.fetchState = .pendingRetry →
        e.output = "" ∧ e.prOutputs = [] ∧ e.refreshMode = .warm) ∧
      (e.refreshMode = .terminal → e.fetchState = .ready) ∧
      e.lastQueriedAt.isSome = true ∧
      ∀ secs now, isCold e secs now = isColdOrNeverQueried e secs now := by
  have hinv := h.entryInv he
  exact ⟨hinv.started_iff, hinv.blank_of_unfetched, hinv.terminal, hinv.queried, hinv.isCold_eq⟩

/-- The entry a first query makes. -/
theorem Reachable.fields_consistent_first :
    ((CacheEntryState.newLoading "/repo" "main" 5 (.ofSecs 9) (.ofSecs 9)).refreshStartedAt.isSome =
        true ↔ FetchState.loading = .loading ∨ FetchState.loading = .refreshing) ∧
      isCold (CacheEntryState.newLoading "/repo" "main" 5 (.ofSecs 9) (.ofSecs 9)) 1800
        (.ofSecs 2000) = true := by
  have hr : Reachable (.single ⟨"r"⟩
      (CacheEntryState.newLoading "/repo" "main" 5 (.ofSecs 9) (.ofSecs 9))) :=
    Reachable.of_exec [.query ⟨"r"⟩ ⟨"/repo", "main", .ofSecs 9, .ofSecs 9, 5⟩
      ⟨30, 2, 10, 180, 1800, 1800, 3600, 10⟩] rfl
  obtain ⟨hstarted, -, -, -, hcold⟩ :=
    hr.fields_consistent (CacheStore.entry_single_eq_some.2 ⟨rfl, rfl⟩)
  exact ⟨hstarted, (hcold 1800 (.ofSecs 2000)).trans (by decide)⟩

end MergeReady.Daemon
