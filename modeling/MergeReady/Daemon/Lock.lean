import MergeReady.Daemon.Config
import MergeReady.Daemon.Invariant

/-!
# Lost refreshes

A refresh that never reports back leaves its entry locked.  The state machine of `FetchState`
releases such a lock after a timeout; the tick does this, but only for active entries.  This file
says what a tick must leave behind (`LocksRecovered`), and for which stores it does.
-/

namespace MergeReady.Daemon

open MergeReady.Lib

/-- The lock of the entry is held and has reached the timeout. -/
def lockLost (input : SchedulerTickInput) (e : CacheEntryState) : Bool :=
  e.isRefreshing && refreshLockExpired e input.refreshLockTimeoutSecs input.now

/-- The state machine's edge for a lock given up: a first refresh is to be retried, an entry with a
result keeps it. -/
def FetchState.cleared : FetchState → FetchState
  | .loading | .pendingRetry => .pendingRetry
  | .ready | .refreshing => .ready

/-- The lock of `e` has been given up in `e'`, or taken again at `now`. -/
def LockRecovered (now : Instant) (e e' : CacheEntryState) : Prop :=
  (e'.fetchState = e.fetchState.cleared ∧ e'.refreshStartedAt = none) ∨
    (e'.isRefreshing = true ∧ e'.refreshStartedAt = some now)

/-- What a tick from `s` to `s'` has to do about lost refreshes. -/
structure LocksRecovered (input : SchedulerTickInput) (s s' : CacheStore) : Prop where
  none_lost : ∀ id e', s'.entry id = some e' → lockLost input e' = false
  recovered : ∀ id e e', s.entry id = some e → s'.entry id = some e' → lockLost input e = true →
    LockRecovered input.now e e'

section OneEntry

variable {input : SchedulerTickInput} {e e' : CacheEntryState}

theorem lockLost_iff : lockLost input e = true ↔ e.isRefreshing = true ∧
    refreshLockExpired e input.refreshLockTimeoutSecs input.now = true := by
  unfold lockLost
  rw [Bool.and_eq_true]

theorem not_lockLost_of_idle (h : e.isRefreshing = false) : lockLost input e = false := by
  unfold lockLost
  rw [h, Bool.false_and]

/-- A lock taken at the time of the tick is not lost. -/
theorem not_lockLost_withMarkRefreshing (ht : 1 ≤ input.refreshLockTimeoutSecs) :
    lockLost input (e.withMarkRefreshing input.now) = false := by
  have hage := Timespec.elapsedSecs_self_lt input.now ht
  unfold lockLost refreshLockExpired
  rw [CacheEntryState.refreshStartedAt_withMarkRefreshing, Option.any_some,
    decide_eq_false (UInt64.not_le.2 hage), Bool.and_false]

theorem releaseExpiredLock_of_lost (h : lockLost input e = true) :
    releaseExpiredLock input e = e.withClearRefreshLock := by
  unfold releaseExpiredLock
  exact if_pos h

theorem lockRecovered_clear (now : Instant) : LockRecovered now e e.withClearRefreshLock := by
  refine .inl ⟨?_, rfl⟩
  unfold CacheEntryState.withClearRefreshLock FetchState.cleared
  cases e.fetchState <;> rfl

theorem lockRecovered_mark (now : Instant) : LockRecovered now e (e'.withMarkRefreshing now) :=
  .inr ⟨CacheEntryState.isRefreshing_withMarkRefreshing _ _, rfl⟩

variable {interval : CacheEntryState → UInt64} {b : Bool}

/-- What one round of the loop does about a lost refresh of an active entry. -/
theorem TickStep.lockRecovered (h : TickStep input interval e e' b) (ha : e.isActive = true)
    (hl : lockLost input e = true) : LockRecovered input.now e e' := by
  cases h with
  | inactive hn => rw [ha] at hn; cases hn
  | locked _ _ hlive =>
    rw [(lockLost_iff.1 hl).2] at hlive
    cases hlive
  | waiting =>
    rw [releaseExpiredLock_of_lost hl]
    exact lockRecovered_clear _
  | spawned => exact lockRecovered_mark _

theorem TickStep.lockLost_iff (h : TickStep input interval e e' b)
    (ht : 1 ≤ input.refreshLockTimeoutSecs) :
    lockLost input e' = true ↔ lockLost input e = true ∧ e.isActive = false := by
  cases h with
  | inactive hn => simp [hn]
  | locked ha _ hlive => simp [lockLost, hlive]
  | waiting ha hexp =>
    have hidle := isRefreshing_releaseExpiredLock_eq_false.2 hexp
    simp [not_lockLost_of_idle hidle, ha]
  | spawned ha => simp [not_lockLost_withMarkRefreshing ht, ha]

end OneEntry

theorem EntryInv.isActive_of_isRefreshing {e : CacheEntryState} (h : EntryInv e)
    (hr : e.isRefreshing = true) : e.isActive = true ↔ e.output ≠ "" := by
  rw [CacheEntryState.isActive_iff, and_iff_left]
  intro hm
  have hready := h.terminal hm
  unfold CacheEntryState.isRefreshing at hr
  rw [hready] at hr
  cases hr

section Tick

variable {s s' : CacheStore} {input : SchedulerTickInput} {effects : List Effect}

/-- What is left of the entry of `id` after a tick of a store that is not paused. -/
theorem Step.tick_entry (h : Step s ⟨.tick input, effects⟩ s')
    (hb : s.isBackedOff input.now = false) {id : RepoId} {e' : CacheEntryState}
    (he' : s'.entry id = some e') :
    ∃ e cost b, s.entry id = some e ∧ isExpired e input.entryMaxAgeSecs input.now = false ∧
      TickStep input (tickInterval input s.latestRateLimit cost) e e' b := by
  have hs := h.entryStep id
  rw [he'] at hs
  generalize s.entry id = o at hs ⊢
  cases hs with
  | frame hop =>
    rcases hop with hop | hop
    · cases hop
    · rw [hb] at hop; cases hop
  | ticked _ hlive ht => exact ⟨_, _, _, rfl, hlive, ht⟩

theorem Step.tick_survives (h : Step s ⟨.tick input, effects⟩ s') {id : RepoId}
    {e : CacheEntryState} (he : s.entry id = some e)
    (hlive : isExpired e input.entryMaxAgeSecs input.now = false) :
    ∃ e', s'.entry id = some e' := by
  have hs := h.entryStep id
  rw [he] at hs
  generalize s'.entry id = o' at hs ⊢
  cases hs with
  | frame => exact ⟨_, rfl⟩
  | expired _ hexp => rw [hlive] at hexp; cases hexp
  | ticked => exact ⟨_, rfl⟩

/-- **A tick recovers every lost refresh of a reachable store exactly when each entry whose refresh
is lost, and which is not removed for its age, has an output.** -/
theorem locksRecovered_iff (hr : Reachable s) (h : Step s ⟨.tick input, effects⟩ s')
    (hb : s.isBackedOff input.now = false) (ht : 1 ≤ input.refreshLockTimeoutSecs) :
    LocksRecovered input s s' ↔ ∀ id e, s.entry id = some e →
      isExpired e input.entryMaxAgeSecs input.now = false → lockLost input e = true →
      e.output ≠ "" := by
  have hactive : ∀ id e, s.entry id = some e → lockLost input e = true →
      (e.isActive = true ↔ e.output ≠ "") := fun id e he hl =>
    (hr.entryInv he).isActive_of_isRefreshing (lockLost_iff.1 hl).1
  constructor
  · intro hrec id e he hlive hl
    obtain ⟨e', he'⟩ := h.tick_survives he hlive
    obtain ⟨e₀, cost, b, he₀, -, hstep⟩ := h.tick_entry hb he'
    obtain rfl : e₀ = e := Option.some.inj (he₀.symm.trans he)
    rw [← hactive id e₀ he hl]
    by_contra ha
    -- an entry that is not active is left as it is, its lock still held
    have hlost := (hstep.lockLost_iff ht).2 ⟨hl, by simpa using ha⟩
    rw [hrec.none_lost id e' he'] at hlost
    cases hlost
  · intro hout
    refine ⟨?_, ?_⟩
    · intro id e' he'
      obtain ⟨e, cost, b, he, hlive, hstep⟩ := h.tick_entry hb he'
      by_contra hl
      obtain ⟨hl, ha⟩ := (hstep.lockLost_iff ht).1 (by simpa using hl)
      rw [(hactive id e he hl).2 (hout id e he hlive hl)] at ha
      cases ha
    · intro id e e' he he' hl
      obtain ⟨e₀, cost, b, he₀, hlive, hstep⟩ := h.tick_entry hb he'
      obtain rfl : e₀ = e := Option.some.inj (he₀.symm.trans he)
      exact hstep.lockRecovered ((hactive id e₀ he hl).2 (hout id e₀ he hlive hl)) hl

end Tick

/-! ### A first refresh that is lost, and a later one -/

namespace Lost

def repo : RepoId := ⟨"cbf29ce484222325"⟩

def firstQuery : Op :=
  DaemonServerConfig.defaults.processQuery repo "main" "/repo" (.ofSecs 0) (.ofSecs 0)

def firstEntry : CacheEntryState := .newLoading "/repo" "main" 5 (.ofSecs 0) (.ofSecs 0)

def firstUpdate : Op := processUpdate repo "✓ Ready for merge" .hot [] (.ofSecs 1) (.ofSecs 1)

def fetchedEntry : CacheEntryState :=
  firstEntry.withRefreshCompleted "✓ Ready for merge" [] .hot (.ofSecs 1) (.ofSecs 1)

/-- The tick at 3 s starts the second one. -/
def earlyTick : Op := DaemonServerConfig.defaults.tick (.ofSecs 3) (.ofSecs 3)

def laterEntry : CacheEntryState := fetchedEntry.withMarkRefreshing (.ofSecs 3)

/-- The lock timeout of 120 s has passed for both. -/
def lateInput : SchedulerTickInput :=
  DaemonServerConfig.defaults.tickInput (.ofSecs 200) (.ofSecs 200)

end Lost

open Lost in
theorem locksRecovered_retry :
    LocksRecovered lateInput (.single repo laterEntry)
      (.single repo (laterEntry.withMarkRefreshing (.ofSecs 200))) := by
  have hreach : Reachable (.single repo laterEntry) :=
    Reachable.of_exec [firstQuery, firstUpdate, earlyTick] rfl
  have hstep : Step (.single repo laterEntry) ⟨.tick lateInput, [.spawnRefresh repo "/repo"]⟩
      (.single repo (laterEntry.withMarkRefreshing (.ofSecs 200))) := Step.of_run rfl
  refine (locksRecovered_iff hreach hstep rfl (by decide)).2 ?_
  intro id e he _ _
  obtain ⟨rfl, rfl⟩ := CacheStore.entry_single_eq_some.1 he
  decide

open Lost in
/-- The tick leaves the lost first refresh as it is. -/
theorem not_locksRecovered_first :
    ∃ s s' effects, Reachable s ∧ Step s ⟨.tick lateInput, effects⟩ s' ∧
      s.isBackedOff lateInput.now = false ∧ 1 ≤ lateInput.refreshLockTimeoutSecs ∧
      ¬ LocksRecovered lateInput s s' := by
  refine ⟨.single repo firstEntry, .single repo firstEntry, [], ?_, Step.of_run rfl, rfl,
    by decide, ?_⟩
  · exact Reachable.of_exec [firstQuery] rfl
  · intro h
    have := h.none_lost repo firstEntry rfl
    revert this
    decide

/-! ## Lost for good -/

/-- The entry has no output and holds the lock taken at `t₀`. -/
structure Stuck (t₀ : Instant) (e : CacheEntryState) : Prop where
  refreshing : e.isRefreshing = true
  started : e.refreshStartedAt = some t₀
  output : e.output = ""

/-- Nothing but a completion or the removal of the entry frees an entry without an output, and no
refresh of it starts. -/
theorem Stuck.step {s : CacheStore} {id : RepoId} {c : Call} {t₀ : Instant} {e : CacheEntryState}
    {o' : Option CacheEntryState} (hs : Stuck t₀ e) (h : EntryStep s id c (some e) o')
    (hc : ¬ c.Completes id) (hx : ¬ c.Expires id) :
    ¬ c.Spawns id ∧ ∃ e', o' = some e' ∧ Stuck t₀ e' := by
  cases h with
  | frame _ hsp => exact ⟨hsp, e, rfl, hs⟩
  | fresh =>
    refine ⟨?_, _, rfl, ⟨?_, hs.started, hs.output⟩⟩
    · rintro ⟨cwd, hm⟩
      simp at hm
    · rw [← hs.refreshing]
      exact CacheEntryState.isRefreshing_congr rfl
  | busy =>
    refine ⟨?_, _, rfl, ?_⟩
    · rintro ⟨cwd, hm⟩
      simp at hm
    · unfold thawCold
      split
      · exact ⟨hs.refreshing, hs.started, hs.output⟩
      · exact ⟨hs.refreshing, hs.started, hs.output⟩
  | stale _ hidle =>
    rw [hs.refreshing] at hidle
    cases hidle
  | completed => exact absurd ⟨_, rfl⟩ hc
  | expired _ _ _ hexp => exact absurd hexp hx
  | ticked _ _ ht hsp =>
    have hna : e.isActive = false := by
      by_contra ha
      exact ((CacheEntryState.isActive_iff e).1 (by simpa using ha)).1 hs.output
    cases ht with
    | inactive => exact ⟨by simp [hsp], _, rfl, hs⟩
    | locked ha => rw [hna] at ha; cases ha
    | waiting ha => rw [hna] at ha; cases ha
    | spawned ha => rw [hna] at ha; cases ha

/-- **A lost refresh of an entry without an output is lost for good**: in every run in which it
does not complete and the entry is not removed, no refresh of the entry starts. -/
theorem Stuck.run {s t : CacheStore} {id : RepoId} {calls : List Call} {t₀ : Instant}
    {e : CacheEntryState} (hs : Stuck t₀ e) (he : s.entry id = some e)
    (hr : Run Step s calls t) (hq : ∀ c ∈ calls, ¬ c.Completes id ∧ ¬ c.Expires id) :
    (∀ c ∈ calls, ¬ c.Spawns id) ∧ ∃ e', t.entry id = some e' ∧ Stuck t₀ e' := by
  induction hr generalizing e with
  | nil => exact ⟨by simp, e, he, hs⟩
  | cons hstep hr ih =>
    obtain ⟨hc, hx⟩ := hq _ List.mem_cons_self
    obtain ⟨hsp, e', he', hs'⟩ := hs.step (he ▸ hstep.entryStep id) hc hx
    obtain ⟨hrest, hend⟩ := ih hs' he' fun c hm => hq c (List.mem_cons_of_mem _ hm)
    exact ⟨List.forall_mem_cons.2 ⟨hsp, hrest⟩, hend⟩

end MergeReady.Daemon
