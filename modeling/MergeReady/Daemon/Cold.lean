import MergeReady.Daemon.Config
import MergeReady.Daemon.Invariant

/-!
# The cold schedule

A warm entry nobody asks about is refreshed at the early cold interval, and after `coldEarlyLimit`
such refreshes at the late one.  A query that finds the entry cold starts the schedule again, unless
the entry is fresh: then the counter stays.  `coldRefreshes` counts along a run what the counter of an
entry should be.
-/

namespace MergeReady.Daemon

open MergeReady.Lib

/-- The effect starts a refresh of `id`. -/
def Effect.spawns (id : RepoId) : Effect → Bool
  | spawnRefresh repoId _ => repoId == id
  | emitOutput _ => false
  | recordExpired _ => false
  | enterBackoff _ => false

theorem Call.spawns_iff (c : Call) (id : RepoId) :
    c.effects.any (Effect.spawns id) = true ↔ c.Spawns id := by
  rw [List.any_eq_true]
  constructor
  · rintro ⟨eff, hm, heff⟩
    cases eff with
    | spawnRefresh id' cwd =>
      obtain rfl : id' = id := by simpa [Effect.spawns] using heff
      exact ⟨cwd, hm⟩
    | emitOutput => cases heff
    | recordExpired => cases heff
    | enterBackoff => cases heff
  · rintro ⟨cwd, hm⟩
    exact ⟨_, hm, by simp [Effect.spawns]⟩

instance (c : Call) (id : RepoId) : Decidable (c.Spawns id) :=
  decidable_of_iff _ (c.spawns_iff id)

/-- The refreshes of `id` made while it was cold, since the last query that found it cold or since it
was created: what the call `c` makes of the number `n`, with `o` the entry before the call. -/
def coldRefreshes (id : RepoId) (o : Option CacheEntryState) (c : Call) (n : ℕ) : ℕ :=
  match c.op with
  | .query repoId event policy =>
    if repoId = id ∧ o.all (isColdOrNeverQueried · policy.warmToColdSecs event.now) = true then 0
    else n
  | .tick input =>
    if c.Spawns id ∧ o.any (fun e =>
        decide (e.refreshMode = .warm) && isCold e input.policy.warmToColdSecs input.now) = true then
      n + 1
    else n
  | .refreshCompleted _ _ => n
  | .rateLimit _ => n

/-- A step of the store, with the number of cold refreshes of `id` kept beside it. -/
def CountedStep (id : RepoId) (x : CacheStore × ℕ) (c : Call) (y : CacheStore × ℕ) : Prop :=
  Step x.1 c y.1 ∧ y.2 = coldRefreshes id (x.1.entry id) c x.2

/-- A query that finds the entry of `id` cold finds it stale, or with the counter at zero. -/
def ColdQueryThaws (id : RepoId) (s : CacheStore) (c : Call) : Prop :=
  ∀ ev p e, c.op = .query id ev p → s.entry id = some e →
    isColdOrNeverQueried e p.warmToColdSecs ev.now = true →
    isFresh e (p.effectiveTtl e ev.staleTtl) ev.now = false ∨ e.coldRefreshCount = 0

theorem coldQueryThaws_refreshCompleted {id id' : RepoId} {s : CacheStore}
    {ev : RefreshCompletedEvent} {effects : List Effect} :
    ColdQueryThaws id s ⟨.refreshCompleted id' ev, effects⟩ := by
  intro _ _ _ h
  cases h

theorem coldQueryThaws_tick {id : RepoId} {s : CacheStore} {input : SchedulerTickInput}
    {effects : List Effect} : ColdQueryThaws id s ⟨.tick input, effects⟩ := by
  intro _ _ _ h
  cases h

/-- The interval of the entry is the late cold one. -/
def UsesColdLate (p : RefreshPolicy) (e : CacheEntryState) (now : Instant) : Prop :=
  e.refreshMode = .warm ∧ hasRecentQuery e p.hotRecentQuerySecs now = false ∧
    isCold e p.warmToColdSecs now = true ∧ p.coldEarlyLimit ≤ e.coldRefreshCount

theorem UsesColdLate.interval {p : RefreshPolicy} {e : CacheEntryState} {now : Instant}
    (h : UsesColdLate p e now) : p.effectiveRefreshIntervalSecs e now = p.coldLateSecs := by
  obtain ⟨hmode, hrecent, hcold, hlimit⟩ := h
  unfold RefreshPolicy.effectiveRefreshIntervalSecs RefreshPolicy.coldIntervalSecs
  simp only [hmode, hrecent, hcold]
  exact if_neg (UInt32.not_lt.2 hlimit)

/-! ## One step -/

theorem coldRefreshCount_thawCold {p : RefreshPolicy} {now : Instant} {e : CacheEntryState} :
    (thawCold p now e).coldRefreshCount =
      if isColdOrNeverQueried e p.warmToColdSecs now then 0 else e.coldRefreshCount := by
  unfold thawCold
  split <;> rfl

theorem coldRefreshCount_reopenTerminal (e : CacheEntryState) :
    (reopenTerminal e).coldRefreshCount = e.coldRefreshCount := by
  unfold reopenTerminal
  split <;> rfl

theorem coldRefreshCount_releaseExpiredLock (input : SchedulerTickInput) (e : CacheEntryState) :
    (releaseExpiredLock input e).coldRefreshCount = e.coldRefreshCount := by
  unfold releaseExpiredLock
  split <;> rfl

theorem lastQueriedAt_releaseExpiredLock (input : SchedulerTickInput) (e : CacheEntryState) :
    (releaseExpiredLock input e).lastQueriedAt = e.lastQueriedAt := by
  unfold releaseExpiredLock
  split <;> rfl

/-- What a query leaves of the counter. -/
theorem EntryStep.query_count {s : CacheStore} {id : RepoId} {ev : QueryEvent} {p : RefreshPolicy}
    {effects : List Effect} {e : CacheEntryState} {o' : Option CacheEntryState}
    (h : EntryStep s id ⟨.query id ev p, effects⟩ (some e) o') :
    ∃ e', o' = some e' ∧ e'.coldRefreshCount =
      if isFresh e (p.effectiveTtl e ev.staleTtl) ev.now = false ∧
          isColdOrNeverQueried e p.warmToColdSecs ev.now = true then 0
      else e.coldRefreshCount := by
  cases h with
  | frame hop => exact absurd rfl hop
  | fresh hf =>
    refine ⟨_, rfl, ?_⟩
    rw [if_neg (by simp [hf])]
    rfl
  | busy hf =>
    refine ⟨_, rfl, ?_⟩
    simp only [hf, true_and]
    exact coldRefreshCount_thawCold
  | stale hf =>
    refine ⟨_, rfl, ?_⟩
    simp only [hf, true_and]
    exact (coldRefreshCount_reopenTerminal _).trans coldRefreshCount_thawCold

/-- A tick that starts a refresh raises the counter by at most one, and only of a cold entry. -/
theorem count_spawned (input : SchedulerTickInput) (e : CacheEntryState) :
    (countColdRefresh input (releaseExpiredLock input e)).coldRefreshCount.toNat ≤
      if e.refreshMode = .warm ∧ isCold e input.policy.warmToColdSecs input.now = true then
        e.coldRefreshCount.toNat + 1
      else e.coldRefreshCount.toNat := by
  have hcold : isCold (releaseExpiredLock input e) input.policy.warmToColdSecs input.now =
      isCold e input.policy.warmToColdSecs input.now := by
    unfold isCold
    rw [lastQueriedAt_releaseExpiredLock]
  unfold countColdRefresh
  rw [refreshMode_releaseExpiredLock, hcold]
  split
  · have hinc : (releaseExpiredLock input e).withIncrementColdCount.coldRefreshCount.toNat =
        min (e.coldRefreshCount.toNat + 1) (2 ^ 32 - 1) := by
      show (satAdd32 (releaseExpiredLock input e).coldRefreshCount 1).toNat = _
      rw [coldRefreshCount_releaseExpiredLock, toNat_satAdd32]
      rfl
    omega
  · rw [coldRefreshCount_releaseExpiredLock]

section

variable {s : CacheStore} {id : RepoId} {effects : List Effect} {n : ℕ}

/-- A query that finds the entry cold puts the counter back to zero. -/
theorem EntryStep.query_count_le {ev : QueryEvent} {p : RefreshPolicy} {e e' : CacheEntryState}
    (h : EntryStep s id ⟨.query id ev p, effects⟩ (some e) (some e')) (he : s.entry id = some e)
    (hthaw : ColdQueryThaws id s ⟨.query id ev p, effects⟩) (hle : e.coldRefreshCount.toNat ≤ n) :
    e'.coldRefreshCount.toNat ≤ coldRefreshes id (some e) ⟨.query id ev p, effects⟩ n := by
  obtain ⟨e'', he'', hcount⟩ := h.query_count
  obtain rfl := Option.some.inj he''
  unfold coldRefreshes
  simp only [Option.all_some, true_and]
  by_cases hcold : isColdOrNeverQueried e p.warmToColdSecs ev.now = true
  · have hzero : e'.coldRefreshCount = 0 := by
      rw [hcount]
      rcases hthaw ev p e rfl he hcold with hf | h0
      · rw [if_pos ⟨hf, hcold⟩]
      · rw [h0, ite_self]
    rw [if_pos hcold, hzero]
    exact le_refl 0
  · rw [if_neg hcold, hcount, if_neg (fun hb => hcold hb.2)]
    exact hle

theorem coldRefreshes_of_leavesAlone {c : Call} {o : Option CacheEntryState}
    (hop : c.op.LeavesAlone s id o) (hs : ¬ c.Spawns id) : coldRefreshes id o c n = n := by
  unfold coldRefreshes
  split
  · rename_i hop'
    rw [hop'] at hop
    rw [if_neg (fun hb => hop hb.1)]
  · rw [if_neg (fun hb => hs hb.1)]
  · rfl
  · rfl

theorem TickStep.count_le {input : SchedulerTickInput} {interval : CacheEntryState → UInt64}
    {e e' : CacheEntryState} {b : Bool} (h : TickStep input interval e e' b)
    (hs : (Call.mk (.tick input) effects).Spawns id ↔ b = true)
    (hle : e.coldRefreshCount.toNat ≤ n) :
    e'.coldRefreshCount.toNat ≤ coldRefreshes id (some e) ⟨.tick input, effects⟩ n := by
  have hgrows : n ≤ coldRefreshes id (some e) ⟨.tick input, effects⟩ n := by
    unfold coldRefreshes
    dsimp only
    split <;> omega
  cases h with
  | inactive => exact le_trans hle hgrows
  | locked => exact le_trans hle hgrows
  | waiting =>
    rw [coldRefreshCount_releaseExpiredLock]
    exact le_trans hle hgrows
  | spawned =>
    have hcount := count_spawned input e
    show (countColdRefresh input (releaseExpiredLock input e)).coldRefreshCount.toNat ≤ _
    unfold coldRefreshes
    simp only [hs.2 rfl, true_and, Option.any_some, Bool.and_eq_true, decide_eq_true_eq]
    split at hcount
    · rename_i hcold
      rw [if_pos hcold]
      omega
    · rename_i hcold
      rw [if_neg hcold]
      omega

end

/-- **The counter of an entry stays below the number it stands for** when cold queries thaw. -/
theorem EntryStep.count_le {s : CacheStore} {id : RepoId} {c : Call} {o o' : Option CacheEntryState}
    {n : ℕ} (h : EntryStep s id c o o') (ho : o = s.entry id) (hthaw : ColdQueryThaws id s c)
    (hn : ∀ e ∈ o, e.coldRefreshCount.toNat ≤ n) :
    ∀ e' ∈ o', e'.coldRefreshCount.toNat ≤ coldRefreshes id o c n := by
  intro e' he'
  cases h with
  | frame hop hs =>
    rw [coldRefreshes_of_leavesAlone hop hs]
    exact hn e' he'
  | fresh hf =>
    obtain rfl := Option.some.inj he'
    exact (EntryStep.fresh hf).query_count_le ho.symm hthaw (hn _ rfl)
  | busy hf hr =>
    obtain rfl := Option.some.inj he'
    exact (EntryStep.busy hf hr).query_count_le ho.symm hthaw (hn _ rfl)
  | stale hf hr =>
    obtain rfl := Option.some.inj he'
    exact (EntryStep.stale hf hr).query_count_le ho.symm hthaw (hn _ rfl)
  | miss =>
    obtain rfl := Option.some.inj he'
    exact Nat.zero_le _
  | @completed ev e =>
    obtain rfl := Option.some.inj he'
    exact hn e rfl
  | expired => cases he'
  | ticked _ _ ht hs =>
    obtain rfl := Option.some.inj he'
    exact ht.count_le hs (hn _ rfl)

/-! ## Runs -/

theorem Run.count_le {id : RepoId} {calls : List Call} {s : CacheStore} {n : ℕ}
    (hr : Run (fun x c y => CountedStep id x c y ∧ ColdQueryThaws id x.1 c) (.new, 0) calls
      (s, n)) :
    ∀ e ∈ s.entry id, e.coldRefreshCount.toNat ≤ n := by
  refine Run.invariant (P := fun x => ∀ e ∈ x.1.entry id, e.coldRefreshCount.toNat ≤ x.2) ?_ hr ?_
  · rintro ⟨s, n⟩ c ⟨s', n'⟩ hn ⟨⟨hstep, hcount⟩, hthaw⟩
    obtain rfl : n' = coldRefreshes id (s.entry id) c n := hcount
    exact (hstep.entryStep id).count_le rfl hthaw hn
  · intro e he
    rw [CacheStore.entry_new] at he
    cases he

/-- **When a query restarts the cold schedule.**  A query that finds the entry cold leaves the counter
at zero exactly when the entry is stale or the counter was zero; and in every run whose cold queries
are of that kind, the late interval is used only after `coldEarlyLimit` cold refreshes since the last
query that found the entry cold. -/
theorem cold_schedule_restarts (id : RepoId) :
    (∀ s s' ev p e effects, Reachable s → Step s ⟨.query id ev p, effects⟩ s' →
      s.entry id = some e → isColdOrNeverQueried e p.warmToColdSecs ev.now = true →
      ((∃ e', s'.entry id = some e' ∧ e'.coldRefreshCount = 0) ↔
        isFresh e (p.effectiveTtl e ev.staleTtl) ev.now = false ∨ e.coldRefreshCount = 0)) ∧
      ∀ calls s n,
        Run (fun x c y => CountedStep id x c y ∧ ColdQueryThaws id x.1 c) (.new, 0) calls
          (s, n) →
        ∀ e p now, s.entry id = some e → UsesColdLate p e now → p.coldEarlyLimit.toNat ≤ n := by
  constructor
  · intro s s' ev p e effects _ hstep he hcold
    obtain ⟨e', he', hcount⟩ := (he ▸ hstep.entryStep id).query_count
    simp only [hcold, and_true] at hcount
    constructor
    · rintro ⟨e'', he'', hzero⟩
      obtain rfl := Option.some.inj (he'.symm.trans he'')
      by_cases hf : isFresh e (p.effectiveTtl e ev.staleTtl) ev.now = false
      · exact .inl hf
      · rw [if_neg hf] at hcount
        exact .inr (hcount ▸ hzero)
    · intro hcond
      refine ⟨e', he', ?_⟩
      rw [hcount]
      rcases hcond with hf | h0
      · rw [if_pos hf]
      · rw [h0, ite_self]
  · intro calls s n hr e p now he hlate
    have hle := Run.count_le hr e he
    have hlimit := UInt32.le_iff_toNat_le.1 hlate.2.2.2
    omega

/-! ### A user who comes back right after a refresh -/

namespace Returning

def repo : RepoId := ⟨"cbf29ce484222325"⟩

/-- The defaults, with one early refresh. -/
def config : DaemonServerConfig :=
  { DaemonServerConfig.defaults with
    policy := { DaemonServerConfig.defaults.policy with coldEarlyLimit := 1 } }

def loading : CacheEntryState := .newLoading "/repo" "main" 5 (.ofSecs 0) (.ofSecs 0)

def warm : CacheEntryState := loading.withRefreshCompleted "✓" [] .warm (.ofSecs 1) (.ofSecs 1)

/-- The tick at 1900 s refreshes the cold entry. -/
def counted : CacheEntryState := warm.withIncrementColdCount.withMarkRefreshing (.ofSecs 1900)

def refreshed : CacheEntryState :=
  counted.withRefreshCompleted "✓" [] .warm (.ofSecs 1901) (.ofSecs 1901)

/-- The query at 1910 s finds the entry cold and stale. -/
def lateBack : Call :=
  ⟨config.processQuery repo "main" "/repo" (.ofSecs 1910) (.ofSecs 1910),
    [.emitOutput "✓", .spawnRefresh repo "/repo"]⟩

def thawed : CacheEntryState :=
  (refreshed.withResetColdCount.withRecordQuery (.ofSecs 1910)).withMarkRefreshing (.ofSecs 1910)

def fetchedAgain : CacheEntryState :=
  thawed.withRefreshCompleted "✓" [] .warm (.ofSecs 1911) (.ofSecs 1911)

/-- The first cold refresh since, at 4000 s. -/
def countedAgain : CacheEntryState :=
  fetchedAgain.withIncrementColdCount.withMarkRefreshing (.ofSecs 4000)

/-- The query at 1902 s finds the entry cold and fresh. -/
def back : Call :=
  ⟨config.processQuery repo "main" "/repo" (.ofSecs 1902) (.ofSecs 1902), [.emitOutput "✓"]⟩

def calls : List Call :=
  [⟨config.processQuery repo "main" "/repo" (.ofSecs 0) (.ofSecs 0),
      [.emitOutput loadingOutput, .spawnRefresh repo "/repo"]⟩,
    ⟨processUpdate repo "✓" .warm [] (.ofSecs 1) (.ofSecs 1), []⟩,
    ⟨config.tick (.ofSecs 1900) (.ofSecs 1900), [.spawnRefresh repo "/repo"]⟩,
    ⟨processUpdate repo "✓" .warm [] (.ofSecs 1901) (.ofSecs 1901), []⟩, back]

def lateCalls : List Call :=
  calls.take 4 ++ [lateBack, ⟨processUpdate repo "✓" .warm [] (.ofSecs 1911) (.ofSecs 1911), []⟩,
    ⟨config.tick (.ofSecs 4000) (.ofSecs 4000), [.spawnRefresh repo "/repo"]⟩]

end Returning

open Returning in
/-- The user comes back when the entry is stale, and the late interval waits for a cold refresh. -/
theorem cold_schedule_restarts_late :
    (∃ s s' e', Reachable s ∧ Step s lateBack s' ∧ s.entry repo = some refreshed ∧
        refreshed.coldRefreshCount = 1 ∧ s'.entry repo = some e' ∧ e'.coldRefreshCount = 0) ∧
      ∃ s n, Run (CountedStep repo) (.new, 0) lateCalls (s, n) ∧
        (∃ e, s.entry repo = some e ∧ UsesColdLate config.policy e (.ofSecs 4001)) ∧
        config.policy.coldEarlyLimit.toNat ≤ n := by
  obtain ⟨hone, hruns⟩ := cold_schedule_restarts repo
  constructor
  · have hr : Reachable (.single repo refreshed) :=
      Reachable.of_exec ((calls.take 4).map Call.op) rfl
    have hstep : Step (.single repo refreshed) lateBack (.single repo thawed) := Step.of_run rfl
    obtain ⟨e', he', hzero⟩ := (hone _ _ _ _ refreshed _ hr hstep rfl (by decide)).2
      (.inl (by decide))
    exact ⟨_, _, e', hr, hstep, rfl, rfl, he', hzero⟩
  · have hrun : Run (fun x c y => CountedStep repo x c y ∧ ColdQueryThaws repo x.1 c) (.new, 0)
        lateCalls (.single repo countedAgain, 1) := by
      refine .cons (t := (.single repo loading, 0)) ⟨⟨Step.of_run rfl, rfl⟩, ?_⟩
        (.cons (t := (.single repo warm, 0)) ⟨⟨Step.of_run rfl, rfl⟩, coldQueryThaws_refreshCompleted⟩
        (.cons (t := (.single repo counted, 1)) ⟨⟨Step.of_run rfl, rfl⟩, coldQueryThaws_tick⟩
        (.cons (t := (.single repo refreshed, 1)) ⟨⟨Step.of_run rfl, rfl⟩,
          coldQueryThaws_refreshCompleted⟩
        (.cons (t := (.single repo thawed, 0)) ⟨⟨Step.of_run rfl, rfl⟩, ?_⟩
        (.cons (t := (.single repo fetchedAgain, 0)) ⟨⟨Step.of_run rfl, rfl⟩,
          coldQueryThaws_refreshCompleted⟩
        (.cons ⟨⟨Step.of_run rfl, rfl⟩, coldQueryThaws_tick⟩ (.nil _)))))))
      · rintro ev p e - he
        cases he
      · rintro ev p e hop he -
        obtain rfl : refreshed = e := Option.some.inj he
        cases hop
        exact .inl (by decide)
    have hlate : UsesColdLate config.policy countedAgain (.ofSecs 4001) := by
      unfold UsesColdLate
      decide
    exact ⟨_, _, hrun.mono fun _ _ _ h => h.1, ⟨_, rfl, hlate⟩, hruns _ _ _ hrun _ _ _ rfl hlate⟩

open Returning in
/-- The query leaves the counter at one, and the next idle period goes by the late interval without a
cold refresh since. -/
theorem not_cold_schedule_restarts :
    (∃ s s' e e', Reachable s ∧ Step s back s' ∧ s.entry repo = some e ∧
        isColdOrNeverQueried e config.policy.warmToColdSecs (.ofSecs 1902) = true ∧
        s'.entry repo = some e' ∧ e'.coldRefreshCount = 1) ∧
      ∃ s e, Run (CountedStep repo) (.new, 0) calls (s, 0) ∧ s.entry repo = some e ∧
        UsesColdLate config.policy e (.ofSecs 4000) ∧ config.policy.coldEarlyLimit = 1 := by
  refine ⟨⟨.single repo refreshed, .single repo (refreshed.withRecordQuery (.ofSecs 1902)),
    refreshed, refreshed.withRecordQuery (.ofSecs 1902), ?_, Step.of_run rfl, rfl, by decide, rfl,
    rfl⟩, ?_⟩
  · exact Reachable.of_exec ((calls.take 4).map Call.op) rfl
  · refine ⟨.single repo (refreshed.withRecordQuery (.ofSecs 1902)),
      refreshed.withRecordQuery (.ofSecs 1902), ?_, rfl, by unfold UsesColdLate; decide, rfl⟩
    exact .cons (t := (.single repo loading, 0)) ⟨Step.of_run rfl, rfl⟩
      (.cons (t := (.single repo warm, 0)) ⟨Step.of_run rfl, rfl⟩
        (.cons (t := (.single repo counted, 1)) ⟨Step.of_run rfl, rfl⟩
          (.cons (t := (.single repo refreshed, 1)) ⟨Step.of_run rfl, rfl⟩
            (.cons ⟨Step.of_run rfl, rfl⟩ (.nil _)))))

end MergeReady.Daemon
