import MergeReady.Daemon.Answers
import MergeReady.Daemon.Invariant
import MergeReady.Daemon.Tick

/-!
# The life of an entry

What the calls of a run say about an entry: when it was last asked for, which call started the refresh
that it waits for, and which one brought the result that it shows.  From it, what a tick that is not
paused leaves in the store: the repositories asked for within the maximum age and no others, and of
those that are refreshed in the background no result that is older than its interval and not being
refreshed.
-/

namespace MergeReady.Daemon

open MergeReady.Lib

def Call.Queries (c : Call) (id : RepoId) : Prop := ∃ ev p, c.op = .query id ev p

def MaxAgeIs (maxAge : UInt64) (calls : List Call) : Prop :=
  ∀ c ∈ calls, ∀ input, c.op = .tick input → input.entryMaxAgeSecs = maxAge

theorem elapsedSecs_anti {t t' now : Instant} (h : t ≤ t') :
    Timespec.elapsedSecs t' now ≤ Timespec.elapsedSecs t now := by
  have h := Timespec.le_def.1 h
  rw [UInt64.le_iff_toNat_le, Timespec.toNat_elapsedSecs, Timespec.toNat_elapsedSecs]
  omega

/-! ## What a step leaves -/

theorem lastQueriedAt_reopenTerminal (e : CacheEntryState) :
    (reopenTerminal e).lastQueriedAt = e.lastQueriedAt := by
  unfold reopenTerminal
  split <;> rfl

/-- A tick does not ask for the entry, and leaves its result. -/
theorem TickStep.sameAnswer {input : SchedulerTickInput} {interval : CacheEntryState → UInt64}
    {e e' : CacheEntryState} {b : Bool} (h : TickStep input interval e e' b) : SameAnswer e e' := by
  cases h with
  | inactive => exact .refl e
  | locked => exact .refl e
  | waiting => exact .releaseExpiredLock input e
  | spawned =>
    have h := SameAnswer.countColdRefresh input (.releaseExpiredLock input e)
    exact ⟨h.1, h.2, h.3, h.4, h.5, h.6, h.7⟩

/-! ## The last query -/

/-- What the calls so far say about the last query of an entry; where there is none, each query of it
is as old as the maximum age at some later call. -/
inductive Recent (maxAge : UInt64) (calls : List Call) (id : RepoId) : Option CacheEntryState → Prop
  | present {e c} (hc : c ∈ calls) (hq : c.Queries id) (hat : e.lastQueriedAt = some c.op.now)
      (hlast : ∀ d ∈ calls, d.Queries id → d.op.now ≤ c.op.now) : Recent maxAge calls id (some e)
  | absent (hold : ∀ c ∈ calls, c.Queries id →
      ∃ d ∈ calls, maxAge ≤ Timespec.elapsedSecs c.op.now d.op.now) : Recent maxAge calls id none

namespace Recent

variable {maxAge : UInt64} {calls : List Call} {s : CacheStore} {id : RepoId} {c : Call}
  {o o' : Option CacheEntryState} {e e' : CacheEntryState}

/-- A call that is no query of the entry, and leaves the time of its last query. -/
theorem kept (h : Recent maxAge calls id (some e)) (hc : ¬ c.Queries id)
    (hat : e'.lastQueriedAt = e.lastQueriedAt) : Recent maxAge (calls ++ [c]) id (some e') := by
  cases h with
  | @present _ d hd hq hlastq hlast =>
    refine .present (List.mem_append_left _ hd) hq (hat.trans hlastq) ?_
    intro d' hd' hq'
    rcases List.mem_append.1 hd' with hd' | hd'
    · exact hlast d' hd' hq'
    · exact absurd (List.mem_singleton.1 hd' ▸ hq') hc

theorem queried (hc : c.Queries id) (hat : e.lastQueriedAt = some c.op.now)
    (hord : ∀ d ∈ calls, d.op.now ≤ c.op.now) : Recent maxAge (calls ++ [c]) id (some e) := by
  refine .present (List.mem_append_right _ List.mem_cons_self) hc hat ?_
  intro d hd _
  rcases List.mem_append.1 hd with hd | hd
  · exact hord d hd
  · rw [List.mem_singleton.1 hd]

/-- **Every step keeps account of the last query.** -/
theorem step (h : Recent maxAge calls id o) (hst : EntryStep s id c o o')
    (hord : ∀ d ∈ calls, d.op.now ≤ c.op.now) (hage : MaxAgeIs maxAge [c]) :
    Recent maxAge (calls ++ [c]) id o' := by
  cases hst with
  | frame hop =>
    have hc : ¬ c.Queries id := by
      rintro ⟨ev, p, hq⟩
      rw [hq] at hop
      exact hop rfl
    cases h with
    | present hd hq hat hlast => exact (Recent.present hd hq hat hlast).kept hc rfl
    | absent hold =>
      refine .absent fun d hd hq => ?_
      rcases List.mem_append.1 hd with hd | hd
      · obtain ⟨d', hd', hle⟩ := hold d hd hq
        exact ⟨d', List.mem_append_left _ hd', hle⟩
      · exact absurd (List.mem_singleton.1 hd ▸ hq) hc
  | fresh => exact .queried ⟨_, _, rfl⟩ rfl hord
  | busy => exact .queried ⟨_, _, rfl⟩ rfl hord
  | stale => exact .queried ⟨_, _, rfl⟩ (lastQueriedAt_reopenTerminal _) hord
  | miss => exact .queried ⟨_, _, rfl⟩ rfl hord
  | completed => exact h.kept (by rintro ⟨_, _, hq⟩; cases hq) rfl
  | @expired input effects e _ hexp =>
    cases h with
    | @present _ d _ _ hat hlast =>
      refine .absent fun d' hd' hq' => ?_
      rcases List.mem_append.1 hd' with hd' | hd'
      · refine ⟨_, List.mem_append_right _ List.mem_cons_self, ?_⟩
        unfold isExpired at hexp
        rw [hat, Option.any_some, hage _ List.mem_cons_self input rfl] at hexp
        exact UInt64.le_trans (of_decide_eq_true hexp) (elapsedSecs_anti (hlast d' hd' hq'))
      · obtain ⟨_, _, hq⟩ := List.mem_singleton.1 hd' ▸ hq'
        cases hq
  | ticked _ _ ht => exact h.kept (by rintro ⟨_, _, hq⟩; cases hq) ht.sameAnswer.lastQueriedAt

theorem run (hr : Run Step .new calls s) (hord : TimesOrdered calls) (hage : MaxAgeIs maxAge calls)
    (id : RepoId) : Recent maxAge calls id (s.entry id) := by
  revert hord hage
  refine Run.history (P := fun calls s => TimesOrdered calls → MaxAgeIs maxAge calls →
    Recent maxAge calls id (s.entry id)) ?_ ?_ hr
  · intro _ _
    exact .absent (List.forall_mem_nil _)
  · intro calls s c s' _ ih hst hord hage
    have hpair := List.pairwise_append.1 hord
    refine (ih hpair.1 fun d hd => hage d (List.mem_append_left _ hd)).step (hst.entryStep id) ?_ ?_
    · exact fun d hd => hpair.2.2 d hd c List.mem_cons_self
    · exact fun d hd => hage d (List.mem_append_right _ hd)

end Recent

/-- **What a tick keeps.**  In every run with a fixed maximum age and times in order, after a tick that
is not paused the store holds an entry exactly for the repositories asked for within that age. -/
theorem tick_keeps_recent {maxAge : UInt64} {calls : List Call} {s s' : CacheStore}
    {input : SchedulerTickInput} {effects : List Effect} (hr : Run Step .new calls s)
    (hst : Step s ⟨.tick input, effects⟩ s') (hb : s.isBackedOff input.now = false)
    (hord : TimesOrdered (calls ++ [⟨.tick input, effects⟩]))
    (hage : MaxAgeIs maxAge (calls ++ [⟨.tick input, effects⟩])) (id : RepoId) :
    (∃ e, s'.entry id = some e) ↔
      ∃ c ∈ calls, c.Queries id ∧ Timespec.elapsedSecs c.op.now input.now < maxAge := by
  have hpair := List.pairwise_append.1 hord
  have hle : ∀ c ∈ calls, c.op.now ≤ input.now := fun c hc => hpair.2.2 c hc _ List.mem_cons_self
  have hmax : input.entryMaxAgeSecs = maxAge :=
    hage _ (List.mem_append_right _ List.mem_cons_self) input rfl
  have hrec := Recent.run hr hpair.1 (fun c hc => hage c (List.mem_append_left _ hc)) id
  have hstep := hst.entryStep id
  generalize s.entry id = o at hrec hstep
  generalize s'.entry id = o' at hstep
  cases hrec with
  | absent hold =>
    refine iff_of_false ?_ ?_
    · rintro ⟨e, rfl⟩
      cases hstep
    · rintro ⟨c, hc, hq, hlt⟩
      obtain ⟨d, hd, hge⟩ := hold c hc hq
      have := UInt64.le_trans hge (Timespec.elapsedSecs_mono (hle d hd))
      exact absurd hlt (UInt64.not_lt.2 this)
  | @present e c hc hq hat hlast =>
    have hexp : isExpired e input.entryMaxAgeSecs input.now =
        decide (maxAge ≤ Timespec.elapsedSecs c.op.now input.now) := by
      unfold isExpired
      rw [hat, Option.any_some, hmax]
    cases hstep with
    | frame hop =>
      rcases hop with hop | hop
      · cases hop
      · rw [hb] at hop
        cases hop
    | expired _ ha =>
      refine iff_of_false (by rintro ⟨e', he'⟩; cases he') ?_
      rintro ⟨d, hd, hqd, hlt⟩
      rw [hexp] at ha
      have := UInt64.le_trans (of_decide_eq_true ha) (elapsedSecs_anti (hlast d hd hqd))
      exact absurd hlt (UInt64.not_lt.2 this)
    | ticked _ ha =>
      refine iff_of_true ⟨_, rfl⟩ ⟨c, hc, hq, ?_⟩
      rw [hexp, decide_eq_false_iff_not, UInt64.not_le] at ha
      exact ha

open Lost in
theorem tick_keeps_recent_repo : ∃ c ∈ firstCalls, c.Queries repo ∧
    Timespec.elapsedSecs c.op.now lateInput.now < DaemonServerConfig.defaults.entryMaxAgeSecs := by
  have hr : Run Step .new firstCalls (.single repo fetchedEntry) :=
    run_of_exec (firstCalls.map Call.op) rfl
  have hst : Step (.single repo fetchedEntry) ⟨.tick lateInput, [.spawnRefresh repo "/repo"]⟩
      (.single repo (fetchedEntry.withMarkRefreshing lateInput.now)) := Step.of_run rfl
  refine (tick_keeps_recent hr hst rfl ?_ ?_ repo).1 ⟨_, rfl⟩
  · unfold TimesOrdered
    decide
  · intro c hc input hop
    simp only [firstCalls, List.cons_append, List.nil_append, List.mem_cons, List.not_mem_nil,
      or_false] at hc
    rcases hc with rfl | rfl | rfl
    · cases hop
    · cases hop
    · cases hop
      rfl

/-! ## The refresh that is awaited -/

theorem EntryStep.refreshStartedAt {s : CacheStore} {id : RepoId} {c : Call}
    {o o' : Option CacheEntryState} (h : EntryStep s id c o o') {e' : CacheEntryState} {t : Instant}
    (he' : o' = some e') (ht : e'.refreshStartedAt = some t) :
    (∃ e, o = some e ∧ e.refreshStartedAt = some t) ∨ c.Spawns id ∧ c.op.now = t := by
  by_cases hsp : c.Spawns id
  · obtain ⟨e, he, hl⟩ := h.locked_of_spawns hsp
    obtain rfl := Option.some.inj (he'.symm.trans he)
    exact .inr ⟨hsp, Option.some.inj (hl.started.symm.trans ht)⟩
  subst he'
  cases h with
  | frame => exact .inl ⟨_, rfl, ht⟩
  | fresh => exact .inl ⟨_, rfl, ht⟩
  | @busy ev p e => exact .inl ⟨e, rfl, (refreshStartedAt_thawCold p ev.now e).symm.trans ht⟩
  | stale => exact absurd ⟨_, List.mem_cons_of_mem _ List.mem_cons_self⟩ hsp
  | miss => exact absurd ⟨_, List.mem_cons_of_mem _ List.mem_cons_self⟩ hsp
  | completed => cases ht
  | ticked _ _ htick hb =>
    cases htick with
    | inactive => exact .inl ⟨_, rfl, ht⟩
    | locked => exact .inl ⟨_, rfl, ht⟩
    | waiting =>
      unfold releaseExpiredLock at ht
      split at ht
      · cases ht
      · exact .inl ⟨_, rfl, ht⟩
    | spawned => exact absurd (hb.2 rfl) hsp

/-- **Every lock of a reachable store is of a refresh that was started.** -/
theorem exists_spawn_of_started {calls : List Call} {s : CacheStore} (hr : Run Step .new calls s)
    {id : RepoId} {e : CacheEntryState} {t : Instant} (he : s.entry id = some e)
    (ht : e.refreshStartedAt = some t) : ∃ c ∈ calls, c.Spawns id ∧ c.op.now = t := by
  refine Run.history (P := fun calls s => ∀ e, s.entry id = some e →
    e.refreshStartedAt = some t → ∃ c ∈ calls, c.Spawns id ∧ c.op.now = t) ?_ ?_ hr e he ht
  · intro e he
    cases he
  · intro calls s c s' _ ih hst e he ht
    rcases (hst.entryStep id).refreshStartedAt he ht with ⟨e₀, he₀, ht₀⟩ | ⟨hsp, hnow⟩
    · obtain ⟨d, hd, h⟩ := ih e₀ he₀ ht₀
      exact ⟨d, List.mem_append_left _ hd, h⟩
    · exact ⟨c, List.mem_append_right _ List.mem_cons_self, hsp, hnow⟩

/-! ## The result that is shown -/

theorem EntryStep.fetchedAt {s : CacheStore} {id : RepoId} {c : Call} {e e' : CacheEntryState}
    (h : EntryStep s id c (some e) (some e')) (hc : ¬ c.Completes id) :
    e'.fetchedAt = e.fetchedAt := by
  cases h with
  | frame => rfl
  | fresh => rfl
  | busy => exact fetchedAt_thawCold _ _ _
  | @stale ev p =>
    show (reopenTerminal ((thawCold p ev.now e).withRecordQuery ev.now)).fetchedAt = _
    unfold reopenTerminal
    split <;> exact fetchedAt_thawCold _ _ _
  | completed => exact absurd ⟨_, rfl⟩ hc
  | ticked _ _ ht => exact ht.sameAnswer.fetchedAt

/-- The completed refresh that a result is of. -/
def BroughtBy (id : RepoId) (e : CacheEntryState) (c : Call) : Prop :=
  ∃ ev, c.op = .refreshCompleted id ev ∧ ev.now = e.fetchedAt ∧ ev.output = e.output ∧
    ev.prOutputs = e.prOutputs

/-- **Every result of a reachable store was brought by a completed refresh**, at the time it has. -/
theorem exists_completion_of_fetched {calls : List Call} {s : CacheStore}
    (hr : Run Step .new calls s) {id : RepoId} {e : CacheEntryState} (he : s.entry id = some e)
    (hf : e.hasFetched = true) : ∃ c ∈ calls, BroughtBy id e c := by
  refine Run.history (P := fun calls s => ∀ e, s.entry id = some e → e.hasFetched = true →
    ∃ c ∈ calls, BroughtBy id e c) ?_ ?_ hr e he hf
  · intro e he
    cases he
  · intro calls s c s' _ ih hst e' he' hf
    have hstep := hst.entryStep id
    have hmem : c ∈ calls ++ [c] := List.mem_append_right _ List.mem_cons_self
    rw [he'] at hstep
    cases he : s.entry id with
    | none =>
      rw [he] at hstep
      rw [hstep.not_hasFetched_of_created] at hf
      cases hf
    | some e =>
      rw [he] at hstep
      by_cases hc : c.Completes id
      · obtain ⟨ev, hop⟩ := hc
        obtain ⟨op, effects⟩ := c
        dsimp only at hop
        subst hop
        obtain rfl := Option.some.inj hstep.completes
        exact ⟨_, hmem, ev, rfl, rfl, rfl, rfl⟩
      · have hx : ¬ c.Expires id := fun hx => by cases hstep.expires hx
        obtain ⟨e'', heq, hsame⟩ := hstep.sameResult hc hx
        obtain rfl := Option.some.inj heq
        rw [hsame.hasFetched] at hf
        obtain ⟨d, hd, ev, hop, hat, hout, hprs⟩ := ih e he hf
        refine ⟨d, List.mem_append_left _ hd, ev, hop, hat.trans (hstep.fetchedAt hc).symm, ?_, ?_⟩
        · exact hout.trans hsame.output.symm
        · exact hprs.trans hsame.prOutputs.symm

/-- The refresh of an entry that a tick leaves in the background: young, just started, or running for
less than the lock timeout. -/
theorem TickStep.young_or_refreshing {input : SchedulerTickInput}
    {interval : CacheEntryState → UInt64} {e e' : CacheEntryState} {b : Bool}
    (h : TickStep input interval e e' b) (ha : e'.isActive = true)
    (hlock : e.refreshStartedAt.isSome = e.isRefreshing) :
    (fetchedAtElapsed e' input.now).asSecs < interval e' ∨ b = true ∨
      ∃ t, e.refreshStartedAt = some t ∧
        Timespec.elapsedSecs t input.now < input.refreshLockTimeoutSecs := by
  cases h with
  | inactive hn =>
    rw [hn] at ha
    cases ha
  | locked _ hr hl =>
    rw [hr, Option.isSome_iff_exists] at hlock
    obtain ⟨t, ht⟩ := hlock
    unfold refreshLockExpired at hl
    rw [ht, Option.any_some, decide_eq_false_iff_not, UInt64.not_le] at hl
    exact .inr (.inr ⟨t, ht, hl⟩)
  | waiting _ _ hi =>
    rw [fetchedAtElapsed_releaseExpiredLock]
    exact .inl hi
  | spawned => exact .inr (.inl rfl)

/-- **How old a shown result can be.**  After a tick that is not paused, in every run, each result that
is refreshed in the background is the one some completed refresh brought at the time it has, and it is
younger than its scaled interval, or a refresh of it is started by the tick, or one was started less
than the lock timeout ago. -/
theorem tick_bounds_staleness {calls : List Call} {s s' : CacheStore} {input : SchedulerTickInput}
    {effects : List Effect} {id : RepoId} {e : CacheEntryState} (hr : Run Step .new calls s)
    (hst : Step s ⟨.tick input, effects⟩ s') (hb : s.isBackedOff input.now = false)
    (he : s'.entry id = some e) (ha : e.isActive = true) :
    (∃ c ∈ calls, BroughtBy id e c) ∧
      ((fetchedAtElapsed e input.now).asSecs <
          input.policy.effectiveRefreshIntervalSecsScaled e s.latestRateLimit
            (totalRefreshCost ((survivors s input).entries.map (·.2))) input.now input.nowWall ∨
        (∃ cwd, .spawnRefresh id cwd ∈ effects) ∨
        ∃ c ∈ calls, c.Spawns id ∧
          Timespec.elapsedSecs c.op.now input.now < input.refreshLockTimeoutSecs) := by
  have hinv := (Reachable.step ⟨calls, hr⟩ hst).entryInv he
  constructor
  · obtain ⟨c, hc, hby⟩ := exists_completion_of_fetched (hr.snoc hst) he (hinv.hasFetched_of_active ha)
    rcases List.mem_append.1 hc with hc | hc
    · exact ⟨c, hc, hby⟩
    · obtain ⟨ev, hop, -⟩ := hby
      rw [List.mem_singleton.1 hc] at hop
      cases hop
  · obtain ⟨t, hsame, hrun⟩ := hst
    have hrun : onSchedulerTick t input = (s', effects) := Except.ok.inj hrun
    have hbt : t.isBackedOff input.now = false := by
      unfold CacheStore.isBackedOff at hb ⊢
      rw [← hsame.2.2]
      exact hb
    have hentry := onSchedulerTick_entry hbt id
    have hspawns := onSchedulerTick_spawns hbt id
    rw [hrun] at hentry hspawns
    obtain ⟨e₀, he₀, heq⟩ := Option.map_eq_some_iff.1 (hentry.symm.trans he)
    obtain ⟨he₀, hlive⟩ := Option.filter_eq_some_iff.1 he₀
    have hlive : isExpired e₀ input.entryMaxAgeSecs input.now = false := by simpa using hlive
    have htick := tickStep_tickEntry input t.latestRateLimit (tickCost t input) id e₀
    rw [heq] at htick
    have hs : s.entry id = some e₀ := (hsame.entry_eq id).trans he₀
    have hlock := (Reachable.entryInv ⟨calls, hr⟩ hs).lock
    show (fetchedAtElapsed e input.now).asSecs <
      tickInterval input s.latestRateLimit (tickCost s input) e ∨ _
    rw [tickCost_same hsame, hsame.2.1]
    rcases htick.young_or_refreshing ha hlock with hyoung | hspawn | ⟨t₀, ht₀, hlt⟩
    · exact .inl hyoung
    · refine .inr (.inl (hspawns.2 ⟨e₀, he₀, hlive, ?_⟩))
      simpa using hspawn
    · obtain ⟨c, hc, hsp, hnow⟩ := exists_spawn_of_started hr hs ht₀
      exact .inr (.inr ⟨c, hc, hsp, hnow ▸ hlt⟩)

open Lost in
theorem tick_bounds_staleness_repo : ∃ c ∈ firstCalls,
    BroughtBy repo (fetchedEntry.withMarkRefreshing lateInput.now) c := by
  have hr : Run Step .new firstCalls (.single repo fetchedEntry) :=
    run_of_exec (firstCalls.map Call.op) rfl
  have hst : Step (.single repo fetchedEntry) ⟨.tick lateInput, [.spawnRefresh repo "/repo"]⟩
      (.single repo (fetchedEntry.withMarkRefreshing lateInput.now)) := Step.of_run rfl
  exact (tick_bounds_staleness hr hst rfl rfl rfl).1

end MergeReady.Daemon
