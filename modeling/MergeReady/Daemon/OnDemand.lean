import MergeReady.Daemon.Config

/-!
# Terminal entries are polled on demand

A merged or closed PR is left alone by the scheduler.  It is looked at again only when a client asks
for it after its time to live, which for a terminal entry is the warm interval; the query that finds
it stale starts one refresh and makes the entry warm.
-/

namespace MergeReady.Daemon

open MergeReady.Lib

/-- A query of `id` later than the warm interval after `t₀`. -/
def Op.LateQuery (id : RepoId) (t₀ : Instant) : Op → Prop
  | query repoId event policy =>
    repoId = id ∧ policy.warmRefreshSecs < Timespec.elapsedSecs t₀ event.now
  | refreshCompleted _ _ => False
  | tick _ => False
  | rateLimit _ => False

structure Settled (ev : RefreshCompletedEvent) (cwd : String) (e : CacheEntryState) : Prop where
  mode : e.refreshMode = .terminal
  ready : e.fetchState = .ready
  output : e.output = ev.output
  fetchedAt : e.fetchedAt = ev.now
  cwd : e.cwd = cwd

namespace Settled

variable {ev : RefreshCompletedEvent} {cwd : String} {e : CacheEntryState} {s : CacheStore}
  {id : RepoId} {c : Call} {o' : Option CacheEntryState}

theorem completed (hm : ev.refreshMode = .terminal) (e : CacheEntryState) :
    Settled ev e.cwd
      (e.withRefreshCompleted ev.output ev.prOutputs ev.refreshMode ev.now ev.nowWall) :=
  ⟨hm, rfl, rfl, rfl, rfl⟩

theorem not_isActive (h : Settled ev cwd e) : e.isActive = false := by
  have : ¬ e.isActive = true := fun ha => ((CacheEntryState.isActive_iff e).1 ha).2 h.mode
  simpa using this

theorem isRefreshing_eq (h : Settled ev cwd e) : e.isRefreshing = false := by
  unfold CacheEntryState.isRefreshing
  rw [h.ready]

/-- A terminal entry is stale to exactly the queries later than the warm interval. -/
theorem isFresh_iff (h : Settled ev cwd e) (q : QueryEvent) (p : RefreshPolicy) :
    isFresh e (p.effectiveTtl e q.staleTtl) q.now = false ↔
      p.warmRefreshSecs < Timespec.elapsedSecs ev.now q.now := by
  have httl : p.effectiveTtl e q.staleTtl = p.warmRefreshSecs := if_pos h.mode
  unfold isFresh
  rw [httl, h.fetchedAt, decide_eq_false_iff_not, UInt64.not_le]

/-- Until it completes again, is removed or is asked for late, a settled entry stays as it is: no
refresh of it starts, and a query of it is answered from the store. -/
theorem step (h : Settled ev cwd e) (hs : EntryStep s id c (some e) o') (hc : ¬ c.Completes id)
    (hx : ¬ c.Expires id) (hl : ¬ c.op.LateQuery id ev.now) :
    ¬ c.Spawns id ∧ (∀ q p, c.op = .query id q p → c.effects = [.emitOutput ev.output]) ∧
      ∃ e', o' = some e' ∧ Settled ev cwd e' := by
  cases hs with
  | frame hop hsp =>
    refine ⟨hsp, ?_, e, rfl, h⟩
    intro q p hq
    rw [hq] at hop
    exact absurd rfl hop
  | fresh =>
    refine ⟨?_, ?_, _, rfl, ⟨h.mode, h.ready, h.output, h.fetchedAt, h.cwd⟩⟩
    · rintro ⟨cwd', hm⟩
      simp at hm
    · intro _ _ _
      rw [h.output]
  | busy hf => exact absurd ⟨rfl, (h.isFresh_iff _ _).1 hf⟩ hl
  | stale hf => exact absurd ⟨rfl, (h.isFresh_iff _ _).1 hf⟩ hl
  | completed => exact absurd ⟨_, rfl⟩ hc
  | expired _ _ _ hexp => exact absurd hexp hx
  | ticked _ _ ht hsp =>
    have hna := h.not_isActive
    cases ht with
    | inactive =>
      refine ⟨?_, ?_, e, rfl, h⟩
      · rw [hsp]
        exact Bool.false_ne_true
      · intro q p hq
        cases hq
    | locked ha => rw [hna] at ha; cases ha
    | waiting ha => rw [hna] at ha; cases ha
    | spawned ha => rw [hna] at ha; cases ha

/-- **Nothing refreshes a settled entry before the first late query.** -/
theorem run {t : CacheStore} {calls : List Call} (h : Settled ev cwd e)
    (he : s.entry id = some e) (hr : Run Step s calls t)
    (hq : ∀ c ∈ calls, ¬ c.Completes id ∧ ¬ c.Expires id ∧ ¬ c.op.LateQuery id ev.now) :
    (∀ c ∈ calls, ¬ c.Spawns id ∧
        ∀ q p, c.op = .query id q p → c.effects = [.emitOutput ev.output]) ∧
      ∃ e', t.entry id = some e' ∧ Settled ev cwd e' := by
  induction hr generalizing e with
  | nil => exact ⟨by simp, e, he, h⟩
  | cons hstep _ ih =>
    obtain ⟨hc, hx, hl⟩ := hq _ List.mem_cons_self
    obtain ⟨hsp, hans, e', he', h'⟩ := h.step (he ▸ hstep.entryStep id) hc hx hl
    obtain ⟨hrest, hend⟩ := ih h' he' fun c hm => hq c (List.mem_cons_of_mem _ hm)
    exact ⟨List.forall_mem_cons.2 ⟨⟨hsp, hans⟩, hrest⟩, hend⟩

/-- The late query starts one refresh, and the entry is warm while it runs. -/
theorem late {q : QueryEvent} {p : RefreshPolicy} {effects : List Effect} (h : Settled ev cwd e)
    (hs : EntryStep s id ⟨.query id q p, effects⟩ (some e) o')
    (hl : p.warmRefreshSecs < Timespec.elapsedSecs ev.now q.now) :
    effects = [.emitOutput ev.output, .spawnRefresh id cwd] ∧
      ∃ e', o' = some e' ∧ e'.refreshMode = .warm ∧ e'.fetchState = .refreshing := by
  have hstale := (h.isFresh_iff q p).2 hl
  cases hs with
  | frame hop => exact absurd rfl hop
  | fresh hf => rw [hstale] at hf; cases hf
  | busy _ hr => rw [h.isRefreshing_eq] at hr; cases hr
  | stale =>
    have hmode : ((thawCold p q.now e).withRecordQuery q.now).refreshMode = .terminal :=
      (refreshMode_thawCold _ _ _).trans h.mode
    refine ⟨by rw [h.output, h.cwd], _, rfl, ?_, ?_⟩
    · unfold reopenTerminal
      rw [if_pos hmode]
      rfl
    · have hfetched : e.hasFetched = true := by
        unfold CacheEntryState.hasFetched
        rw [h.ready]
      rw [CacheEntryState.fetchState_withMarkRefreshing, if_pos]
      rw [← hfetched]
      exact CacheEntryState.hasFetched_congr (by simp)

end Settled

/-- **A terminal entry is polled on demand.**  After a completion that makes the entry of `id`
terminal, and while no other completes and the entry is not removed: before the first late query no
refresh of it starts, its queries get the stored output, and it stays terminal; the late query itself
starts exactly one refresh, of an entry that is warm and refreshing from then on. -/
theorem polled_on_demand {s₀ s s' : CacheStore} {id : RepoId} {ev : RefreshCompletedEvent}
    {e₀ : CacheEntryState} {effects₀ : List Effect} {calls : List Call}
    (he : s₀.entry id = some e₀) (hm : ev.refreshMode = .terminal)
    (h₀ : Step s₀ ⟨.refreshCompleted id ev, effects₀⟩ s) (hr : Run Step s calls s')
    (hq : ∀ c ∈ calls, ¬ c.Completes id ∧ ¬ c.Expires id ∧ ¬ c.op.LateQuery id ev.now) :
    (∀ c ∈ calls, ¬ c.Spawns id ∧
        ∀ q p, c.op = .query id q p → c.effects = [.emitOutput ev.output]) ∧
      (∃ e, s'.entry id = some e ∧ e.refreshMode = .terminal ∧ e.fetchState = .ready ∧
        e.output = ev.output) ∧
      ∀ q p effects s'', p.warmRefreshSecs < Timespec.elapsedSecs ev.now q.now →
        Step s' ⟨.query id q p, effects⟩ s'' →
        effects = [.emitOutput ev.output, .spawnRefresh id e₀.cwd] ∧
          ∃ e, s''.entry id = some e ∧ e.refreshMode = .warm ∧ e.fetchState = .refreshing := by
  have hset := Settled.completed hm e₀
  have hentry := (he ▸ h₀.entryStep id).completes
  obtain ⟨hcalls, e, he', hset'⟩ := hset.run hentry hr hq
  refine ⟨hcalls, ⟨e, he', hset'.mode, hset'.ready, hset'.output⟩, ?_⟩
  intro q p effects s'' hl hstep
  exact hset'.late (he' ▸ hstep.entryStep id) hl

/-! ### A PR that is merged -/

namespace Merged

def repo : RepoId := ⟨"af63dc4c8601ec8c"⟩

def loading : CacheEntryState := .newLoading "/repo" "main" 5 (.ofSecs 0) (.ofSecs 0)

/-- The first refresh finds the PR merged, at 1 s. -/
def update : RefreshCompletedEvent :=
  { output := "", prOutputs := [], refreshMode := .terminal, now := .ofSecs 1
    nowWall := .ofSecs 1 }

def settled : CacheEntryState := loading.withRefreshCompleted "" [] .terminal (.ofSecs 1) (.ofSecs 1)

/-- A tick, and a query within the warm interval. -/
def calls : List Call :=
  [⟨DaemonServerConfig.defaults.tick (.ofSecs 60) (.ofSecs 60), []⟩,
    ⟨DaemonServerConfig.defaults.processQuery repo "main" "/repo" (.ofSecs 100) (.ofSecs 100),
      [.emitOutput ""]⟩]

def lateQuery : QueryEvent :=
  { cwd := "/repo", branch := "main", now := .ofSecs 200, nowWall := .ofSecs 200, staleTtl := 5 }

end Merged

open Merged in
theorem polled_on_demand_merged :
    (∀ c ∈ calls, ¬ c.Spawns repo) ∧
      ∃ s e, onQuery (.single repo (settled.withRecordQuery (.ofSecs 100))) lateQuery repo
          DaemonServerConfig.defaults.policy = (s, [.emitOutput "", .spawnRefresh repo "/repo"]) ∧
        s.entry repo = some e ∧ e.refreshMode = .warm ∧ e.fetchState = .refreshing := by
  have h₀ : Step (.single repo loading) ⟨.refreshCompleted repo update, []⟩
      (.single repo settled) := Step.of_run rfl
  have hr : Run Step (.single repo settled) calls
      (.single repo (settled.withRecordQuery (.ofSecs 100))) :=
    .cons (Step.of_run rfl) (.cons (Step.of_run rfl) (.nil _))
  obtain ⟨hcalls, -, hlate⟩ := polled_on_demand (CacheStore.entry_single_eq_some.2 ⟨rfl, rfl⟩) rfl
    h₀ hr (by
      intro c hc
      rcases List.mem_cons.1 hc with rfl | hc
      · refine ⟨?_, by decide, id⟩
        rintro ⟨ev, hev⟩
        cases hev
      · rw [List.mem_singleton.1 hc]
        refine ⟨?_, by decide, ?_⟩
        · rintro ⟨ev, hev⟩
          cases hev
        · rintro ⟨-, hlate⟩
          exact absurd hlate (by decide))
  refine ⟨fun c hc => (hcalls c hc).1, _, _, rfl, rfl, ?_⟩
  obtain ⟨-, e, he, hmode, hstate⟩ := hlate lateQuery DaemonServerConfig.defaults.policy _ _
    (by decide) (Step.of_run rfl)
  obtain rfl := Option.some.inj (CacheStore.entry_single_eq_some.2 ⟨rfl, rfl⟩ |>.symm.trans he)
  exact ⟨hmode, hstate⟩

end MergeReady.Daemon
