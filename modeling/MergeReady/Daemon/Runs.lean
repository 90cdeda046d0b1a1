import MergeReady.Lib.Run
import MergeReady.Daemon.Transition

/-!
# Runs of the store, seen from one entry

`Step` is one call of a transition, the rows of the table taken in any order.  `EntryStep id` says
everything a step can do to the entry of `id`, and `Step.entryStep` that a step does one of these
things; every invariant of this development is read off it.
-/

namespace MergeReady.Daemon

open MergeReady.Lib

/-! ## Calls and steps -/

/-- A call of one of the four transitions. -/
inductive Op
  | query (repoId : RepoId) (event : QueryEvent) (policy : RefreshPolicy)
  | refreshCompleted (repoId : RepoId) (event : RefreshCompletedEvent)
  | tick (input : SchedulerTickInput)
  | rateLimit (event : RateLimitObservedEvent)

namespace Op

def now : Op → Instant
  | query _ event _ => event.now
  | refreshCompleted _ event => event.now
  | tick input => input.now
  | rateLimit event => event.now

def run (s : CacheStore) : Op → Fallible (CacheStore × List Effect)
  | query repoId event policy => .ok (onQuery s event repoId policy)
  | refreshCompleted repoId event => .ok (onRefreshCompleted s repoId event)
  | tick input => .ok (onSchedulerTick s input)
  | rateLimit event => onRateLimitObserved s event

end Op

/-- A call with the effects it returned. -/
structure Call where
  op : Op
  effects : List Effect

namespace Call

/-- The call starts a refresh of `id`. -/
def Spawns (c : Call) (id : RepoId) : Prop := ∃ cwd, Effect.spawnRefresh id cwd ∈ c.effects

/-- The call removes the entry of `id` for its age. -/
def Expires (c : Call) (id : RepoId) : Prop := Effect.recordExpired id ∈ c.effects

instance (c : Call) (id : RepoId) : Decidable (c.Expires id) :=
  inferInstanceAs (Decidable (_ ∈ _))

/-- The call stores a result for `id`. -/
def Completes (c : Call) (id : RepoId) : Prop := ∃ event, c.op = .refreshCompleted id event

end Call

/-- One step of the store: a call on the store with its rows in some order. -/
def Step (s : CacheStore) (c : Call) (s' : CacheStore) : Prop :=
  ∃ t, s.Same t ∧ c.op.run t = .ok (s', c.effects)

theorem Step.of_run {s s' : CacheStore} {op : Op} {effects : List Effect}
    (h : op.run s = .ok (s', effects)) : Step s ⟨op, effects⟩ s' := ⟨s, CacheStore.Same.refl s, h⟩

/-- The calls `ops` made one after the other, each with the effects it returns. -/
def exec : CacheStore → List Op → Fallible (CacheStore × List Call)
  | s, [] => .ok (s, [])
  | s, op :: ops => do
    let next ← op.run s
    let rest ← exec next.1 ops
    return (rest.1, ⟨op, next.2⟩ :: rest.2)

theorem run_of_exec {s t : CacheStore} (ops : List Op) {calls : List Call}
    (h : exec s ops = .ok (t, calls)) : Run Step s calls t := by
  induction ops generalizing s calls with
  | nil =>
    obtain ⟨rfl, rfl⟩ := Prod.mk.inj (Except.ok.inj h)
    exact Run.nil _
  | cons op ops ih =>
    obtain ⟨⟨u, effects⟩, hu, h⟩ := bind_eq_ok.1 h
    obtain ⟨⟨v, calls'⟩, hv, h⟩ := bind_eq_ok.1 h
    obtain ⟨rfl, rfl⟩ := Prod.mk.inj (Except.ok.inj h)
    exact .cons (Step.of_run hu) (ih hv)

def TimesOrdered (calls : List Call) : Prop :=
  calls.Pairwise fun c d => c.op.now ≤ d.op.now

/-! ## One entry -/

/-- What the loop of a tick does with an entry, and whether it starts a refresh. -/
inductive TickStep (input : SchedulerTickInput) (interval : CacheEntryState → UInt64) :
    CacheEntryState → CacheEntryState → Bool → Prop
  | inactive {e} (ha : e.isActive = false) : TickStep input interval e e false
  | locked {e} (ha : e.isActive = true) (hr : e.isRefreshing = true)
      (hl : refreshLockExpired e input.refreshLockTimeoutSecs input.now = false) :
      TickStep input interval e e false
  | waiting {e} (ha : e.isActive = true)
      (hl : e.isRefreshing = true →
        refreshLockExpired e input.refreshLockTimeoutSecs input.now = true)
      (hi : (fetchedAtElapsed e input.now).asSecs < interval (releaseExpiredLock input e)) :
      TickStep input interval e (releaseExpiredLock input e) false
  | spawned {e} (ha : e.isActive = true)
      (hl : e.isRefreshing = true →
        refreshLockExpired e input.refreshLockTimeoutSecs input.now = true)
      (hi : interval (releaseExpiredLock input e) ≤ (fetchedAtElapsed e input.now).asSecs) :
      TickStep input interval e
        ((countColdRefresh input (releaseExpiredLock input e)).withMarkRefreshing input.now) true

/-- The calls on the store `s` that do not concern the entry `o` of `id`. -/
def Op.LeavesAlone (s : CacheStore) (id : RepoId) (o : Option CacheEntryState) : Op → Prop
  | .query id' _ _ => id' ≠ id
  | .refreshCompleted id' _ => id' ≠ id ∨ o = none
  | .tick input => o = none ∨ s.isBackedOff input.now = true
  | .rateLimit _ => True

/-- **Everything a step from `s` can do to the entry of `id`.** -/
inductive EntryStep (s : CacheStore) (id : RepoId) :
    Call → Option CacheEntryState → Option CacheEntryState → Prop
  | frame {c o} (hop : c.op.LeavesAlone s id o) (hs : ¬ c.Spawns id) (hx : ¬ c.Expires id) :
      EntryStep s id c o o
  | fresh {ev p e} (hf : isFresh e (p.effectiveTtl e ev.staleTtl) ev.now = true) :
      EntryStep s id ⟨.query id ev p, [.emitOutput e.output]⟩ (some e)
        (some (e.withRecordQuery ev.now))
  | busy {ev p e} (hf : isFresh e (p.effectiveTtl e ev.staleTtl) ev.now = false)
      (hr : e.isRefreshing = true) :
      EntryStep s id
        ⟨.query id ev p, [.emitOutput (if e.hasFetched then e.output else loadingOutput)]⟩ (some e)
        (some ((thawCold p ev.now e).withRecordQuery ev.now))
  | stale {ev p e} (hf : isFresh e (p.effectiveTtl e ev.staleTtl) ev.now = false)
      (hr : e.isRefreshing = false) :
      EntryStep s id ⟨.query id ev p, [.emitOutput e.output, .spawnRefresh id e.cwd]⟩ (some e)
        (some ((reopenTerminal ((thawCold p ev.now e).withRecordQuery ev.now)).withMarkRefreshing
          ev.now))
  | miss {ev p} :
      EntryStep s id ⟨.query id ev p, [.emitOutput loadingOutput, .spawnRefresh id ev.cwd]⟩ none
        (some (CacheEntryState.newLoading ev.cwd ev.branch ev.staleTtl ev.now ev.nowWall))
  | completed {ev e} :
      EntryStep s id ⟨.refreshCompleted id ev, []⟩ (some e)
        (some (e.withRefreshCompleted ev.output ev.prOutputs ev.refreshMode ev.now ev.nowWall))
  | expired {input effects e} (hb : s.isBackedOff input.now = false)
      (ha : isExpired e input.entryMaxAgeSecs input.now = true)
      (hs : ¬ (Call.mk (.tick input) effects).Spawns id)
      (hx : (Call.mk (.tick input) effects).Expires id) :
      EntryStep s id ⟨.tick input, effects⟩ (some e) none
  | ticked {input effects totalCost e e' b} (hb : s.isBackedOff input.now = false)
      (ha : isExpired e input.entryMaxAgeSecs input.now = false)
      (ht : TickStep input (tickInterval input s.latestRateLimit totalCost) e e' b)
      (hs : (Call.mk (.tick input) effects).Spawns id ↔ b = true)
      (hx : ¬ (Call.mk (.tick input) effects).Expires id) :
      EntryStep s id ⟨.tick input, effects⟩ (some e) (some e')

/-! ### Queries and completions -/

theorem entryStep_onQuery (s : CacheStore) (id : RepoId) (ev : QueryEvent) (p : RefreshPolicy) :
    EntryStep s id ⟨.query id ev p, (onQuery s ev id p).2⟩ (s.entry id)
      ((onQuery s ev id p).1.entry id) := by
  unfold onQuery
  cases he : s.entry id with
  | none =>
    simp only [CacheStore.entry_withEntries, AList.lookup_insert]
    exact .miss
  | some e =>
    cases hf : isFresh e (p.effectiveTtl e ev.staleTtl) ev.now with
    | true =>
      simp only [hf, if_true, CacheStore.entry_withEntries, AList.lookup_insert]
      exact .fresh hf
    | false =>
      cases hr : e.isRefreshing with
      | true =>
        simp only [hf, hr, if_true, Bool.false_eq_true, if_false, CacheStore.entry_withEntries,
          AList.lookup_insert]
        exact .busy hf hr
      | false =>
        simp only [hf, hr, Bool.false_eq_true, if_false, CacheStore.entry_withEntries,
          AList.lookup_insert]
        exact .stale hf hr

theorem onQuery_entry_of_ne (s : CacheStore) {id id' : RepoId} (ev : QueryEvent)
    (p : RefreshPolicy) (h : id' ≠ id) : (onQuery s ev id' p).1.entry id = s.entry id := by
  unfold onQuery
  split
  · split
    · exact Table.lookup_insert_of_ne (Ne.symm h)
    · split <;> exact Table.lookup_insert_of_ne (Ne.symm h)
  · exact Table.lookup_insert_of_ne (Ne.symm h)

/-- The effects of a query are about the id queried. -/
theorem onQuery_effects (s : CacheStore) (id : RepoId) (ev : QueryEvent) (p : RefreshPolicy) :
    ∃ out, (onQuery s ev id p).2 = [.emitOutput out] ∨
      ∃ cwd, (onQuery s ev id p).2 = [.emitOutput out, .spawnRefresh id cwd] := by
  unfold onQuery
  split
  · split
    · exact ⟨_, .inl rfl⟩
    · dsimp only
      split
      · exact ⟨_, .inl rfl⟩
      · exact ⟨_, .inr ⟨_, rfl⟩⟩
  · exact ⟨_, .inr ⟨_, rfl⟩⟩

theorem onRefreshCompleted_entry (s : CacheStore) (id : RepoId) (ev : RefreshCompletedEvent) :
    (onRefreshCompleted s id ev).1.entry id = (s.entry id).map fun e =>
      e.withRefreshCompleted ev.output ev.prOutputs ev.refreshMode ev.now ev.nowWall := by
  unfold onRefreshCompleted
  cases he : s.entry id with
  | none => simpa using he
  | some e => simp

theorem onRefreshCompleted_entry_of_ne (s : CacheStore) {id id' : RepoId}
    (ev : RefreshCompletedEvent) (h : id' ≠ id) :
    (onRefreshCompleted s id' ev).1.entry id = s.entry id := by
  unfold onRefreshCompleted
  split
  · exact Table.lookup_insert_of_ne (Ne.symm h)
  · rfl

@[simp] theorem onRefreshCompleted_effects (s : CacheStore) (id : RepoId)
    (ev : RefreshCompletedEvent) : (onRefreshCompleted s id ev).2 = [] := by
  unfold onRefreshCompleted
  split <;> rfl

theorem entryStep_onQuery_of_ne (s : CacheStore) {id id' : RepoId} (ev : QueryEvent)
    (p : RefreshPolicy) (h : id' ≠ id) :
    EntryStep s id ⟨.query id' ev p, (onQuery s ev id' p).2⟩ (s.entry id)
      ((onQuery s ev id' p).1.entry id) := by
  rw [onQuery_entry_of_ne s ev p h]
  obtain ⟨out, heff⟩ := onQuery_effects s id' ev p
  refine .frame h ?_ ?_
  · rintro ⟨cwd, hm⟩
    rcases heff with heff | ⟨cwd', heff⟩
    · simp [heff] at hm
    · simp [heff, Ne.symm h] at hm
  · intro hm
    rcases heff with heff | ⟨cwd', heff⟩ <;> simp [Call.Expires, heff] at hm

theorem entryStep_onRefreshCompleted (s : CacheStore) (id id' : RepoId)
    (ev : RefreshCompletedEvent) :
    EntryStep s id ⟨.refreshCompleted id' ev, (onRefreshCompleted s id' ev).2⟩ (s.entry id)
      ((onRefreshCompleted s id' ev).1.entry id) := by
  rw [onRefreshCompleted_effects]
  have hs : ¬ (Call.mk (.refreshCompleted id' ev) []).Spawns id := by rintro ⟨cwd, hm⟩; cases hm
  have hx : ¬ (Call.mk (.refreshCompleted id' ev) []).Expires id := by intro hm; cases hm
  by_cases hid : id' = id
  · subst hid
    rw [onRefreshCompleted_entry]
    cases s.entry id' with
    | none => exact .frame (.inr rfl) hs hx
    | some e => exact .completed
  · rw [onRefreshCompleted_entry_of_ne s ev hid]
    exact .frame (.inl hid) hs hx

/-! ### The tick -/

/-- The only effect of a tick on an entry is a refresh of that entry. -/
theorem mem_tickEntry_effects {input : SchedulerTickInput} {snap : Option RateLimitSnapshot}
    {cost : UInt64} {id : RepoId} {e : CacheEntryState} {eff : Effect}
    (h : eff ∈ (tickEntry input snap cost id e).2) : ∃ cwd, eff = .spawnRefresh id cwd := by
  unfold tickEntry at h
  split at h
  · cases h
  · dsimp only at h
    split at h
    · cases h
    · split at h
      · cases h
      · rw [List.mem_singleton] at h
        exact ⟨_, h⟩

theorem isRefreshing_releaseExpiredLock {input : SchedulerTickInput} {e : CacheEntryState} :
    (releaseExpiredLock input e).isRefreshing = true ↔ e.isRefreshing = true ∧
      refreshLockExpired e input.refreshLockTimeoutSecs input.now = false := by
  unfold releaseExpiredLock
  cases hr : e.isRefreshing <;>
    cases hl : refreshLockExpired e input.refreshLockTimeoutSecs input.now <;> simp [hr]

/-- An entry is idle after the release when a lock it holds has expired. -/
theorem isRefreshing_releaseExpiredLock_eq_false {input : SchedulerTickInput} {e : CacheEntryState} :
    (releaseExpiredLock input e).isRefreshing = false ↔ (e.isRefreshing = true →
      refreshLockExpired e input.refreshLockTimeoutSecs input.now = true) := by
  rw [← Bool.not_eq_true, isRefreshing_releaseExpiredLock, not_and, Bool.not_eq_false]

theorem fetchedAtElapsed_releaseExpiredLock (input : SchedulerTickInput) (e : CacheEntryState) :
    fetchedAtElapsed (releaseExpiredLock input e) input.now = fetchedAtElapsed e input.now := by
  unfold fetchedAtElapsed
  rw [fetchedAt_releaseExpiredLock]

theorem releaseExpiredLock_of_live {input : SchedulerTickInput} {e : CacheEntryState}
    (hl : refreshLockExpired e input.refreshLockTimeoutSecs input.now = false) :
    releaseExpiredLock input e = e := by
  unfold releaseExpiredLock
  simp [hl]

theorem tickStep_tickEntry (input : SchedulerTickInput) (snap : Option RateLimitSnapshot)
    (cost : UInt64) (id : RepoId) (e : CacheEntryState) :
    TickStep input (tickInterval input snap cost) e (tickEntry input snap cost id e).1
      !(tickEntry input snap cost id e).2.isEmpty := by
  unfold tickEntry
  cases ha : e.isActive with
  | false =>
    simp only [Bool.not_false, if_true, List.isEmpty_nil, Bool.not_true]
    exact .inactive ha
  | true =>
    simp only [Bool.not_true, Bool.false_eq_true, if_false]
    by_cases hr : (releaseExpiredLock input e).isRefreshing = true
    · obtain ⟨hr', hl⟩ := isRefreshing_releaseExpiredLock.1 hr
      rw [if_pos hr, releaseExpiredLock_of_live hl]
      exact .locked ha hr' hl
    · have hl := isRefreshing_releaseExpiredLock_eq_false.1 (Bool.not_eq_true _ ▸ hr)
      rw [if_neg hr, fetchedAtElapsed_releaseExpiredLock]
      split
      · rename_i hi
        exact .waiting ha hl hi
      · rename_i hi
        exact .spawned ha hl (UInt64.not_lt.1 hi)

/-- A tick of a paused store clears nothing and asks for nothing. -/
theorem onSchedulerTick_of_backedOff {s : CacheStore} {input : SchedulerTickInput}
    (h : s.isBackedOff input.now = true) : onSchedulerTick s input = (s, []) := by
  obtain ⟨t, ht, hlt⟩ := CacheStore.isBackedOff_iff.1 h
  have hkeep : (s.backoffUntil.filter fun t => !decide (t ≤ input.now)) = s.backoffUntil := by
    rw [ht, Option.filter_some, if_pos (by simpa using hlt)]
  unfold onSchedulerTick
  simp only [hkeep]
  show (if s.isBackedOff input.now = true then (s, []) else _) = _
  rw [if_pos h]

/-- The rows a tick keeps. -/
def survivors (s : CacheStore) (input : SchedulerTickInput) : Table RepoId CacheEntryState :=
  s.entries.retain fun _ e => !isExpired e input.entryMaxAgeSecs input.now

def tickCost (s : CacheStore) (input : SchedulerTickInput) : UInt64 :=
  totalRefreshCost ((survivors s input).entries.map (·.2))

/-- A tick of a store that is not paused, row by row. -/
theorem onSchedulerTick_of_not_backedOff {s : CacheStore} {input : SchedulerTickInput}
    (h : s.isBackedOff input.now = false) :
    onSchedulerTick s input =
      ((s.withBackoffUntil none).withEntries ((survivors s input).mapVal fun id e =>
          (tickEntry input s.latestRateLimit (tickCost s input) id e).1),
        (s.entries.entries.filter fun x => isExpired x.2 input.entryMaxAgeSecs input.now).map
            (fun x => .recordExpired x.1) ++
          (survivors s input).entries.flatMap fun x =>
            (tickEntry input s.latestRateLimit (tickCost s input) x.1 x.2).2) := by
  have hclear : (s.backoffUntil.filter fun t => !decide (t ≤ input.now)) = none := by
    rw [Option.filter_eq_none_iff]
    intro t ht
    have hnot : ¬ input.now < t := fun hlt => by
      rw [CacheStore.isBackedOff_iff.2 ⟨t, ht, hlt⟩] at h
      cases h
    simpa using hnot
  unfold onSchedulerTick
  simp only [hclear]
  rw [if_neg (by simp [CacheStore.isBackedOff, CacheStore.withBackoffUntil])]
  rfl

section NotBackedOff

variable {s : CacheStore} {input : SchedulerTickInput}

theorem lookup_survivors (id : RepoId) :
    (survivors s input).lookup id =
      (s.entry id).filter fun e => !isExpired e input.entryMaxAgeSecs input.now :=
  Table.lookup_retain _ _ _

theorem onSchedulerTick_entry (h : s.isBackedOff input.now = false) (id : RepoId) :
    (onSchedulerTick s input).1.entry id =
      ((s.entry id).filter fun e => !isExpired e input.entryMaxAgeSecs input.now).map
        fun e => (tickEntry input s.latestRateLimit (tickCost s input) id e).1 := by
  rw [onSchedulerTick_of_not_backedOff h, CacheStore.entry_withEntries, Table.lookup_mapVal,
    lookup_survivors]

theorem onSchedulerTick_expires (h : s.isBackedOff input.now = false) (id : RepoId) :
    Effect.recordExpired id ∈ (onSchedulerTick s input).2 ↔
      ∃ e, s.entry id = some e ∧ isExpired e input.entryMaxAgeSecs input.now = true := by
  rw [onSchedulerTick_of_not_backedOff h]
  constructor
  · intro hm
    rcases List.mem_append.1 hm with hm | hm
    · obtain ⟨⟨id', e⟩, hx, heq⟩ := List.mem_map.1 hm
      obtain rfl := Effect.recordExpired.inj heq
      obtain ⟨hx, he⟩ := List.mem_filter.1 hx
      exact ⟨e, Table.mem_entries.1 hx, he⟩
    · obtain ⟨x, -, hx⟩ := List.mem_flatMap.1 hm
      obtain ⟨cwd, hcwd⟩ := mem_tickEntry_effects hx
      cases hcwd
  · rintro ⟨e, he, hexp⟩
    exact List.mem_append_left _ (List.mem_map.2
      ⟨⟨id, e⟩, List.mem_filter.2 ⟨Table.mem_entries.2 he, hexp⟩, rfl⟩)

/-- The refreshes a tick starts are those its loop starts for the rows it keeps. -/
theorem spawnRefresh_mem_onSchedulerTick (h : s.isBackedOff input.now = false) {id : RepoId}
    {cwd : String} :
    Effect.spawnRefresh id cwd ∈ (onSchedulerTick s input).2 ↔
      ∃ e, s.entry id = some e ∧ isExpired e input.entryMaxAgeSecs input.now = false ∧
        Effect.spawnRefresh id cwd ∈
          (tickEntry input s.latestRateLimit (tickCost s input) id e).2 := by
  rw [onSchedulerTick_of_not_backedOff h]
  constructor
  · intro hm
    rcases List.mem_append.1 hm with hm | hm
    · obtain ⟨x, -, heq⟩ := List.mem_map.1 hm
      cases heq
    · obtain ⟨⟨id', e⟩, hx, hx'⟩ := List.mem_flatMap.1 hm
      obtain ⟨cwd', heq⟩ := mem_tickEntry_effects hx'
      obtain rfl := (Effect.spawnRefresh.inj heq).1
      obtain ⟨hx, hlive⟩ := List.mem_filter.1 hx
      exact ⟨e, Table.mem_entries.1 hx, by simpa using hlive, hx'⟩
  · rintro ⟨e, he, hlive, heff⟩
    refine List.mem_append_right _ (List.mem_flatMap.2 ⟨⟨_, e⟩, ?_, heff⟩)
    exact List.mem_filter.2 ⟨Table.mem_entries.2 he, by simpa using hlive⟩

theorem onSchedulerTick_spawns (h : s.isBackedOff input.now = false) (id : RepoId) :
    (∃ cwd, Effect.spawnRefresh id cwd ∈ (onSchedulerTick s input).2) ↔
      ∃ e, s.entry id = some e ∧ isExpired e input.entryMaxAgeSecs input.now = false ∧
        (tickEntry input s.latestRateLimit (tickCost s input) id e).2 ≠ [] := by
  constructor
  · rintro ⟨cwd, hm⟩
    obtain ⟨e, he, hlive, heff⟩ := (spawnRefresh_mem_onSchedulerTick h).1 hm
    exact ⟨e, he, hlive, List.ne_nil_of_mem heff⟩
  · rintro ⟨e, he, hlive, hne⟩
    obtain ⟨eff, heff⟩ := List.exists_mem_of_ne_nil _ hne
    obtain ⟨cwd, rfl⟩ := mem_tickEntry_effects heff
    exact ⟨cwd, (spawnRefresh_mem_onSchedulerTick h).2 ⟨e, he, hlive, heff⟩⟩

theorem entryStep_onSchedulerTick (s : CacheStore) (input : SchedulerTickInput) (id : RepoId) :
    EntryStep s id ⟨.tick input, (onSchedulerTick s input).2⟩ (s.entry id)
      ((onSchedulerTick s input).1.entry id) := by
  cases h : s.isBackedOff input.now with
  | true =>
    rw [onSchedulerTick_of_backedOff h]
    exact .frame (.inr h) (by rintro ⟨cwd, hm⟩; cases hm) (by intro hm; cases hm)
  | false =>
    have hspawn := onSchedulerTick_spawns h id
    have hexp := onSchedulerTick_expires h id
    rw [onSchedulerTick_entry h]
    cases he : s.entry id with
    | none =>
      rw [he] at hspawn hexp
      refine .frame (.inl rfl) ?_ ?_
      · intro hs
        obtain ⟨e, hn, -⟩ := hspawn.1 hs
        cases hn
      · intro hx
        obtain ⟨e, hn, -⟩ := hexp.1 hx
        cases hn
    | some e =>
      rw [he] at hspawn hexp
      cases ha : isExpired e input.entryMaxAgeSecs input.now with
      | true =>
        rw [Option.filter_some, if_neg (by simp [ha]), Option.map_none]
        refine .expired h ha ?_ (hexp.2 ⟨e, rfl, ha⟩)
        intro hs
        obtain ⟨e', he', hlive, -⟩ := hspawn.1 hs
        obtain rfl := Option.some.inj he'
        rw [ha] at hlive
        cases hlive
      | false =>
        rw [Option.filter_some, if_pos (by simp [ha]), Option.map_some]
        refine .ticked h ha (tickStep_tickEntry input _ _ id e) ?_ ?_
        · rw [Bool.not_eq_true', List.isEmpty_eq_false_iff]
          constructor
          · intro hs
            obtain ⟨e', he', -, hne⟩ := hspawn.1 hs
            obtain rfl := Option.some.inj he'
            exact hne
          · intro hne
            exact hspawn.2 ⟨e, rfl, ha, hne⟩
        · intro hx
          obtain ⟨e', he', hx'⟩ := hexp.1 hx
          obtain rfl := Option.some.inj he'
          rw [ha] at hx'
          cases hx'

end NotBackedOff

/-! ### Rate limits -/

/-- Observing a snapshot leaves the entries alone and asks for nothing but a pause. -/
theorem onRateLimitObserved_ok {s s' : CacheStore} {ev : RateLimitObservedEvent}
    {effects : List Effect} (h : onRateLimitObserved s ev = .ok (s', effects)) :
    s'.entries = s.entries ∧ s'.latestRateLimit = some ev.snapshot ∧
      ∀ eff ∈ effects, ∃ t, eff = .enterBackoff t ∧ s'.backoffUntil = some t := by
  obtain ⟨bo, -, h⟩ := bind_eq_ok.1 h
  obtain ⟨rfl, rfl⟩ := Prod.mk.inj (Except.ok.inj h)
  refine ⟨rfl, rfl, ?_⟩
  intro eff heff
  unfold backoffEffects at heff
  split at heff
  · split at heff
    · exact ⟨_, List.mem_singleton.1 heff, rfl⟩
    · cases heff
  · cases heff

theorem entryStep_onRateLimitObserved {s s' : CacheStore} {ev : RateLimitObservedEvent}
    {effects : List Effect} (h : onRateLimitObserved s ev = .ok (s', effects)) (id : RepoId) :
    EntryStep s id ⟨.rateLimit ev, effects⟩ (s.entry id) (s'.entry id) := by
  obtain ⟨hent, -, heff⟩ := onRateLimitObserved_ok h
  have hkeep : s'.entry id = s.entry id := by
    unfold CacheStore.entry
    rw [hent]
  rw [hkeep]
  refine .frame trivial ?_ ?_
  · rintro ⟨cwd, hm⟩
    obtain ⟨u, hu, -⟩ := heff _ hm
    cases hu
  · intro hm
    obtain ⟨u, hu, -⟩ := heff _ hm
    cases hu

/-! ### All calls -/

theorem EntryStep.of_same {s t : CacheStore} (h : s.Same t) {id : RepoId} {c : Call}
    {o o' : Option CacheEntryState} (hs : EntryStep t id c o o') : EntryStep s id c o o' := by
  have hb : ∀ now, s.isBackedOff now = t.isBackedOff now := by
    intro now
    unfold CacheStore.isBackedOff
    rw [h.2.2]
  cases hs with
  | @frame c o hop hs hx =>
    refine .frame ?_ hs hx
    cases hc : c.op <;> rw [hc] at hop <;> first | exact hop | skip
    rename_i input
    rcases hop with hop | hop
    · exact .inl hop
    · exact .inr ((hb _).trans hop)
  | fresh hf => exact .fresh hf
  | busy hf hr => exact .busy hf hr
  | stale hf hr => exact .stale hf hr
  | miss => exact .miss
  | completed => exact .completed
  | expired hnb ha hs hx => exact .expired ((hb _).trans hnb) ha hs hx
  | ticked hnb ha ht hs hx => exact .ticked ((hb _).trans hnb) ha (h.2.1 ▸ ht) hs hx

/-- **A step does one of these things to each entry.** -/
theorem Step.entryStep {s s' : CacheStore} {c : Call} (h : Step s c s') (id : RepoId) :
    EntryStep s id c (s.entry id) (s'.entry id) := by
  obtain ⟨t, hst, hrun⟩ := h
  rw [hst.entry_eq id]
  refine EntryStep.of_same hst ?_
  obtain ⟨op, effects⟩ := c
  cases op with
  | query id' ev p =>
    have hr : onQuery t ev id' p = (s', effects) := Except.ok.inj hrun
    have hquery : EntryStep t id ⟨.query id' ev p, (onQuery t ev id' p).2⟩ (t.entry id)
        ((onQuery t ev id' p).1.entry id) := by
      by_cases hid : id' = id
      · subst hid
        exact entryStep_onQuery t id' ev p
      · exact entryStep_onQuery_of_ne t ev p hid
    rw [hr] at hquery
    exact hquery
  | refreshCompleted id' ev =>
    have hr : onRefreshCompleted t id' ev = (s', effects) := Except.ok.inj hrun
    have hcompleted := entryStep_onRefreshCompleted t id id' ev
    rw [hr] at hcompleted
    exact hcompleted
  | tick input =>
    have hr : onSchedulerTick t input = (s', effects) := Except.ok.inj hrun
    have htick := entryStep_onSchedulerTick t input id
    rw [hr] at htick
    exact htick
  | rateLimit ev =>
    exact entryStep_onRateLimitObserved hrun id

/-- Only queries of the entry, and ticks of a store that is not paused, start a refresh of it. -/
theorem EntryStep.spawns_cases {s : CacheStore} {id : RepoId} {c : Call}
    {o o' : Option CacheEntryState} (h : EntryStep s id c o o') (hsp : c.Spawns id) :
    (∃ ev p, c.op = .query id ev p) ∨
      ∃ input, c.op = .tick input ∧ s.isBackedOff input.now = false := by
  cases h with
  | frame _ hn => exact absurd hsp hn
  | fresh => exact .inl ⟨_, _, rfl⟩
  | busy => exact .inl ⟨_, _, rfl⟩
  | stale => exact .inl ⟨_, _, rfl⟩
  | miss => exact .inl ⟨_, _, rfl⟩
  | completed =>
    obtain ⟨cwd, hm⟩ := hsp
    cases hm
  | expired hb => exact .inr ⟨_, rfl, hb⟩
  | ticked hb => exact .inr ⟨_, rfl, hb⟩

/-! ### What a step leaves of a result -/

/-- The entry `e'` has the result of `e`, apart from its mode. -/
structure SameResult (e e' : CacheEntryState) : Prop where
  hasFetched : e'.hasFetched = e.hasFetched
  output : e'.output = e.output
  prOutputs : e'.prOutputs = e.prOutputs

theorem SameResult.refl (e : CacheEntryState) : SameResult e e := ⟨rfl, rfl, rfl⟩

theorem SameResult.stale (e : CacheEntryState) (p : RefreshPolicy) (now : Instant) :
    SameResult e
      ((reopenTerminal ((thawCold p now e).withRecordQuery now)).withMarkRefreshing now) := by
  refine ⟨?_, ?_, ?_⟩
  · rw [CacheEntryState.hasFetched_withMarkRefreshing]
    exact CacheEntryState.hasFetched_congr (by simp)
  · rw [CacheEntryState.output_withMarkRefreshing, output_reopenTerminal]
    exact output_thawCold _ _ _
  · rw [CacheEntryState.prOutputs_withMarkRefreshing, prOutputs_reopenTerminal]
    exact prOutputs_thawCold _ _ _

theorem SameResult.waiting (e : CacheEntryState) (input : SchedulerTickInput) :
    SameResult e (releaseExpiredLock input e) :=
  ⟨hasFetched_releaseExpiredLock _ _, output_releaseExpiredLock _ _,
    prOutputs_releaseExpiredLock _ _⟩

theorem SameResult.spawned (e : CacheEntryState) (input : SchedulerTickInput) :
    SameResult e
      ((countColdRefresh input (releaseExpiredLock input e)).withMarkRefreshing input.now) := by
  refine ⟨?_, by simp, by simp⟩
  rw [CacheEntryState.hasFetched_withMarkRefreshing,
    CacheEntryState.hasFetched_congr (fetchState_countColdRefresh _ _),
    hasFetched_releaseExpiredLock]

/-- A call that neither completes a refresh of the entry nor removes it keeps its result. -/
theorem EntryStep.sameResult {s : CacheStore} {id : RepoId} {c : Call} {e : CacheEntryState}
    {o' : Option CacheEntryState} (h : EntryStep s id c (some e) o') (hc : ¬ c.Completes id)
    (hx : ¬ c.Expires id) : ∃ e', o' = some e' ∧ SameResult e e' := by
  cases h with
  | frame => exact ⟨e, rfl, .refl e⟩
  | fresh => exact ⟨_, rfl, rfl, rfl, rfl⟩
  | busy =>
    exact ⟨_, rfl, CacheEntryState.hasFetched_congr (by simp), output_thawCold _ _ _,
      prOutputs_thawCold _ _ _⟩
  | stale => exact ⟨_, rfl, .stale _ _ _⟩
  | completed => exact absurd ⟨_, rfl⟩ hc
  | expired _ _ _ hexp => exact absurd hexp hx
  | ticked _ _ ht =>
    cases ht with
    | inactive => exact ⟨e, rfl, .refl e⟩
    | locked => exact ⟨e, rfl, .refl e⟩
    | waiting => exact ⟨_, rfl, .waiting _ _⟩
    | spawned => exact ⟨_, rfl, .spawned _ _⟩

/-- An entry that appears has no result. -/
theorem EntryStep.not_hasFetched_of_created {s : CacheStore} {id : RepoId} {c : Call}
    {e : CacheEntryState} (h : EntryStep s id c none (some e)) : e.hasFetched = false := by
  cases h
  rfl

/-- A completion for an entry stores its result. -/
theorem EntryStep.completes {s : CacheStore} {id : RepoId} {ev : RefreshCompletedEvent}
    {effects : List Effect} {e : CacheEntryState} {o' : Option CacheEntryState}
    (h : EntryStep s id ⟨.refreshCompleted id ev, effects⟩ (some e) o') :
    o' = some (e.withRefreshCompleted ev.output ev.prOutputs ev.refreshMode ev.now ev.nowWall) := by
  cases h with
  | frame hop =>
    rcases hop with hop | hop
    · exact absurd rfl hop
    · cases hop
  | completed => rfl

theorem EntryStep.expires {s : CacheStore} {id : RepoId} {c : Call} {o o' : Option CacheEntryState}
    (h : EntryStep s id c o o') (hx : c.Expires id) : o' = none := by
  cases h with
  | frame _ _ hn => exact absurd hx hn
  | fresh => simp [Call.Expires] at hx
  | busy => simp [Call.Expires] at hx
  | stale => simp [Call.Expires] at hx
  | miss => simp [Call.Expires] at hx
  | completed => simp [Call.Expires] at hx
  | expired => rfl
  | ticked _ _ _ _ hn => exact absurd hx hn

/-- Only a query makes an entry. -/
theorem EntryStep.none_of_completes {s : CacheStore} {id : RepoId} {ev : RefreshCompletedEvent}
    {effects : List Effect} {o' : Option CacheEntryState}
    (h : EntryStep s id ⟨.refreshCompleted id ev, effects⟩ none o') : o' = none := by
  cases h
  rfl

/-- A completion leaves the entries of other ids alone. -/
theorem EntryStep.eq_of_completes_ne {s : CacheStore} {id id' : RepoId} {ev : RefreshCompletedEvent}
    {effects : List Effect} {o o' : Option CacheEntryState}
    (h : EntryStep s id ⟨.refreshCompleted id' ev, effects⟩ o o') (hne : id ≠ id') : o' = o := by
  cases h with
  | frame => rfl
  | completed => exact absurd rfl hne

end MergeReady.Daemon
