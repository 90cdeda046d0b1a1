import MergeReady.Daemon.Outdated

/-!
# A tick, entry by entry

The tick removes the expired rows, adds up the cost of a round over the rows it keeps and then goes
through them in a loop with four early exits.  Here it is compared with a specification that has no
loop: a row is due or not, and what becomes of it depends on nothing but the row, the snapshot and the
cost.  So the order of the rows does not matter.
-/

namespace MergeReady.Daemon

open MergeReady.Lib

/-! ## The cost of a round -/

/-- The calls one refresh of the entry makes in a round. -/
def refreshCost (e : CacheEntryState) : ℕ :=
  if e.isActive then e.prOutputs.length + 1 else 0

theorem toNat_foldl_refreshCost (l : List CacheEntryState) (total : UInt64) :
    (l.foldl (fun total e =>
      if e.isActive then satAdd total (satAdd (u64Sat e.prOutputs.length) 1) else total) total).toNat =
      min (total.toNat + (l.map refreshCost).sum) (2 ^ 64 - 1) := by
  induction l generalizing total with
  | nil =>
    have := total.toNat_lt
    simp only [List.foldl_nil, List.map_nil, List.sum_nil]
    omega
  | cons e l ih =>
    rw [List.foldl_cons, ih, List.map_cons, List.sum_cons]
    unfold refreshCost
    split
    · rw [toNat_satAdd, toNat_satAdd, toNat_u64Sat, show (1 : UInt64).toNat = 1 from rfl]
      omega
    · rw [Nat.zero_add]

/-- The cost is the sum over the active entries, cut off at the largest `u64`. -/
theorem toNat_totalRefreshCost (l : List CacheEntryState) :
    (totalRefreshCost l).toNat = min (l.map refreshCost).sum (2 ^ 64 - 1) := by
  unfold totalRefreshCost
  rw [toNat_foldl_refreshCost, show (0 : UInt64).toNat = 0 from rfl, Nat.zero_add]

theorem totalRefreshCost_perm {l l' : List CacheEntryState} (h : l.Perm l') :
    totalRefreshCost l = totalRefreshCost l' := by
  rw [← UInt64.toNat_inj, toNat_totalRefreshCost, toNat_totalRefreshCost,
    (h.map refreshCost).sum_nat]

/-! ## One entry -/

/-- The entry is refreshed at this tick: it may be, and its age in whole seconds has reached its
scaled interval. -/
def Due (input : SchedulerTickInput) (snapshot : Option RateLimitSnapshot) (cost : UInt64)
    (e : CacheEntryState) : Prop :=
  Refreshable input e ∧
    input.policy.effectiveRefreshIntervalSecsScaled e snapshot cost input.now input.nowWall ≤
      (fetchedAtElapsed e input.now).asSecs

instance (input : SchedulerTickInput) (e : CacheEntryState) : Decidable (Refreshable input e) :=
  inferInstanceAs (Decidable (_ ∧ _))

instance (input : SchedulerTickInput) (snapshot : Option RateLimitSnapshot) (cost : UInt64)
    (e : CacheEntryState) : Decidable (Due input snapshot cost e) :=
  inferInstanceAs (Decidable (_ ∧ _))

/-- What a tick makes of an entry it keeps. -/
def ticked (input : SchedulerTickInput) (snapshot : Option RateLimitSnapshot) (cost : UInt64)
    (e : CacheEntryState) : CacheEntryState :=
  if Due input snapshot cost e then
    (countColdRefresh input (releaseExpiredLock input e)).withMarkRefreshing input.now
  else if e.isActive then releaseExpiredLock input e
  else e

/-- The refresh a tick starts for an entry it keeps. -/
def started (input : SchedulerTickInput) (snapshot : Option RateLimitSnapshot) (cost : UInt64)
    (x : (_ : RepoId) × CacheEntryState) : List Effect :=
  if Due input snapshot cost x.2 then [.spawnRefresh x.1 x.2.cwd] else []

/-- **The loop's body is the specification of one entry.** -/
theorem tickEntry_eq (input : SchedulerTickInput) (snapshot : Option RateLimitSnapshot)
    (cost : UInt64) (id : RepoId) (e : CacheEntryState) :
    tickEntry input snapshot cost id e =
      (ticked input snapshot cost e, started input snapshot cost ⟨id, e⟩) := by
  unfold ticked started
  by_cases h : Due input snapshot cost e
  · rw [tickEntry_of_due id h.1 h.2, if_pos h, if_pos h]
  · rw [tickEntry_of_not_due id h, if_neg h, if_neg h]

/-- The fields a tick leaves alone. -/
structure SameAnswer (e e' : CacheEntryState) : Prop where
  output : e'.output = e.output
  prOutputs : e'.prOutputs = e.prOutputs
  cwd : e'.cwd = e.cwd
  branch : e'.branch = e.branch
  refreshMode : e'.refreshMode = e.refreshMode
  fetchedAt : e'.fetchedAt = e.fetchedAt
  lastQueriedAt : e'.lastQueriedAt = e.lastQueriedAt

namespace SameAnswer

theorem refl (e : CacheEntryState) : SameAnswer e e := ⟨rfl, rfl, rfl, rfl, rfl, rfl, rfl⟩

theorem releaseExpiredLock (input : SchedulerTickInput) (e : CacheEntryState) :
    SameAnswer e (releaseExpiredLock input e) := by
  unfold Daemon.releaseExpiredLock
  split
  · exact ⟨rfl, rfl, rfl, rfl, rfl, rfl, rfl⟩
  · exact refl e

theorem countColdRefresh (input : SchedulerTickInput) {e e' : CacheEntryState}
    (h : SameAnswer e e') : SameAnswer e (countColdRefresh input e') := by
  unfold Daemon.countColdRefresh
  split
  · exact ⟨h.1, h.2, h.3, h.4, h.5, h.6, h.7⟩
  · exact h

theorem ticked (input : SchedulerTickInput) (snapshot : Option RateLimitSnapshot) (cost : UInt64)
    (e : CacheEntryState) : SameAnswer e (ticked input snapshot cost e) := by
  unfold Daemon.ticked
  split
  · have h := countColdRefresh input (releaseExpiredLock input e)
    exact ⟨h.1, h.2, h.3, h.4, h.5, h.6, h.7⟩
  · split
    · exact releaseExpiredLock input e
    · exact refl e

end SameAnswer

theorem ticked_of_due {input : SchedulerTickInput} {snapshot : Option RateLimitSnapshot}
    {cost : UInt64} {e : CacheEntryState} (h : Due input snapshot cost e) :
    (ticked input snapshot cost e).isRefreshing = true ∧
      (ticked input snapshot cost e).refreshStartedAt = some input.now := by
  unfold ticked
  rw [if_pos h]
  exact ⟨CacheEntryState.isRefreshing_withMarkRefreshing _ _, rfl⟩

/-! ## The whole tick -/

/-- The rows a tick removes. -/
def removals (s : CacheStore) (input : SchedulerTickInput) :
    List ((_ : RepoId) × CacheEntryState) :=
  s.entries.entries.filter fun x => isExpired x.2 input.entryMaxAgeSecs input.now

/-- The rows a tick refreshes. -/
def dueRows (s : CacheStore) (input : SchedulerTickInput) :
    List ((_ : RepoId) × CacheEntryState) :=
  (survivors s input).entries.filter fun x =>
    decide (Due input s.latestRateLimit (tickCost s input) x.2)

/-- The effects of a tick, the removals first. -/
def tickEffects (s : CacheStore) (input : SchedulerTickInput) : List Effect :=
  (removals s input).map (fun x => .recordExpired x.1) ++
    (dueRows s input).map fun x => .spawnRefresh x.1 x.2.cwd

theorem flatMap_started (input : SchedulerTickInput) (snapshot : Option RateLimitSnapshot)
    (cost : UInt64) (rows : List ((_ : RepoId) × CacheEntryState)) :
    rows.flatMap (started input snapshot cost) =
      (rows.filter fun x => decide (Due input snapshot cost x.2)).map
        fun x => .spawnRefresh x.1 x.2.cwd := by
  induction rows with
  | nil => rfl
  | cons x rows ih =>
    rw [List.flatMap_cons, ih, started]
    by_cases h : Due input snapshot cost x.2
    · simp [h]
    · simp [h]

theorem onSchedulerTick_eq {s : CacheStore} {input : SchedulerTickInput}
    (hb : s.isBackedOff input.now = false) :
    onSchedulerTick s input =
      ((s.withBackoffUntil none).withEntries ((survivors s input).mapVal fun _ e =>
          ticked input s.latestRateLimit (tickCost s input) e),
        tickEffects s input) := by
  rw [onSchedulerTick_of_not_backedOff hb]
  simp only [tickEntry_eq]
  rw [flatMap_started]
  rfl

/-- A tick asks for nothing twice. -/
theorem nodup_tickEffects (s : CacheStore) (input : SchedulerTickInput) :
    (tickEffects s input).Nodup := by
  have hkeys : ∀ {rows : List ((_ : RepoId) × CacheEntryState)}, rows.Sublist s.entries.entries →
      (rows.map Sigma.fst).Nodup := fun h => s.entries.nodupKeys.sublist h
  have hsub : (dueRows s input).Sublist s.entries.entries :=
    List.filter_sublist.trans List.filter_sublist
  refine List.Nodup.append ?_ ?_ ?_
  · refine List.Nodup.of_map (fun eff => match eff with | .recordExpired id => id | _ => ⟨""⟩) ?_
    rw [List.map_map]
    exact hkeys List.filter_sublist
  · refine List.Nodup.of_map (fun eff => match eff with | .spawnRefresh id _ => id | _ => ⟨""⟩) ?_
    rw [List.map_map]
    exact hkeys hsub
  · intro eff hexp hspawn
    obtain ⟨x, -, rfl⟩ := List.mem_map.1 hexp
    obtain ⟨y, -, h⟩ := List.mem_map.1 hspawn
    cases h

/-! ### The order of the rows -/

theorem survivors_perm {s t : CacheStore} (h : s.Same t) (input : SchedulerTickInput) :
    (survivors s input).entries.Perm (survivors t input).entries := h.1.filter _

theorem tickCost_same {s t : CacheStore} (h : s.Same t) (input : SchedulerTickInput) :
    tickCost s input = tickCost t input :=
  totalRefreshCost_perm ((survivors_perm h input).map _)

theorem tickEffects_same {s t : CacheStore} (h : s.Same t) (input : SchedulerTickInput) :
    (tickEffects s input).Perm (tickEffects t input) := by
  have hdue : (dueRows s input).Perm (dueRows t input) := by
    unfold dueRows
    rw [h.2.1, tickCost_same h]
    exact (survivors_perm h input).filter _
  exact ((h.1.filter _).map _).append (hdue.map _)

/-- Stores that differ in the order of their rows are ticked alike. -/
theorem onSchedulerTick_same {s t : CacheStore} {input : SchedulerTickInput} (h : s.Same t)
    (hb : s.isBackedOff input.now = false) :
    (onSchedulerTick s input).1.Same (onSchedulerTick t input).1 ∧
      (onSchedulerTick s input).2.Perm (onSchedulerTick t input).2 := by
  have hb' : t.isBackedOff input.now = false := by
    unfold CacheStore.isBackedOff at hb ⊢
    rw [← h.2.2]
    exact hb
  rw [onSchedulerTick_eq hb, onSchedulerTick_eq hb', h.2.1, tickCost_same h]
  exact ⟨⟨(survivors_perm h input).map _, h.2.1, rfl⟩, tickEffects_same h input⟩

/-- **A tick is its specification.**  It keeps the entries that are not expired, each changed by
`ticked`, asks for one removal for each expired row and one refresh for each due row, and nothing else
changes; the order of the rows makes no difference. -/
theorem onSchedulerTick_spec {s : CacheStore} {input : SchedulerTickInput}
    (hb : s.isBackedOff input.now = false) :
    let cost := totalRefreshCost ((survivors s input).entries.map (·.2))
    let r := onSchedulerTick s input
    (∀ id, r.1.entry id =
        ((s.entry id).filter fun e => !isExpired e input.entryMaxAgeSecs input.now).map
          (ticked input s.latestRateLimit cost)) ∧
      cost.toNat = min ((survivors s input).entries.map fun x => refreshCost x.2).sum (2 ^ 64 - 1) ∧
      r.2.Perm ((removals s input).map (fun x => .recordExpired x.1) ++
        (dueRows s input).map fun x => .spawnRefresh x.1 x.2.cwd) ∧
      r.2.Nodup ∧
      (∀ e, Due input s.latestRateLimit cost e →
        (ticked input s.latestRateLimit cost e).isRefreshing = true ∧
          (ticked input s.latestRateLimit cost e).refreshStartedAt = some input.now) ∧
      (∀ e, SameAnswer e (ticked input s.latestRateLimit cost e)) ∧
      r.1.latestRateLimit = s.latestRateLimit ∧ r.1.backoffUntil = none ∧
      ∀ t, s.Same t → r.1.Same (onSchedulerTick t input).1 ∧ r.2.Perm (onSchedulerTick t input).2 := by
  intro cost r
  have heq : r = _ := onSchedulerTick_eq hb
  refine ⟨fun id => ?_, ?_, ?_, ?_, fun e => ticked_of_due, fun e => SameAnswer.ticked _ _ _ e, ?_,
    ?_, fun t ht => onSchedulerTick_same ht hb⟩
  · rw [heq, CacheStore.entry_withEntries, Table.lookup_mapVal, lookup_survivors]
    rfl
  · refine (toNat_totalRefreshCost _).trans ?_
    rw [List.map_map]
    rfl
  · rw [heq]
    exact List.Perm.refl _
  · rw [heq]
    exact nodup_tickEffects s input
  · rw [heq]
    rfl
  · rw [heq]
    rfl

namespace Mixed

/-! A store with one row of each kind. -/

def old : RepoId := ⟨"0d3c4a5be7f60912"⟩
def locked : RepoId := ⟨"2b1e90d4c35fa768"⟩
def stuck : RepoId := ⟨"5f60718293a4b5c6"⟩
def waiting : RepoId := ⟨"9e8d7c6b5a493827"⟩
def due : RepoId := ⟨"cbf29ce484222325"⟩

/-- The row of a directory whose query was answered with one PR. -/
def fetched (cwd : String) (queriedAt fetchedAt : UInt32) : CacheEntryState :=
  (CacheEntryState.newLoading cwd "main" 5 (.ofSecs queriedAt) (.ofSecs queriedAt)).withRefreshCompleted
    "✓ Ready for merge" [⟨12, "✓ Ready for merge"⟩] .warm (.ofSecs fetchedAt) (.ofSecs fetchedAt)

/-- The lock times out after 120 s. -/
def refreshing (cwd : String) (startedAt : UInt32) : CacheEntryState :=
  ((fetched cwd 172000 172001).withRecordQuery (.ofSecs startedAt)).withMarkRefreshing
    (.ofSecs startedAt)

def rows : List ((_ : RepoId) × CacheEntryState) :=
  [⟨old, fetched "/old" 0 1⟩, ⟨locked, refreshing "/locked" 172880⟩,
    ⟨stuck, refreshing "/stuck" 172750⟩, ⟨waiting, fetched "/waiting" 172800 172801⟩,
    ⟨due, fetched "/due" 172600 172601⟩]

def store : CacheStore := .withEntries .new ⟨rows, (by decide : (rows.map Sigma.fst).Nodup)⟩

def reversed : CacheStore :=
  .withEntries .new ⟨rows.reverse, (by decide : (rows.reverse.map Sigma.fst).Nodup)⟩

/-- Two days and 100 s after the first query. -/
def input : SchedulerTickInput :=
  DaemonServerConfig.defaults.tickInput (.ofSecs 172900) (.ofSecs 172900)

end Mixed

open Mixed in
/-- The old row goes, the one that waits and the locked one stay, and the others are refreshed. -/
theorem onSchedulerTick_spec_mixed :
    let r := onSchedulerTick store input
    r.1.entry old = none ∧
      r.1.entry locked = some (refreshing "/locked" 172880) ∧
      r.1.entry waiting = some (fetched "/waiting" 172800 172801) ∧
      (∀ x ∈ [(stuck, refreshing "/stuck" 172750), (due, fetched "/due" 172600 172601)],
        ∃ e, r.1.entry x.1 = some e ∧ SameAnswer x.2 e ∧ e.isRefreshing = true ∧
          e.refreshStartedAt = some (.ofSecs 172900)) ∧
      r.2.Perm [.recordExpired old, .spawnRefresh stuck "/stuck", .spawnRefresh due "/due"] ∧
      r.2.Nodup ∧ r.1.latestRateLimit = none ∧ r.1.backoffUntil = none ∧
      (onSchedulerTick reversed input).2.Perm r.2 := by
  have hb : store.isBackedOff input.now = false := rfl
  obtain ⟨hentry, hcost, heffects, hnodup, hdue, hanswer, hlimit, hbackoff, horder⟩ :=
    onSchedulerTick_spec hb
  have hcost : totalRefreshCost ((survivors store input).entries.map (·.2)) = 8 :=
    UInt64.toNat_inj.1 hcost
  rw [hcost] at hentry hdue hanswer
  refine ⟨(hentry old).trans rfl, (hentry locked).trans rfl, (hentry waiting).trans rfl, ?_,
    heffects, hnodup, hlimit, hbackoff, (horder reversed ⟨(List.reverse_perm _).symm, rfl, rfl⟩).2.symm⟩
  intro x hx
  have hstarts : Due input none 8 x.2 := by
    rw [List.mem_cons, List.mem_singleton] at hx
    rcases hx with rfl | rfl <;> decide
  refine ⟨ticked input none 8 x.2, ?_, hanswer _, hdue _ hstarts⟩
  rw [List.mem_cons, List.mem_singleton] at hx
  rcases hx with rfl | rfl
  · exact hentry stuck
  · exact hentry due

end MergeReady.Daemon
