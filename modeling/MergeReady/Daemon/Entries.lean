import MergeReady.Daemon.Actor
import MergeReady.Daemon.Watch

/-!
# What the daemon shows

`watch` asks for the entries of the store and prints them as a table.  What is shown of a repository is
told by the calls alone: the query that created its entry says where it is, and the latest refresh since
says the rest.  `Record` is that, and `recordOf` steps it by the calls, as `resultOf` does the answer to
a query; so a row and an answer agree.  The store is a hash map, whose order is not specified: the
table does not show it.
-/

namespace MergeReady.Daemon

open MergeReady.Lib
open MergeReady.Shared

/-! ## Views -/

/-- What the rows of an entry show of it. -/
structure View where
  cwd : String
  branch : String
  output : String
  prOutputs : List PrOutput
  fetchedAtWall : SystemTime

def CacheEntryState.view (e : CacheEntryState) : View :=
  { cwd := e.cwd, branch := e.branch, output := e.output, prOutputs := e.prOutputs
    fetchedAtWall := e.fetchedAtWall }

namespace View

def row (v : View) (prId : Option UInt64) (output : String) : EntryDto :=
  { cwd := v.cwd, branch := v.branch, prId := prId, output := output
    cachedAtSecs := ((v.fetchedAtWall.durationSince (.ofSecs 0)).getD (.ofSecs 0)).asSecs }

def rows (v : View) : List EntryDto :=
  match v.prOutputs with
  | [] => [v.row none v.output]
  | prOutputs => prOutputs.map fun p => v.row (some p.prId) p.output

theorem rows_of_nil {v : View} (h : v.prOutputs = []) : v.rows = [v.row none v.output] := by
  unfold rows
  rw [h]

theorem rows_of_ne_nil {v : View} (h : v.prOutputs ≠ []) :
    v.rows = v.prOutputs.map fun p => v.row (some p.prId) p.output := by
  unfold rows
  split
  · contradiction
  · rfl

/-- The rows of an entry are those of its view. -/
theorem entryToDtos_eq (e : CacheEntryState) : entryToDtos e = e.view.rows := by
  unfold entryToDtos
  by_cases hprs : e.prOutputs = []
  · rw [if_pos (List.isEmpty_iff.2 hprs)]
    exact (rows_of_nil (v := e.view) hprs).symm
  · rw [if_neg (mt List.isEmpty_iff.1 hprs)]
    exact (rows_of_ne_nil (v := e.view) hprs).symm

theorem cwd_of_mem_rows {v : View} {dto : EntryDto} (h : dto ∈ v.rows) :
    dto.cwd = v.cwd ∧ dto.branch = v.branch := by
  by_cases hprs : v.prOutputs = []
  · rw [rows_of_nil hprs] at h
    obtain rfl := List.mem_singleton.1 h
    exact ⟨rfl, rfl⟩
  · rw [rows_of_ne_nil hprs] at h
    obtain ⟨p, -, rfl⟩ := List.mem_map.1 h
    exact ⟨rfl, rfl⟩

section Builders

variable (policy : RefreshPolicy) (input : SchedulerTickInput) (now : Instant) (e : CacheEntryState)

@[simp] theorem view_withRecordQuery : (e.withRecordQuery now).view = e.view := rfl

@[simp] theorem view_withMarkRefreshing : (e.withMarkRefreshing now).view = e.view := rfl

@[simp] theorem view_thawCold : (thawCold policy now e).view = e.view := by
  unfold thawCold; split <;> rfl

@[simp] theorem view_reopenTerminal : (reopenTerminal e).view = e.view := by
  unfold reopenTerminal; split <;> rfl

@[simp] theorem view_releaseExpiredLock : (releaseExpiredLock input e).view = e.view := by
  unfold releaseExpiredLock; split <;> rfl

@[simp] theorem view_countColdRefresh : (countColdRefresh input e).view = e.view := by
  unfold countColdRefresh; split <;> rfl

end Builders

/-- No tick changes what is shown of an entry it keeps. -/
theorem view_tickStep {input : SchedulerTickInput} {interval : CacheEntryState → UInt64}
    {e e' : CacheEntryState} {b : Bool} (h : TickStep input interval e e' b) : e'.view = e.view := by
  cases h with
  | inactive => rfl
  | locked => rfl
  | waiting => exact view_releaseExpiredLock _ _
  | spawned => rw [view_withMarkRefreshing, view_countColdRefresh, view_releaseExpiredLock]

end View

/-! ## Records -/

/-- What the calls tell of one repository: the query that created its entry, and the latest refresh
since. -/
structure Record where
  query : QueryEvent
  update : Option RefreshCompletedEvent

namespace Record

def view (r : Record) : View :=
  match r.update with
  | none =>
    { cwd := r.query.cwd, branch := r.query.branch, output := "", prOutputs := []
      fetchedAtWall := r.query.nowWall }
  | some done =>
    { cwd := r.query.cwd, branch := r.query.branch, output := done.output
      prOutputs := done.prOutputs, fetchedAtWall := done.nowWall }

/-- The result that a query is answered with. -/
def result (r : Record) : Option String := r.update.map RefreshCompletedEvent.output

@[simp] theorem cwd_view (r : Record) : r.view.cwd = r.query.cwd := by
  unfold view; split <;> rfl

@[simp] theorem branch_view (r : Record) : r.view.branch = r.query.branch := by
  unfold view; split <;> rfl

end Record

/-- The record of `id` after a call. -/
def recordAfter (id : RepoId) (o : Option Record) (c : Call) : Option Record :=
  if c.Expires id then none
  else
    match c.op with
    | .query id' ev _ => if id' = id then some (o.getD ⟨ev, none⟩) else o
    | .refreshCompleted id' done =>
      if id' = id then o.map fun r => { r with update := some done } else o
    | .tick _ => o
    | .rateLimit _ => o

/-- The record of `id` after the calls of a run from the empty store. -/
def recordOf (id : RepoId) (calls : List Call) : Option Record := calls.foldl (recordAfter id) none

@[simp] theorem recordOf_nil (id : RepoId) : recordOf id [] = none := rfl

@[simp] theorem recordOf_snoc (id : RepoId) (calls : List Call) (c : Call) :
    recordOf id (calls ++ [c]) = recordAfter id (recordOf id calls) c := by
  unfold recordOf
  rw [List.foldl_append]
  rfl

section RecordAfter

variable {id : RepoId} {o : Option Record} {ev : QueryEvent} {p : RefreshPolicy}
  {done : RefreshCompletedEvent} {effects : List Effect}

theorem recordAfter_of_expires {c : Call} (h : c.Expires id) : recordAfter id o c = none := if_pos h

theorem recordAfter_query (h : ¬ (Call.mk (.query id ev p) effects).Expires id) :
    recordAfter id o ⟨.query id ev p, effects⟩ = some (o.getD ⟨ev, none⟩) :=
  (if_neg h).trans (if_pos rfl)

theorem recordAfter_refreshCompleted (h : ¬ (Call.mk (.refreshCompleted id done) effects).Expires id) :
    recordAfter id o ⟨.refreshCompleted id done, effects⟩ =
      o.map fun r => { r with update := some done } :=
  (if_neg h).trans (if_pos rfl)

/-- A call that leaves the entry alone leaves its record alone. -/
theorem recordAfter_of_leavesAlone {s : CacheStore} {c : Call} {e : Option CacheEntryState}
    (hop : c.op.LeavesAlone s id e) (hnone : e = none → o = none) (h : ¬ c.Expires id) :
    recordAfter id o c = o := by
  obtain ⟨op, effects⟩ := c
  refine (if_neg h).trans ?_
  cases op with
  | query id' ev p => exact if_neg hop
  | refreshCompleted id' done =>
    by_cases hid : id' = id
    · rw [hnone (hop.resolve_left fun hne => hne hid)]
      exact if_pos hid
    · exact if_neg hid
  | tick => rfl
  | rateLimit => rfl

/-- The result map is what the records tell of the refreshes. -/
theorem resultAfter_map_result (c : Call) :
    resultAfter id (o.map Record.result) c = (recordAfter id o c).map Record.result := by
  unfold resultAfter recordAfter
  split
  · rfl
  · cases c.op with
    | query id' ev p =>
      dsimp only
      split
      · cases o <;> rfl
      · rfl
    | refreshCompleted id' done =>
      dsimp only
      split
      · cases o <;> rfl
      · rfl
    | tick => rfl
    | rateLimit => rfl

end RecordAfter

theorem resultOf_eq_recordOf (id : RepoId) (calls : List Call) :
    resultOf id calls = (recordOf id calls).map Record.result := by
  induction calls using List.reverseRecOn with
  | nil => rfl
  | append_singleton calls c ih => rw [resultOf_snoc, recordOf_snoc, ih, resultAfter_map_result]

/-- A record comes from a query of its repository. -/
theorem exists_query_of_recordOf {id : RepoId} {calls : List Call} {r : Record}
    (h : recordOf id calls = some r) :
    ∃ p effects, (⟨.query id r.query p, effects⟩ : Call) ∈ calls := by
  induction calls using List.reverseRecOn generalizing r with
  | nil => cases h
  | append_singleton calls c ih =>
    have hold : ∀ r', recordOf id calls = some r' → r'.query = r.query →
        ∃ p effects, (⟨.query id r.query p, effects⟩ : Call) ∈ calls ++ [c] := by
      intro r' hr' hquery
      obtain ⟨p, effects, hmem⟩ := ih hr'
      exact ⟨p, effects, List.mem_append_left _ (hquery ▸ hmem)⟩
    obtain ⟨op, effects⟩ := c
    rw [recordOf_snoc] at h
    unfold recordAfter at h
    split at h
    · cases h
    · cases op with
      | query id' ev p =>
        dsimp only at h
        split at h
        · rename_i hid
          subst hid
          cases ho : recordOf id' calls with
          | none =>
            rw [ho] at h
            obtain rfl := Option.some.inj h
            exact ⟨p, effects, List.mem_append_right _ List.mem_cons_self⟩
          | some r' =>
            rw [ho] at h
            exact hold r' ho (congrArg Record.query (Option.some.inj h))
        · exact hold r h rfl
      | refreshCompleted id' done =>
        dsimp only at h
        split at h
        · obtain ⟨r', hr', rfl⟩ := Option.map_eq_some_iff.1 h
          exact hold r' hr' rfl
        · exact hold r h rfl
      | tick => exact hold r h rfl
      | rateLimit => exact hold r h rfl

/-- **A step keeps what is shown of an entry in step with its record.** -/
theorem EntryStep.view {s : CacheStore} {id : RepoId} {c : Call} {e e' : Option CacheEntryState}
    {o : Option Record} (hst : EntryStep s id c e e')
    (h : e.map CacheEntryState.view = o.map Record.view) :
    e'.map CacheEntryState.view = (recordAfter id o c).map Record.view := by
  have hkept : ∀ {r : Record} {ev : QueryEvent} {p : RefreshPolicy} {effects : List Effect},
      o = some r → ¬ (Call.mk (.query id ev p) effects).Expires id →
      (recordAfter id o ⟨.query id ev p, effects⟩).map Record.view = some r.view := by
    intro r ev p effects ho hx
    rw [recordAfter_query hx, ho]
    rfl
  cases hst with
  | frame hop _ hx =>
    rw [recordAfter_of_leavesAlone hop (fun he => by subst he; simpa using h) hx]
    exact h
  | fresh =>
    obtain ⟨r, ho, hview⟩ := Option.map_eq_some_iff.1 h.symm
    rw [hkept ho (by simp [Call.Expires]), hview]
    rfl
  | busy =>
    obtain ⟨r, ho, hview⟩ := Option.map_eq_some_iff.1 h.symm
    rw [hkept ho (by simp [Call.Expires]), hview]
    simp
  | stale =>
    obtain ⟨r, ho, hview⟩ := Option.map_eq_some_iff.1 h.symm
    rw [hkept ho (by simp [Call.Expires]), hview]
    simp
  | miss =>
    obtain rfl : o = none := Option.map_eq_none_iff.1 h.symm
    rw [recordAfter_query (by simp [Call.Expires])]
    rfl
  | completed =>
    obtain ⟨r, rfl, hview⟩ := Option.map_eq_some_iff.1 h.symm
    rw [recordAfter_refreshCompleted (by simp [Call.Expires])]
    have hcwd := congrArg View.cwd hview
    have hbranch := congrArg View.branch hview
    rw [Record.cwd_view] at hcwd
    rw [Record.branch_view] at hbranch
    simp [CacheEntryState.view, CacheEntryState.withRefreshCompleted, Record.view] at hcwd hbranch ⊢
    exact ⟨hcwd.symm, hbranch.symm⟩
  | expired _ _ _ hx =>
    rw [recordAfter_of_expires hx]
    rfl
  | ticked _ _ ht _ hx =>
    rw [show recordAfter id o _ = o from if_neg hx, ← h, Option.map_some, Option.map_some,
      View.view_tickStep ht]

/-- **The entries of the store show the records**, along every run. -/
theorem view_run {calls : List Call} {s : CacheStore} (hr : Run Step .new calls s) (id : RepoId) :
    (s.entry id).map CacheEntryState.view = (recordOf id calls).map Record.view := by
  refine Run.history (P := fun calls s => (s.entry id).map CacheEntryState.view =
    (recordOf id calls).map Record.view) rfl ?_ hr
  intro calls s c s' _ ih hst
  rw [recordOf_snoc]
  exact (hst.entryStep id).view ih

/-! ## Rows -/

/-- The rows of the repositories `ids`. -/
def rowsOf (calls : List Call) (ids : List RepoId) : List EntryDto :=
  ids.flatMap fun id => (recordOf id calls).elim [] fun r => r.view.rows

/-- The repositories with a record, each once. -/
structure Enumerates (calls : List Call) (ids : List RepoId) : Prop where
  nodup : ids.Nodup
  mem_iff : ∀ id, id ∈ ids ↔ (recordOf id calls).isSome = true

theorem Enumerates.perm {calls : List Call} {ids ids' : List RepoId} (h : Enumerates calls ids)
    (h' : Enumerates calls ids') : ids'.Perm ids :=
  (List.perm_ext_iff_of_nodup h'.nodup h.nodup).2 fun id => (h'.mem_iff id).trans (h.mem_iff id).symm

theorem mem_rowsOf {calls : List Call} {id : RepoId} {dto : EntryDto}
    (h : dto ∈ (recordOf id calls).elim [] fun r => r.view.rows) :
    ∃ r, recordOf id calls = some r ∧ dto.cwd = r.query.cwd ∧ dto.branch = r.query.branch := by
  cases hr : recordOf id calls with
  | none =>
    rw [hr] at h
    cases h
  | some r =>
    rw [hr] at h
    obtain ⟨hcwd, hbranch⟩ := View.cwd_of_mem_rows h
    exact ⟨r, rfl, hcwd.trans r.cwd_view, hbranch.trans r.branch_view⟩

/-- The store lists the repositories with a record, and their rows. -/
theorem enumerates_keys {calls : List Call} {s : CacheStore} (hr : Run Step .new calls s) :
    Enumerates calls s.entries.keys where
  nodup := s.entries.keys_nodup
  mem_iff id := by
    rw [← Option.isSome_map (f := Record.view), ← view_run hr id, Option.isSome_map]
    exact AList.mem_keys.symm.trans AList.lookup_isSome.symm

theorem entries_eq_rowsOf {calls : List Call} {s : CacheStore} (hr : Run Step .new calls s) :
    (s.entries.entries.flatMap fun x => entryToDtos x.2) = rowsOf calls s.entries.keys := by
  unfold rowsOf
  rw [show s.entries.keys = s.entries.entries.map Sigma.fst from rfl, List.flatMap_map]
  refine List.flatMap_congr fun x hx => ?_
  have he : s.entry x.1 = some x.2 := Table.mem_entries.1 hx
  have hview := view_run hr x.1
  rw [he] at hview
  obtain ⟨r, hrec, hview⟩ := Option.map_eq_some_iff.1 hview.symm
  rw [View.entryToDtos_eq, hrec, Option.elim_some, hview]

/-! ## Watching -/

/-- `WatchPort::entries`, as `DaemonLifecycle` implements it. -/
def EntryView.ofDto (dto : EntryDto) : EntryView :=
  { cwd := dto.cwd, branch := dto.branch, prId := dto.prId, output := dto.output
    cachedAtSecs := dto.cachedAtSecs }

/-- What `entries_raw` takes from a response, if there is one. -/
def entriesOf : Option Response → Option (List EntryDto)
  | some (.entries entries) => some entries
  | _ => none

theorem EntryView.eq_of_cmp {a b : EntryView} (h : a.cmp b = .eq) :
    a.cwd = b.cwd ∧ a.branch = b.branch := by
  unfold cmp at h
  rw [Ordering.then_eq_eq, Ordering.then_eq_eq, compare_eq_iff_eq, compare_eq_iff_eq] at h
  exact ⟨h.1, h.2.1⟩

section Draw

variable (charWidth : Char → Option ℕ) (formatDuration : Duration → Str) (clock : ℕ → SystemTime)

/-- What one round of `watch` prints, and whether it goes on. -/
def draw (response : Option Response) : Str × Bool :=
  match (entriesOf response).map (List.map EntryView.ofDto) with
  | none => ("daemon is not running\n".toList, false)
  | some entries => (formatTable charWidth formatDuration clock entries, true)

theorem formatTable_congr {entries entries' : List EntryView} (hperm : entries'.Perm entries)
    (h : sortBy EntryView.cmp entries' = sortBy EntryView.cmp entries) :
    formatTable charWidth formatDuration clock entries' =
      formatTable charWidth formatDuration clock entries := by
  unfold formatTable
  rw [h, hperm.isEmpty_eq]

end Draw

namespace TwoDirs

/-- Two directories, each in a repository of its own. -/
def around (secs : UInt32) : Surroundings :=
  { now := .ofSecs secs, nowWall := .ofSecs secs
    repoInfoFromCwd := fun cwd => [("/left", ("a", "main")), ("/right", ("b", "main"))].lookup cwd }

def rightQuery : ServedCommand ℕ :=
  ⟨0, .process (.query "/right"), around 3,
    .result (.ofEffects [.emitOutput loadingOutput, .spawnRefresh ⟨"b"⟩ "/right"])⟩

def leftQuery : ServedCommand ℕ :=
  ⟨1, .process (.query "/left"), around 4,
    .result (.ofEffects [.emitOutput loadingOutput, .spawnRefresh ⟨"a"⟩ "/left"])⟩

def report : ServedCommand ℕ :=
  ⟨2, .process (.update "a" "✓ #200 ✎ #201" .warm [⟨200, "✓ #200"⟩, ⟨201, "✎ #201"⟩]), around 5,
    .result (.reply .ok)⟩

def rows : List EntryDto :=
  [{ cwd := "/left", branch := "main", prId := some 200, output := "✓ #200", cachedAtSecs := 5 },
    { cwd := "/left", branch := "main", prId := some 201, output := "✎ #201", cachedAtSecs := 5 },
    { cwd := "/right", branch := "main", prId := none, output := "", cachedAtSecs := 3 }]

def listing : ServedCommand ℕ :=
  ⟨3, .process .entries, around 6, .result (.reply (.entries rows))⟩

def served : List (ServedCommand ℕ) := [rightQuery, leftQuery, report, listing]

theorem exists_run : ∃ evs S, DaemonRun .defaults (.ofSecs 0) (around 0) evs S ∧
    servedOf evs = served ∧ .call 3 (.process .entries) ∈ evs ∧
    .receive 3 (.result (.reply (.entries rows))) ∈ evs := by
  have hr : Run (stateActor .defaults (.ofSecs 0)).SeqStep
      (DaemonState.new .defaults (.ofSecs 0)) served _ :=
    .cons rfl (.cons rfl (.cons rfl (.cons rfl (.nil _))))
  have hall : ∀ x ∈ served, around 0 ≤ x.env ∧ x.cmd.StampedAt x.env := by
    intro x hx
    simp only [served, List.mem_cons, List.not_mem_nil, or_false] at hx
    rcases hx with rfl | rfl | rfl | rfl <;>
      exact ⟨Surroundings.le_def.2 (by decide), trivial⟩
  have hpair : served.Pairwise fun x y => x.env ≤ y.env := by
    simp only [served, List.pairwise_cons, Surroundings.le_def]
    decide
  obtain ⟨evs, S, hS, hserved, -, -, hcalls⟩ := Actors.exists_run_of_seq
    (S := (stateActor .defaults (.ofSecs 0)).init ℕ (around 0))
    (show 0 < COMMAND_CHANNEL_SIZE by decide) Served.env hr rfl rfl (fun _ _ => rfl)
    (fun x hx => (hall x hx).1) (by decide) hpair fun x hx => ⟨(hall x hx).2, le_rfl⟩
  exact ⟨evs, S, hS, hserved, hcalls listing (by simp [served])⟩

end TwoDirs

section Runs

variable {ι : Type*} [DecidableEq ι] {config : DaemonServerConfig} {startedAt : Instant}
  {e₀ : Surroundings} {evs : List (ActorEvent ι Surroundings DaemonCommand DaemonReply)}
  {S : Actors ι Surroundings DaemonState DaemonCommand DaemonReply}

/-- The reply to a command, and the store it is handled on. -/
theorem exists_served_of_received {i : ι} {cmd : DaemonCommand} {r : DaemonReply}
    (hr : DaemonRun config startedAt e₀ evs S) (hcall : .call i cmd ∈ evs)
    (hrecv : .receive i r ∈ evs) :
    ∃ before x after calls s t, servedOf evs = before ++ x :: after ∧ x.caller = i ∧
      CallsOf config before calls ∧ Run Step .new calls s.cacheStore ∧
      handleCommand x.env s cmd = .ok (t, r) := by
  obtain ⟨x, hx, hxi, rfl, hxc⟩ := Actors.served_of_received hr hrecv
  obtain rfl := Actors.call_unique hr hxc hcall
  obtain ⟨before, after, hserved⟩ := List.append_of_mem hx
  obtain ⟨state, hrun, -⟩ := Actors.refines rfl hr
  rw [hserved] at hrun
  obtain ⟨s, hbefore, hrest⟩ := Run.append_iff.1 hrun
  obtain ⟨t, hstep, -⟩ := Run.cons_iff.1 hrest
  obtain ⟨-, calls, hcalls, hstore⟩ := callsOf_run hbefore rfl
  exact ⟨before, x, after, calls, s, t, hserved, hxi, hcalls, hstore, handleCommand_of_seqStep hstep⟩

/-- The rows that a request for the entries is answered with. -/
theorem entries_reply {i : ι} {r : DaemonReply} (hr : DaemonRun config startedAt e₀ evs S)
    (hcall : .call i (.process .entries) ∈ evs) (hrecv : .receive i r ∈ evs) :
    ∃ before x after calls ids, servedOf evs = before ++ x :: after ∧ x.caller = i ∧
      CallsOf config before calls ∧ Enumerates calls ids ∧
      r = .result (.reply (.entries (rowsOf calls ids))) := by
  obtain ⟨before, x, after, calls, s, t, hserved, hxi, hcalls, hstore, hhandle⟩ :=
    exists_served_of_received hr hcall hrecv
  refine ⟨before, x, after, calls, s.cacheStore.entries.keys, hserved, hxi, hcalls,
    enumerates_keys hstore, ?_⟩
  rw [handleCommand_process] at hhandle
  obtain ⟨-, hreply⟩ := Prod.mk.inj (Except.ok.inj hhandle)
  rw [← hreply, ← entries_eq_rowsOf hstore]
  rfl

/-- **What the daemon shows**, in every run: for each repository with a record, once, the rows that
the calls served before tell of; and the record is the one that queries are answered from. -/
theorem stateActor_entries {i : ι} {r : DaemonReply} (hr : DaemonRun config startedAt e₀ evs S)
    (hcall : .call i (.process .entries) ∈ evs) (hrecv : .receive i r ∈ evs) :
    ∃ before x after calls ids, servedOf evs = before ++ x :: after ∧ x.caller = i ∧
      CallsOf config before calls ∧ Enumerates calls ids ∧
      r = .result (.reply (.entries (rowsOf calls ids))) ∧
      ∀ id, answer (resultOf id calls) = ((recordOf id calls).bind Record.result).getD loadingOutput := by
  obtain ⟨before, x, after, calls, ids, hserved, hxi, hcalls, hids, hreply⟩ :=
    entries_reply hr hcall hrecv
  refine ⟨before, x, after, calls, ids, hserved, hxi, hcalls, hids, hreply, fun id => ?_⟩
  unfold answer
  rw [resultOf_eq_recordOf]
  cases recordOf id calls <;> rfl

theorem stateActor_entries_twoDirs :
    ∃ calls ids, Enumerates calls ids ∧ rowsOf calls ids = TwoDirs.rows := by
  obtain ⟨evs, S, hr, -, hcall, hrecv⟩ := TwoDirs.exists_run
  obtain ⟨-, -, -, calls, ids, -, -, -, hids, hreply, -⟩ := stateActor_entries hr hcall hrecv
  have hrows := congrArg (fun r => match r with
    | DaemonReply.result p => some p.response
    | _ => none) hreply
  exact ⟨calls, ids, hids, (Response.entries.inj (Option.some.inj hrows)).symm⟩

omit [DecidableEq ι] in
/-- A record says where its repository was when a command was served. -/
theorem CallsOf.exists_info {before : List (ServedCommand ι)} {calls : List Call}
    (hcalls : CallsOf config before calls) {id : RepoId} {record : Record}
    (h : recordOf id calls = some record) :
    ∃ x ∈ before, x.env.repoInfoFromCwd record.query.cwd = some (id.inner, record.query.branch) := by
  obtain ⟨p, effects, hmem⟩ := exists_query_of_recordOf h
  obtain ⟨x, hx, s, t, hm⟩ := hcalls.exists_makes hmem
  exact ⟨x, hx, hm.info_of_query rfl⟩

/-- **The table does not show the order of the store**, in every run in which a directory and a branch
are always of one repository: it is the table of the rows in any order of the repositories. -/
theorem stateActor_watch {i : ι} {r : DaemonReply} (hr : DaemonRun config startedAt e₀ evs S)
    (hcall : .call i (.process .entries) ∈ evs) (hrecv : .receive i r ∈ evs)
    (hrepo : ∀ x ∈ servedOf evs, ∀ y ∈ servedOf evs, ∀ cwd branch id id',
      x.env.repoInfoFromCwd cwd = some (id, branch) →
        y.env.repoInfoFromCwd cwd = some (id', branch) → id = id')
    (charWidth : Char → Option ℕ) (formatDuration : Duration → Str) (clock : ℕ → SystemTime) :
    ∃ before x after calls p, servedOf evs = before ++ x :: after ∧ x.caller = i ∧
      CallsOf config before calls ∧ r = .result p ∧ ∀ order, Enumerates calls order →
        draw charWidth formatDuration clock (some p.response) =
          (formatTable charWidth formatDuration clock ((rowsOf calls order).map .ofDto), true) := by
  obtain ⟨before, x, after, calls, ids, hserved, hxi, hcalls, hids, hreply⟩ :=
    entries_reply hr hcall hrecv
  refine ⟨before, x, after, calls, _, hserved, hxi, hcalls, hreply, fun order horder => ?_⟩
  have hbefore : ∀ y ∈ before, y ∈ servedOf evs := fun y hy =>
    hserved ▸ List.mem_append_left _ hy
  refine Prod.ext ?_ rfl
  have hflat : ∀ l, (rowsOf calls l).map EntryView.ofDto = l.flatMap fun id =>
      ((recordOf id calls).elim [] fun r => r.view.rows).map .ofDto := fun l => List.map_flatMap ..
  show formatTable charWidth formatDuration clock ((rowsOf calls ids).map .ofDto) = _
  rw [hflat, hflat]
  refine formatTable_congr _ _ _ ((horder.perm hids).flatMap_right _)
    (sortBy_flatMap_of_perm (horder.perm hids) ?_)
  intro id _ id' _ a ha b hb hab
  obtain ⟨dto, hdto, rfl⟩ := List.mem_map.1 ha
  obtain ⟨dto', hdto', rfl⟩ := List.mem_map.1 hb
  obtain ⟨record, hrec, hcwd, hbranch⟩ := mem_rowsOf hdto
  obtain ⟨record', hrec', hcwd', hbranch'⟩ := mem_rowsOf hdto'
  obtain ⟨y, hy, hinfo⟩ := hcalls.exists_info hrec
  obtain ⟨z, hz, hinfo'⟩ := hcalls.exists_info hrec'
  obtain ⟨hcwds, hbranches⟩ := EntryView.eq_of_cmp hab
  rw [← hcwd, ← hbranch] at hinfo
  rw [← hcwd', ← hbranch', show dto'.cwd = dto.cwd from hcwds.symm,
    show dto'.branch = dto.branch from hbranches.symm] at hinfo'
  exact congrArg RepoId.mk (hrepo y (hbefore y hy) z (hbefore z hz) _ _ _ _ hinfo hinfo')

open TwoDirs in
theorem stateActor_watch_twoDirs : ∃ calls, ∀ order, Enumerates calls order →
    draw ideographWidth (fun _ => "0s".toList) (fun _ => .ofSecs 6) (some (.entries rows)) =
      (formatTable ideographWidth (fun _ => "0s".toList) (fun _ => .ofSecs 6)
        ((rowsOf calls order).map .ofDto), true) := by
  obtain ⟨evs, S, hr, hserved, hcall, hrecv⟩ := TwoDirs.exists_run
  have hinfo : ∀ x ∈ servedOf evs, x.env.repoInfoFromCwd = (around 0).repoInfoFromCwd := by
    intro x hx
    simp only [hserved, served, List.mem_cons, List.not_mem_nil, or_false] at hx
    rcases hx with rfl | rfl | rfl | rfl <;> rfl
  obtain ⟨-, -, -, calls, p, -, -, -, hp, hdraw⟩ := stateActor_watch hr hcall hrecv
    (fun x hx y hy cwd branch id id' h h' => by
      rw [hinfo x hx] at h
      rw [hinfo y hy, h] at h'
      exact congrArg Prod.fst (Option.some.inj h')) ideographWidth (fun _ => "0s".toList)
    (fun _ => .ofSecs 6)
  obtain rfl := DaemonReply.result.inj hp
  exact ⟨calls, hdraw⟩

end Runs

end MergeReady.Daemon
