import MergeReady.Daemon.Lock

/-!
# Overlapping refreshes

The daemon with its refreshes: every `SpawnRefresh` starts one, numbered in the order of starts, and
each reports at most once, in any order.  A completion carries no number, so an entry has the result
that came in last.
-/

namespace MergeReady.Daemon

open MergeReady.Lib

/-! ## The daemon with its refreshes -/

/-- One background refresh, by the number of its start. -/
structure Refresh where
  seq : ℕ
  repoId : RepoId
deriving DecidableEq

/-- A completion that was applied to an entry. -/
abbrev Applied := Refresh × RefreshCompletedEvent

structure System where
  store : CacheStore
  started : ℕ
  inFlight : List Refresh
  /-- the completions applied to an entry since it was created, oldest first -/
  applied : RepoId → List Applied
  /-- a query has started a refresh of the entry since the last of them -/
  polled : RepoId → Bool

/-- Refreshes numbered from `n` on. -/
def Refresh.number (n : ℕ) : List RepoId → List Refresh
  | [] => []
  | id :: ids => ⟨n, id⟩ :: Refresh.number (n + 1) ids

def Effect.refreshOf : Effect → Option RepoId
  | .spawnRefresh repoId _ => some repoId
  | .emitOutput _ | .recordExpired _ | .enterBackoff _ => none

/-- The call is a query that starts a refresh of `id`. -/
def Call.polls (c : Call) (id : RepoId) : Bool :=
  match c.op with
  | .query id' _ _ => decide (id' = id ∧ id ∈ c.effects.filterMap Effect.refreshOf)
  | .refreshCompleted _ _ | .tick _ | .rateLimit _ => false

namespace System

def init : System :=
  { store := .new, started := 0, inFlight := [], applied := fun _ => [], polled := fun _ => false }

/-- The refreshes that the effects of a call start. -/
def newRefreshes (σ : System) (c : Call) : List Refresh :=
  Refresh.number σ.started (c.effects.filterMap Effect.refreshOf)

/-- After a call that is no completion. -/
def afterCall (σ : System) (c : Call) (store : CacheStore) : System :=
  { store := store
    started := σ.started + (σ.newRefreshes c).length
    inFlight := σ.inFlight ++ σ.newRefreshes c
    applied := fun id => if c.Expires id then [] else σ.applied id
    polled := fun id => !decide (c.Expires id) && (σ.polled id || c.polls id) }

/-- After the completion of `r`, which only a known entry takes. -/
def afterDeliver (σ : System) (r : Refresh) (ev : RefreshCompletedEvent) (store : CacheStore) :
    System :=
  { store := store
    started := σ.started
    inFlight := σ.inFlight.erase r
    applied := Function.update σ.applied r.repoId
      (if (σ.store.entry r.repoId).isSome then σ.applied r.repoId ++ [(r, ev)]
        else σ.applied r.repoId)
    polled := Function.update σ.polled r.repoId false }

end System

inductive Event
  | call (c : Call)
  | deliver (r : Refresh) (ev : RefreshCompletedEvent)

/-- The steps of the daemon with its refreshes. -/
inductive SysStep (σ : System) : Event → System → Prop
  | call {c store} (hop : ∀ id, ¬ c.Completes id) (h : Step σ.store c store) :
      SysStep σ (.call c) (σ.afterCall c store)
  | deliver {r ev effects store} (hr : r ∈ σ.inFlight)
      (h : Step σ.store ⟨.refreshCompleted r.repoId ev, effects⟩ store) :
      SysStep σ (.deliver r ev) (σ.afterDeliver r ev store)

/-! ## The result that came in last -/

/-- The mode of an entry whose last refresh reported `mode`. -/
def modeSince (polled : Bool) (mode : RefreshMode) : RefreshMode :=
  if polled = true ∧ mode = .terminal then .warm else mode

theorem modeSince_modeSince (b b' : Bool) (mode : RefreshMode) :
    modeSince b' (modeSince b mode) = modeSince (b || b') mode := by
  unfold modeSince
  cases b <;> cases b' <;> cases mode <;> rfl

theorem Call.spawns_of_polls {c : Call} {id : RepoId} (h : c.polls id = true) : c.Spawns id := by
  obtain ⟨op, effects⟩ := c
  cases op with
  | query id' ev p =>
    obtain ⟨-, hmem⟩ := of_decide_eq_true h
    obtain ⟨eff, heff, hid⟩ := List.mem_filterMap.1 hmem
    cases eff with
    | spawnRefresh repoId cwd =>
      obtain rfl := Option.some.inj hid
      exact ⟨cwd, heff⟩
    | _ => cases hid
  | _ => cases h

theorem refreshMode_reopenTerminal (e : CacheEntryState) :
    (reopenTerminal e).refreshMode = modeSince true e.refreshMode := by
  unfold reopenTerminal modeSince
  by_cases h : e.refreshMode = .terminal
  · rw [if_pos h, if_pos ⟨rfl, h⟩]
    rfl
  · rw [if_neg h, if_neg fun h' => h h'.2]

/-- Only a query that starts a refresh changes the mode, and only from terminal to warm. -/
theorem EntryStep.refreshMode {s : CacheStore} {id : RepoId} {c : Call} {e e' : CacheEntryState}
    (h : EntryStep s id c (some e) (some e')) (hc : ¬ c.Completes id) :
    e'.refreshMode = modeSince (c.polls id) e.refreshMode := by
  have hanswered : ∀ ev p out, (Call.mk (.query id ev p) [.emitOutput out]).polls id = false := by
    simp [Call.polls, Effect.refreshOf]
  cases h with
  | frame _ hn =>
    rw [Bool.eq_false_of_not_eq_true fun h => hn (Call.spawns_of_polls h)]
    rfl
  | fresh =>
    rw [hanswered]
    rfl
  | busy =>
    rw [hanswered]
    exact refreshMode_thawCold _ _ _
  | stale =>
    have hpolls : ∀ ev p out cwd, (Call.mk (.query id ev p)
        [.emitOutput out, .spawnRefresh id cwd]).polls id = true := by
      simp [Call.polls, Effect.refreshOf]
    rw [hpolls, CacheEntryState.refreshMode_withMarkRefreshing, refreshMode_reopenTerminal]
    exact congrArg _ (refreshMode_thawCold _ _ _)
  | completed => exact absurd ⟨_, rfl⟩ hc
  | ticked _ _ ht =>
    cases ht with
    | inactive => rfl
    | locked => rfl
    | waiting => exact refreshMode_releaseExpiredLock _ _
    | spawned =>
      exact (refreshMode_countColdRefresh _ _).trans (refreshMode_releaseExpiredLock _ _)

/-- The entry `o` has the result of the last of the completions applied to it. -/
inductive LastResult : Option CacheEntryState → List Applied → Bool → Prop
  | absent {b} : LastResult none [] b
  | waiting {e b} (hf : e.hasFetched = false) : LastResult (some e) [] b
  | stored {e before r ev b} (hf : e.hasFetched = true) (ho : e.output = ev.output)
      (hp : e.prOutputs = ev.prOutputs) (hm : e.refreshMode = modeSince b ev.refreshMode) :
      LastResult (some e) (before ++ [(r, ev)]) b

/-- A call that is no completion of the entry keeps its last result, or removes the entry. -/
theorem LastResult.call {s : CacheStore} {id : RepoId} {c : Call} {o o' : Option CacheEntryState}
    {l : List Applied} {b : Bool} (h : LastResult o l b) (hst : EntryStep s id c o o')
    (hc : ¬ c.Completes id) :
    LastResult o' (if c.Expires id then [] else l)
      (!decide (c.Expires id) && (b || c.polls id)) := by
  by_cases hx : c.Expires id
  · rw [if_pos hx, hst.expires hx]
    exact .absent
  rw [if_neg hx, decide_eq_false hx, Bool.not_false, Bool.true_and]
  cases h with
  | absent =>
    cases o' with
    | none => exact .absent
    | some e' => exact .waiting hst.not_hasFetched_of_created
  | waiting hf =>
    obtain ⟨e', rfl, hs⟩ := hst.sameResult hc hx
    exact .waiting (hs.hasFetched.trans hf)
  | stored hf ho hp hm =>
    obtain ⟨e', rfl, hs⟩ := hst.sameResult hc hx
    refine .stored (hs.hasFetched.trans hf) (hs.output.trans ho) (hs.prOutputs.trans hp) ?_
    rw [hst.refreshMode hc, hm, modeSince_modeSince]

theorem LastResult.deliver {s : CacheStore} {r : Refresh} {ev : RefreshCompletedEvent}
    {effects : List Effect} {o o' : Option CacheEntryState} {l : List Applied} {b : Bool}
    (h : LastResult o l b)
    (hst : EntryStep s r.repoId ⟨.refreshCompleted r.repoId ev, effects⟩ o o') :
    LastResult o' (if o.isSome then l ++ [(r, ev)] else l) false := by
  cases o with
  | none =>
    rw [hst.none_of_completes]
    cases h
    exact .absent
  | some e =>
    rw [hst.completes]
    exact .stored rfl rfl rfl rfl

theorem LastResult.step {σ σ' : System} {event : Event} (h : SysStep σ event σ')
    (hl : ∀ id, LastResult (σ.store.entry id) (σ.applied id) (σ.polled id)) (id : RepoId) :
    LastResult (σ'.store.entry id) (σ'.applied id) (σ'.polled id) := by
  cases h with
  | call hop hst => exact (hl id).call (hst.entryStep id) (hop id)
  | @deliver r ev effects store hr hst =>
    show LastResult (store.entry id) (Function.update σ.applied r.repoId _ id)
      (Function.update σ.polled r.repoId false id)
    by_cases hid : id = r.repoId
    · subst hid
      rw [Function.update_self, Function.update_self]
      exact (hl r.repoId).deliver (hst.entryStep r.repoId)
    · rw [Function.update_of_ne hid, Function.update_of_ne hid,
        (hst.entryStep id).eq_of_completes_ne hid]
      exact hl id

/-- **An entry has the result that came in last**, along every run. -/
theorem LastResult.run {events : List Event} {σ : System} (hr : Run SysStep .init events σ)
    (id : RepoId) : LastResult (σ.store.entry id) (σ.applied id) (σ.polled id) :=
  Run.invariant (P := fun σ => ∀ id, LastResult (σ.store.entry id) (σ.applied id) (σ.polled id))
    (fun _ _ _ hl hst => LastResult.step hst hl) hr (fun _ => .absent) id

/-! ## The newest result -/

def InStartOrder (l : List Applied) : Prop := l.Pairwise fun x y => x.1.seq ≤ y.1.seq

/-- `x` is of the refresh started last among those of `l`. -/
def Newest (x : Applied) (l : List Applied) : Prop := x ∈ l ∧ ∀ y ∈ l, y.1.seq ≤ x.1.seq

theorem newest_of_inStartOrder {before : List Applied} {x : Applied}
    (h : InStartOrder (before ++ [x])) : Newest x (before ++ [x]) := by
  refine ⟨List.mem_append_right _ List.mem_cons_self, ?_⟩
  intro y hy
  rcases List.mem_append.1 hy with hy | hy
  · exact (List.pairwise_append.1 h).2.2 y hy x List.mem_cons_self
  · obtain rfl := List.mem_singleton.1 hy
    exact le_refl _

/-- A completion releases the lock of its entry, whichever refresh holds it. -/
theorem SysStep.deliver_releases {σ σ' : System} {r : Refresh} {ev : RefreshCompletedEvent}
    (h : SysStep σ (.deliver r ev) σ') {e : CacheEntryState}
    (he : σ.store.entry r.repoId = some e) :
    ∃ e', σ'.store.entry r.repoId = some e' ∧ e'.isRefreshing = false ∧
      e'.refreshStartedAt = none := by
  cases h with
  | deliver _ hst =>
    have hstep := hst.entryStep r.repoId
    rw [he] at hstep
    exact ⟨_, hstep.completes, rfl, rfl⟩

/-- **What an entry stores.**  In every reachable state an entry has a result once a completion was
applied to it, the result of the completion applied last, its mode warm instead of terminal exactly
if a query has started a refresh since.  When the completions came in start order, that is the newest
one.  A completion releases the lock, whichever refresh holds it. -/
theorem stores_last_applied {events : List Event} {σ : System} (hr : Run SysStep .init events σ)
    {id : RepoId} {e : CacheEntryState} (he : σ.store.entry id = some e) :
    (σ.applied id = [] → e.hasFetched = false) ∧
    (∀ before x, σ.applied id = before ++ [x] →
      (e.hasFetched = true ∧ e.output = x.2.output ∧ e.prOutputs = x.2.prOutputs ∧
        e.refreshMode = if σ.polled id = true ∧ x.2.refreshMode = .terminal then .warm
          else x.2.refreshMode) ∧
      (InStartOrder (σ.applied id) → Newest x (σ.applied id))) ∧
    (∀ r ev σ', r.repoId = id → SysStep σ (.deliver r ev) σ' →
      ∃ e', σ'.store.entry id = some e' ∧ e'.isRefreshing = false ∧
        e'.refreshStartedAt = none) := by
  have hlast := LastResult.run hr id
  rw [he] at hlast
  refine ⟨?_, ?_, ?_⟩
  · intro hnil
    rw [hnil] at hlast
    generalize hl : ([] : List Applied) = l at hlast
    cases hlast with
    | waiting hf => exact hf
    | stored => simp at hl
  · intro before x hx
    refine ⟨?_, ?_⟩
    · rw [hx] at hlast
      generalize hl : before ++ [x] = l at hlast
      cases hlast with
      | waiting => simp at hl
      | stored hf ho hp hm =>
        obtain ⟨-, hlx⟩ := List.append_inj' hl rfl
        obtain rfl := List.singleton_inj.1 hlx
        exact ⟨hf, ho, hp, hm⟩
    · rw [hx]
      exact newest_of_inStartOrder
  · intro r ev σ' hid hst
    subst hid
    exact hst.deliver_releases he

/-! ### A slow refresh and its retry -/

/-- The result of the newest completed refresh is stored. -/
def NewestStored (σ : System) (id : RepoId) : Prop :=
  ∀ e x, σ.store.entry id = some e → Newest x (σ.applied id) →
    e.output = x.2.output ∧ e.prOutputs = x.2.prOutputs ∧ e.refreshMode = x.2.refreshMode

/-- The completion of `r` leaves its entry locked while a refresh started later is in flight. -/
def KeepsLaterLock (σ : System) (r : Refresh) (σ' : System) : Prop :=
  ∀ r' ∈ σ.inFlight, r'.repoId = r.repoId → r.seq < r'.seq →
    ∀ e e', σ.store.entry r.repoId = some e → e.isRefreshing = true →
      σ'.store.entry r.repoId = some e' → e'.isRefreshing = true

namespace Lost

def report (output : String) (at_ : UInt32) : RefreshCompletedEvent :=
  { output := output, prOutputs := [], refreshMode := .hot, now := .ofSecs at_
    nowWall := .ofSecs at_ }

def tickAt (at_ : UInt32) : Op := DaemonServerConfig.defaults.tick (.ofSecs at_) (.ofSecs at_)

/-- The second refresh is slow: at 124 s its lock has expired and a third one starts. -/
def retriedEntry : CacheEntryState :=
  laterEntry.withClearRefreshLock.withMarkRefreshing (.ofSecs 124)

/-- The third refresh reports at 125 s. -/
def newerEntry : CacheEntryState :=
  retriedEntry.withRefreshCompleted "✗ CI failed" [] .hot (.ofSecs 125) (.ofSecs 125)

/-- A fourth refresh is running since 136 s. -/
def fourthEntry : CacheEntryState := newerEntry.withMarkRefreshing (.ofSecs 136)

/-- The second refresh reports at last, at 137 s. -/
def olderEntry : CacheEntryState :=
  fourthEntry.withRefreshCompleted "✓ Ready for merge" [] .hot (.ofSecs 137) (.ofSecs 137)

def refresh (seq : ℕ) : Refresh := ⟨seq, repo⟩

def firstCall : Call := ⟨firstQuery, [.emitOutput loadingOutput, .spawnRefresh repo "/repo"]⟩

/-- A tick that starts a refresh. -/
def spawnAt (at_ : UInt32) : Call := ⟨tickAt at_, [.spawnRefresh repo "/repo"]⟩

/-- The daemon while the second and the third refresh are running. -/
def retried : System :=
  (((System.init.afterCall firstCall (.single repo firstEntry)).afterDeliver (refresh 0)
    (report "✓ Ready for merge" 1) (.single repo fetchedEntry)).afterCall (spawnAt 3)
    (.single repo laterEntry)).afterCall (spawnAt 124) (.single repo retriedEntry)

/-- The daemon while the second and the fourth refresh are running. -/
def overlapping : System :=
  (retried.afterDeliver (refresh 2) (report "✗ CI failed" 125) (.single repo newerEntry)).afterCall
    (spawnAt 136) (.single repo fourthEntry)

def superseded : System :=
  overlapping.afterDeliver (refresh 1) (report "✓ Ready for merge" 137) (.single repo olderEntry)

def events : List Event :=
  [.call firstCall, .deliver (refresh 0) (report "✓ Ready for merge" 1), .call (spawnAt 3),
    .call (spawnAt 124), .deliver (refresh 2) (report "✗ CI failed" 125), .call (spawnAt 136)]

theorem not_completes_firstCall (id : RepoId) : ¬ firstCall.Completes id := by
  rintro ⟨ev, hop⟩
  cases hop

theorem not_completes_spawnAt (at_ : UInt32) (id : RepoId) : ¬ (spawnAt at_).Completes id := by
  rintro ⟨ev, hop⟩
  cases hop

/-- A refresh that finds the PR merged, and a query long after it. -/
def mergedReport : RefreshCompletedEvent := { report "✓ Merged" 1 with refreshMode := .terminal }

def lateCall : Call :=
  ⟨DaemonServerConfig.defaults.processQuery repo "main" "/repo" (.ofSecs 1000) (.ofSecs 1000),
    [.emitOutput "✓ Merged", .spawnRefresh repo "/repo"]⟩

def mergedEntry : CacheEntryState :=
  firstEntry.withRefreshCompleted "✓ Merged" [] .terminal (.ofSecs 1) (.ofSecs 1)

def reopenedEntry : CacheEntryState :=
  ((mergedEntry.withRecordQuery (.ofSecs 1000)).withResetToWarm).withMarkRefreshing (.ofSecs 1000)

def reopened : System :=
  ((System.init.afterCall firstCall (.single repo firstEntry)).afterDeliver (refresh 0)
    mergedReport (.single repo mergedEntry)).afterCall lateCall (.single repo reopenedEntry)

theorem run_reopened :
    Run SysStep .init [.call firstCall, .deliver (refresh 0) mergedReport, .call lateCall]
      reopened := by
  refine .cons (.call not_completes_firstCall (Step.of_run rfl)) ?_
  refine .cons (.deliver (by decide) (Step.of_run rfl)) ?_
  refine .cons (.call ?_ (Step.of_run rfl)) (.nil _)
  rintro id ⟨ev, hop⟩
  cases hop

theorem run_overlapping : Run SysStep .init events overlapping := by
  refine .cons (.call not_completes_firstCall (Step.of_run rfl)) ?_
  refine .cons (.deliver (by decide) (Step.of_run rfl)) ?_
  refine .cons (.call (not_completes_spawnAt 3) (Step.of_run rfl)) ?_
  refine .cons (.call (not_completes_spawnAt 124) (Step.of_run rfl)) ?_
  refine .cons (.deliver (by decide) (Step.of_run rfl)) ?_
  exact .cons (.call (not_completes_spawnAt 136) (Step.of_run rfl)) (.nil _)

theorem step_superseded :
    SysStep overlapping (.deliver (refresh 1) (report "✓ Ready for merge" 137)) superseded :=
  .deliver (by decide) (Step.of_run rfl)

end Lost

open Lost in
/-- An older result stored over a newer one, and a merged PR that a query has reopened. -/
theorem stores_last_applied_superseded :
    (olderEntry.hasFetched = true ∧ olderEntry.output = "✓ Ready for merge" ∧
      olderEntry.prOutputs = [] ∧ olderEntry.refreshMode = .hot) ∧
    reopenedEntry.output = "✓ Merged" ∧ reopenedEntry.refreshMode = .warm := by
  have he : superseded.store.entry repo = some olderEntry := rfl
  have hall := stores_last_applied (run_overlapping.snoc step_superseded) he
  have he' : reopened.store.entry repo = some reopenedEntry := rfl
  have hall' := stores_last_applied run_reopened he'
  refine ⟨?_, ?_⟩
  · exact (hall.2.1 [(refresh 0, report "✓ Ready for merge" 1),
      (refresh 2, report "✗ CI failed" 125)] (refresh 1, report "✓ Ready for merge" 137) rfl).1
  · obtain ⟨-, hout, -, hmode⟩ := (hall'.2.1 [] (refresh 0, mergedReport) rfl).1
    exact ⟨hout, hmode⟩

open Lost in
/-- The second refresh, reporting after the third, overwrites its result, and releases the lock that
the fourth one holds. -/
theorem superseded_overwrites :
    ∃ events σ r ev σ', Run SysStep .init events σ ∧ SysStep σ (.deliver r ev) σ' ∧
      ¬ NewestStored σ' r.repoId ∧ ¬ KeepsLaterLock σ r σ' := by
  refine ⟨events, overlapping, refresh 1, report "✓ Ready for merge" 137, superseded,
    run_overlapping, step_superseded, ?_, ?_⟩
  · intro h
    have hnewest : Newest (refresh 2, report "✗ CI failed" 125) (superseded.applied repo) := by
      refine ⟨List.mem_cons_of_mem _ List.mem_cons_self, ?_⟩
      intro y hy
      rcases List.mem_cons.1 hy with rfl | hy
      · decide
      rcases List.mem_cons.1 hy with rfl | hy
      · decide
      · obtain rfl := List.mem_singleton.1 hy
        decide
    have hout := (h olderEntry _ rfl hnewest).1
    revert hout
    decide
  · intro h
    have hlock := h (refresh 3) (by decide) rfl (by decide) fourthEntry olderEntry rfl (by decide) rfl
    revert hlock
    decide

end MergeReady.Daemon
