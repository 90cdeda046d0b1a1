import MergeReady.Daemon.Config

/-!
# Independent operations

A query and a completed refresh each look up one row of the table and write that row back.  An
operation of this kind is `Local` to its id; two operations local to different ids commute.
-/

namespace MergeReady.Daemon

open MergeReady.Lib

/-! ## Operations on one row -/

/-- The operation reads the entry of `id`, and does nothing but overwrite it: the entry it finds
determines what it writes and the effects it returns. -/
def Local (id : RepoId) (op : CacheStore → CacheStore × List Effect) : Prop :=
  ∀ found, ∃ written effects, ∀ s : CacheStore, s.entry id = found →
    op s = (s.withEntries (s.entries.put id written), effects)

/-- From `s` to `s'` at most the entry of `id` has changed. -/
structure OnlyEntry (id : RepoId) (s s' : CacheStore) : Prop where
  others : ∀ id', id' ≠ id → s'.entry id' = s.entry id'
  latestRateLimit : s'.latestRateLimit = s.latestRateLimit
  backoffUntil : s'.backoffUntil = s.backoffUntil

namespace Local

variable {id id' : RepoId} {f g : CacheStore → CacheStore × List Effect}

theorem onlyEntry (h : Local id f) (s : CacheStore) : OnlyEntry id s (f s).1 := by
  obtain ⟨written, effects, hf⟩ := h (s.entry id)
  rw [hf s rfl]
  refine ⟨?_, rfl, rfl⟩
  intro id' hne
  exact Table.lookup_put_of_ne hne

/-- **Operations on different rows commute.** -/
theorem comm (hf : Local id f) (hg : Local id' g) (hne : id ≠ id') (s : CacheStore) :
    (g (f s).1).1.Same (f (g s).1).1 ∧ (g (f s).1).2 = (g s).2 ∧ (f (g s).1).2 = (f s).2 := by
  have hf_keeps : (f s).1.entry id' = s.entry id' := (hf.onlyEntry s).others id' hne.symm
  have hg_keeps : (g s).1.entry id = s.entry id := (hg.onlyEntry s).others id hne
  obtain ⟨writtenF, effectsF, hf⟩ := hf (s.entry id)
  obtain ⟨writtenG, effectsG, hg⟩ := hg (s.entry id')
  rw [hg _ hf_keeps, hf _ hg_keeps, hf s rfl, hg s rfl]
  refine ⟨⟨?_, rfl, rfl⟩, rfl, rfl⟩
  exact Table.put_comm s.entries hne writtenF writtenG

end Local

/-! ## Queries and completions -/

theorem local_onQuery (id : RepoId) (ev : QueryEvent) (p : RefreshPolicy) :
    Local id fun s => onQuery s ev id p := by
  intro found
  rcases found with _ | e
  · refine ⟨some (.newLoading ev.cwd ev.branch ev.staleTtl ev.now ev.nowWall),
      [.emitOutput loadingOutput, .spawnRefresh id ev.cwd], ?_⟩
    intro s hs
    simp only [onQuery, hs]
    rfl
  · by_cases hf : isFresh e (p.effectiveTtl e ev.staleTtl) ev.now = true
    · refine ⟨some (e.withRecordQuery ev.now), [.emitOutput e.output], ?_⟩
      intro s hs
      simp only [onQuery, hs, if_pos hf]
      rfl
    · by_cases hr : e.isRefreshing = true
      · refine ⟨some ((thawCold p ev.now e).withRecordQuery ev.now),
          [.emitOutput (if e.hasFetched then e.output else loadingOutput)], ?_⟩
        intro s hs
        simp only [onQuery, hs, if_neg hf, if_pos hr]
        rfl
      · refine ⟨some ((reopenTerminal ((thawCold p ev.now e).withRecordQuery
          ev.now)).withMarkRefreshing ev.now), [.emitOutput e.output, .spawnRefresh id e.cwd], ?_⟩
        intro s hs
        simp only [onQuery, hs, if_neg hf, if_neg hr]
        rfl

theorem onRefreshCompleted_unknown {s : CacheStore} {id : RepoId} (h : s.entry id = none)
    (ev : RefreshCompletedEvent) : onRefreshCompleted s id ev = (s, []) := by
  simp only [onRefreshCompleted, h]

theorem local_onRefreshCompleted (id : RepoId) (ev : RefreshCompletedEvent) :
    Local id fun s => onRefreshCompleted s id ev := by
  intro found
  rcases found with _ | e
  · refine ⟨none, [], ?_⟩
    intro s hs
    exact onRefreshCompleted_unknown hs ev
  · refine ⟨some (e.withRefreshCompleted ev.output ev.prOutputs ev.refreshMode ev.now ev.nowWall),
      [], ?_⟩
    intro s hs
    simp only [onRefreshCompleted, hs]
    rfl

/-! ## The calls of a client and of a finished refresh -/

/-- The id a query or a completion is about; the other calls are about all of them. -/
def Op.target : Op → Option RepoId
  | query repoId _ _ => some repoId
  | refreshCompleted repoId _ => some repoId
  | tick _ => none
  | rateLimit _ => none

/-- A call about one id does not panic and is local to that id. -/
theorem Op.local_of_target {x : Op} {id : RepoId} (h : x.target = some id) :
    ∃ f, Local id f ∧ ∀ s, x.run s = .ok (f s) := by
  cases x with
  | query id' ev p =>
    obtain rfl := Option.some.inj h
    exact ⟨_, local_onQuery id' ev p, fun _ => rfl⟩
  | refreshCompleted id' ev =>
    obtain rfl := Option.some.inj h
    exact ⟨_, local_onRefreshCompleted id' ev, fun _ => rfl⟩
  | tick input => cases h
  | rateLimit ev => cases h

/-- **Calls about different ids are independent**: in both orders they lead to the same store and
return the same effects, each leaves everything but its own entry alone, and a completion for an
unknown id leaves the whole store alone. -/
theorem Op.independent {x y : Op} {a b : RepoId} (hx : x.target = some a) (hy : y.target = some b)
    (hne : a ≠ b) (s : CacheStore) :
    (∃ sx sy sxy syx effectsX effectsY,
      x.run s = .ok (sx, effectsX) ∧ y.run sx = .ok (sxy, effectsY) ∧
      y.run s = .ok (sy, effectsY) ∧ x.run sy = .ok (syx, effectsX) ∧
      sxy.Same syx ∧ OnlyEntry a s sx ∧ OnlyEntry b s sy ∧ OnlyEntry b sx sxy ∧
      OnlyEntry a sy syx) ∧
      ∀ id ev, s.entry id = none → Op.run s (.refreshCompleted id ev) = .ok (s, []) := by
  obtain ⟨f, hf, hrunX⟩ := Op.local_of_target hx
  obtain ⟨g, hg, hrunY⟩ := Op.local_of_target hy
  obtain ⟨hsame, heffY, heffX⟩ := hf.comm hg hne s
  refine ⟨⟨(f s).1, (g s).1, (g (f s).1).1, (f (g s).1).1, (f s).2, (g s).2, ?_⟩, ?_⟩
  · refine ⟨hrunX s, ?_, hrunY s, ?_, hsame, hf.onlyEntry s, hg.onlyEntry s, hg.onlyEntry _,
      hf.onlyEntry _⟩
    · rw [hrunY, ← heffY]
    · rw [hrunX, ← heffX]
  · intro id ev hnone
    show Except.ok (onRefreshCompleted s id ev) = _
    rw [onRefreshCompleted_unknown hnone ev]

namespace TwoRepos

/-- Two clients ask about two repositories. -/
def queryA : Op :=
  DaemonServerConfig.defaults.processQuery ⟨"a"⟩ "main" "/a" (.ofSecs 9) (.ofSecs 9)

def queryB : Op :=
  DaemonServerConfig.defaults.processQuery ⟨"b"⟩ "dev" "/b" (.ofSecs 10) (.ofSecs 10)

end TwoRepos

open TwoRepos in
theorem Op.independent_twoRepos :
    ∃ s t effectsA effectsB,
      exec .new [queryA, queryB] = .ok (s, [⟨queryA, effectsA⟩, ⟨queryB, effectsB⟩]) ∧
      exec .new [queryB, queryA] = .ok (t, [⟨queryB, effectsB⟩, ⟨queryA, effectsA⟩]) ∧
      s.Same t := by
  obtain ⟨⟨sx, sy, s, t, effectsA, effectsB, hA, hAB, hB, hBA, hsame, -⟩, -⟩ :=
    Op.independent (show queryA.target = some ⟨"a"⟩ from rfl)
      (show queryB.target = some ⟨"b"⟩ from rfl) (by decide) .new
  refine ⟨s, t, effectsA, effectsB, ?_, ?_, hsame⟩
  · simp only [exec, hA, hAB, ok_bind]
    rfl
  · simp only [exec, hB, hBA, ok_bind]
    rfl

end MergeReady.Daemon
