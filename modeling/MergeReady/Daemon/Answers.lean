import MergeReady.Daemon.SingleFlight

/-!
# Answers

What the daemon is for, seen by a client: a map from repositories to the output of their latest
refresh.  `resultAfter` is that map, one repository at a time, stepped by the calls alone; `Shows`
relates an entry of the store to it.  A query is answered from the map.
-/

namespace MergeReady.Daemon

open MergeReady.Lib

/-! ## The result map -/

/-- The result of one repository: `none` — no entry, `some none` — an entry but no result yet,
`some (some output)` — the output of the latest refresh since the entry was created. -/
abbrev Result := Option (Option String)

/-- The result of `id` after a call. -/
def resultAfter (id : RepoId) (r : Result) (c : Call) : Result :=
  if c.Expires id then none
  else
    match c.op with
    | .query id' _ _ => if id' = id then some r.join else r
    | .refreshCompleted id' ev => if id' = id then r.map fun _ => some ev.output else r
    | .tick _ => r
    | .rateLimit _ => r

section ResultAfter

variable {id id' : RepoId} {r : Result} {ev : QueryEvent} {p : RefreshPolicy}
  {done : RefreshCompletedEvent} {effects : List Effect}

theorem resultAfter_of_expires {c : Call} (h : c.Expires id) : resultAfter id r c = none := if_pos h

theorem resultAfter_query (h : ¬ (Call.mk (.query id ev p) effects).Expires id) :
    resultAfter id r ⟨.query id ev p, effects⟩ = some r.join :=
  (if_neg h).trans (if_pos rfl)

theorem resultAfter_refreshCompleted (h : ¬ (Call.mk (.refreshCompleted id done) effects).Expires id) :
    resultAfter id r ⟨.refreshCompleted id done, effects⟩ = r.map fun _ => some done.output :=
  (if_neg h).trans (if_pos rfl)

/-- A call that leaves the entry alone leaves its result alone. -/
theorem resultAfter_of_leavesAlone {s : CacheStore} {c : Call} {o : Option CacheEntryState}
    (hop : c.op.LeavesAlone s id o) (hnone : o = none → r = none) (h : ¬ c.Expires id) :
    resultAfter id r c = r := by
  obtain ⟨op, effects⟩ := c
  refine (if_neg h).trans ?_
  cases op with
  | query id' ev p => exact if_neg hop
  | refreshCompleted id' ev =>
    by_cases hid : id' = id
    · rw [hnone (hop.resolve_left fun hne => hne hid)]
      exact if_pos hid
    · exact if_neg hid
  | tick => rfl
  | rateLimit => rfl

end ResultAfter

/-- The result of `id` after the calls of a run from the empty store. -/
def resultOf (id : RepoId) (calls : List Call) : Result := calls.foldl (resultAfter id) none

/-- What a client is told. -/
def answer (r : Result) : String := r.join.getD loadingOutput

@[simp] theorem resultOf_nil (id : RepoId) : resultOf id [] = none := rfl

@[simp] theorem resultOf_snoc (id : RepoId) (calls : List Call) (c : Call) :
    resultOf id (calls ++ [c]) = resultAfter id (resultOf id calls) c := by
  unfold resultOf
  rw [List.foldl_append]
  rfl

/-- Only completions bring in a result. -/
theorem eq_of_resultAfter_eq_output {id : RepoId} {r : Result} {c : Call} {out : String}
    (h : resultAfter id r c = some (some out)) (hx : ¬ c.Expires id) (hc : ¬ c.Completes id) :
    r = some (some out) := by
  unfold resultAfter at h
  rw [if_neg hx] at h
  cases hop : c.op with
  | query id' ev p =>
    rw [hop] at h
    dsimp only at h
    split at h
    · exact Option.join_eq_some_iff.1 (Option.some.inj h)
    · exact h
  | refreshCompleted id' ev =>
    rw [hop] at h
    dsimp only at h
    split at h
    · rename_i hid
      exact absurd ⟨ev, hid ▸ hop⟩ hc
    · exact h
  | tick => rw [hop] at h; exact h
  | rateLimit => rw [hop] at h; exact h

/-- A result is the output of a completed refresh, with no completion and no removal since. -/
theorem resultOf_output {id : RepoId} {calls : List Call} {out : String}
    (h : resultOf id calls = some (some out)) :
    ∃ before c since ev, calls = before ++ c :: since ∧ c.op = .refreshCompleted id ev ∧
      ev.output = out ∧ ∀ d ∈ since, ¬ d.Completes id ∧ ¬ d.Expires id := by
  induction calls using List.reverseRecOn with
  | nil => cases h
  | append_singleton calls c ih =>
    rw [resultOf_snoc] at h
    by_cases hx : c.Expires id
    · rw [resultAfter_of_expires hx] at h
      cases h
    by_cases hc : c.Completes id
    · obtain ⟨ev, hop⟩ := hc
      obtain ⟨op, effects⟩ := c
      dsimp only at hop
      subst hop
      rw [resultAfter_refreshCompleted hx] at h
      obtain ⟨-, -, hout⟩ := Option.map_eq_some_iff.1 h
      exact ⟨calls, _, [], ev, rfl, rfl, Option.some.inj hout, by simp⟩
    · have hprev := eq_of_resultAfter_eq_output h hx hc
      obtain ⟨before, d, since, ev, rfl, hd, hout, hsince⟩ := ih hprev
      refine ⟨before, d, since ++ [c], ev, by simp, hd, hout, ?_⟩
      intro d' hd'
      rcases List.mem_append.1 hd' with hd' | hd'
      · exact hsince d' hd'
      · obtain rfl := List.mem_singleton.1 hd'
        exact ⟨hc, hx⟩

/-! ## What an entry shows -/

/-- The span of `ttl + 1` seconds, in nanoseconds. -/
def backdate (ttl : UInt64) : ℤ := (ttl.toNat + 1) * 1000000000

/-- The entry `o` shows the result `r` after the calls `calls`.  A waiting entry is put `ttl + 1`
seconds before the query that created it. -/
inductive Shows (ttl : UInt64) (calls : List Call) : Option CacheEntryState → Result → Prop
  | absent : Shows ttl calls none none
  | waiting {e c} (hf : e.fetchState = .loading) (ho : e.output = "") (hm : e.refreshMode = .warm)
      (hc : c ∈ calls) (hat : e.fetchedAt.nanos = c.op.now.nanos - backdate ttl) :
      Shows ttl calls (some e) (some none)
  | fetched {e} (hf : e.hasFetched = true) : Shows ttl calls (some e) (some (some e.output))

namespace Shows

variable {ttl : UInt64} {calls calls' : List Call} {o : Option CacheEntryState}
  {e e' : CacheEntryState} {r : Result}

theorem mono (h : Shows ttl calls o r) (hsub : ∀ c ∈ calls, c ∈ calls') :
    Shows ttl calls' o r := by
  cases h with
  | absent => exact .absent
  | waiting hf ho hm hc hat => exact .waiting hf ho hm (hsub _ hc) hat
  | fetched hf => exact .fetched hf

theorem some_join (h : Shows ttl calls (some e) r) : some r.join = r := by
  cases h <;> rfl

theorem congr (h : Shows ttl calls (some e) r) (hf : e'.fetchState = e.fetchState)
    (ho : e'.output = e.output) (hm : e'.refreshMode = e.refreshMode)
    (hat : e'.fetchedAt = e.fetchedAt) : Shows ttl calls (some e') r := by
  cases h with
  | waiting hf' ho' hm' hc hat' =>
    exact .waiting (hf.trans hf') (ho.trans ho') (hm.trans hm') hc (by rw [hat]; exact hat')
  | fetched hf' =>
    rw [← ho]
    exact .fetched ((CacheEntryState.hasFetched_congr hf).trans hf')

theorem of_sameResult (h : Shows ttl calls (some e) r) (hf : e.hasFetched = true)
    (hs : SameResult e e') : Shows ttl calls (some e') r := by
  cases h with
  | waiting hl =>
    rw [CacheEntryState.hasFetched_of_loading hl] at hf
    cases hf
  | fetched =>
    rw [← hs.output]
    exact .fetched (hs.hasFetched.trans hf)

/-- An entry that holds no lock, or that is active, has a result. -/
theorem hasFetched_of_idle (h : Shows ttl calls (some e) r) (hr : e.isRefreshing = false) :
    e.hasFetched = true := by
  cases h with
  | waiting hl =>
    rw [CacheEntryState.isRefreshing_of_loading hl] at hr
    cases hr
  | fetched hf => exact hf

theorem hasFetched_of_active (h : Shows ttl calls (some e) r) (ha : e.isActive = true) :
    e.hasFetched = true := by
  cases h with
  | waiting _ ho => exact absurd ho ((CacheEntryState.isActive_iff e).1 ha).1
  | fetched hf => exact hf

end Shows

/-- Every query of the list has the time to live `ttl`, and the span it is put back by leads to a
representable time. -/
def QueriesUse (ttl : UInt64) (calls : List Call) : Prop :=
  ∀ c ∈ calls, ∀ id ev p, c.op = .query id ev p → ev.staleTtl = ttl ∧
    -(2 ^ 63 * 1000000000) ≤ ev.now.nanos - backdate ttl

theorem fetchedAt_newLoading {cwd branch : String} {ttl : UInt64} {now : Instant}
    {nowWall : SystemTime} (h : -(2 ^ 63 * 1000000000) ≤ now.nanos - backdate ttl) :
    (CacheEntryState.newLoading cwd branch ttl now nowWall).fetchedAt.nanos =
      now.nanos - backdate ttl := by
  have hmax := now.lt_max
  unfold backdate at *
  have hspan : (Duration.ofSecs (satAdd ttl 1)).nanos = (ttl.toNat + 1) * 1000000000 := by
    rw [Duration.nanos_ofSecs, toNat_satAdd, UInt64.toNat_one]
    -- the span is shorter than the range of the clock, so the sum of seconds does not saturate
    omega
  obtain ⟨past, hpast⟩ : ∃ past, now.checkedSub (Duration.ofSecs (satAdd ttl 1)) = some past := by
    unfold Timespec.checkedSub
    rw [dif_pos (by rw [hspan]; omega)]
    exact ⟨_, rfl⟩
  have hat := Timespec.checkedSub_eq_some.1 hpast
  show ((now.checkedSub (Duration.ofSecs (satAdd ttl 1))).getD now).nanos = _
  rw [hpast, Option.getD_some, hat, hspan]
  omega

/-- **A step keeps what an entry shows in step with the result map.** -/
theorem Shows.step {ttl : UInt64} {calls : List Call} {s : CacheStore} {id : RepoId} {c : Call}
    {o o' : Option CacheEntryState} {r : Result} (h : Shows ttl calls o r)
    (hst : EntryStep s id c o o') (huse : QueriesUse ttl [c]) :
    Shows ttl (calls ++ [c]) o' (resultAfter id r c) := by
  have h' : Shows ttl (calls ++ [c]) o r := h.mono fun d hd => List.mem_append_left _ hd
  have hmem : c ∈ calls ++ [c] := List.mem_append_right _ List.mem_cons_self
  cases hst with
  | frame hop _ hx =>
    rw [resultAfter_of_leavesAlone hop (fun ho => by subst ho; cases h; rfl) hx]
    exact h'
  | fresh =>
    rw [resultAfter_query, h.some_join]
    · exact h'.congr rfl rfl rfl rfl
    · simp [Call.Expires]
  | busy =>
    rw [resultAfter_query, h.some_join]
    · exact h'.congr (by simp) (output_thawCold _ _ _) (refreshMode_thawCold _ _ _)
        (fetchedAt_thawCold _ _ _)
    · simp [Call.Expires]
  | stale _ hidle =>
    rw [resultAfter_query, h.some_join]
    · exact h'.of_sameResult (h.hasFetched_of_idle hidle) (.stale _ _ _)
    · simp [Call.Expires]
  | miss =>
    cases h
    rw [resultAfter_query]
    · obtain ⟨rfl, hrep⟩ := huse _ List.mem_cons_self _ _ _ rfl
      exact .waiting rfl rfl rfl hmem (fetchedAt_newLoading hrep)
    · simp [Call.Expires]
  | completed =>
    rw [resultAfter_refreshCompleted, ← h.some_join, Option.map_some]
    · exact .fetched rfl
    · simp [Call.Expires]
  | expired _ _ _ hx =>
    rw [resultAfter_of_expires hx]
    exact .absent
  | ticked _ _ ht _ hx =>
    rw [show resultAfter id r _ = r from if_neg hx]
    cases ht with
    | inactive => exact h'
    | locked => exact h'
    | waiting ha => exact h'.of_sameResult (h.hasFetched_of_active ha) (.waiting _ _)
    | spawned ha => exact h'.of_sameResult (h.hasFetched_of_active ha) (.spawned _ _)

/-- **The entries of the store show the result map**, along every run. -/
theorem Shows.run {ttl : UInt64} {calls : List Call} {s : CacheStore}
    (hr : Run Step .new calls s) (huse : QueriesUse ttl calls) (id : RepoId) :
    Shows ttl calls (s.entry id) (resultOf id calls) := by
  revert huse
  refine Run.history (P := fun calls s => QueriesUse ttl calls →
    Shows ttl calls (s.entry id) (resultOf id calls)) ?_ ?_ hr
  · intro _
    exact .absent
  · intro calls s c s' _ ih hst huse
    rw [resultOf_snoc]
    refine (ih fun d hd => huse d (List.mem_append_left _ hd)).step (hst.entryStep id) ?_
    intro d hd
    exact huse d (List.mem_append_right _ hd)

/-! ## Queries -/

theorem not_isFresh_of_waiting {e : CacheEntryState} {t₀ now : Instant} {ttl : UInt64}
    (hat : e.fetchedAt.nanos = t₀.nanos - backdate ttl) (hle : t₀ ≤ now) :
    isFresh e ttl now = false := by
  unfold isFresh
  refine decide_eq_false ?_
  have hle := Timespec.le_def.1 hle
  unfold backdate at hat
  rw [UInt64.le_iff_toNat_le, Timespec.toNat_elapsedSecs]
  omega

/-- **What a query is answered**: the result of the entry, with at most a refresh to start. -/
theorem Shows.query {ttl : UInt64} {calls : List Call} {s : CacheStore} {id : RepoId}
    {ev : QueryEvent} {p : RefreshPolicy} {effects : List Effect} {o o' : Option CacheEntryState}
    {r : Result} (h : Shows ttl calls o r) (hst : EntryStep s id ⟨.query id ev p, effects⟩ o o')
    (httl : ev.staleTtl = ttl) (hle : ∀ c ∈ calls, c.op.now ≤ ev.now) :
    effects = [.emitOutput (answer r)] ∨
      ∃ cwd, effects = [.emitOutput (answer r), .spawnRefresh id cwd] := by
  cases hst with
  | frame hop => exact absurd rfl hop
  | fresh hf =>
    cases h with
    | waiting _ _ hm hc hat =>
      rw [RefreshPolicy.effectiveTtl_of_ne (by simp [hm]), httl,
        not_isFresh_of_waiting hat (hle _ hc)] at hf
      cases hf
    | fetched => exact .inl rfl
  | busy =>
    cases h with
    | waiting hl =>
      left
      rw [CacheEntryState.hasFetched_of_loading hl]
      rfl
    | fetched hf =>
      left
      rw [if_pos hf]
      rfl
  | stale _ hidle =>
    cases h with
    | waiting hl =>
      rw [CacheEntryState.isRefreshing_of_loading hl] at hidle
      cases hidle
    | fetched => exact .inr ⟨_, rfl⟩
  | miss =>
    cases h
    exact .inr ⟨_, rfl⟩

/-- **A loading entry** is not fresh, and is answered with the text for loading. -/
theorem Shows.query_loading {ttl : UInt64} {calls : List Call} {s : CacheStore} {id : RepoId}
    {ev : QueryEvent} {p : RefreshPolicy} {effects : List Effect} {e : CacheEntryState}
    {o' : Option CacheEntryState} {r : Result} (h : Shows ttl calls (some e) r)
    (hst : EntryStep s id ⟨.query id ev p, effects⟩ (some e) o') (hl : e.fetchState = .loading)
    (httl : ev.staleTtl = ttl) (hle : ∀ c ∈ calls, c.op.now ≤ ev.now) :
    isFresh e (p.effectiveTtl e ev.staleTtl) ev.now = false ∧
      effects = [.emitOutput loadingOutput] := by
  cases h with
  | waiting _ _ hm hc hat =>
    have hstale : isFresh e (p.effectiveTtl e ev.staleTtl) ev.now = false := by
      rw [RefreshPolicy.effectiveTtl_of_ne (by simp [hm]), httl]
      exact not_isFresh_of_waiting hat (hle _ hc)
    refine ⟨hstale, ?_⟩
    cases hst with
    | frame hop => exact absurd rfl hop
    | fresh hf => rw [hstale] at hf; cases hf
    | busy =>
      rw [CacheEntryState.hasFetched_of_loading hl]
      rfl
    | stale _ hidle =>
      rw [CacheEntryState.isRefreshing_of_loading hl] at hidle
      cases hidle
  | fetched hf =>
    rw [CacheEntryState.hasFetched_of_loading hl] at hf
    cases hf

/-- **Queries are answered from the result map**, in every run from the empty store: one output,
the one of the map, and at most one refresh to start; and a loading entry is never answered as a
fresh one. -/
theorem query_refines_resultOf {ttl : UInt64} {before : List Call} {s s' : CacheStore}
    {id : RepoId} {ev : QueryEvent} {p : RefreshPolicy} {effects : List Effect}
    (hr : Run Step .new before s) (hst : Step s ⟨.query id ev p, effects⟩ s')
    (huse : QueriesUse ttl (before ++ [⟨.query id ev p, effects⟩]))
    (htimes : TimesOrdered (before ++ [⟨.query id ev p, effects⟩])) :
    (effects = [.emitOutput (answer (resultOf id before))] ∨
      ∃ cwd, effects = [.emitOutput (answer (resultOf id before)), .spawnRefresh id cwd]) ∧
    ∀ e, s.entry id = some e → e.fetchState = .loading →
      isFresh e (p.effectiveTtl e ev.staleTtl) ev.now = false ∧
        effects = [.emitOutput loadingOutput] := by
  have hshows := Shows.run hr (fun c hc => huse c (List.mem_append_left _ hc)) id
  have hstep := hst.entryStep id
  have httl := (huse _ (List.mem_append_right _ List.mem_cons_self) _ _ _ rfl).1
  have hle : ∀ c ∈ before, c.op.now ≤ ev.now := fun c hc =>
    (List.pairwise_append.1 htimes).2.2 c hc _ List.mem_cons_self
  refine ⟨hshows.query hstep httl hle, ?_⟩
  intro e he hl
  rw [he] at hshows hstep
  exact hshows.query_loading hstep hl httl hle

namespace Lost

def firstCalls : List Call :=
  [⟨firstQuery, [.emitOutput loadingOutput, .spawnRefresh repo "/repo"]⟩,
    ⟨firstUpdate, []⟩]

def midCall : Call := ⟨midQuery, [.emitOutput "✓ Ready for merge", .spawnRefresh repo "/repo"]⟩

theorem queriesUse_firstCalls : QueriesUse 5 (firstCalls ++ [midCall]) := by
  intro c hc id ev p hop
  rcases List.mem_append.1 hc with hc | hc
  · rcases List.mem_cons.1 hc with rfl | hc
    · cases hop
      exact ⟨rfl, by decide⟩
    · obtain rfl := List.mem_singleton.1 hc
      cases hop
  · obtain rfl := List.mem_singleton.1 hc
    cases hop
    exact ⟨rfl, by decide⟩

end Lost

open Lost in
theorem query_refines_resultOf_ready :
    midCall.effects = [.emitOutput (answer (resultOf repo firstCalls))] ∨
      ∃ cwd, midCall.effects =
        [.emitOutput (answer (resultOf repo firstCalls)), .spawnRefresh repo cwd] := by
  have hr : Run Step .new firstCalls (.single repo fetchedEntry) :=
    run_of_exec (firstCalls.map Call.op) rfl
  have hst : Step (.single repo fetchedEntry) midCall
      (.single repo ((fetchedEntry.withRecordQuery (.ofSecs 100)).withMarkRefreshing
        (.ofSecs 100))) := Step.of_run rfl
  refine (query_refines_resultOf hr hst queriesUse_firstCalls ?_).1
  unfold TimesOrdered
  decide

/-! ## The reply to a client -/

/-- What the request handler makes of the effects of a query. -/
structure ActionResult where
  output : String
  refreshRepoId : Option RepoId
  refreshCwd : Option String
deriving DecidableEq

def ActionResult.afterEffect (result : ActionResult) : Effect → ActionResult
  | .emitOutput s => { result with output := s }
  | .spawnRefresh repoId cwd => { result with refreshRepoId := some repoId, refreshCwd := some cwd }
  | .recordExpired _ | .enterBackoff _ => result

def effectsToActionResult (effects : List Effect) : ActionResult :=
  effects.foldl ActionResult.afterEffect { output := "", refreshRepoId := none, refreshCwd := none }

/-- The reply to a query carries its answer, and asks for a refresh exactly when the query does. -/
theorem Shows.reply {ttl : UInt64} {calls : List Call} {s : CacheStore} {id : RepoId}
    {ev : QueryEvent} {p : RefreshPolicy} {effects : List Effect} {o o' : Option CacheEntryState}
    {r : Result} (h : Shows ttl calls o r) (hst : EntryStep s id ⟨.query id ev p, effects⟩ o o')
    (httl : ev.staleTtl = ttl) (hle : ∀ c ∈ calls, c.op.now ≤ ev.now) :
    (effectsToActionResult effects).output = answer r ∧
      ((effectsToActionResult effects).refreshRepoId = some id ↔
        (Call.mk (.query id ev p) effects).Spawns id) := by
  rcases h.query hst httl hle with rfl | ⟨cwd, rfl⟩
  · exact ⟨rfl, iff_of_false nofun (by simp [Call.Spawns])⟩
  · exact ⟨rfl, iff_of_true rfl (by simp [Call.Spawns])⟩

end MergeReady.Daemon
