import MergeReady.Daemon.Lock

/-!
# Single flight

Between two refreshes of one entry, none of them reported and the entry not removed, at least the
lock timeout passes.  `Flight` is the state of the entry in between: first locked since the first
refresh started, then perhaps released by a tick that found the lock too old.
-/

namespace MergeReady.Daemon

open MergeReady.Lib

def TimeoutIs (timeout : UInt64) (calls : List Call) : Prop :=
  ∀ c ∈ calls, ∀ input, c.op = .tick input → input.refreshLockTimeoutSecs = timeout

/-- The call starts no refresh of `id`, stores no result for it and does not remove its entry. -/
structure Call.Quiet (c : Call) (id : RepoId) : Prop where
  not_spawns : ¬ c.Spawns id
  not_completes : ¬ c.Completes id
  not_expires : ¬ c.Expires id

/-- In the run `calls` from `s` a tick releases the lock of `id`. -/
def ClearedBy (id : RepoId) (s : CacheStore) (calls : List Call) : Prop :=
  ∃ before c after u u' e e', calls = before ++ c :: after ∧ Run Step s before u ∧ Step u c u' ∧
    (∃ input, c.op = .tick input) ∧ u.entry id = some e ∧ e.isRefreshing = true ∧
      u'.entry id = some e' ∧ e'.isRefreshing = false

/-- `Locked t₁ e` — a refresh of the entry has been running since `t₁`. -/
structure Locked (t₁ : Instant) (e : CacheEntryState) : Prop where
  refreshing : e.isRefreshing = true
  started : e.refreshStartedAt = some t₁

/-- The entry of `id` after the calls `calls` from `s`, since its refresh started at `t₁`. -/
inductive Flight (timeout : UInt64) (t₁ : Instant) (id : RepoId) (s : CacheStore)
    (calls : List Call) (o : Option CacheEntryState) : Prop
  | locked {e} (he : o = some e) (hl : Locked t₁ e)
  | released {e} (he : o = some e) (hidle : e.isRefreshing = false)
      (hcleared : ClearedBy id s calls)
      (hage : ∃ c ∈ calls, timeout ≤ Timespec.elapsedSecs t₁ c.op.now)

section Entry

variable {s : CacheStore} {id : RepoId} {c : Call} {o o' : Option CacheEntryState}

theorem locked_withMarkRefreshing (now : Instant) (e : CacheEntryState) :
    Locked now (e.withMarkRefreshing now) :=
  ⟨CacheEntryState.isRefreshing_withMarkRefreshing _ _, rfl⟩

theorem EntryStep.locked_of_spawns (h : EntryStep s id c o o') (hsp : c.Spawns id) :
    ∃ e', o' = some e' ∧ Locked c.op.now e' := by
  cases h with
  | frame _ hn => exact absurd hsp hn
  | fresh => simp [Call.Spawns] at hsp
  | busy => simp [Call.Spawns] at hsp
  | stale => exact ⟨_, rfl, locked_withMarkRefreshing _ _⟩
  | miss => exact ⟨_, rfl, rfl, rfl⟩
  | completed => simp [Call.Spawns] at hsp
  | expired _ _ hn => exact absurd hsp hn
  | ticked _ _ ht hb =>
    obtain rfl := hb.1 hsp
    cases ht
    exact ⟨_, rfl, locked_withMarkRefreshing _ _⟩

theorem Locked.timeout_le {t₁ now : Instant} {e : CacheEntryState} {timeout : UInt64}
    (hl : Locked t₁ e) (h : refreshLockExpired e timeout now = true) :
    timeout ≤ Timespec.elapsedSecs t₁ now := by
  unfold refreshLockExpired at h
  rw [hl.started, Option.any_some] at h
  exact of_decide_eq_true h

/-- **What a quiet call does to a locked entry**: the lock stays, or a tick releases it because it
has reached the timeout. -/
theorem EntryStep.locked_step {t₁ : Instant} {e : CacheEntryState}
    (h : EntryStep s id c (some e) o') (hq : c.Quiet id) (hl : Locked t₁ e) :
    ∃ e', o' = some e' ∧ (Locked t₁ e' ∨ e'.isRefreshing = false ∧ ∃ input, c.op = .tick input ∧
      input.refreshLockTimeoutSecs ≤ Timespec.elapsedSecs t₁ c.op.now) := by
  cases h with
  | frame => exact ⟨_, rfl, .inl hl⟩
  | fresh => exact ⟨_, rfl, .inl ⟨hl.refreshing, hl.started⟩⟩
  | busy =>
    refine ⟨_, rfl, .inl ?_⟩
    unfold thawCold
    split
    · exact ⟨hl.refreshing, hl.started⟩
    · exact ⟨hl.refreshing, hl.started⟩
  | stale _ hidle =>
    rw [hl.refreshing] at hidle
    cases hidle
  | completed => exact absurd ⟨_, rfl⟩ hq.not_completes
  | expired _ _ _ hx => exact absurd hx hq.not_expires
  | @ticked input effects _ _ _ _ _ _ ht hb =>
    cases ht with
    | inactive => exact ⟨_, rfl, .inl hl⟩
    | locked => exact ⟨_, rfl, .inl hl⟩
    | waiting _ hexp =>
      have hidle := isRefreshing_releaseExpiredLock_eq_false.2 hexp
      exact ⟨_, rfl, .inr ⟨hidle, input, rfl, hl.timeout_le (hexp hl.refreshing)⟩⟩
    | spawned => exact absurd (hb.2 rfl) hq.not_spawns

theorem EntryStep.idle_step {e : CacheEntryState} (h : EntryStep s id c (some e) o')
    (hq : c.Quiet id) (hidle : e.isRefreshing = false) :
    ∃ e', o' = some e' ∧ e'.isRefreshing = false := by
  cases h with
  | frame => exact ⟨_, rfl, hidle⟩
  | fresh => exact ⟨_, rfl, hidle⟩
  | busy _ hr => rw [hidle] at hr; cases hr
  | stale => exact absurd ⟨_, List.mem_cons_of_mem _ List.mem_cons_self⟩ hq.not_spawns
  | completed => exact absurd ⟨_, rfl⟩ hq.not_completes
  | expired _ _ _ hx => exact absurd hx hq.not_expires
  | ticked _ _ ht hb =>
    cases ht with
    | inactive => exact ⟨_, rfl, hidle⟩
    | locked _ hr => rw [hidle] at hr; cases hr
    | waiting _ hexp => exact ⟨_, rfl, isRefreshing_releaseExpiredLock_eq_false.2 hexp⟩
    | spawned => exact absurd (hb.2 rfl) hq.not_spawns

theorem EntryStep.spawns_locked {t₁ : Instant} {e : CacheEntryState}
    (h : EntryStep s id c (some e) o') (hsp : c.Spawns id) (hl : Locked t₁ e) :
    ∃ input, c.op = .tick input ∧
      input.refreshLockTimeoutSecs ≤ Timespec.elapsedSecs t₁ c.op.now := by
  cases h with
  | frame _ hn => exact absurd hsp hn
  | fresh => simp [Call.Spawns] at hsp
  | busy => simp [Call.Spawns] at hsp
  | stale _ hidle => rw [hl.refreshing] at hidle; cases hidle
  | completed => simp [Call.Spawns] at hsp
  | expired _ _ hn => exact absurd hsp hn
  | @ticked input _ _ _ _ _ _ _ ht hb =>
    obtain rfl := hb.1 hsp
    cases ht with
    | spawned _ hexp => exact ⟨input, rfl, hl.timeout_le (hexp hl.refreshing)⟩

end Entry

theorem ClearedBy.snoc {id : RepoId} {s : CacheStore} {calls : List Call} (c : Call)
    (h : ClearedBy id s calls) : ClearedBy id s (calls ++ [c]) := by
  obtain ⟨before, d, after, u, u', e, e', rfl, hrest⟩ := h
  exact ⟨before, d, after ++ [c], u, u', e, e', by simp, hrest⟩

/-- **The flight of a refresh**, along a run of quiet calls. -/
theorem Flight.run {timeout : UInt64} {t₁ : Instant} {id : RepoId} {s t : CacheStore}
    {calls : List Call} {e : CacheEntryState} (he : s.entry id = some e) (hl : Locked t₁ e)
    (hr : Run Step s calls t) (hq : ∀ c ∈ calls, c.Quiet id) (ht : TimeoutIs timeout calls) :
    Flight timeout t₁ id s calls (t.entry id) := by
  revert hq ht
  refine Run.history (P := fun calls t => (∀ c ∈ calls, c.Quiet id) → TimeoutIs timeout calls →
    Flight timeout t₁ id s calls (t.entry id)) ?_ ?_ hr
  · intro _ _
    exact .locked he hl
  · intro calls u c v hru ih hst hq ht
    have hmem : c ∈ calls ++ [c] := List.mem_append_right _ List.mem_cons_self
    have hqc := hq c hmem
    have hstep := hst.entryStep id
    rcases ih (fun d hd => hq d (List.mem_append_left _ hd))
      (fun d hd => ht d (List.mem_append_left _ hd)) with ⟨hu, hl⟩ | ⟨hu, hidle, hcl, d, hd, hage⟩
    · rw [hu] at hstep
      obtain ⟨e', hv, hl' | ⟨hidle, input, hop, hage⟩⟩ := hstep.locked_step hqc hl
      · exact .locked hv hl'
      · rw [ht c hmem input hop] at hage
        refine .released hv hidle ?_ ⟨c, hmem, hage⟩
        exact ⟨calls, c, [], u, v, _, e', rfl, hru, hst, ⟨input, hop⟩, hu, hl.refreshing, hv, hidle⟩
    · rw [hu] at hstep
      obtain ⟨e', hv, hidle'⟩ := hstep.idle_step hqc hidle
      exact .released hv hidle' (hcl.snoc c) ⟨d, List.mem_append_left _ hd, hage⟩

/-- **Single flight**, from any store.  Two refreshes of `id` that start one after the other, the
first of them not reported in between and the entry not removed, are the lock timeout apart, and
the second is started by a tick, or by a query after a tick has released the lock. -/
theorem single_flight {id : RepoId} {timeout : UInt64} {s₀ s₁ s₂ s₃ : CacheStore}
    {mid : List Call} {c₁ c₂ : Call} (h₁ : Step s₀ c₁ s₁) (hmid : Run Step s₁ mid s₂)
    (h₂ : Step s₂ c₂ s₃) (hsp₁ : c₁.Spawns id) (hsp₂ : c₂.Spawns id)
    (hquiet : ∀ c ∈ mid, c.Quiet id) (htimes : TimesOrdered (c₁ :: (mid ++ [c₂])))
    (htimeout : TimeoutIs timeout (mid ++ [c₂])) :
    timeout ≤ Timespec.elapsedSecs c₁.op.now c₂.op.now ∧
      ((∃ input, c₂.op = .tick input) ∨
        (∃ ev p, c₂.op = .query id ev p) ∧ ClearedBy id s₁ mid) := by
  have hlast_mem : c₂ ∈ mid ++ [c₂] := List.mem_append_right _ List.mem_cons_self
  obtain ⟨e₁, he₁, hl₁⟩ := (h₁.entryStep id).locked_of_spawns hsp₁
  have hflight := Flight.run he₁ hl₁ hmid hquiet fun c hc =>
    htimeout c (List.mem_append_left _ hc)
  have hstep := h₂.entryStep id
  rcases hflight with ⟨hu, hl⟩ | ⟨hu, hidle, hcleared, d, hd, hage⟩
  · rw [hu] at hstep
    obtain ⟨input, hop, hage⟩ := hstep.spawns_locked hsp₂ hl
    rw [htimeout c₂ hlast_mem input hop] at hage
    exact ⟨hage, .inl ⟨input, hop⟩⟩
  · have hle : d.op.now ≤ c₂.op.now := by
      have htail := (List.pairwise_cons.1 htimes).2
      exact (List.pairwise_append.1 htail).2.2 d hd c₂ List.mem_cons_self
    refine ⟨UInt64.le_trans hage (Timespec.elapsedSecs_mono hle), ?_⟩
    rcases hstep.spawns_cases hsp₂ with hquery | ⟨input, hop, -⟩
    · exact .inr ⟨hquery, hcleared⟩
    · exact .inl ⟨input, hop⟩

namespace Lost

/-- A query at 100 s, while the refresh started at 3 s is running. -/
def midQuery : Op :=
  DaemonServerConfig.defaults.processQuery repo "main" "/repo" (.ofSecs 100) (.ofSecs 100)

def queriedEntry : CacheEntryState := laterEntry.withRecordQuery (.ofSecs 100)

end Lost

open Lost in
theorem single_flight_retry : (120 : UInt64) ≤ Timespec.elapsedSecs earlyTick.now lateInput.now := by
  have h₁ : Step (.single repo fetchedEntry) ⟨earlyTick, [.spawnRefresh repo "/repo"]⟩
      (.single repo laterEntry) := Step.of_run rfl
  have hmid : Step (.single repo laterEntry) ⟨midQuery, [.emitOutput "✓ Ready for merge"]⟩
      (.single repo queriedEntry) := Step.of_run rfl
  have h₂ : Step (.single repo queriedEntry) ⟨.tick lateInput, [.spawnRefresh repo "/repo"]⟩
      (.single repo (queriedEntry.withMarkRefreshing (.ofSecs 200))) := Step.of_run rfl
  have hsp₁ : (Call.mk earlyTick [.spawnRefresh repo "/repo"]).Spawns repo :=
    ⟨"/repo", List.mem_cons_self⟩
  have hsp₂ : (Call.mk (.tick lateInput) [.spawnRefresh repo "/repo"]).Spawns repo :=
    ⟨"/repo", List.mem_cons_self⟩
  refine (single_flight h₁ (Run.single_iff.2 hmid) h₂ hsp₁ hsp₂ ?_ ?_ ?_).1
  · intro c hc
    obtain rfl := List.mem_singleton.1 hc
    refine ⟨?_, ?_, ?_⟩
    · simp [Call.Spawns]
    · rintro ⟨ev, hop⟩
      cases hop
    · simp [Call.Expires]
  · unfold TimesOrdered
    decide
  · intro c hc input hop
    rcases List.mem_cons.1 hc with rfl | hc
    · cases hop
    · obtain rfl := List.mem_singleton.1 hc
      cases hop
      rfl

end MergeReady.Daemon
