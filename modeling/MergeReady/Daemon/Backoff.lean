import MergeReady.Daemon.Config
import MergeReady.Daemon.Invariant

/-!
# The pause after a low rate limit

`onRateLimitObserved` pauses the daemon until the bottleneck's reset, plus a margin.  The first half
of this file says how long the pause is, the second what is started during it.
-/

namespace MergeReady.Daemon

open MergeReady.Lib

/-! ## How long the pause is -/

inductive Resource
  | core
  | graphql
deriving DecidableEq, Repr

namespace RateLimitSnapshot

def limit (snapshot : RateLimitSnapshot) : Resource → UInt32
  | .core => snapshot.coreLimit
  | .graphql => snapshot.graphqlLimit

def remaining (snapshot : RateLimitSnapshot) : Resource → UInt32
  | .core => snapshot.coreRemaining
  | .graphql => snapshot.graphqlRemaining

def resetAt (snapshot : RateLimitSnapshot) : Resource → SystemTime
  | .core => snapshot.coreResetAt
  | .graphql => snapshot.graphqlResetAt

def ratio (snapshot : RateLimitSnapshot) (r : Resource) : UInt64 :=
  ratioBp (snapshot.remaining r) (snapshot.limit r)

theorem bottleneckRatioBp_le (snapshot : RateLimitSnapshot) (r : Resource) :
    snapshot.bottleneckRatioBp ≤ snapshot.ratio r := by
  show min (snapshot.ratio .core) (snapshot.ratio .graphql) ≤ snapshot.ratio r
  cases r with
  | core => exact Std.min_le_left
  | graphql => exact Std.min_le_right

/-- A resource whose ratio is least is not reset after the bottleneck. -/
theorem resetAt_le_bottleneckResetAt {snapshot : RateLimitSnapshot} {r : Resource}
    (h : ∀ r', snapshot.ratio r ≤ snapshot.ratio r') :
    snapshot.resetAt r ≤ snapshot.bottleneckResetAt := by
  have hcore := h .core
  have hgraphql := h .graphql
  show _ ≤ if snapshot.ratio .core < snapshot.ratio .graphql then snapshot.resetAt .core
    else if snapshot.ratio .graphql < snapshot.ratio .core then snapshot.resetAt .graphql
    else max (snapshot.resetAt .core) (snapshot.resetAt .graphql)
  cases r with
  | core =>
    rw [if_neg (UInt64.not_lt.2 hgraphql)]
    split
    · exact le_refl _
    · exact le_max_left _ _
  | graphql =>
    rw [if_neg (UInt64.not_lt.2 hcore)]
    split
    · exact le_refl _
    · exact le_max_right _ _

end RateLimitSnapshot

/-- The resource `r` of the snapshot is nearly used up, and its reset is still to come. -/
structure Depleted (ev : RateLimitObservedEvent) (r : Resource) : Prop where
  limited : 0 < ev.snapshot.limit r
  low : ev.snapshot.ratio r ≤ BACKOFF_THRESHOLD_BP
  future : ev.nowWall < ev.snapshot.resetAt r

/-- The pause `o` lasts at least until the reset of `r`. -/
def Outlasts (o : Option Instant) (ev : RateLimitObservedEvent) (r : Resource) : Prop :=
  ∃ t, o = some t ∧
    ev.now.nanos + ((ev.snapshot.resetAt r).nanos - ev.nowWall.nanos) ≤ t.nanos

theorem shouldEnterBackoff_of_low {snapshot : RateLimitSnapshot} {r : Resource}
    (h : snapshot.ratio r ≤ BACKOFF_THRESHOLD_BP) : shouldEnterBackoff snapshot = true := by
  have hle := snapshot.bottleneckRatioBp_le r
  unfold shouldEnterBackoff
  split
  · rfl
  · exact decide_eq_true (UInt64.le_trans hle h)

/-- The end of the pause is the bottleneck's reset on the monotonic clock plus the margin, unless
that reset has passed. -/
theorem resetInstantFromSnapshot_ok {snapshot : RateLimitSnapshot} {now : Instant}
    {nowWall : SystemTime} {o : Option Instant}
    (h : resetInstantFromSnapshot snapshot now nowWall = .ok o) :
    (snapshot.bottleneckResetAt < nowWall ∧ o = none) ∨
      (nowWall ≤ snapshot.bottleneckResetAt ∧ ∃ t, o = some t ∧
        t.nanos = now.nanos + (snapshot.bottleneckResetAt.nanos - nowWall.nanos) +
          BACKOFF_SAFETY_MARGIN.nanos) := by
  unfold resetInstantFromSnapshot at h
  cases hd : snapshot.bottleneckResetAt.durationSince nowWall with
  | none =>
    rw [hd] at h
    exact .inl ⟨Timespec.durationSince_eq_none.1 hd, (Except.ok.inj h).symm⟩
  | some delta =>
    rw [hd] at h
    obtain ⟨t, ht, h⟩ := bind_eq_ok.1 h
    obtain ⟨u, hu, h⟩ := bind_eq_ok.1 h
    have hdelta := Timespec.durationSince_eq_some.1 hd
    have ht := Timespec.add_eq_ok.1 ht
    have hu := Timespec.add_eq_ok.1 hu
    refine .inr ⟨?_, u, (Except.ok.inj h).symm, ?_⟩
    · rw [Timespec.le_def]
      omega
    · omega

/-- Reading a reset off a snapshot panics only when the end of the pause is not representable. -/
theorem returns_resetInstantFromSnapshot {snapshot : RateLimitSnapshot} {now : Instant}
    {nowWall : SystemTime} :
    Returns (resetInstantFromSnapshot snapshot now nowWall) ↔
      (nowWall ≤ snapshot.bottleneckResetAt →
        now.nanos + (snapshot.bottleneckResetAt.nanos - nowWall.nanos) +
          BACKOFF_SAFETY_MARGIN.nanos < 2 ^ 63 * 1000000000) := by
  unfold resetInstantFromSnapshot
  cases hd : snapshot.bottleneckResetAt.durationSince nowWall with
  | none =>
    have hpast := Timespec.durationSince_eq_none.1 hd
    exact iff_of_true (returns_ok _) fun hle => absurd hpast (not_lt.2 hle)
  | some delta =>
    have hdelta := Timespec.durationSince_eq_some.1 hd
    have hle : nowWall ≤ snapshot.bottleneckResetAt := by
      rw [Timespec.le_def]
      omega
    rw [returns_bind]
    constructor
    · rintro ⟨t, ht, hr⟩ -
      obtain ⟨u, hu, -⟩ := (returns_bind _ _).1 hr
      have ht := Timespec.add_eq_ok.1 ht
      have hu := Timespec.returns_add.1 ⟨u, hu⟩
      omega
    · intro hfits
      have hfits := hfits hle
      obtain ⟨t, ht⟩ : Returns (now.add delta) := Timespec.returns_add.2 (by omega)
      have ht' := Timespec.add_eq_ok.1 ht
      obtain ⟨u, hu⟩ : Returns (t.add BACKOFF_SAFETY_MARGIN) :=
        Timespec.returns_add.2 (by omega)
      exact ⟨t, ht, (returns_bind _ _).2 ⟨u, hu, returns_ok _⟩⟩

theorem returns_onRateLimitObserved {s : CacheStore} {ev : RateLimitObservedEvent} :
    Returns (onRateLimitObserved s ev) ↔ (shouldEnterBackoff ev.snapshot = true →
      Returns (resetInstantFromSnapshot ev.snapshot ev.now ev.nowWall)) := by
  unfold onRateLimitObserved nextBackoffUntil
  rw [returns_bind]
  split
  · rename_i hlow
    constructor
    · rintro ⟨o, ho, -⟩ -
      obtain ⟨reset, hreset, -⟩ := bind_eq_ok.1 ho
      exact ⟨reset, hreset⟩
    · intro h
      obtain ⟨reset, hreset⟩ := h hlow
      exact ⟨_, bind_eq_ok.2 ⟨reset, hreset, rfl⟩, returns_ok _⟩
  · rename_i hlow
    exact iff_of_true ⟨_, rfl, returns_ok _⟩ fun h => absurd h hlow

/-- Observing a snapshot that calls for a pause. -/
theorem onRateLimitObserved_backoffUntil {s s' : CacheStore} {ev : RateLimitObservedEvent}
    {effects : List Effect} (h : onRateLimitObserved s ev = .ok (s', effects)) {r : Resource}
    (hd : Depleted ev r) : ∃ reset,
      resetInstantFromSnapshot ev.snapshot ev.now ev.nowWall = .ok reset ∧
        s'.backoffUntil = reset.or s.backoffUntil := by
  obtain ⟨until_, hn, h⟩ := bind_eq_ok.1 h
  obtain ⟨rfl, -⟩ := Prod.mk.inj (Except.ok.inj h)
  unfold nextBackoffUntil at hn
  rw [if_pos (shouldEnterBackoff_of_low hd.low)] at hn
  obtain ⟨reset, hreset, hn⟩ := bind_eq_ok.1 hn
  exact ⟨reset, hreset, (Except.ok.inj hn).symm⟩

/-- **How long the pause is.**  It outlasts every depleted resource of least ratio.  It outlasts
another depleted resource exactly when that one is reset at most the margin after the bottleneck,
or, when the bottleneck's reset has passed, when the pause before the snapshot did. -/
theorem outlasts_iff {s s' : CacheStore} {ev : RateLimitObservedEvent} {effects : List Effect}
    (h : onRateLimitObserved s ev = .ok (s', effects)) {r : Resource} (hd : Depleted ev r) :
    ((∀ r', ev.snapshot.ratio r ≤ ev.snapshot.ratio r') → Outlasts s'.backoffUntil ev r) ∧
      (Outlasts s'.backoffUntil ev r ↔
        (ev.nowWall ≤ ev.snapshot.bottleneckResetAt ∧
          (ev.snapshot.resetAt r).nanos ≤
            ev.snapshot.bottleneckResetAt.nanos + BACKOFF_SAFETY_MARGIN.nanos) ∨
        (ev.snapshot.bottleneckResetAt < ev.nowWall ∧ Outlasts s.backoffUntil ev r)) := by
  obtain ⟨reset, hreset, hs'⟩ := onRateLimitObserved_backoffUntil h hd
  have hfuture := Timespec.lt_def.1 hd.future
  rw [hs']
  rcases resetInstantFromSnapshot_ok hreset with ⟨hpast, rfl⟩ | ⟨hnext, t, rfl, ht⟩
  · -- the bottleneck's reset has passed, so the pause known before stays
    rw [Option.none_or]
    have hpast' := Timespec.lt_def.1 hpast
    refine ⟨fun hleast => ?_, ?_⟩
    · have hle := Timespec.le_def.1 (RateLimitSnapshot.resetAt_le_bottleneckResetAt hleast)
      omega
    · constructor
      · intro ho
        exact .inr ⟨hpast, ho⟩
      · rintro (⟨hle, -⟩ | ⟨-, ho⟩)
        · exact absurd hpast (not_lt.2 hle)
        · exact ho
  · rw [Option.some_or]
    have hiff : Outlasts (some t) ev r ↔ (ev.snapshot.resetAt r).nanos ≤
        ev.snapshot.bottleneckResetAt.nanos + BACKOFF_SAFETY_MARGIN.nanos := by
      constructor
      · rintro ⟨u, hu, hle⟩
        obtain rfl := Option.some.inj hu
        omega
      · intro hle
        exact ⟨t, rfl, by omega⟩
    refine ⟨fun hleast => hiff.2 ?_, ?_⟩
    · have hle := Timespec.le_def.1 (RateLimitSnapshot.resetAt_le_bottleneckResetAt hleast)
      omega
    · rw [hiff]
      constructor
      · intro hle
        exact .inl ⟨hnext, hle⟩
      · rintro (⟨-, hle⟩ | ⟨hpast, -⟩)
        · exact hle
        · exact absurd hpast (not_lt.2 hnext)

/-! ### Two depleted resources -/

namespace BothLow

/-- `core` has 4 % left until 3600 s, `graphql` 3 % until 60 s. -/
def snapshot : RateLimitSnapshot :=
  { coreRemaining := 200, coreLimit := 5000, graphqlRemaining := 150, graphqlLimit := 5000
    coreResetAt := .ofSecs 3600, graphqlResetAt := .ofSecs 60, fetchedAt := .ofSecs 0 }

def event : RateLimitObservedEvent :=
  { snapshot := snapshot, now := .ofSecs 0, nowWall := .ofSecs 0 }

/-- The end of the pause: 61.5 s. -/
def resumeAt : Instant := ⟨61500000000, by decide, by decide⟩

def paused : CacheStore :=
  { entries := ∅, latestRateLimit := some snapshot, backoffUntil := some resumeAt }

end BothLow

open BothLow in
theorem outlasts_graphql : Outlasts paused.backoffUntil event .graphql := by
  have hd : Depleted event .graphql := ⟨by decide, by decide, by decide⟩
  have h : onRateLimitObserved .new event = .ok (paused, [.enterBackoff resumeAt]) := rfl
  refine (outlasts_iff h hd).1 ?_
  rintro (_ | _) <;> decide

open BothLow in
/-- Refreshing resumes at 61.5 s, with `core` depleted until 3600 s. -/
theorem not_outlasts_core :
    ∃ s' effects, onRateLimitObserved .new event = .ok (s', effects) ∧
      Depleted event .core ∧ ¬ Outlasts s'.backoffUntil event .core := by
  refine ⟨paused, [.enterBackoff resumeAt], rfl, ⟨by decide, by decide, by decide⟩, ?_⟩
  rintro ⟨t, ht, hle⟩
  cases ht
  revert hle
  decide

/-! ## What a step does to the pause -/

def Call.Alarms (c : Call) : Prop := ∃ until_, Effect.enterBackoff until_ ∈ c.effects

/-- **Everything a step can do to the pause `o`.** -/
inductive PauseStep (o : Option Instant) : Call → Option Instant → Prop
  | kept {c} (hop : ∀ ev, c.op ≠ .rateLimit ev) (hn : ¬ c.Alarms) : PauseStep o c o
  | ended {input effects t} (ho : o = some t) (hle : t ≤ input.now)
      (hn : ¬ (Call.mk (.tick input) effects).Alarms) :
      PauseStep o ⟨.tick input, effects⟩ none
  | ignored {ev : RateLimitObservedEvent} (h : shouldEnterBackoff ev.snapshot = false ∨
        ev.snapshot.bottleneckResetAt < ev.nowWall) :
      PauseStep o ⟨.rateLimit ev, []⟩ o
  | paused {ev : RateLimitObservedEvent} {u : Instant}
      (hlow : shouldEnterBackoff ev.snapshot = true)
      (hnext : ev.nowWall ≤ ev.snapshot.bottleneckResetAt)
      (hu : u.nanos = ev.now.nanos + (ev.snapshot.bottleneckResetAt.nanos - ev.nowWall.nanos) +
        BACKOFF_SAFETY_MARGIN.nanos) :
      PauseStep o ⟨.rateLimit ev, if o = some u then [] else [.enterBackoff u]⟩ (some u)

theorem backoffUntil_onQuery (s : CacheStore) (ev : QueryEvent) (id : RepoId) (p : RefreshPolicy) :
    (onQuery s ev id p).1.backoffUntil = s.backoffUntil := by
  unfold onQuery
  split
  · split
    · rfl
    · dsimp only
      split <;> rfl
  · rfl

theorem backoffUntil_onRefreshCompleted (s : CacheStore) (id : RepoId) (ev : RefreshCompletedEvent) :
    (onRefreshCompleted s id ev).1.backoffUntil = s.backoffUntil := by
  unfold onRefreshCompleted
  split <;> rfl

theorem not_alarms_onQuery (s : CacheStore) (ev : QueryEvent) (id : RepoId) (p : RefreshPolicy) :
    ¬ (Call.mk (.query id ev p) (onQuery s ev id p).2).Alarms := by
  rintro ⟨u, hu⟩
  obtain ⟨out, hout⟩ := onQuery_effects s id ev p
  dsimp only at hu
  rcases hout with hout | ⟨cwd, hout⟩ <;> rw [hout] at hu <;> simp at hu

theorem not_alarms_onSchedulerTick (s : CacheStore) (input : SchedulerTickInput) :
    ¬ (Call.mk (.tick input) (onSchedulerTick s input).2).Alarms := by
  rintro ⟨u, hu⟩
  dsimp only at hu
  cases hb : s.isBackedOff input.now with
  | true =>
    rw [onSchedulerTick_of_backedOff hb] at hu
    cases hu
  | false =>
    rw [onSchedulerTick_of_not_backedOff hb] at hu
    rcases List.mem_append.1 hu with hm | hm
    · obtain ⟨x, -, heq⟩ := List.mem_map.1 hm
      cases heq
    · obtain ⟨x, -, hx⟩ := List.mem_flatMap.1 hm
      obtain ⟨cwd, hcwd⟩ := mem_tickEntry_effects hx
      cases hcwd

theorem pauseStep_onSchedulerTick (s : CacheStore) (input : SchedulerTickInput) :
    PauseStep s.backoffUntil ⟨.tick input, (onSchedulerTick s input).2⟩
      (onSchedulerTick s input).1.backoffUntil := by
  have hn := not_alarms_onSchedulerTick s input
  cases hb : s.isBackedOff input.now with
  | true =>
    rw [onSchedulerTick_of_backedOff hb] at hn ⊢
    exact .kept (fun ev hev => by cases hev) hn
  | false =>
    have hnone : (onSchedulerTick s input).1.backoffUntil = none := by
      rw [onSchedulerTick_of_not_backedOff hb]
      rfl
    rw [hnone]
    cases ho : s.backoffUntil with
    | none => exact .kept (fun ev hev => by cases hev) hn
    | some t =>
      refine .ended rfl ?_ hn
      by_contra hlt
      rw [CacheStore.isBackedOff_iff.2 ⟨t, ho, not_le.1 hlt⟩] at hb
      cases hb

theorem pauseStep_onRateLimitObserved {s s' : CacheStore} {ev : RateLimitObservedEvent}
    {effects : List Effect} (h : onRateLimitObserved s ev = .ok (s', effects)) :
    PauseStep s.backoffUntil ⟨.rateLimit ev, effects⟩ s'.backoffUntil := by
  obtain ⟨next, hn, h⟩ := bind_eq_ok.1 h
  obtain ⟨rfl, rfl⟩ := Prod.mk.inj (Except.ok.inj h)
  show PauseStep s.backoffUntil _ next
  unfold nextBackoffUntil at hn
  split at hn
  · rename_i hlow
    obtain ⟨reset, hreset, hn⟩ := bind_eq_ok.1 hn
    obtain rfl := Except.ok.inj hn
    rcases resetInstantFromSnapshot_ok hreset with ⟨hpast, rfl⟩ | ⟨hnext, u, rfl, hu⟩
    · have hsilent : backoffEffects s ev.snapshot s.backoffUntil = [] := by
        unfold backoffEffects
        split
        · rename_i hsome
          exact if_neg fun hb => hb.2 hsome
        · rfl
      rw [Option.none_or, hsilent]
      exact .ignored (.inr hpast)
    · have heff : backoffEffects s ev.snapshot (some u) =
          if s.backoffUntil = some u then [] else [.enterBackoff u] := by
        unfold backoffEffects
        by_cases hsame : s.backoffUntil = some u
        · rw [if_pos hsame]
          exact if_neg fun hb => hb.2 hsame
        · rw [if_neg hsame]
          exact if_pos ⟨hlow, hsame⟩
      rw [Option.some_or, heff]
      exact .paused hlow hnext hu
  · rename_i hlow
    obtain rfl := Except.ok.inj hn
    have hsilent : backoffEffects s ev.snapshot s.backoffUntil = [] := by
      unfold backoffEffects
      split
      · exact if_neg fun hb => hlow hb.1
      · rfl
    rw [hsilent]
    exact .ignored (.inl (by simpa using hlow))

/-- **A step does one of these things to the pause.** -/
theorem Step.pauseStep {s s' : CacheStore} {c : Call} (h : Step s c s') :
    PauseStep s.backoffUntil c s'.backoffUntil := by
  obtain ⟨t, ⟨-, -, hsame⟩, hrun⟩ := h
  rw [hsame]
  obtain ⟨op, effects⟩ := c
  cases op with
  | query id ev p =>
    have hr : onQuery t ev id p = (s', effects) := Except.ok.inj hrun
    have hkeep := backoffUntil_onQuery t ev id p
    have hn := not_alarms_onQuery t ev id p
    rw [hr] at hkeep hn
    rw [hkeep]
    exact .kept (fun ev hev => by cases hev) hn
  | refreshCompleted id ev =>
    have hr : onRefreshCompleted t id ev = (s', effects) := Except.ok.inj hrun
    have hkeep := backoffUntil_onRefreshCompleted t id ev
    have heff := onRefreshCompleted_effects t id ev
    rw [hr] at hkeep heff
    rw [hkeep]
    obtain rfl : effects = [] := heff
    exact .kept (fun ev hev => by cases hev) fun ⟨u, hu⟩ => by cases hu
  | tick input =>
    have hr : onSchedulerTick t input = (s', effects) := Except.ok.inj hrun
    have hstep := pauseStep_onSchedulerTick t input
    rw [hr] at hstep
    exact hstep
  | rateLimit ev => exact pauseStep_onRateLimitObserved hrun

/-! ## What is started during the pause -/

/-- The call needs no refresh: a query is answered from a fresh entry, or from one that is being
refreshed. -/
def Op.Served (s : CacheStore) : Op → Prop
  | .query id ev p => ∃ e, s.entry id = some e ∧
      (isFresh e (p.effectiveTtl e ev.staleTtl) ev.now = true ∨ e.isRefreshing = true)
  | .refreshCompleted _ _ => True
  | .tick _ => True
  | .rateLimit _ => True

/-- A query that is not served starts a refresh of the entry it is about. -/
theorem EntryStep.query_spawns {s : CacheStore} {id : RepoId} {ev : QueryEvent} {p : RefreshPolicy}
    {effects : List Effect} {o o' : Option CacheEntryState}
    (h : EntryStep s id ⟨.query id ev p, effects⟩ o o') :
    (Call.mk (.query id ev p) effects).Spawns id ↔ ∀ e ∈ o,
      isFresh e (p.effectiveTtl e ev.staleTtl) ev.now = false ∧ e.isRefreshing = false := by
  cases h with
  | frame hop => exact absurd rfl hop
  | fresh hf => simp [Call.Spawns, hf]
  | busy _ hr => simp [Call.Spawns, hr]
  | stale hf hr => simp [Call.Spawns, hf, hr]
  | miss => simp [Call.Spawns]

/-- While the store is paused, exactly the queries that are not served start a refresh. -/
theorem Step.no_spawn_iff {s s' : CacheStore} {c : Call} (h : Step s c s')
    (hb : s.isBackedOff c.op.now = true) : (∀ id, ¬ c.Spawns id) ↔ c.op.Served s := by
  obtain ⟨op, effects⟩ := c
  constructor
  · intro hn
    cases op with
    | query id ev p =>
      by_contra hserved
      apply hn id
      rw [(h.entryStep id).query_spawns]
      intro e he
      refine ⟨?_, ?_⟩
      · by_contra hf
        exact hserved ⟨e, he, .inl (by simpa using hf)⟩
      · by_contra hr
        exact hserved ⟨e, he, .inr (by simpa using hr)⟩
    | refreshCompleted => trivial
    | tick => trivial
    | rateLimit => trivial
  · intro hserved id hsp
    rcases (h.entryStep id).spawns_cases hsp with ⟨ev, p, hop⟩ | ⟨input, hop, hnb⟩
    · dsimp only at hop
      subst hop
      obtain ⟨e, he, hfr⟩ := hserved
      obtain ⟨hf, hr⟩ := (h.entryStep id).query_spawns.1 hsp e he
      rcases hfr with hfr | hfr
      · rw [hf] at hfr; cases hfr
      · rw [hr] at hfr; cases hfr
    · dsimp only at hop
      subst hop
      rw [show s.isBackedOff input.now = true from hb] at hnb
      cases hnb

/-- The store is paused at least until `until_`. -/
def PausedUntil (until_ : Instant) (s : CacheStore) : Prop :=
  ∃ t, s.backoffUntil = some t ∧ until_ ≤ t

/-- The call does not cut a pause until `until_` short: a snapshot that calls for another pause,
with the bottleneck's reset to come, calls for one as long. -/
def Op.KeepsPause (until_ : Instant) : Op → Prop
  | .rateLimit ev => shouldEnterBackoff ev.snapshot = true →
      ev.nowWall ≤ ev.snapshot.bottleneckResetAt →
        until_.nanos ≤ ev.now.nanos + (ev.snapshot.bottleneckResetAt.nanos - ev.nowWall.nanos) +
          BACKOFF_SAFETY_MARGIN.nanos
  | .query _ _ _ => True
  | .refreshCompleted _ _ => True
  | .tick _ => True

theorem PausedUntil.isBackedOff {until_ now : Instant} {s : CacheStore} (h : PausedUntil until_ s)
    (hnow : now < until_) : s.isBackedOff now = true := by
  obtain ⟨t, ht, hle⟩ := h
  exact CacheStore.isBackedOff_iff.2 ⟨t, ht, lt_of_lt_of_le hnow hle⟩

/-- The pause goes on over a call made during it that does not cut it short. -/
theorem PausedUntil.step {until_ : Instant} {s s' : CacheStore} {c : Call}
    (h : PausedUntil until_ s) (hst : Step s c s') (hnow : c.op.now < until_)
    (hk : c.op.KeepsPause until_) : PausedUntil until_ s' := by
  obtain ⟨t, ht, hle⟩ := h
  have hp := hst.pauseStep
  unfold PausedUntil
  rw [ht] at hp
  generalize s'.backoffUntil = o at hp ⊢
  cases hp with
  | kept => exact ⟨t, rfl, hle⟩
  | ended ho hend =>
    obtain rfl := Option.some.inj ho
    exact absurd (lt_of_lt_of_le hnow (le_trans hle hend)) (lt_irrefl _)
  | ignored => exact ⟨t, rfl, hle⟩
  | @paused ev u hlow hnext hu =>
    have hlong := hk hlow hnext
    refine ⟨u, rfl, ?_⟩
    rw [Timespec.le_def]
    omega

/-- The steps during a pause until `until_`: each call is served, and none cuts the pause short. -/
def PausedStep (until_ : Instant) (s : CacheStore) (c : Call) (s' : CacheStore) : Prop :=
  Step s c s' ∧ c.op.now < until_ ∧ c.op.KeepsPause until_ ∧ c.op.Served s

/-- During the pause no refresh starts in a run of served calls. -/
theorem PausedUntil.run {until_ : Instant} {s t : CacheStore} {calls : List Call}
    (h : PausedUntil until_ s) (hr : Run (PausedStep until_) s calls t) :
    ∀ c ∈ calls, ∀ id, ¬ c.Spawns id := by
  induction hr with
  | nil => simp
  | cons hstep _ ih =>
    obtain ⟨hst, hnow, hk, hserved⟩ := hstep
    refine List.forall_mem_cons.2 ⟨?_, ih (h.step hst hnow hk)⟩
    exact (hst.no_spawn_iff (h.isBackedOff hnow)).2 hserved

/-- The pause that an `EnterBackoff` announces is in the store. -/
theorem Step.pausedUntil {s s' : CacheStore} {c : Call} {until_ : Instant} (h : Step s c s')
    (heff : Effect.enterBackoff until_ ∈ c.effects) : PausedUntil until_ s' := by
  have hp := h.pauseStep
  unfold PausedUntil
  generalize s'.backoffUntil = o at hp ⊢
  cases hp with
  | kept _ hn => exact absurd ⟨_, heff⟩ hn
  | ended _ _ hn => exact absurd ⟨_, heff⟩ hn
  | ignored => cases heff
  | @paused ev u =>
    dsimp only at heff
    split at heff
    · cases heff
    · obtain rfl := Effect.enterBackoff.inj (List.mem_singleton.1 heff)
      exact ⟨_, rfl, le_refl _⟩

/-- **What a pause stops.**  A call on a paused store starts no refresh exactly when it is served:
when it is no query, or a query of an entry that is fresh or being refreshed.  From an
`EnterBackoff` on, no refresh starts in any run of such calls before the end of the pause. -/
theorem paused_iff_served {s s' : CacheStore} {c : Call} (hst : Step s c s') :
    (s.isBackedOff c.op.now = true → ((∀ id, ¬ c.Spawns id) ↔ c.op.Served s)) ∧
    ∀ until_ calls t, .enterBackoff until_ ∈ c.effects → Run (PausedStep until_) s' calls t →
      ∀ c ∈ calls, ∀ id, ¬ c.Spawns id := by
  refine ⟨?_, ?_⟩
  · intro hb
    exact hst.no_spawn_iff hb
  · intro until_ calls t heff hr
    exact (hst.pausedUntil heff).run hr

namespace BothLow

def repo : RepoId := ⟨"cbf29ce484222325"⟩

/-- A first query, 10 s into the pause. -/
def query : Op :=
  DaemonServerConfig.defaults.processQuery repo "main" "/repo" (.ofSecs 10) (.ofSecs 10)

end BothLow

namespace DueWhilePaused

/-! A result that is due when the daemon is paused, and a first refresh that is running. -/

def repo : RepoId := ⟨"cbf29ce484222325"⟩
def other : RepoId := ⟨"5f60718293a4b5c6"⟩

def fetched : CacheEntryState :=
  (CacheEntryState.newLoading "/repo" "main" 5 (.ofSecs 0) (.ofSecs 0)).withRefreshCompleted
    "✓ Ready for merge" [] .warm (.ofSecs 1) (.ofSecs 1)

def loading : CacheEntryState :=
  .newLoading "/other" "main" 5 (.ofSecs 1695) (.ofSecs 1695)

def store : CacheStore := .withEntries .new ((AList.singleton repo fetched).insert other loading)

/-- `graphql` has 3 % left until 1760 s. -/
def event : RateLimitObservedEvent :=
  { snapshot :=
      { coreRemaining := 200, coreLimit := 5000, graphqlRemaining := 150, graphqlLimit := 5000
        coreResetAt := .ofSecs 3600, graphqlResetAt := .ofSecs 1760, fetchedAt := .ofSecs 1700 }
    now := .ofSecs 1700
    nowWall := .ofSecs 1700 }

/-- The end of the pause: 1761.5 s. -/
def resumeAt : Instant := ⟨1761500000000, by decide, by decide⟩

def paused : CacheStore :=
  { store with latestRateLimit := some event.snapshot, backoffUntil := some resumeAt }

def input : SchedulerTickInput := DaemonServerConfig.defaults.tickInput (.ofSecs 1710) (.ofSecs 1710)

def query (id : RepoId) (cwd : String) : Op :=
  DaemonServerConfig.defaults.processQuery id "main" cwd (.ofSecs 1720) (.ofSecs 1720)

end DueWhilePaused

open DueWhilePaused in
/-- The tick would refresh the one entry, and the query waits for the refresh of the other. -/
theorem paused_iff_served_due :
    Effect.spawnRefresh repo "/repo" ∈ (onSchedulerTick (paused.withBackoffUntil none) input).2 ∧
      (∀ c ∈ [Call.mk (.tick input) [], ⟨query other "/other", [.emitOutput loadingOutput]⟩],
        ∀ id, ¬ c.Spawns id) ∧
      ¬ ∀ id, ¬ (Call.mk (query repo "/repo")
        [.emitOutput "✓ Ready for merge", .spawnRefresh repo "/repo"]).Spawns id := by
  have htick : Step paused ⟨.tick input, []⟩ paused := Step.of_run rfl
  have hevent : Step store ⟨.rateLimit event, [.enterBackoff resumeAt]⟩ paused := Step.of_run rfl
  have hother : Step paused ⟨query other "/other", [.emitOutput loadingOutput]⟩ _ := Step.of_run rfl
  have hrepo : Step paused ⟨query repo "/repo",
    [.emitOutput "✓ Ready for merge", .spawnRefresh repo "/repo"]⟩ _ := Step.of_run rfl
  have hrun : Run (PausedStep resumeAt) paused _ _ :=
    .cons ⟨htick, by decide, trivial, trivial⟩
      (.cons ⟨hother, by decide, trivial, loading, rfl, .inr rfl⟩ (.nil _))
  refine ⟨by decide, ?_, fun hnone => ?_⟩
  · exact (paused_iff_served hevent).2 resumeAt _ _ (List.mem_singleton.2 rfl) hrun
  · obtain ⟨e, he, hserved⟩ := ((paused_iff_served hrepo).1 rfl).1 hnone
    obtain rfl : fetched = e := Option.some.inj he
    exact absurd hserved (by decide)

open BothLow in
/-- The query starts a refresh 10 s into a pause of 61.5 s. -/
theorem spawns_while_paused :
    ∃ s c s', Reachable s ∧ Step s c s' ∧ s.isBackedOff c.op.now = true ∧ c.Spawns repo := by
  refine ⟨paused, ⟨query, [.emitOutput loadingOutput, .spawnRefresh repo "/repo"]⟩,
    ⟨(onQuery paused ⟨"/repo", "main", .ofSecs 10, .ofSecs 10, 5⟩ repo
      DaemonServerConfig.defaults.policy).1.entries, some snapshot, some resumeAt⟩,
    ?_, Step.of_run rfl, rfl, "/repo", by simp⟩
  exact Reachable.of_exec [.rateLimit event] rfl

end MergeReady.Daemon
