import Mathlib.Algebra.Group.Nat.Even
import MergeReady.Daemon.RateLimitClient
import MergeReady.Evaluation.Refresh

/-!
# Fetching the rate limit

The daemon looks at the rate limit at every tick of a timer, through a client that keeps an answer
of `gh` for as long as `ttl`.  `gh` is started exactly when there is no such answer, so never twice
within `ttl`; and since the timer's interval is the `ttl` as well, and an answer takes its time, a
timer that is on time starts it at every second tick only.
-/

namespace MergeReady.Daemon

open MergeReady.Lib
open MergeReady.Evaluation (Gh SpawnError Waited runProgram)

/-- The last answer, and for how long it is kept.  Only the task that fetches takes the mutex. -/
structure RateLimitClient where
  cache : Option RateLimitSnapshot
  ttl : Duration

/-- What a tick of the timer meets. -/
structure Tick where
  /-- the clock when the cache is looked at -/
  checkedAt : Instant
  gh : Gh
  /-- the clock when `gh` has answered, if it is started -/
  fetchedAt : Instant
  /-- the clocks of the event -/
  now : Instant
  nowWall : SystemTime

/-- What became of a tick: whether `gh` was started, and what was observed. -/
structure Ticked where
  tick : Tick
  asked : Bool
  event : Option RateLimitObservedEvent

namespace RateLimitClient

def new (ttl : Duration) : RateLimitClient := ⟨none, ttl⟩

/-- The client of the daemon, for the interval of its timer. -/
def ofInterval (rateLimitFetchIntervalSecs : UInt64) : RateLimitClient :=
  .new (.ofSecs rateLimitFetchIntervalSecs)

def cachedIfFresh (client : RateLimitClient) (now : Instant) : Option RateLimitSnapshot :=
  match client.cache with
  | none => none
  | some snap =>
    if (now.saturatingDurationSince snap.fetchedAt).nanos < client.ttl.nanos then some snap
    else none

section

-- `String::from_utf8_lossy`, and `serde_json::from_slice` at `RateLimitResponse`
variable (fromUtf8Lossy : List UInt8 → String)
  (fromSlice : List UInt8 → Option RateLimitResponse)

def rawFetch (t : Tick) : Fallible (Option RateLimitSnapshot) :=
  match runProgram fromUtf8Lossy t.gh ["api", "rate_limit"] with
  | .ok bytes => parseRateLimitJson (fromSlice bytes) t.fetchedAt
  -- `gh` failed, is not installed, took too long or could not be run
  | .error _ => .ok none

/-- `true` when `gh` was started. -/
def fetchOrCached (client : RateLimitClient) (t : Tick) :
    Fallible (RateLimitClient × Bool × Option RateLimitSnapshot) :=
  match client.cachedIfFresh t.checkedAt with
  | some snap => .ok (client, false, some snap)
  | none => do
    match ← rawFetch fromUtf8Lossy fromSlice t with
    | none => return (client, true, none)
    | some snap => return ({ client with cache := some snap }, true, some snap)

/-- A round of the loop. -/
def onTick (client : RateLimitClient) (t : Tick) : Fallible (RateLimitClient × Ticked) := do
  let (client, asked, snapshot) ← client.fetchOrCached fromUtf8Lossy fromSlice t
  let event := snapshot.map fun snapshot => { snapshot, now := t.now, nowWall := t.nowWall }
  return (client, { tick := t, asked, event })

/-- The loop until it is cancelled, or its task has panicked. -/
inductive Step : RateLimitClient → Ticked → RateLimitClient → Prop
  | tick {client client' : RateLimitClient} {x : Ticked} {t : Tick}
      (h : client.onTick fromUtf8Lossy fromSlice t = .ok (client', x)) : Step client x client'

end

/-- What a round does. -/
inductive Rounds (client : RateLimitClient) (t : Tick) : Ticked → RateLimitClient → Prop
  | reused {snap : RateLimitSnapshot} (hcache : client.cache = some snap)
      (hage : t.checkedAt.nanos - snap.fetchedAt.nanos < client.ttl.nanos) :
      Rounds client t ⟨t, false, some ⟨snap, t.now, t.nowWall⟩⟩ client
  | failed (hstale : client.cachedIfFresh t.checkedAt = none) :
      Rounds client t ⟨t, true, none⟩ client
  | fetched {snap : RateLimitSnapshot} (hstale : client.cachedIfFresh t.checkedAt = none)
      (hsnap : snap.fetchedAt = t.fetchedAt) :
      Rounds client t ⟨t, true, some ⟨snap, t.now, t.nowWall⟩⟩ { client with cache := some snap }

section

variable {fromUtf8Lossy : List UInt8 → String} {fromSlice : List UInt8 → Option RateLimitResponse}
  {client client' : RateLimitClient} {x : Ticked} {t : Tick} {snap : RateLimitSnapshot}

theorem cachedIfFresh_eq_none {now : Instant}
    (hnow : ∀ snap, client.cache = some snap → snap.fetchedAt ≤ now) :
    client.cachedIfFresh now = none ↔
      ∀ snap, client.cache = some snap → client.ttl.nanos ≤ now.nanos - snap.fetchedAt.nanos := by
  unfold cachedIfFresh
  cases h : client.cache with
  | none => simp
  | some snap =>
    have hle := Timespec.le_def.1 (hnow snap h)
    simp only [Timespec.nanos_saturatingDurationSince, ite_eq_right_iff, reduceCtorEq, imp_false,
      Option.some.injEq, forall_eq']
    omega

theorem cachedIfFresh_eq_some {now : Instant} : client.cachedIfFresh now = some snap ↔
    client.cache = some snap ∧ (now.nanos - snap.fetchedAt.nanos).toNat < client.ttl.nanos := by
  unfold cachedIfFresh
  cases client.cache with
  | none => simp
  | some snap' =>
    simp only [Timespec.nanos_saturatingDurationSince,
      Option.ite_none_right_eq_some, Option.some.injEq]
    constructor
    · rintro ⟨hage, rfl⟩
      exact ⟨rfl, hage⟩
    · rintro ⟨rfl, hage⟩
      exact ⟨hage, rfl⟩

theorem fetchedAt_parse {response : Option RateLimitResponse} {fetchedAt : Instant}
    (h : parseRateLimitJson response fetchedAt = .ok (some snap)) : snap.fetchedAt = fetchedAt := by
  unfold parseRateLimitJson at h
  cases response with
  | none => cases h
  | some response =>
    obtain ⟨core, -, h⟩ := bind_eq_ok.1 h
    obtain ⟨graphql, -, h⟩ := bind_eq_ok.1 h
    cases h
    rfl

theorem fetchedAt_rawFetch (h : rawFetch fromUtf8Lossy fromSlice t = .ok (some snap)) :
    snap.fetchedAt = t.fetchedAt := by
  unfold rawFetch at h
  split at h
  · exact fetchedAt_parse h
  · cases h

theorem Step.rounds (h : Step fromUtf8Lossy fromSlice client x client') :
    ∃ t, Rounds client t x client' := by
  obtain ⟨t, h⟩ : ∃ t, client.onTick fromUtf8Lossy fromSlice t = .ok (client', x) := by
    obtain ⟨h⟩ := h
    exact ⟨_, h⟩
  refine ⟨t, ?_⟩
  obtain ⟨⟨client', asked, snapshot⟩, hfetch, h⟩ := bind_eq_ok.1 h
  obtain ⟨rfl, rfl⟩ := Prod.mk.inj (Except.ok.inj h)
  unfold fetchOrCached at hfetch
  split at hfetch
  · rename_i snap hfresh
    cases hfetch
    obtain ⟨hcache, hage⟩ := cachedIfFresh_eq_some.1 hfresh
    exact .reused hcache (by omega)
  · rename_i hstale
    obtain ⟨o, hraw, hfetch⟩ := bind_eq_ok.1 hfetch
    cases o with
    | none =>
      cases hfetch
      exact .failed hstale
    | some snap =>
      cases hfetch
      exact .fetched hstale (fetchedAt_rawFetch hraw)

end

end RateLimitClient

/-! ## Answers -/

/-- The answer that `gh` gave at this tick. -/
def Ticked.answer (x : Ticked) : Option RateLimitSnapshot :=
  if x.asked then x.event.map (·.snapshot) else none

/-- The answers of `gh`, in their order. -/
def answers (xs : List Ticked) : List RateLimitSnapshot := xs.filterMap Ticked.answer

/-- The clock does not go back: not during a tick, and not from one to the next. -/
structure Ordered (xs : List Ticked) : Prop where
  each : ∀ x ∈ xs, x.tick.checkedAt ≤ x.tick.fetchedAt
  pair : xs.Pairwise fun x y => x.tick.fetchedAt ≤ y.tick.checkedAt

section

variable {fromUtf8Lossy : List UInt8 → String} {fromSlice : List UInt8 → Option RateLimitResponse}
  {client client' : RateLimitClient} {x y : Ticked} {xs before after : List Ticked}
  {snap : RateLimitSnapshot} {ttl : Duration}

theorem answers_concat (xs : List Ticked) (x : Ticked) :
    answers (xs ++ [x]) = answers xs ++ x.answer.toList := by
  rw [answers, List.filterMap_append, answers, List.filterMap_cons, List.filterMap_nil]
  cases x.answer <;> rfl

/-- An answer bears the time at which `gh` had answered. -/
def Dated (xs : List Ticked) : Prop :=
  ∀ x ∈ xs, ∀ snap, x.answer = some snap → snap.fetchedAt = x.tick.fetchedAt

/-- What the client keeps is the last answer. -/
theorem cache_of_run
    (hr : Run (RateLimitClient.Step fromUtf8Lossy fromSlice) (.new ttl) xs client) :
    client.ttl = ttl ∧ client.cache = (answers xs).getLast? ∧ Dated xs := by
  refine Run.history (P := fun xs client => client.ttl = ttl ∧
    client.cache = (answers xs).getLast? ∧ Dated xs) ⟨rfl, rfl, List.forall_mem_nil _⟩ ?_ hr
  rintro ls client x client' _ ⟨httl, hcache, hdates⟩ hstep
  obtain ⟨t, h⟩ := hstep.rounds
  rw [answers_concat, Dated, List.forall_mem_append, List.forall_mem_singleton]
  cases h with
  | reused hc hage =>
    refine ⟨httl, hcache.trans (congrArg _ (List.append_nil _).symm), hdates, fun snap h => ?_⟩
    cases h
  | failed hstale =>
    refine ⟨httl, hcache.trans (congrArg _ (List.append_nil _).symm), hdates, fun snap h => ?_⟩
    cases h
  | fetched hstale hsnap =>
    refine ⟨httl, List.getLast?_concat.symm, hdates, fun snap h => ?_⟩
    obtain rfl := Option.some.inj h
    exact hsnap

/-- The answers come in the order of their times, and before the next look at the clock. -/
theorem answers_ordered (ho : Ordered (xs ++ [x])) (hd : Dated xs) :
    (answers xs).Pairwise (fun a b => a.fetchedAt ≤ b.fetchedAt) ∧
      ∀ snap ∈ answers xs, snap.fetchedAt ≤ x.tick.checkedAt := by
  obtain ⟨hpair, -, hlast⟩ := List.pairwise_append.1 ho.pair
  constructor
  · refine List.pairwise_filterMap.2 (hpair.imp_of_mem ?_)
    intro y z hy hz hle a ha b hb
    rw [hd y hy a ha, hd z hz b hb]
    exact hle.trans (ho.each z (List.mem_append_left _ hz))
  · intro snap hsnap
    obtain ⟨y, hy, ha⟩ := List.mem_filterMap.1 hsnap
    rw [hd y hy snap ha]
    exact hlast y hy x (List.mem_singleton_self x)

/-- The last answer is old enough when all of them are. -/
theorem forall_last_iff (ho : Ordered (xs ++ [x])) (hd : Dated xs) :
    (∀ snap, (answers xs).getLast? = some snap →
      ttl.nanos ≤ x.tick.checkedAt.nanos - snap.fetchedAt.nanos) ↔
    ∀ snap ∈ answers xs, ttl.nanos ≤ x.tick.checkedAt.nanos - snap.fetchedAt.nanos := by
  obtain ⟨hpair, -⟩ := answers_ordered ho hd
  constructor
  · intro h snap hsnap
    obtain ⟨last, hlast⟩ := Option.isSome_iff_exists.1
      (List.getLast?_isSome.2 (List.ne_nil_of_mem hsnap))
    have hold := h last hlast
    obtain ⟨early, heq⟩ := List.getLast?_eq_some_iff.1 hlast
    rw [heq] at hpair hsnap
    rcases List.mem_append.1 hsnap with hsnap | hsnap
    · have hle := (List.pairwise_append.1 hpair).2.2 snap hsnap last (List.mem_singleton_self _)
      rw [Timespec.le_def] at hle
      omega
    · obtain rfl := List.mem_singleton.1 hsnap
      exact hold
  · exact fun h snap hsnap => h snap (List.mem_of_getLast? hsnap)

/-- **When `gh` is started, and what is observed.**  In every run of the fetcher, however long its
ticks take and whatever `gh` says, a tick starts `gh` exactly when each answer it has given is `ttl`
old.  What a tick observes is the last answer, its own if it has got one; any other is younger than
`ttl`.  A tick that observes nothing has asked in vain. -/
theorem run_observes (hr : Run (RateLimitClient.Step fromUtf8Lossy fromSlice) (.new ttl) xs client)
    (ho : Ordered xs) (hx : xs = before ++ x :: after) :
    (x.asked = true ↔ ∀ snap ∈ answers before,
      ttl.nanos ≤ x.tick.checkedAt.nanos - snap.fetchedAt.nanos) ∧
    (∀ ev, x.event = some ev → (answers (before ++ [x])).getLast? = some ev.snapshot ∧
      (x.asked = true ∧ ev.snapshot.fetchedAt = x.tick.fetchedAt ∨
        x.asked = false ∧ x.tick.checkedAt.nanos - ev.snapshot.fetchedAt.nanos < ttl.nanos)) ∧
    (x.event = none → x.asked = true ∧ answers (before ++ [x]) = answers before) := by
  subst hx
  obtain ⟨hconcat, hsplit⟩ : Ordered (before ++ [x]) ∧ before ++ x :: after =
      before ++ [x] ++ after := by
    have heq := List.append_cons before x after
    rw [heq] at ho
    exact ⟨⟨fun y hy => ho.each y (List.mem_append_left _ hy),
      (List.pairwise_append.1 ho.pair).1⟩, heq⟩
  rw [hsplit] at hr
  obtain ⟨_, hr', -⟩ := Run.append_iff.1 hr
  obtain ⟨c, hbefore, hstep⟩ := Run.snoc_iff.1 hr'
  obtain ⟨httl, hcache, hd⟩ := cache_of_run hbefore
  obtain ⟨-, hpast⟩ := answers_ordered hconcat hd
  have hstale : c.cachedIfFresh x.tick.checkedAt = none ↔ ∀ snap ∈ answers before,
      ttl.nanos ≤ x.tick.checkedAt.nanos - snap.fetchedAt.nanos := by
    rw [← forall_last_iff hconcat hd, ← hcache, ← httl]
    exact RateLimitClient.cachedIfFresh_eq_none fun snap h =>
      hpast snap (List.mem_of_getLast? (hcache ▸ h))
  obtain ⟨t, h⟩ := hstep.rounds
  rw [answers_concat]
  cases h with
  | @reused snap hc hage =>
    rw [httl] at hage
    refine ⟨iff_of_false Bool.false_ne_true fun hold => ?_, ?_, fun h => ?_⟩
    · have hold : ttl.nanos ≤ t.checkedAt.nanos - snap.fetchedAt.nanos :=
        hold snap (List.mem_of_getLast? (hcache ▸ hc))
      omega
    · rintro ev h
      obtain rfl := Option.some.inj h
      exact ⟨(congrArg _ (List.append_nil _)).trans (hcache.symm.trans hc), .inr ⟨rfl, hage⟩⟩
    · cases h
  | failed hs =>
    refine ⟨iff_of_true rfl (hstale.1 hs), fun ev h => ?_, fun _ => ⟨rfl, List.append_nil _⟩⟩
    cases h
  | fetched hs hsnap =>
    refine ⟨iff_of_true rfl (hstale.1 hs), ?_, fun h => ?_⟩
    · rintro ev h
      obtain rfl := Option.some.inj h
      exact ⟨List.getLast?_concat, .inl ⟨rfl, hsnap⟩⟩
    · cases h

/-! ### Three minutes -/

def goodGh : Gh := fun _ => .ok (.exited (some 0) [] [])

def goodAnswer : RateLimitResponse :=
  { resources := { core := ⟨5000, 4950, 1778924570⟩, graphql := ⟨5000, 4600, 1778921661⟩ } }

def tickAt (secs : UInt32) : Tick :=
  { checkedAt := .ofSecs secs
    gh := goodGh
    fetchedAt := .ofSecs (secs + 1)
    now := .ofSecs (secs + 1)
    nowWall := .ofSecs (1778920000 + secs) }

def snapshotAt (secs : UInt32) : RateLimitSnapshot :=
  { coreRemaining := 4950
    coreLimit := 5000
    graphqlRemaining := 4600
    graphqlLimit := 5000
    coreResetAt := .ofSecs 1778924570
    graphqlResetAt := .ofSecs 1778921661
    fetchedAt := .ofSecs secs }

/-- The tick at `secs`, which observed the answer of `fetched`. -/
def tickedAt (secs fetched : UInt32) (asked : Bool) : Ticked :=
  { tick := tickAt secs
    asked
    event := some
      { snapshot := snapshotAt fetched
        now := .ofSecs (secs + 1)
        nowWall := .ofSecs (1778920000 + secs) } }

def threeTicks : List Ticked := [tickedAt 0 1 true, tickedAt 60 1 false, tickedAt 120 121 true]

theorem run_threeTicks : Run (RateLimitClient.Step (fun _ => "") fun _ => some goodAnswer)
    (.ofInterval 60) threeTicks ⟨some (snapshotAt 121), .ofSecs 60⟩ :=
  .cons (t := ⟨some (snapshotAt 1), .ofSecs 60⟩) (.tick (t := tickAt 0) rfl)
    (.cons (t := ⟨some (snapshotAt 1), .ofSecs 60⟩) (.tick (t := tickAt 60) rfl)
      (.cons (.tick (t := tickAt 120) rfl) (.nil _)))

theorem ordered_threeTicks : Ordered threeTicks where
  each := by simp [threeTicks, tickedAt, tickAt, Timespec.le_def]
  pair := by simp [threeTicks, tickedAt, tickAt, Timespec.le_def]

theorem run_observes_threeTicks : (tickedAt 60 1 false).asked = true ↔
    ∀ snap ∈ answers [tickedAt 0 1 true],
      60000000000 ≤ (tickAt 60).checkedAt.nanos - snap.fetchedAt.nanos :=
  have hx : threeTicks =
      [tickedAt 0 1 true] ++ tickedAt 60 1 false :: [tickedAt 120 121 true] := rfl
  (run_observes run_threeTicks ordered_threeTicks hx).1

/-! ## A timer that is on time -/

/-- When the tick `k` of a timer with this interval is due. -/
def due (start : ℤ) (interval : Duration) (k : ℕ) : ℤ := start + k * interval.nanos

theorem due_succ (start : ℤ) (interval : Duration) (k : ℕ) :
    due start interval (k + 1) = due start interval k + interval.nanos := by
  unfold due
  rw [Int.natCast_succ, Int.add_mul, Int.one_mul]
  omega

/-- The tick comes at most `slack` after it is due.  Where it starts `gh`, the answer comes later than
that, and before the next tick is due. -/
structure OnTime (due slack : ℤ) (interval : Duration) (x : Ticked) : Prop where
  due_le : due ≤ x.tick.checkedAt.nanos
  not_late : x.tick.checkedAt.nanos ≤ due + slack
  not_instant : x.asked = true → due + slack < x.tick.fetchedAt.nanos
  answered : x.asked = true → x.tick.fetchedAt.nanos ≤ due + interval.nanos

/-- Before an even tick the client keeps nothing that is young enough, and before an odd one the
answer of the tick before. -/
def Alternates (client : RateLimitClient) (start slack : ℤ) (n : ℕ) : Prop :=
  (Even n → ∀ snap, client.cache = some snap →
    snap.fetchedAt.nanos + client.ttl.nanos ≤ due start client.ttl n) ∧
  (¬ Even n → ∃ snap, client.cache = some snap ∧
    snap.fetchedAt.nanos ≤ due start client.ttl n ∧
    due start client.ttl n + slack < snap.fetchedAt.nanos + client.ttl.nanos)

theorem Alternates.step {start slack : ℤ} {n : ℕ} (h : Alternates client start slack n)
    (hstep : RateLimitClient.Step fromUtf8Lossy fromSlice client x client')
    (ht : OnTime (due start client.ttl n) slack client.ttl x)
    (hgood : x.asked = true → x.event ≠ none) :
    (x.asked = true ↔ Even n) ∧ Alternates client' start slack (n + 1) := by
  obtain ⟨heven, hodd⟩ := h
  obtain ⟨hdue, hlate, hslow, hanswered⟩ := ht
  have hnext := due_succ start client.ttl n
  obtain ⟨t, h⟩ := hstep.rounds
  cases h with
  | @reused snap hc hage =>
    have hn : ¬ Even n := fun hn => by
      have hold := heven hn snap hc
      dsimp only at hdue
      omega
    obtain ⟨snap', hc', hpast, -⟩ := hodd hn
    obtain rfl : snap = snap' := Option.some.inj (hc.symm.trans hc')
    refine ⟨iff_of_false Bool.false_ne_true hn, fun _ snap' hc' => ?_, fun h => ?_⟩
    · obtain rfl : snap = snap' := Option.some.inj (hc.symm.trans hc')
      omega
    · exact absurd (Nat.even_add_one.2 hn) h
  | failed hs => exact absurd rfl (hgood rfl)
  | @fetched snap hs hsnap =>
    have hn : Even n := by
      by_contra hn
      obtain ⟨snap', hc', hpast, hyoung⟩ := hodd hn
      have hfresh : client.cachedIfFresh t.checkedAt = some snap' := by
        refine RateLimitClient.cachedIfFresh_eq_some.2 ⟨hc', ?_⟩
        dsimp only at hdue hlate
        omega
      rw [hfresh] at hs
      cases hs
    have hslow := hslow rfl
    have hanswered := hanswered rfl
    rw [← hsnap] at hslow hanswered
    refine ⟨iff_of_true rfl hn, fun h => ?_, fun _ => ⟨snap, rfl, ?_, ?_⟩⟩
    · exact absurd hn (Nat.even_add_one.1 h)
    · show snap.fetchedAt.nanos ≤ due start client.ttl (n + 1)
      omega
    · show due start client.ttl (n + 1) + slack < snap.fetchedAt.nanos + client.ttl.nanos
      omega

theorem RateLimitClient.Step.ttl_eq
    (h : RateLimitClient.Step fromUtf8Lossy fromSlice client x client') :
    client'.ttl = client.ttl := by
  obtain ⟨t, h⟩ := h.rounds
  cases h with
  | reused => rfl
  | failed => rfl
  | fetched => rfl

theorem alternates_of_run {start slack : ℤ}
    (hr : Run (RateLimitClient.Step fromUtf8Lossy fromSlice) (.new ttl) xs client)
    (ht : ∀ (k : ℕ) (x : Ticked), xs[k]? = some x → OnTime (due start ttl k) slack ttl x)
    (hgood : ∀ x ∈ xs, x.asked = true → x.event ≠ none) :
    (∀ (k : ℕ) (x : Ticked), xs[k]? = some x → (x.asked = true ↔ Even k)) ∧
      client.ttl = ttl ∧ Alternates client start slack xs.length := by
  induction xs using List.reverseRecOn generalizing client with
  | nil =>
    obtain rfl := Run.nil_iff.1 hr
    refine ⟨fun k x h => ?_, rfl, fun _ snap h => ?_, fun h => absurd Even.zero h⟩
    · cases h
    · cases h
  | append_singleton xs x ih =>
    obtain ⟨c, hr, hstep⟩ := Run.snoc_iff.1 hr
    have hfront : ∀ (k : ℕ) (y : Ticked), xs[k]? = some y → (xs ++ [x])[k]? = some y := fun k y h =>
      (List.getElem?_append_left (List.getElem?_eq_some_iff.1 h).1).trans h
    obtain ⟨hxs, httl, halt⟩ := ih hr (fun k y h => ht k y (hfront k y h))
      fun y hy => hgood y (List.mem_append_left _ hy)
    have hx := ht xs.length x List.getElem?_concat_length
    rw [← httl] at hx
    obtain ⟨hasked, halt'⟩ := halt.step hstep hx (hgood x (by simp))
    rw [List.length_append, List.length_singleton]
    refine ⟨fun k y h => ?_, hstep.ttl_eq.trans httl, halt'⟩
    rcases Nat.lt_trichotomy k xs.length with hk | rfl | hk
    · rw [List.getElem?_append_left hk] at h
      exact hxs k y h
    · obtain rfl := Option.some.inj (List.getElem?_concat_length.symm.trans h)
      exact hasked
    · rw [List.getElem?_eq_none (by rw [List.length_append, List.length_singleton]; exact hk)] at h
      cases h

/-- **`gh` is started at every second tick.**  The client of the daemon keeps an answer for as long
as the interval of its timer.  When the timer is on time, and every start of `gh` gives an answer,
later than the tick that asked for it and before the next is due, then exactly the even ticks start
`gh`. -/
theorem run_every_second_tick {secs : UInt64} {start slack : ℤ}
    (hr : Run (RateLimitClient.Step fromUtf8Lossy fromSlice) (.ofInterval secs) xs client)
    (ht : ∀ (k : ℕ) (x : Ticked), xs[k]? = some x →
      OnTime (due start (.ofSecs secs) k) slack (.ofSecs secs) x)
    (hgood : ∀ x ∈ xs, x.asked = true → x.event ≠ none) (k : ℕ) (hk : xs[k]? = some x) :
    x.asked = true ↔ Even k :=
  (alternates_of_run hr ht hgood).1 k x hk

theorem run_every_second_tick_threeTicks : (tickedAt 120 121 true).asked = true ↔ Even 2 := by
  have ht : ∀ (k : ℕ) (x : Ticked), threeTicks[k]? = some x →
      OnTime (due 0 (.ofSecs 60) k) 0 (.ofSecs 60) x := by
    intro k x h
    rcases k with _ | _ | _ | k
    · obtain rfl := Option.some.inj h
      exact ⟨by decide, by decide, by decide, by decide⟩
    · obtain rfl := Option.some.inj h
      exact ⟨by decide, by decide, by decide, by decide⟩
    · obtain rfl := Option.some.inj h
      exact ⟨by decide, by decide, by decide, by decide⟩
    · cases h
  exact run_every_second_tick run_threeTicks ht
    (by simp [threeTicks, tickedAt]) 2 rfl

end

end MergeReady.Daemon
