import MergeReady.Lib.Actor
import MergeReady.Daemon.Requests

/-!
# The state actor

One task owns the state of the daemon.  The tasks of the connections, of the scheduler and of the rate
limit fetcher send it commands and wait for the replies.  A tick and a snapshot are dated by their
sender, before they wait in the channel; a request is dated when it is handled.  So the times the store
sees can go back, and what holds of the store in every run of the daemon is proved without them being in
order: only the times of service are.
-/

namespace MergeReady.Daemon

open MergeReady.Lib
open MergeReady.Shared

/-! ## Commands -/

/-- What the daemon reads around it: the clocks, and the repository and the branch of a directory. -/
structure Surroundings where
  now : Instant
  nowWall : SystemTime
  repoInfoFromCwd : String → Option (String × String)

/-- Later on the monotonic clock. -/
instance : Preorder Surroundings := Preorder.lift Surroundings.now

theorem Surroundings.le_def {e e' : Surroundings} : e ≤ e' ↔ e.now ≤ e'.now := Iff.rfl

inductive DaemonCommand
  | process (request : Request)
  | tick (now : Instant) (nowWall : SystemTime)
  | applyRateLimit (event : RateLimitObservedEvent)

/-- What the sender of a command gets back. -/
inductive DaemonReply
  | result (result : Processed)
  | effects (effects : List Effect)
deriving DecidableEq

def COMMAND_CHANNEL_SIZE : ℕ := 64

def DaemonState.new (config : DaemonServerConfig) (startedAt : Instant) : DaemonState :=
  { cacheStore := .new, startedAt := startedAt, config := config }

/-- `handle_command`; only a snapshot can make it panic. -/
def handleCommand (e : Surroundings) (state : DaemonState) :
    DaemonCommand → Fallible (DaemonState × DaemonReply)
  | .process request =>
    let (state, result) := process e.repoInfoFromCwd request state e.now e.nowWall
    .ok (state, .result result)
  | .tick now nowWall =>
    let (newStore, effects) := onSchedulerTick state.cacheStore (state.config.tickInput now nowWall)
    .ok ({ state with cacheStore := newStore }, .effects effects)
  | .applyRateLimit event => do
    let (newStore, effects) ← onRateLimitObserved state.cacheStore event
    return ({ state with cacheStore := newStore }, .effects effects)

/-- The scheduler and the fetcher read the clocks just before they send. -/
def DaemonCommand.StampedAt (e : Surroundings) : DaemonCommand → Prop
  | .process _ => True
  | .tick now nowWall => now = e.now ∧ nowWall = e.nowWall
  | .applyRateLimit event => event.now = e.now ∧ event.nowWall = e.nowWall

/-- The reading of the clock that a command is dated with: its own, or the one when it is handled. -/
def DaemonCommand.datedAt (e : Surroundings) : DaemonCommand → Instant
  | .process _ => e.now
  | .tick now _ => now
  | .applyRateLimit event => event.now

theorem DaemonCommand.datedAt_le {cmd : DaemonCommand} {e₀ e : Surroundings}
    (hst : cmd.StampedAt e₀) (he : e₀ ≤ e) : cmd.datedAt e ≤ e.now := by
  cases cmd with
  | process request => exact le_rfl
  | tick now nowWall => exact hst.1.le.trans he
  | applyRateLimit event => exact hst.1.le.trans he

/-- `daemon_state_actor::spawn` -/
def stateActor (config : DaemonServerConfig) (startedAt : Instant) :
    Service Surroundings DaemonState DaemonCommand DaemonReply where
  start := .new config startedAt
  capacity := COMMAND_CHANNEL_SIZE
  stamped := DaemonCommand.StampedAt
  handle e state cmd := (handleCommand e state cmd).toOption

/-! ## Commands as calls of the store -/

/-- The call of the store that a command makes, if any. -/
def DaemonCommand.op (config : DaemonServerConfig) (e : Surroundings) : DaemonCommand → Option Op
  | .process (.query cwd) =>
    (e.repoInfoFromCwd cwd).map fun info => config.processQuery ⟨info.1⟩ info.2 cwd e.now e.nowWall
  | .process (.update repoId output refreshMode prOutputs) =>
    some (processUpdate ⟨repoId⟩ output refreshMode prOutputs e.now e.nowWall)
  | .process _ => none
  | .tick now nowWall => some (config.tick now nowWall)
  | .applyRateLimit event => some (.rateLimit event)

/-- What a command that calls the store is answered. -/
def DaemonCommand.reply : DaemonCommand → List Effect → DaemonReply
  | .process (.query _), effects => .result (.ofEffects effects)
  | .process _, _ => .result (.reply .ok)
  | _, effects => .effects effects

def DaemonReply.Spawns (id : RepoId) : DaemonReply → Prop
  | .result p => p.refreshRepoId = some id
  | .effects es => ∃ cwd, Effect.spawnRefresh id cwd ∈ es

def DaemonReply.Expires (id : RepoId) : DaemonReply → Prop
  | .result _ => False
  | .effects es => Effect.recordExpired id ∈ es

section Process

variable {repoInfoFromCwd : String → Option (String × String)} {cwd : String} {s : DaemonState}
  {now : Instant} {nowWall : SystemTime}

theorem process_query_of_none (h : repoInfoFromCwd cwd = none) :
    process repoInfoFromCwd (.query cwd) s now nowWall = (s, .reply (.output "")) := by
  simp only [process, h]

/-- A query of a repository is a query of the store. -/
theorem process_query_of_some {info : String × String} (h : repoInfoFromCwd cwd = some info) :
    process repoInfoFromCwd (.query cwd) s now nowWall =
      let event : QueryEvent :=
        { cwd := cwd, branch := info.2, now := now, nowWall := nowWall
          staleTtl := s.config.staleTtlSecs }
      ({ s with cacheStore := (onQuery s.cacheStore event ⟨info.1⟩ s.config.policy).1 },
        Processed.ofEffects (onQuery s.cacheStore event ⟨info.1⟩ s.config.policy).2) := by
  simp only [process, h]

theorem handleCommand_process {e : Surroundings} {request : Request} :
    handleCommand e s (.process request) =
      .ok ((process e.repoInfoFromCwd request s e.now e.nowWall).1,
        .result (process e.repoInfoFromCwd request s e.now e.nowWall).2) := rfl

end Process

/-- A command that makes no call leaves the state alone and asks for nothing. -/
structure Reads (config : DaemonServerConfig) (e : Surroundings) (s t : DaemonState)
    (cmd : DaemonCommand) (r : DaemonReply) : Prop where
  op_eq : cmd.op config e = none
  state_eq : t = s
  not_spawns : ∀ id, ¬ r.Spawns id

/-- A command that makes the call `c`: it is run on the store, and answered with what becomes of its
effects. -/
structure Makes (config : DaemonServerConfig) (e : Surroundings) (s t : DaemonState)
    (cmd : DaemonCommand) (r : DaemonReply) (c : Call) : Prop where
  op_eq : cmd.op config e = some c.op
  run_eq : c.op.run s.cacheStore = .ok (t.cacheStore, c.effects)
  state_eq : t = { s with cacheStore := t.cacheStore }
  reply_eq : r = cmd.reply c.effects

/-- **A command makes one call of the store, or only reads.** -/
theorem handleCommand_cases {e : Surroundings} {s t : DaemonState} {cmd : DaemonCommand}
    {r : DaemonReply} (h : handleCommand e s cmd = .ok (t, r)) :
    Reads s.config e s t cmd r ∨ ∃ c, Makes s.config e s t cmd r c := by
  cases cmd with
  | process request =>
    rw [handleCommand_process] at h
    cases request with
    | query cwd =>
      cases hinfo : e.repoInfoFromCwd cwd with
      | none =>
        rw [process_query_of_none hinfo] at h
        obtain ⟨rfl, rfl⟩ := Prod.mk.inj (Except.ok.inj h)
        exact .inl ⟨by simp only [DaemonCommand.op, hinfo, Option.map_none], rfl, nofun⟩
      | some info =>
        rw [process_query_of_some hinfo] at h
        obtain ⟨rfl, rfl⟩ := Prod.mk.inj (Except.ok.inj h)
        have hop : DaemonCommand.op s.config e (.process (.query cwd)) =
            some (s.config.processQuery ⟨info.1⟩ info.2 cwd e.now e.nowWall) := by
          simp only [DaemonCommand.op, hinfo, Option.map_some]
        exact .inr ⟨⟨_, _⟩, hop, rfl, rfl, rfl⟩
    | update repoId output refreshMode prOutputs =>
      obtain ⟨rfl, rfl⟩ := Prod.mk.inj (Except.ok.inj h)
      exact .inr ⟨⟨_, _⟩, rfl, rfl, rfl, rfl⟩
    | stop =>
      obtain ⟨rfl, rfl⟩ := Prod.mk.inj (Except.ok.inj h)
      exact .inl ⟨rfl, rfl, nofun⟩
    | status =>
      obtain ⟨rfl, rfl⟩ := Prod.mk.inj (Except.ok.inj h)
      exact .inl ⟨rfl, rfl, nofun⟩
    | entries =>
      obtain ⟨rfl, rfl⟩ := Prod.mk.inj (Except.ok.inj h)
      exact .inl ⟨rfl, rfl, nofun⟩
  | tick now nowWall =>
    obtain ⟨rfl, rfl⟩ := Prod.mk.inj (Except.ok.inj h)
    exact .inr ⟨⟨_, _⟩, rfl, rfl, rfl, rfl⟩
  | applyRateLimit event =>
    obtain ⟨⟨store, effects⟩, hstore, h⟩ := bind_eq_ok.1 h
    obtain ⟨rfl, rfl⟩ := Prod.mk.inj (Except.ok.inj h)
    exact .inr ⟨⟨_, _⟩, rfl, hstore, rfl, rfl⟩

namespace Makes

variable {config : DaemonServerConfig} {e : Surroundings} {s t : DaemonState} {cmd : DaemonCommand}
  {r : DaemonReply} {c : Call} {id : RepoId}

theorem step (h : Makes config e s t cmd r c) : Step s.cacheStore c t.cacheStore :=
  Step.of_run h.run_eq

theorem now_eq (h : Makes config e s t cmd r c) : c.op.now = cmd.datedAt e := by
  have hop := h.op_eq
  cases cmd with
  | process request =>
    cases request with
    | query cwd =>
      obtain ⟨info, -, hop⟩ := Option.map_eq_some_iff.1 hop
      rw [← hop]
      rfl
    | update repoId output refreshMode prOutputs =>
      rw [← Option.some.inj hop]
      rfl
    | stop => cases hop
    | status => cases hop
    | entries => cases hop
  | tick now nowWall =>
    rw [← Option.some.inj hop]
    rfl
  | applyRateLimit event =>
    rw [← Option.some.inj hop]
    rfl

theorem timeout_eq (h : Makes config e s t cmd r c) {input : SchedulerTickInput}
    (hc : c.op = .tick input) : input.refreshLockTimeoutSecs = config.refreshLockTimeoutSecs := by
  have hop := hc ▸ h.op_eq
  cases cmd with
  | process request =>
    cases request with
    | query cwd =>
      obtain ⟨info, -, hop⟩ := Option.map_eq_some_iff.1 hop
      cases hop
    | _ => cases hop
  | tick now nowWall =>
    cases hop
    rfl
  | applyRateLimit event => cases hop

theorem query_eq (h : Makes config e s t cmd r c) {ev : QueryEvent} {p : RefreshPolicy}
    (hc : c.op = .query id ev p) : ev.staleTtl = config.staleTtlSecs ∧ ev.now = e.now := by
  have hop := hc ▸ h.op_eq
  cases cmd with
  | process request =>
    cases request with
    | query cwd =>
      obtain ⟨info, -, hop⟩ := Option.map_eq_some_iff.1 hop
      cases hop
      exact ⟨rfl, rfl⟩
    | _ => cases hop
  | tick now nowWall => cases hop
  | applyRateLimit event => cases hop

/-- A query of the store is of the repository and the branch of its directory. -/
theorem info_of_query (h : Makes config e s t cmd r c) {ev : QueryEvent} {p : RefreshPolicy}
    (hc : c.op = .query id ev p) : e.repoInfoFromCwd ev.cwd = some (id.inner, ev.branch) := by
  have hop := hc ▸ h.op_eq
  cases cmd with
  | process request =>
    cases request with
    | query cwd =>
      obtain ⟨info, hinfo, hop⟩ := Option.map_eq_some_iff.1 hop
      cases hop
      exact hinfo
    | _ => cases hop
  | tick now nowWall => cases hop
  | applyRateLimit event => cases hop

/-- A call completes a refresh when the command is an update of it. -/
theorem update_of_completed (h : Makes config e s t cmd r c) {ev : RefreshCompletedEvent}
    (hc : c.op = .refreshCompleted id ev) :
    ∃ mode prs, cmd = .process (.update id.inner ev.output mode prs) := by
  have hop := hc ▸ h.op_eq
  cases cmd with
  | process request =>
    cases request with
    | query cwd =>
      obtain ⟨info, -, hop⟩ := Option.map_eq_some_iff.1 hop
      cases hop
    | update repoId output refreshMode prOutputs =>
      cases hop
      exact ⟨_, _, rfl⟩
    | _ => cases hop
  | tick now nowWall => cases hop
  | applyRateLimit event => cases hop

/-- A query gives an output and asks for one refresh at most. -/
theorem query_effects {cwd : String} (h : Makes config e s t (.process (.query cwd)) r c) :
    ∃ out, c.effects = [.emitOutput out] ∨
      ∃ id' cwd', c.effects = [.emitOutput out, .spawnRefresh id' cwd'] := by
  obtain ⟨op, effects⟩ := c
  obtain ⟨hop, hrun, -, -⟩ := h
  obtain ⟨info, -, rfl⟩ := Option.map_eq_some_iff.1 hop
  have heff : (onQuery s.cacheStore _ ⟨info.1⟩ config.policy).2 = effects :=
    congrArg Prod.snd (Except.ok.inj hrun)
  obtain ⟨out, hout | ⟨cwd', hout⟩⟩ := onQuery_effects s.cacheStore ⟨info.1⟩ _ config.policy
  · exact ⟨out, .inl (heff.symm.trans hout)⟩
  · exact ⟨out, .inr ⟨_, cwd', heff.symm.trans hout⟩⟩

theorem update_effects {repoId output : String} {mode : RefreshMode} {prs : List PrOutput}
    (h : Makes config e s t (.process (.update repoId output mode prs)) r c) : c.effects = [] := by
  obtain ⟨op, effects⟩ := c
  obtain ⟨hop, hrun, -, -⟩ := h
  obtain rfl := Option.some.inj hop
  exact (congrArg Prod.snd (Except.ok.inj hrun)).symm.trans (onRefreshCompleted_effects _ _ _)

theorem spawns_iff (h : Makes config e s t cmd r c) : r.Spawns id ↔ c.Spawns id := by
  rw [h.reply_eq]
  cases cmd with
  | process request =>
    cases request with
    | query cwd =>
      obtain ⟨out, heff | ⟨id', cwd', heff⟩⟩ := h.query_effects
      · simp [heff, DaemonCommand.reply, DaemonReply.Spawns, Processed.ofEffects, Call.Spawns,
          effectsToActionResult, ActionResult.afterEffect]
      · simp [heff, DaemonCommand.reply, DaemonReply.Spawns, Processed.ofEffects, Call.Spawns,
          effectsToActionResult, ActionResult.afterEffect, eq_comm]
    | update repoId output refreshMode prOutputs =>
      simp [h.update_effects, DaemonCommand.reply, DaemonReply.Spawns, Processed.reply, Call.Spawns]
    | _ => cases h.op_eq
  | tick now nowWall => exact Iff.rfl
  | applyRateLimit event => exact Iff.rfl

theorem expires (h : Makes config e s t cmd r c) (hx : c.Expires id) : r.Expires id := by
  rw [h.reply_eq]
  cases cmd with
  | process request =>
    cases request with
    | query cwd =>
      obtain ⟨out, heff | ⟨id', cwd', heff⟩⟩ := h.query_effects
      · simp [heff, Call.Expires] at hx
      · simp [heff, Call.Expires] at hx
    | update repoId output refreshMode prOutputs => simp [h.update_effects, Call.Expires] at hx
    | _ => cases h.op_eq
  | tick now nowWall => exact hx
  | applyRateLimit event => exact hx

end Makes

/-! ## Runs of the daemon as runs of the store -/

section Runs

variable {ι : Type*} {config : DaemonServerConfig} {startedAt : Instant} {e₀ : Surroundings}

abbrev ServedCommand (ι : Type*) := Served ι Surroundings DaemonCommand DaemonReply

/-- The calls that the commands of a run make, in order. -/
inductive CallsOf (config : DaemonServerConfig) : List (ServedCommand ι) → List Call → Prop
  | nil : CallsOf config [] []
  | reads {x xs cs} (hop : x.cmd.op config x.env = none) (h : CallsOf config xs cs) :
      CallsOf config (x :: xs) cs
  | makes {x xs c cs} {s t : DaemonState} (hc : Makes config x.env s t x.cmd x.reply c)
      (h : CallsOf config xs cs) : CallsOf config (x :: xs) (c :: cs)

theorem CallsOf.exists_makes {served : List (ServedCommand ι)} {calls : List Call}
    (h : CallsOf config served calls) {c : Call} (hc : c ∈ calls) :
    ∃ x ∈ served, ∃ s t, Makes config x.env s t x.cmd x.reply c := by
  induction h with
  | nil => cases hc
  | reads _ _ ih =>
    obtain ⟨x, hx, h⟩ := ih hc
    exact ⟨x, List.mem_cons_of_mem _ hx, h⟩
  | makes hm _ ih =>
    rcases List.mem_cons.1 hc with rfl | hc
    · exact ⟨_, List.mem_cons_self, _, _, hm⟩
    · obtain ⟨x, hx, h⟩ := ih hc
      exact ⟨x, List.mem_cons_of_mem _ hx, h⟩

theorem handleCommand_of_seqStep {s t : DaemonState} {x : ServedCommand ι}
    (h : (stateActor config startedAt).SeqStep s x t) :
    handleCommand x.env s x.cmd = .ok (t, x.reply) := by
  revert h
  unfold Service.SeqStep stateActor
  dsimp only
  cases handleCommand x.env s x.cmd with
  | error => exact nofun
  | ok out =>
    intro h
    rw [Option.some.inj h]

/-- **A run of the actor is a run of the store**, with the configuration it was started with. -/
theorem callsOf_run {s t : DaemonState} {served : List (ServedCommand ι)}
    (hr : Run (stateActor config startedAt).SeqStep s served t) (hs : s.config = config) :
    t.config = config ∧ ∃ calls, CallsOf config served calls ∧
      Run Step s.cacheStore calls t.cacheStore := by
  induction hr with
  | nil s => exact ⟨hs, [], .nil, .nil _⟩
  | @cons s t u x xs hstep _ ih =>
    rcases handleCommand_cases (handleCommand_of_seqStep hstep) with h | ⟨c, h⟩
    · obtain rfl := h.state_eq
      obtain ⟨hu, calls, hcalls, hrun⟩ := ih hs
      exact ⟨hu, calls, .reads (hs ▸ h.op_eq) hcalls, hrun⟩
    · rw [hs] at h
      have ht : t.config = config := by
        rw [h.state_eq]
        exact hs
      obtain ⟨hu, calls, hcalls, hrun⟩ := ih ht
      exact ⟨hu, c :: calls, .makes h hcalls, .cons h.step hrun⟩

/-- The calls of a run are dated no later than now, and their queries use the configuration. -/
theorem callsOf_times {before : List (ServedCommand ι)} {calls : List Call} {now : Instant}
    (hcalls : CallsOf config before calls)
    (hst : ∀ x ∈ before, x.env.now ≤ now ∧ ∃ e ≤ x.env, x.cmd.StampedAt e) :
    ∀ c ∈ calls, c.op.now ≤ now := by
  intro c hc
  obtain ⟨x, hx, s, t, hm⟩ := hcalls.exists_makes hc
  obtain ⟨hnow, e, he, hstamp⟩ := hst x hx
  rw [hm.now_eq]
  exact (DaemonCommand.datedAt_le hstamp he).trans hnow

theorem callsOf_queriesUse {before : List (ServedCommand ι)} {calls : List Call}
    (hcalls : CallsOf config before calls) (hle : ∀ x ∈ before, e₀ ≤ x.env)
    (hrep : -(2 ^ 63 * 1000000000) ≤ e₀.now.nanos - backdate config.staleTtlSecs) :
    QueriesUse config.staleTtlSecs calls := by
  intro c hc id ev p hop
  obtain ⟨x, hx, s, t, hm⟩ := hcalls.exists_makes hc
  obtain ⟨httl, hnow⟩ := hm.query_eq hop
  refine ⟨httl, ?_⟩
  have h := Timespec.le_def.1 (Surroundings.le_def.1 (hle x hx))
  rw [hnow]
  omega

/-- The steps of the daemon's tasks, each caller of the actor with a name in `ι`. -/
abbrev DaemonRun [DecidableEq ι] (config : DaemonServerConfig) (startedAt : Instant)
    (e₀ : Surroundings) : List (ActorEvent ι Surroundings DaemonCommand DaemonReply) →
    Actors ι Surroundings DaemonState DaemonCommand DaemonReply → Prop :=
  Run (Actors.Step (stateActor config startedAt)) ((stateActor config startedAt).init ι e₀)

variable [DecidableEq ι] {evs : List (ActorEvent ι Surroundings DaemonCommand DaemonReply)}
  {S : Actors ι Surroundings DaemonState DaemonCommand DaemonReply}

end Runs

namespace Session

def repo : RepoId := ⟨"cbf29ce484222325"⟩

/-- Every directory is in one repository, on one branch. -/
def around (secs : UInt32) : Surroundings :=
  { now := .ofSecs secs, nowWall := .ofSecs secs
    repoInfoFromCwd := fun _ => some (repo.inner, "main") }

def firstQuery : ServedCommand ℕ :=
  ⟨0, .process (.query "/repo"), around 3,
    .result (.ofEffects [.emitOutput loadingOutput, .spawnRefresh repo "/repo"])⟩

def report : ServedCommand ℕ :=
  ⟨1, .process (.update repo.inner "✓ Ready for merge" .hot []), around 4, .result (.reply .ok)⟩

def secondQuery : ServedCommand ℕ :=
  ⟨2, .process (.query "/repo"), around 100,
    .result (.ofEffects [.emitOutput "✓ Ready for merge", .spawnRefresh repo "/repo"])⟩

/-- The refresh of the second query is never reported.  The tick has waited in the channel. -/
def lateTick : ServedCommand ℕ :=
  ⟨3, .tick (.ofSecs 295) (.ofSecs 295), around 300, .effects [.spawnRefresh repo "/repo"]⟩

/-- Nor is the refresh of the tick. -/
def laterTick : ServedCommand ℕ :=
  ⟨4, .tick (.ofSecs 590) (.ofSecs 590), around 600, .effects [.spawnRefresh repo "/repo"]⟩

def served : List (ServedCommand ℕ) := [firstQuery, report, secondQuery, lateTick, laterTick]

/-- When the clocks of a command were read. -/
def stampedAt (x : ServedCommand ℕ) : Surroundings :=
  match x.cmd with
  | .tick now nowWall => { x.env with now := now, nowWall := nowWall }
  | _ => x.env

theorem exists_run : ∃ evs S, Run (Actors.Step (stateActor .defaults (.ofSecs 0)))
    ((stateActor .defaults (.ofSecs 0)).init ℕ (around 0)) evs S ∧ servedOf evs = served ∧
    (∃ state, S.actor = some state) ∧
    ∀ x ∈ served, .call x.caller x.cmd ∈ evs ∧ .receive x.caller x.reply ∈ evs := by
  have hr : Run (stateActor .defaults (.ofSecs 0)).SeqStep
      (DaemonState.new .defaults (.ofSecs 0)) served _ :=
    .cons rfl (.cons rfl (.cons rfl (.cons rfl (.cons rfl (.nil _)))))
  have hall : ∀ x ∈ served, around 0 ≤ stampedAt x ∧ stampedAt x ≤ x.env := by
    simp only [served, List.forall_mem_cons, Surroundings.le_def]
    decide
  have hstamped : ∀ x ∈ served, x.cmd.StampedAt (stampedAt x) := by
    intro x hx
    simp only [served, List.mem_cons, List.not_mem_nil, or_false] at hx
    rcases hx with rfl | rfl | rfl | rfl | rfl
    · exact trivial
    · exact trivial
    · exact trivial
    · exact ⟨rfl, rfl⟩
    · exact ⟨rfl, rfl⟩
  have hpair : served.Pairwise fun x y => x.env ≤ stampedAt y := by
    simp only [served, List.pairwise_cons, Surroundings.le_def]
    decide
  obtain ⟨evs, S, hS, hserved, hactor, -, hcalls⟩ := Actors.exists_run_of_seq
    (S := (stateActor .defaults (.ofSecs 0)).init ℕ (around 0))
    (show 0 < COMMAND_CHANNEL_SIZE by decide) stampedAt hr rfl rfl (fun _ _ => rfl)
    (fun x hx => (hall x hx).1) (by decide) hpair fun x hx => ⟨hstamped x hx, (hall x hx).2⟩
  exact ⟨evs, S, hS, hserved, ⟨_, hactor⟩, hcalls⟩

end Session

section Runs

variable {ι : Type*} [DecidableEq ι] {config : DaemonServerConfig} {startedAt : Instant}
  {e₀ : Surroundings} {evs : List (ActorEvent ι Surroundings DaemonCommand DaemonReply)}
  {S : Actors ι Surroundings DaemonState DaemonCommand DaemonReply}

/-- **The daemon is one sequential store**, whatever its tasks do.  The store is the one that the calls
of the served commands lead to, in the order in which the commands were sent; every reply received is
the reply of the own command, served once; and a command whose reply was received before another was
made is served first. -/
theorem stateActor_linearizable (hr : DaemonRun config startedAt e₀ evs S) :
    (∃ state calls, Run (stateActor config startedAt).SeqStep (.new config startedAt)
        (servedOf evs) state ∧ (S.actor = some state ∨ S.actor = none) ∧
      CallsOf config (servedOf evs) calls ∧ Run Step .new calls state.cacheStore) ∧
    ((servedOf evs).map Served.sent <+: sentOf evs ∧ ((servedOf evs).map Served.caller).Nodup) ∧
    (∀ i cmd r, .call i cmd ∈ evs → .receive i r ∈ evs →
      ∃ x ∈ servedOf evs, x.caller = i ∧ x.cmd = cmd ∧ x.reply = r) ∧
    ∀ pre post i r j cmd, evs = pre ++ .call j cmd :: post → .receive i r ∈ pre →
      (∃ x ∈ servedOf pre, x.caller = i ∧ x.reply = r) ∧ ∀ x ∈ servedOf pre, x.caller ≠ j := by
  refine ⟨?_, ⟨?_, Actors.served_nodup hr⟩, ?_, ?_⟩
  · obtain ⟨state, hrun, hactor⟩ := Actors.refines rfl hr
    obtain ⟨-, calls, hcalls, hstore⟩ := callsOf_run hrun rfl
    exact ⟨state, calls, hrun, hactor, hcalls, hstore⟩
  · exact (List.prefix_append _ _).trans (Actors.fifo hr).1
  · intro i cmd r hcall hrecv
    obtain ⟨x, hx, hxi, hxr, hxc⟩ := Actors.served_of_received hr hrecv
    exact ⟨x, hx, hxi, Actors.call_unique hr hxc hcall, hxr⟩
  · rintro pre post i r j cmd rfl hrecv
    exact Actors.served_before hr hrecv

open Session in
theorem stateActor_linearizable_session : ∃ x ∈ served, x.caller = 2 ∧
    x.cmd = .process (.query "/repo") ∧ x.reply = secondQuery.reply := by
  obtain ⟨evs, S, hr, hserved, -, hall⟩ := exists_run
  obtain ⟨hcall, hrecv⟩ := hall secondQuery (by simp [served])
  obtain ⟨x, hx, h⟩ := (stateActor_linearizable hr).2.2.1 2 _ _ hcall hrecv
  exact ⟨x, hserved ▸ hx, h⟩

/-! ## The answer to a query -/

/-- What a query is answered that is served after the commands `before`. -/
theorem query_reply {cwd : String} {before after : List (ServedCommand ι)} {x : ServedCommand ι}
    (hr : DaemonRun config startedAt e₀ evs S) (hserved : servedOf evs = before ++ x :: after)
    (hcmd : x.cmd = .process (.query cwd))
    (hrep : -(2 ^ 63 * 1000000000) ≤ e₀.now.nanos - backdate config.staleTtlSecs) :
    (x.env.repoInfoFromCwd cwd = none ∧ x.reply = .result (.reply (.output ""))) ∨
      ∃ repoId branch calls s, x.env.repoInfoFromCwd cwd = some (repoId, branch) ∧
        CallsOf config before calls ∧ Run Step .new calls s ∧
        ∃ refresh, x.reply = .result
          { response := .output (answer (resultOf ⟨repoId⟩ calls)), stop := false
            refreshRepoId := refresh.map fun _ => ⟨repoId⟩, refreshCwd := refresh } := by
  obtain ⟨state, hrun, -⟩ := Actors.refines rfl hr
  rw [hserved] at hrun
  obtain ⟨s, hbefore, hrest⟩ := Run.append_iff.1 hrun
  obtain ⟨t, hstep, -⟩ := Run.cons_iff.1 hrest
  obtain ⟨hconfig, calls, hcalls, hstore⟩ := callsOf_run hbefore rfl
  have hhandle := handleCommand_of_seqStep hstep
  rw [hcmd, handleCommand_process] at hhandle
  cases hinfo : x.env.repoInfoFromCwd cwd with
  | none =>
    rw [process_query_of_none hinfo] at hhandle
    exact .inl ⟨rfl, (Prod.mk.inj (Except.ok.inj hhandle)).2.symm⟩
  | some info =>
    refine .inr ⟨info.1, info.2, calls, s.cacheStore, rfl, hcalls, hstore, ?_⟩
    rw [process_query_of_some hinfo, hconfig] at hhandle
    obtain ⟨-, hreply⟩ := Prod.mk.inj (Except.ok.inj hhandle)
    obtain ⟨henv, hpair⟩ := Actors.served_env hr
    rw [hserved] at henv hpair
    have hbefore_mem : ∀ y ∈ before, y ∈ before ++ x :: after := fun y hy =>
      List.mem_append_left _ hy
    have hle : ∀ c ∈ calls, c.op.now ≤ x.env.now := callsOf_times hcalls fun y hy => by
      refine ⟨(List.pairwise_append.1 hpair).2.2 y hy x List.mem_cons_self, ?_⟩
      exact Actors.stamped_of_served hr (hserved ▸ hbefore_mem y hy)
    have huse := callsOf_queriesUse hcalls (fun y hy => (henv y (hbefore_mem y hy)).1) hrep
    have hst : Step s.cacheStore ⟨config.processQuery ⟨info.1⟩ info.2 cwd x.env.now x.env.nowWall, _⟩
      _ := Step.of_run rfl
    rw [← hreply]
    rcases (Shows.run hstore huse ⟨info.1⟩).query (hst.entryStep _) rfl hle with heff | ⟨c, heff⟩
    · exact ⟨none, congrArg (DaemonReply.result ∘ Processed.ofEffects) heff⟩
    · exact ⟨some c, congrArg (DaemonReply.result ∘ Processed.ofEffects) heff⟩

/-- **The answer to a query**, in every run of the daemon: the answer of the result map after the calls
served before it, for the repository that the directory was in when the query was served; and at most
a refresh of that repository.  The times of the calls need not be in order. -/
theorem stateActor_query {i : ι} {cwd : String} {r : DaemonReply}
    (hr : DaemonRun config startedAt e₀ evs S) (hcall : .call i (.process (.query cwd)) ∈ evs)
    (hrecv : .receive i r ∈ evs)
    (hrep : -(2 ^ 63 * 1000000000) ≤ e₀.now.nanos - backdate config.staleTtlSecs) :
    ∃ before x after, servedOf evs = before ++ x :: after ∧ x.caller = i ∧
      ((x.env.repoInfoFromCwd cwd = none ∧ r = .result (.reply (.output ""))) ∨
      ∃ repoId branch calls s, x.env.repoInfoFromCwd cwd = some (repoId, branch) ∧
        CallsOf config before calls ∧ Run Step .new calls s ∧
        ∃ refresh, r = .result
          { response := .output (answer (resultOf ⟨repoId⟩ calls)), stop := false
            refreshRepoId := refresh.map fun _ => ⟨repoId⟩, refreshCwd := refresh }) := by
  obtain ⟨x, hx, hxi, rfl, hxc⟩ := Actors.served_of_received hr hrecv
  obtain ⟨before, after, hserved⟩ := List.append_of_mem hx
  have hcmd := Actors.call_unique hr hxc hcall
  exact ⟨before, x, after, hserved, hxi, query_reply hr hserved hcmd hrep⟩

open Session in
theorem stateActor_query_session : ∃ calls s, Run Step .new calls s ∧
    answer (resultOf repo calls) = "✓ Ready for merge" := by
  obtain ⟨evs, S, hr, hserved, -, hall⟩ := exists_run
  obtain ⟨hcall, hrecv⟩ := hall secondQuery (by simp [served])
  obtain ⟨before, x, after, hx, hxi, h⟩ := stateActor_query hr hcall hrecv (by decide)
  have hmem : x ∈ served := by
    rw [← hserved, hx]
    exact List.mem_append_right _ List.mem_cons_self
  have hinfo : x.env.repoInfoFromCwd "/repo" = some (repo.inner, "main") := by
    simp only [served, List.mem_cons, List.not_mem_nil, or_false] at hmem
    rcases hmem with rfl | rfl | rfl | rfl | rfl <;> rfl
  rcases h with ⟨hnone, -⟩ | ⟨repoId, branch, calls, s, hsome, -, hrun, refresh, hreply⟩
  · rw [hinfo] at hnone
    cases hnone
  · obtain ⟨rfl, rfl⟩ := Prod.mk.inj (Option.some.inj (hinfo.symm.trans hsome))
    refine ⟨calls, s, hrun, ?_⟩
    have hout := congrArg (fun r => match r with
      | DaemonReply.result p => some p.response
      | _ => none) hreply
    exact (Response.output.inj (Option.some.inj hout)).symm

/-! ## Single flight -/

/-- The command reports no refresh of `id` and does not remove its entry. -/
structure QuietFor (id : RepoId) (x : ServedCommand ι) : Prop where
  not_updates : ∀ output mode prs, x.cmd ≠ .process (.update id.inner output mode prs)
  not_expires : ¬ x.reply.Expires id

omit [DecidableEq ι] in
theorem CallsOf.quiet {mid : List (ServedCommand ι)} {calls : List Call} {id : RepoId}
    (hcalls : CallsOf config mid calls) (hmid : ∀ z ∈ mid, QuietFor id z)
    (hspawns : ∀ z ∈ mid, ¬ z.reply.Spawns id) : ∀ c ∈ calls, c.Quiet id := by
  intro c hc
  obtain ⟨z, hz, s, t, hm⟩ := hcalls.exists_makes hc
  refine ⟨fun h => hspawns z hz (hm.spawns_iff.2 h), fun h => ?_,
    fun h => (hmid z hz).not_expires (hm.expires h)⟩
  obtain ⟨ev, hop⟩ := h
  obtain ⟨mode, prs, hcmd⟩ := hm.update_of_completed hop
  exact (hmid z hz).not_updates ev.output mode prs hcmd

omit [DecidableEq ι] in
/-- A command whose reply asks for a refresh made the call that started it. -/
theorem exists_makes_of_spawns {s t : DaemonState} {x : ServedCommand ι} {id : RepoId}
    (hstep : (stateActor config startedAt).SeqStep s x t) (hs : s.config = config)
    (hx : x.reply.Spawns id) : ∃ c, Makes config x.env s t x.cmd x.reply c ∧ c.Spawns id := by
  rcases handleCommand_cases (handleCommand_of_seqStep hstep) with h | ⟨c, h⟩
  · exact absurd hx (h.not_spawns id)
  · exact ⟨c, hs ▸ h, h.spawns_iff.1 hx⟩

/-- The second of two replies that ask for a refresh of `id`, with no third between them, is given when
the lock timeout has passed. -/
theorem timeout_le_of_next_spawn {id : RepoId} {before mid after : List (ServedCommand ι)}
    {x y : ServedCommand ι} (hr : DaemonRun config startedAt e₀ evs S)
    (hserved : servedOf evs = before ++ x :: (mid ++ y :: after)) (hx : x.reply.Spawns id)
    (hy : y.reply.Spawns id) (hmid : ∀ z ∈ mid, QuietFor id z)
    (hspawns : ∀ z ∈ mid, ¬ z.reply.Spawns id) :
    config.refreshLockTimeoutSecs ≤ Timespec.elapsedSecs (x.cmd.datedAt x.env) y.env.now := by
  obtain ⟨-, hpair⟩ := Actors.served_env hr
  have hstamped : ∀ z ∈ servedOf evs, ∃ e ≤ z.env, z.cmd.StampedAt e := fun z hz =>
    Actors.stamped_of_served hr hz
  obtain ⟨state, hrun, -⟩ := Actors.refines rfl hr
  rw [hserved] at hpair hstamped hrun
  -- the states before `x`, after it, before `y` and after it
  obtain ⟨s₀, hbefore, hrun⟩ := Run.append_iff.1 hrun
  obtain ⟨s₁, hstepx, hrun⟩ := Run.cons_iff.1 hrun
  obtain ⟨s₂, hrunmid, hrun⟩ := Run.append_iff.1 hrun
  obtain ⟨s₃, hstepy, -⟩ := Run.cons_iff.1 hrun
  obtain ⟨hc₀, -⟩ := callsOf_run hbefore rfl
  obtain ⟨c₁, hm₁, hsp₁⟩ := exists_makes_of_spawns hstepx hc₀ hx
  have hc₁ : s₁.config = config := by
    rw [hm₁.state_eq]
    exact hc₀
  obtain ⟨hc₂, calls, hcalls, hmidrun⟩ := callsOf_run hrunmid hc₁
  obtain ⟨c₂, hm₂, hsp₂⟩ := exists_makes_of_spawns hstepy hc₂ hy
  have hpairmid := List.pairwise_append.1 (List.pairwise_cons.1 (List.pairwise_append.1 hpair).2.1).2
  have hy_mem : y ∈ before ++ x :: (mid ++ y :: after) := by simp
  have hle₂ : c₂.op.now ≤ y.env.now := by
    obtain ⟨e, he, hst⟩ := hstamped y hy_mem
    rw [hm₂.now_eq]
    exact DaemonCommand.datedAt_le hst he
  have hlemid : ∀ c ∈ calls, c.op.now ≤ y.env.now := callsOf_times hcalls fun z hz =>
    ⟨hpairmid.2.2 z hz y List.mem_cons_self, hstamped z (by simp [hz])⟩
  have htimeout : TimeoutIs config.refreshLockTimeoutSecs calls := by
    intro c hc input hop
    obtain ⟨z, -, s, t, hm⟩ := hcalls.exists_makes hc
    exact hm.timeout_eq hop
  obtain ⟨e₁, he₁, hl₁⟩ := (hm₁.step.entryStep id).locked_of_spawns hsp₁
  rw [← hm₁.now_eq]
  rcases Flight.run he₁ hl₁ hmidrun (hcalls.quiet hmid hspawns) htimeout with
    ⟨hu, hl⟩ | ⟨-, -, -, d, hd, hage⟩
  · -- the lock was still held, so the second refresh is a tick's that found it too old
    have hstep := hm₂.step.entryStep id
    rw [hu] at hstep
    obtain ⟨input, hop, hage⟩ := hstep.spawns_locked hsp₂ hl
    rw [hm₂.timeout_eq hop] at hage
    exact UInt64.le_trans hage (Timespec.elapsedSecs_mono hle₂)
  · exact UInt64.le_trans hage (Timespec.elapsedSecs_mono (hlemid d hd))

/-- **Single flight of the daemon.**  Of two replies that ask for a refresh of `id`, with no report of
one and no removal of the entry served in between, the second is given when the lock timeout has
passed since the reading of the clock that the first is dated with, although ticks may have waited in
the channel while the clock went on. -/
theorem stateActor_single_flight {id : RepoId} {before mid after : List (ServedCommand ι)}
    {x y : ServedCommand ι} (hr : DaemonRun config startedAt e₀ evs S)
    (hserved : servedOf evs = before ++ x :: (mid ++ y :: after)) (hx : x.reply.Spawns id)
    (hy : y.reply.Spawns id) (hmid : ∀ z ∈ mid, QuietFor id z) :
    config.refreshLockTimeoutSecs ≤ Timespec.elapsedSecs (x.cmd.datedAt x.env) y.env.now := by
  -- by induction on how many commands are between the two; the clock does not go back
  induction hn : mid.length using Nat.strong_induction_on generalizing mid y after with
  | _ n ih =>
    by_cases hnext : ∀ z ∈ mid, ¬ z.reply.Spawns id
    · exact timeout_le_of_next_spawn hr hserved hx hy hmid hnext
    push Not at hnext
    obtain ⟨z, hz, hzs⟩ := hnext
    obtain ⟨front, back, rfl⟩ := List.append_of_mem hz
    have hsplit : servedOf evs = before ++ x :: (front ++ z :: (back ++ y :: after)) := by
      simpa using hserved
    have hlen : front.length < n := by
      rw [← hn, List.length_append, List.length_cons]
      omega
    have hearlier := ih front.length hlen hsplit hzs
      (fun w hw => hmid w (List.mem_append_left _ hw)) rfl
    have hle : z.env ≤ y.env := by
      have hpair := (Actors.served_env hr).2
      rw [hserved] at hpair
      have hpair := List.pairwise_append.1 (List.pairwise_cons.1 (List.pairwise_append.1 hpair).2.1).2
      exact hpair.2.2 z hz y List.mem_cons_self
    exact UInt64.le_trans hearlier (Timespec.elapsedSecs_mono (Surroundings.le_def.1 hle))

open Session in
theorem stateActor_single_flight_session : DaemonServerConfig.defaults.refreshLockTimeoutSecs ≤
    Timespec.elapsedSecs (lateTick.cmd.datedAt lateTick.env) laterTick.env.now ∧
    DaemonServerConfig.defaults.refreshLockTimeoutSecs ≤
      Timespec.elapsedSecs (secondQuery.cmd.datedAt secondQuery.env) laterTick.env.now := by
  obtain ⟨evs, S, hr, hserved, -⟩ := exists_run
  have hlate : lateTick.reply.Spawns repo := ⟨"/repo", List.mem_cons_self⟩
  have hlater : laterTick.reply.Spawns repo := ⟨"/repo", List.mem_cons_self⟩
  have hsplit : servedOf evs =
      [firstQuery, report, secondQuery] ++ lateTick :: ([] ++ laterTick :: []) := hserved
  have hsplit' : servedOf evs =
      [firstQuery, report] ++ secondQuery :: ([lateTick] ++ laterTick :: []) := hserved
  have hquiet : QuietFor repo lateTick := by
    refine ⟨nofun, fun h => ?_⟩
    simp [lateTick, DaemonReply.Expires] at h
  exact ⟨stateActor_single_flight hr hsplit hlate hlater (List.forall_mem_nil _),
    stateActor_single_flight hr hsplit' rfl hlater (List.forall_mem_singleton.2 hquiet)⟩

/-! ## Waiting -/

/-- **No task of the daemon waits for good.**  A task that has sent a command, or waits for room to send
it, is brought to its reply or its failure by finitely many steps forward; a command in the channel is
served after at most as many others as the channel holds; and the actor is gone only after a snapshot
whose reset the clock cannot represent. -/
theorem stateActor_progress {i : ι} (hr : DaemonRun config startedAt e₀ evs S)
    (hi : S.calls i = .waiting ∨ ∃ cmd, S.calls i = .sending cmd) :
    (∃ post T, Run (Actors.Step (stateActor config startedAt)) S post T ∧
      (∀ ev ∈ post, ev.Forward) ∧ ((∃ r, T.calls i = .replied r) ∨ T.calls i = .failed)) ∧
    (∀ s post T, S.calls i = .waiting → S.actor = some s →
      Run (Actors.Step (stateActor config startedAt)) S post T →
      COMMAND_CHANNEL_SIZE ≤ (servedOf post).length → ∃ x ∈ servedOf post, x.caller = i) ∧
    (S.actor = none → ∃ j event store panic, .send j (.applyRateLimit event) ∈ evs ∧
      onRateLimitObserved store event = .error panic) := by
  refine ⟨Actors.settles (show 0 < COMMAND_CHANNEL_SIZE by decide) hr hi, ?_, ?_⟩
  · intro s post T hwait hs hpost hn
    exact Actors.served_within hr hwait hs hpost hn
  · intro hnone
    obtain ⟨j, cmd, e, s, hsent, hpanic⟩ := Actors.panicked hr hnone
    cases cmd with
    | process request => cases hpanic
    | tick now nowWall => cases hpanic
    | applyRateLimit event =>
      cases hstore : onRateLimitObserved s.cacheStore event with
      | ok out =>
        simp [stateActor, handleCommand, hstore, bind, Except.bind, pure, Except.pure,
          Except.toOption] at hpanic
      | error panic => exact ⟨j, event, s.cacheStore, panic, hsent, hstore⟩

theorem Session.step_query {S : Actors ℕ Surroundings DaemonState DaemonCommand DaemonReply} {i : ℕ}
    (hi : S.calls i = .unused) : Actors.Step (stateActor .defaults (.ofSecs 0)) S
      (.call i (.process (.query "/repo")))
      { S with calls := Function.update S.calls i (.sending (.process (.query "/repo"))) } :=
  .call hi trivial

/-- As many queries as the channel holds can wait in it. -/
theorem Session.exists_queued {n : ℕ} (hn : n ≤ COMMAND_CHANNEL_SIZE) : ∃ evs S,
    DaemonRun .defaults (.ofSecs 0) (around 0) evs S ∧ S.mailbox.length = n ∧
      S.actor = some (.new .defaults (.ofSecs 0)) ∧ ∀ i, n ≤ i → S.calls i = .unused := by
  induction n with
  | zero => exact ⟨[], _, .nil _, rfl, rfl, fun _ _ => rfl⟩
  | succ n ih =>
    obtain ⟨evs, S, hr, hlen, hactor, hfresh⟩ := ih (Nat.le_of_succ_le hn)
    have hcall := hr.snoc (step_query (hfresh n le_rfl))
    have hsend := hcall.snoc (.send (Function.update_self ..) hactor (hlen.trans_lt hn))
    refine ⟨_, _, hsend, by simp [hlen], hactor, fun i hi => ?_⟩
    have hne : i ≠ n := Nat.ne_of_gt hi
    simp [Function.update_of_ne hne, hfresh i (Nat.le_of_succ_le hi)]

/-- A query that waits for room behind a full channel. -/
theorem stateActor_progress_full : ∃ evs S, DaemonRun .defaults (.ofSecs 0) (Session.around 0) evs S ∧
    S.mailbox.length = COMMAND_CHANNEL_SIZE ∧ S.calls 64 = .sending (.process (.query "/repo")) ∧
    ∃ post T, Run (Actors.Step (stateActor .defaults (.ofSecs 0))) S post T ∧
      (∀ ev ∈ post, ev.Forward) ∧ ((∃ r, T.calls 64 = .replied r) ∨ T.calls 64 = .failed) := by
  obtain ⟨evs, S, hr, hlen, -, hfresh⟩ := Session.exists_queued le_rfl
  have hcall := hr.snoc (Session.step_query (hfresh 64 le_rfl))
  have hsending : (Function.update S.calls 64 (.sending (.process (.query "/repo")))) 64 =
      .sending (.process (.query "/repo")) := Function.update_self ..
  exact ⟨_, _, hcall, hlen, hsending, (stateActor_progress hcall (.inr ⟨_, hsending⟩)).1⟩

end Runs

end MergeReady.Daemon
