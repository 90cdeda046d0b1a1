import MergeReady.Daemon.Overlap

/-!
# Branches

One working tree whose user switches branches at any moment.  An entry is kept under the id of a
branch, and a refresh reads the branch twice: when it is spawned, for the id, and when it fetches,
for the result.
-/

namespace MergeReady.Daemon

open MergeReady.Lib

/-! ## The id of a branch -/

/-- The offset basis of FNV-1a. -/
def FNV_OFFSET_BASIS : UInt64 := 14695981039346656037

/-- The prime of FNV-1a. -/
def FNV_PRIME : UInt64 := 1099511628211

/-- The last `n` hexadecimal digits of `hash`. -/
def hexDigits : ℕ → UInt64 → List Char
  | 0, _ => []
  | n + 1, hash => hexDigits n (hash / 16) ++ [(hash % 16).toNat.digitChar]

/-- FNV-1a over the bytes of the path, as 16 hexadecimal digits. -/
def pathToId (path : String) : String :=
  let hash := (path.toList.flatMap String.utf8EncodeChar).foldl
    (fun hash byte => (hash ^^^ byte.toUInt64) * FNV_PRIME) FNV_OFFSET_BASIS
  String.ofList (hexDigits 16 hash)

/-- `repo_id_from_cwd` in the working tree `toplevel` with `branch` checked out. -/
def repoIdOf (toplevel branch : String) : RepoId := ⟨pathToId (toplevel ++ "\x00" ++ branch)⟩

/-! ## The working tree and its refreshes -/

/-- What a refresh has computed. -/
structure RefreshResult where
  output : String
  refreshMode : RefreshMode
  prOutputs : List PrOutput
deriving DecidableEq

/-- A result on its way to the daemon: the id derived when the refresh was spawned, and the branch
that the fetch has read. -/
structure Update where
  repoId : RepoId
  branch : String
  result : RefreshResult
deriving DecidableEq

structure Tree where
  /-- the branch that is checked out, empty when detached -/
  head : String
  store : CacheStore
  /-- effects `SpawnRefresh` not carried out yet -/
  spawns : List RepoId
  /-- refreshes before their fetch, by the id derived for them -/
  tasks : List RepoId
  updates : List Update
  /-- the branch read by the fetch whose result was stored last -/
  origin : RepoId → Option String

namespace Tree

def init (head : String) : Tree :=
  { head := head, store := .new, spawns := [], tasks := [], updates := [], origin := fun _ => none }

/-- The user checks out `branch`. -/
def switch (σ : Tree) (branch : String) : Tree := { σ with head := branch }

/-- The daemon after a call, its spawns still to be carried out. -/
def afterCall (σ : Tree) (c : Call) (store : CacheStore) : Tree :=
  { σ with store := store, spawns := σ.spawns ++ c.effects.filterMap Effect.refreshOf }

/-- `spawn_refresh`: the id is derived again, from the branch checked out now. -/
def spawnRefresh (σ : Tree) (toplevel : String) (storedRepoId : RepoId) : Tree :=
  { σ with spawns := σ.spawns.erase storedRepoId
           tasks := σ.tasks ++ [repoIdOf toplevel σ.head] }

/-- `fetch_prompt`: the result of the branch checked out now. -/
def fetchPrompt (σ : Tree) (repoId : RepoId) (result : RefreshResult) : Tree :=
  { σ with tasks := σ.tasks.erase repoId, updates := σ.updates ++ [⟨repoId, σ.head, result⟩] }

/-- The daemon after an update, which only a known entry takes. -/
def afterUpdate (σ : Tree) (u : Update) (store : CacheStore) : Tree :=
  { σ with
    store := store
    updates := σ.updates.erase u
    origin := if (σ.store.entry u.repoId).isSome then
        Function.update σ.origin u.repoId (some u.branch)
      else σ.origin }

end Tree

/-- The calls that are made in a working tree with `head` checked out: queries ask for its branch. -/
def Op.MadeAt (toplevel head : String) : Op → Prop
  | .query id ev _ => id = repoIdOf toplevel head ∧ ev.branch = head
  | .refreshCompleted _ _ => False
  | .tick _ => True
  | .rateLimit _ => True

inductive TreeEvent
  | switch (branch : String)
  | call (c : Call)
  | spawnRefresh (storedRepoId : RepoId)
  | fetchPrompt (repoId : RepoId) (result : RefreshResult)
  | update (u : Update) (now : Instant) (nowWall : SystemTime)

/-- The steps of the working tree `toplevel` with the branches `branches`. -/
inductive TreeStep (toplevel : String) (branches : Set String) (σ : Tree) : TreeEvent → Tree → Prop
  | switch {branch} (hb : branch ∈ branches) :
      TreeStep toplevel branches σ (.switch branch) (σ.switch branch)
  | call {c store} (hop : c.op.MadeAt toplevel σ.head) (h : Step σ.store c store) :
      TreeStep toplevel branches σ (.call c) (σ.afterCall c store)
  | spawnRefresh {id} (hid : id ∈ σ.spawns) :
      TreeStep toplevel branches σ (.spawnRefresh id) (σ.spawnRefresh toplevel id)
  | fetchPrompt {id result} (hid : id ∈ σ.tasks) :
      TreeStep toplevel branches σ (.fetchPrompt id result) (σ.fetchPrompt id result)
  | update {u now nowWall effects store} (hu : u ∈ σ.updates)
      (h : Step σ.store ⟨processUpdate u.repoId u.result.output u.result.refreshMode
        u.result.prOutputs now nowWall, effects⟩ store) :
      TreeStep toplevel branches σ (.update u now nowWall) (σ.afterUpdate u store)

/-- Every result is stored under the branch it was computed for. -/
def Honest (toplevel : String) (branches : Set String) (σ : Tree) : Prop :=
  ∀ b ∈ branches, ∀ e, σ.store.entry (repoIdOf toplevel b) = some e → e.hasFetched = true →
    σ.origin (repoIdOf toplevel b) = some b

/-! ## Runs in which every fetch reads the branch of its id -/

/-- The fetch of a refresh reads the branch its id was derived from. -/
def TreeEvent.Matches (toplevel : String) (σ : Tree) : TreeEvent → Prop
  | .fetchPrompt id _ => id = repoIdOf toplevel σ.head
  | .switch _ => True
  | .call _ => True
  | .spawnRefresh _ => True
  | .update _ _ _ => True

def MatchedStep (toplevel : String) (branches : Set String) (σ : Tree) (event : TreeEvent)
    (σ' : Tree) : Prop :=
  TreeStep toplevel branches σ event σ' ∧ event.Matches toplevel σ

/-- `b` is the branch whose id is `id`. -/
structure IsBranchOf (toplevel : String) (branches : Set String) (id : RepoId) (b : String) :
    Prop where
  mem : b ∈ branches
  id_eq : id = repoIdOf toplevel b

/-- What holds between the branches, the results under way and the results stored. -/
structure TreeInv (toplevel : String) (branches : Set String) (σ : Tree) : Prop where
  head : σ.head ∈ branches
  updates : ∀ u ∈ σ.updates, IsBranchOf toplevel branches u.repoId u.branch
  stored : ∀ id e, σ.store.entry id = some e → e.hasFetched = true →
    ∃ b, σ.origin id = some b ∧ IsBranchOf toplevel branches id b

section

variable {toplevel : String} {branches : Set String}

/-- A call that completes nothing keeps where the results come from. -/
theorem stored_call {P : RepoId → Prop} {s s' : CacheStore} {c : Call} (h : Step s c s')
    (hc : ∀ id, ¬ c.Completes id)
    (hs : ∀ id e, s.entry id = some e → e.hasFetched = true → P id) :
    ∀ id e, s'.entry id = some e → e.hasFetched = true → P id := by
  intro id e' he' hf'
  have hstep := h.entryStep id
  rw [he'] at hstep
  cases ho : s.entry id with
  | none =>
    rw [ho] at hstep
    rw [hstep.not_hasFetched_of_created] at hf'
    cases hf'
  | some e =>
    rw [ho] at hstep
    have hx : ¬ c.Expires id := fun hx => by cases hstep.expires hx
    obtain ⟨e'', heq, hsame⟩ := hstep.sameResult (hc id) hx
    obtain rfl := Option.some.inj heq
    exact hs id e ho (hsame.hasFetched ▸ hf')

theorem TreeInv.step {σ σ' : Tree} {event : TreeEvent} (hi : TreeInv toplevel branches σ)
    (h : MatchedStep toplevel branches σ event σ') : TreeInv toplevel branches σ' := by
  obtain ⟨hst, hmatch⟩ := h
  cases hst with
  | switch hb => exact ⟨hb, hi.updates, hi.stored⟩
  | @call c store hop hstep =>
    refine ⟨hi.head, hi.updates, ?_⟩
    refine stored_call hstep ?_ hi.stored
    rintro id ⟨ev, hc⟩
    rw [hc] at hop
    exact hop
  | spawnRefresh => exact ⟨hi.head, hi.updates, hi.stored⟩
  | fetchPrompt =>
    refine ⟨hi.head, ?_, hi.stored⟩
    intro u hu
    rcases List.mem_append.1 hu with hu | hu
    · exact hi.updates u hu
    · obtain rfl := List.mem_singleton.1 hu
      exact ⟨hi.head, hmatch⟩
  | @update u now nowWall effects store hu hstep =>
    refine ⟨hi.head, fun v hv => hi.updates v (List.mem_of_mem_erase hv), ?_⟩
    intro id e' he' hf'
    have hentry := hstep.entryStep id
    rw [show store.entry id = some e' from he'] at hentry
    show ∃ b, (if (σ.store.entry u.repoId).isSome then _ else _ : RepoId → Option String) id = _ ∧ _
    by_cases hid : id = u.repoId
    · subst hid
      cases ho : σ.store.entry u.repoId with
      | none =>
        rw [ho] at hentry
        cases hentry.none_of_completes
      | some e =>
        rw [Option.isSome_some, if_pos rfl, Function.update_self]
        exact ⟨u.branch, rfl, hi.updates u hu⟩
    · have hkeep := hentry.eq_of_completes_ne hid
      have hstored := hi.stored id e' hkeep.symm hf'
      split
      · rw [Function.update_of_ne hid]
        exact hstored
      · exact hstored

/-- **Results are stored under their branch** in every run in which each fetch reads the branch of
its refresh's id, in a working tree no two branches of which have one id. -/
theorem honest_of_matched {head : String} (hhead : head ∈ branches)
    (hinj : Set.InjOn (repoIdOf toplevel) branches) {events : List TreeEvent} {σ : Tree}
    (hr : Run (MatchedStep toplevel branches) (.init head) events σ) :
    Honest toplevel branches σ := by
  have hinit : TreeInv toplevel branches (.init head) := by
    refine ⟨hhead, nofun, ?_⟩
    intro id e he
    cases he
  have hinv : TreeInv toplevel branches σ :=
    Run.invariant (fun _ _ _ hi hst => TreeInv.step hi hst) hr hinit
  intro b hb e he hf
  obtain ⟨b', horigin, hb'⟩ := hinv.stored _ e he hf
  obtain rfl : b = b' := hinj hb hb'.mem hb'.id_eq
  exact horigin

end

/-! ### A switch between the two reads -/

namespace Switched

def mainId : RepoId := repoIdOf "/repo" "main"

def query : Op :=
  DaemonServerConfig.defaults.processQuery mainId "main" "/repo" (.ofSecs 0) (.ofSecs 0)

def queryCall : Call := ⟨query, [.emitOutput loadingOutput, .spawnRefresh mainId "/repo"]⟩

def loadingEntry : CacheEntryState := .newLoading "/repo" "main" 5 (.ofSecs 0) (.ofSecs 0)

def result : RefreshResult := ⟨"✓ Ready for merge", .hot, []⟩

def readyEntry : CacheEntryState :=
  loadingEntry.withRefreshCompleted "✓ Ready for merge" [] .hot (.ofSecs 1) (.ofSecs 1)

/-- The refresh of `main` has its id. -/
def spawned : Tree :=
  ((Tree.init "main").afterCall queryCall (.single mainId loadingEntry)).spawnRefresh "/repo" mainId

/-- A fetch that reads `branch`, and its update. -/
def updated (branch : String) : Tree :=
  ((spawned.switch branch).fetchPrompt mainId result).afterUpdate ⟨mainId, branch, result⟩
    (.single mainId readyEntry)

def events (branch : String) : List TreeEvent :=
  [.call queryCall, .spawnRefresh mainId, .switch branch, .fetchPrompt mainId result,
    .update ⟨mainId, branch, result⟩ (.ofSecs 1) (.ofSecs 1)]

theorem step_query : Step .new queryCall (.single mainId loadingEntry) := Step.of_run rfl

theorem step_update :
    Step (.single mainId loadingEntry)
      ⟨processUpdate mainId result.output result.refreshMode result.prOutputs (.ofSecs 1)
        (.ofSecs 1), []⟩ (.single mainId readyEntry) := Step.of_run rfl

def branches : Set String := {"main", "feature"}

theorem run_updated {branch : String} (hb : branch ∈ branches) :
    Run (TreeStep "/repo" branches) (.init "main") (events branch) (updated branch) := by
  refine .cons (.call ⟨rfl, rfl⟩ step_query) ?_
  refine .cons (.spawnRefresh List.mem_cons_self) ?_
  refine .cons (.switch hb) ?_
  refine .cons (.fetchPrompt List.mem_cons_self) ?_
  exact .cons (.update List.mem_cons_self step_update) (.nil _)

theorem injOn_branches : Set.InjOn (repoIdOf "/repo") branches := by
  have hne : repoIdOf "/repo" "main" ≠ repoIdOf "/repo" "feature" := by decide +kernel
  rintro b (rfl | rfl) b' (rfl | rfl) h
  · rfl
  · exact absurd h hne
  · exact absurd h.symm hne
  · rfl

end Switched

namespace Matched

/-! The user switches to `feature` when the result of `main` is on its way, and asks again there. -/

open Switched

def featureId : RepoId := repoIdOf "/repo" "feature"

def query : Op :=
  DaemonServerConfig.defaults.processQuery featureId "feature" "/repo" (.ofSecs 2) (.ofSecs 2)

def queryCall : Call := ⟨query, [.emitOutput loadingOutput, .spawnRefresh featureId "/repo"]⟩

def loadingEntry : CacheEntryState := .newLoading "/repo" "feature" 5 (.ofSecs 2) (.ofSecs 2)

def result : RefreshResult := ⟨"✗ Resolve conflict", .warm, []⟩

def readyEntry : CacheEntryState :=
  loadingEntry.withRefreshCompleted "✗ Resolve conflict" [] .warm (.ofSecs 3) (.ofSecs 3)

/-- The daemon with the result of `main` and an entry of `feature`. -/
def store (e : CacheEntryState) : CacheStore :=
  .withEntries .new ((AList.singleton mainId Switched.readyEntry).insert featureId e)

def mainUpdate : Update := ⟨mainId, "main", Switched.result⟩

def featureUpdate : Update := ⟨featureId, "feature", result⟩

def events : List TreeEvent :=
  [.call Switched.queryCall, .spawnRefresh mainId, .fetchPrompt mainId Switched.result,
    .switch "feature", .update mainUpdate (.ofSecs 1) (.ofSecs 1), .call queryCall,
    .spawnRefresh featureId, .fetchPrompt featureId result,
    .update featureUpdate (.ofSecs 3) (.ofSecs 3)]

/-- `feature` is checked out, and the result of `main` stored. -/
def switched : Tree :=
  ((spawned.fetchPrompt mainId Switched.result).switch "feature").afterUpdate mainUpdate
    (.single mainId Switched.readyEntry)

def updated : Tree :=
  (((switched.afterCall queryCall (store loadingEntry)).spawnRefresh "/repo" featureId).fetchPrompt
    featureId result).afterUpdate featureUpdate (store readyEntry)

theorem step_query : Step (.single mainId Switched.readyEntry) queryCall (store loadingEntry) :=
  Step.of_run rfl

theorem step_update : Step (store loadingEntry)
    ⟨processUpdate featureId result.output result.refreshMode result.prOutputs (.ofSecs 3)
      (.ofSecs 3), []⟩ (store readyEntry) :=
  Step.of_run rfl

end Matched

open Switched in
theorem honest_of_matched_switch : Honest "/repo" branches Matched.updated ∧
    Matched.updated.origin mainId = some "main" ∧
    Matched.updated.origin Matched.featureId = some "feature" := by
  have hr : Run (MatchedStep "/repo" branches) (.init "main") Matched.events Matched.updated := by
    refine .cons ⟨.call ⟨rfl, rfl⟩ step_query, trivial⟩ ?_
    refine .cons ⟨.spawnRefresh List.mem_cons_self, trivial⟩ ?_
    refine .cons ⟨.fetchPrompt List.mem_cons_self, rfl⟩ ?_
    refine .cons ⟨.switch (.inr rfl), trivial⟩ ?_
    refine .cons ⟨.update List.mem_cons_self step_update, trivial⟩ ?_
    refine .cons ⟨.call ⟨rfl, rfl⟩ Matched.step_query, trivial⟩ ?_
    refine .cons ⟨.spawnRefresh List.mem_cons_self, trivial⟩ ?_
    refine .cons ⟨.fetchPrompt List.mem_cons_self, rfl⟩ ?_
    exact .cons ⟨.update List.mem_cons_self Matched.step_update, trivial⟩ (.nil _)
  have hhonest := honest_of_matched (.inl rfl) injOn_branches hr
  exact ⟨hhonest, hhonest "main" (.inl rfl) Switched.readyEntry rfl rfl,
    hhonest "feature" (.inr rfl) Matched.readyEntry rfl rfl⟩

open Switched in
/-- The user switches from `main` to `feature` after the id is derived and before the fetch: the
entry of `main` has the result of `feature`. -/
theorem not_honest_switched :
    ∃ events σ, Run (TreeStep "/repo" branches) (.init "main") events σ ∧
      ¬ Honest "/repo" branches σ := by
  refine ⟨events "feature", updated "feature", run_updated (.inr rfl), ?_⟩
  intro h
  have hmain := h "main" (.inl rfl) readyEntry rfl rfl
  rw [show (updated "feature").origin (repoIdOf "/repo" "main") = some "feature" from rfl] at hmain
  revert hmain
  decide

end MergeReady.Daemon
