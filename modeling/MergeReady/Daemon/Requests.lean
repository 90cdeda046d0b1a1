import MergeReady.Daemon.Answers
import MergeReady.Daemon.Config
import MergeReady.Shared.Protocol

/-!
# Processing a request

`process` turns a request into one transition of the store, or none, and the response that goes back
to the client.
-/

namespace MergeReady.Daemon

open MergeReady.Lib
open MergeReady.Shared

/-- `env!("CARGO_PKG_VERSION")` -/
def CARGO_PKG_VERSION : String := "1.0.5"

/-! ## Entries for display -/

def cachedAtSecs (entry : CacheEntryState) : UInt64 :=
  ((entry.fetchedAtWall.durationSince (.ofSecs 0)).getD (.ofSecs 0)).asSecs

/-- One row for each PR, and a single row when the output is not split. -/
def entryToDtos (entry : CacheEntryState) : List EntryDto :=
  if entry.prOutputs.isEmpty then
    [{ cwd := entry.cwd, branch := entry.branch, prId := none, output := entry.output
       cachedAtSecs := cachedAtSecs entry }]
  else
    entry.prOutputs.map fun prOutput =>
      { cwd := entry.cwd, branch := entry.branch, prId := some prOutput.prId
        output := prOutput.output, cachedAtSecs := cachedAtSecs entry }

/-! ## The handlers -/

/-- What is left to do once a request is processed. -/
structure Processed where
  response : Response
  /-- the refresh to start after the response -/
  refreshRepoId : Option RepoId
  refreshCwd : Option String
  stop : Bool
deriving DecidableEq

def Processed.reply (response : Response) : Processed :=
  { response := response, refreshRepoId := none, refreshCwd := none, stop := false }

def Processed.ofEffects (effects : List Effect) : Processed :=
  let result := effectsToActionResult effects
  { response := .output result.output, refreshRepoId := result.refreshRepoId
    refreshCwd := result.refreshCwd, stop := false }

structure DaemonState where
  cacheStore : CacheStore
  startedAt : Instant
  config : DaemonServerConfig

/-- `request_handler::process`.  `repoInfoFromCwd` looks up the repository and the branch of a
directory. -/
def process (repoInfoFromCwd : String → Option (String × String)) (request : Request)
    (state : DaemonState) (now : Instant) (nowWall : SystemTime) : DaemonState × Processed :=
  match request with
  | .query cwd =>
    match repoInfoFromCwd cwd with
    | none => (state, .reply (.output ""))
    | some (repoId, branch) =>
      let event : QueryEvent :=
        { cwd := cwd, branch := branch, now := now, nowWall := nowWall
          staleTtl := state.config.staleTtlSecs }
      let (newStore, effects) := onQuery state.cacheStore event ⟨repoId⟩ state.config.policy
      ({ state with cacheStore := newStore }, Processed.ofEffects effects)
  | .update repoId output refreshMode prOutputs =>
    let event : RefreshCompletedEvent :=
      { output := output, prOutputs := prOutputs, refreshMode := refreshMode, now := now
        nowWall := nowWall }
    let (newStore, _) := onRefreshCompleted state.cacheStore ⟨repoId⟩ event
    ({ state with cacheStore := newStore }, .reply .ok)
  | .stop => (state, { Processed.reply .ok with stop := true })
  | .status =>
    (state, .reply (.status (UInt64.ofNat state.cacheStore.entries.entries.length)
      (Timespec.elapsedSecs state.startedAt now) CARGO_PKG_VERSION))
  | .entries =>
    (state, .reply (.entries (state.cacheStore.entries.entries.flatMap fun x => entryToDtos x.2)))

/-- Only a stop request stops the daemon. -/
theorem stop_process {repoInfoFromCwd : String → Option (String × String)} {request : Request}
    {state : DaemonState} {now : Instant} {nowWall : SystemTime} :
    (process repoInfoFromCwd request state now nowWall).2.stop = true ↔ request = .stop := by
  cases request with
  | query cwd =>
    unfold process
    dsimp only
    split <;> simp [Processed.reply, Processed.ofEffects]
  | update repoId output refreshMode prOutputs => simp [process, Processed.reply]
  | stop => simp [process]
  | status => simp [process, Processed.reply]
  | entries => simp [process, Processed.reply]

end MergeReady.Daemon
