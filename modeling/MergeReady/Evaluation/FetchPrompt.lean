import MergeReady.Evaluation.Prompt
import MergeReady.Lib.Sort

/-!
# Fetching the prompt

`fetchPrompt` asks GitHub for the PRs of the current branch, keeps the open ones and evaluates each in
a task of its own.  The tasks end in any order, and the results are put back into the order of the PRs.
-/

namespace MergeReady.Evaluation

open MergeReady.Lib

/-! ## The answer of GitHub -/

inductive GhError
  | notInstalled
  | authRequired (detail : String)
  | noPr
  | rateLimited
  | timeout
  | notGithubRepository
  | apiError (message : String)
deriving DecidableEq, Repr

def GhError.toRepositoryError : GhError → RepositoryError
  | .notInstalled | .authRequired _ => .unauthenticated
  | .rateLimited => .rateLimited
  | .noPr | .notGithubRepository | .timeout | .apiError _ => .unexpected

structure DefaultBranchRef where
  name : String
deriving DecidableEq, Repr

structure PullRequests where
  nodes : List GhPrNode
deriving DecidableEq, Repr

structure Repository where
  defaultBranchRef : Option DefaultBranchRef
  pullRequests : PullRequests
deriving DecidableEq, Repr

/-! ## The tasks -/

/-- The order in which the tasks of a `JoinSet` end. -/
structure JoinOrder (α : Type) where
  joined : List (ℕ × α) → List (ℕ × α)
  perm : ∀ set, (joined set).Perm set

/-- The tasks end in the order in which they were started. -/
def JoinOrder.inOrder {α : Type} : JoinOrder α where
  joined := id
  perm := List.Perm.refl

/-- `indexed.sort_by_key(|(idx, _)| *idx)` -/
def sortByIdx {α : Type} (indexed : List (ℕ × α)) : List (ℕ × α) := sortByKey Prod.fst indexed

/-- `open_prs.sort_by_key(|i| i.number)` -/
def sortByNumber (prs : List GhPrNode) : List GhPrNode := sortByKey GhPrNode.number prs

/-- `compare idx` is what the compare calls of the task `idx` yield. -/
def evaluateOpen (compare : ℕ → String → Option UInt64)
    (order : JoinOrder (Except RepositoryError PullRequest)) (openPrs : List GhPrNode) :
    Except RepositoryError (List PullRequest) :=
  let set := openPrs.zipIdx.map fun (prView, idx) => (idx, evaluateSinglePr (compare idx) prView)
  let indexed := sortByIdx (order.joined set)
  indexed.mapM fun (_, r) => r

/-- `fetchRepository branch` is what the GraphQL query for the branch yields, `compare idx path` what
the REST call of a path does in the task `idx`. -/
def fetchPrompt (isGitRepo : Bool) (currentBranch : Option String)
    (fetchRepository : String → Except GhError (Option Repository))
    (compare : ℕ → String → Option UInt64)
    (order : JoinOrder (Except RepositoryError PullRequest)) : Except RepositoryError Prompt :=
  if !isGitRepo then .ok .noRepository
  else
    let branch := currentBranch.getD ""
    match fetchRepository branch with
    | .ok none | .error .notGithubRepository => .ok .unsupportedRepository
    | .error .noPr => .ok .noPullRequest
    | .error e => .error e.toRepositoryError
    | .ok (some repository) =>
      let allPrs := repository.pullRequests.nodes
      if allPrs.isEmpty then
        let defaultBranch := (repository.defaultBranchRef.map DefaultBranchRef.name).getD ""
        if !branch.isEmpty && branch == defaultBranch then .ok .defaultBranch
        else .ok .noPullRequest
      else
        let openPrs := sortByNumber (allPrs.filter fun p => p.state == "OPEN")
        if openPrs.isEmpty then .ok (.pullRequests [])
        else do
          let prs ← evaluateOpen compare order openPrs
          return .pullRequests prs

/-! ## What it returns -/

/-- Results that were numbered in order are back in order, however they came in. -/
theorem sortByIdx_eq_of_perm {α : Type} {l l' : List (ℕ × α)}
    (hl : l.Pairwise fun p q => p.1 < q.1) (h : l'.Perm l) : sortByIdx l' = l :=
  sortByKey_eq_of_ascending hl h

/-- What is shown of a PR. -/
def entryOf (compare : String → Option UInt64) (prView : GhPrNode) : PullRequest :=
  { id := PrId.new prView.number, state := plainState compare prView }

/-- What is shown of some PRs, each evaluated in the task of its place. -/
def entriesOf (compare : ℕ → String → Option UInt64) (prs : List GhPrNode) : List PullRequest :=
  prs.zipIdx.map fun (prView, idx) => entryOf (compare idx) prView

theorem mem_entriesOf {compare : ℕ → String → Option UInt64} {prs : List GhPrNode}
    {e : PullRequest} (h : e ∈ entriesOf compare prs) :
    ∃ pr ∈ prs, ∃ idx, e = entryOf (compare idx) pr := by
  obtain ⟨⟨pr, idx⟩, hmem, rfl⟩ := List.mem_map.1 h
  exact ⟨pr, List.fst_mem_of_mem_zipIdx hmem, idx, rfl⟩

theorem exists_entryOf_mem (compare : ℕ → String → Option UInt64) {prs : List GhPrNode}
    {pr : GhPrNode} (h : pr ∈ prs) : ∃ idx, entryOf (compare idx) pr ∈ entriesOf compare prs := by
  rw [← List.zipIdx_map_fst 0 prs] at h
  obtain ⟨⟨pr, idx⟩, hmem, rfl⟩ := List.mem_map.1 h
  exact ⟨idx, List.mem_map.2 ⟨_, hmem, rfl⟩⟩

/-- **The order in which the tasks end does not matter**: each PR has its entry in its place. -/
theorem evaluateOpen_eq (compare : ℕ → String → Option UInt64)
    (order : JoinOrder (Except RepositoryError PullRequest)) (openPrs : List GhPrNode) :
    evaluateOpen compare order openPrs = .ok (entriesOf compare openPrs) := by
  unfold evaluateOpen
  dsimp only
  have hentry : ∀ p : GhPrNode × ℕ,
      evaluateSinglePr (compare p.2) p.1 = pure (entryOf (compare p.2) p.1) :=
    fun p => evaluateSinglePr_eq_plain (compare p.2) p.1
  have hset : (openPrs.zipIdx.map fun p => (p.2, evaluateSinglePr (compare p.2) p.1)).Pairwise
      fun p q => p.1 < q.1 := by
    have hrange : (openPrs.zipIdx.map Prod.snd).Pairwise (· < ·) := by
      rw [List.zipIdx_map_snd]
      exact List.pairwise_lt_range'
    exact List.pairwise_map.2 (List.pairwise_map.1 hrange)
  rw [sortByIdx_eq_of_perm hset (order.perm _), List.mapM_map]
  simp only [Function.comp_def, hentry]
  exact List.mapM_pure

theorem sortByNumber_perm (prs : List GhPrNode) : (sortByNumber prs).Perm prs :=
  List.mergeSort_perm _ _

/-- The open PRs of an answer, by number. -/
def openPrs (prs : List GhPrNode) : List GhPrNode :=
  sortByNumber (prs.filter fun p => p.state == "OPEN")

theorem mem_openPrs {prs : List GhPrNode} {pr : GhPrNode} :
    pr ∈ openPrs prs ↔ pr ∈ prs ∧ pr.state = "OPEN" := by
  rw [openPrs, (sortByNumber_perm _).mem_iff, List.mem_filter, beq_iff_eq]

/-- **What is shown for an answer**: when there is a PR at all, the open ones. -/
theorem fetchPrompt_eq {fetchRepository : String → Except GhError (Option Repository)}
    {currentBranch : Option String} {repository : Repository}
    (h : fetchRepository (currentBranch.getD "") = .ok (some repository))
    (compare : ℕ → String → Option UInt64)
    (order : JoinOrder (Except RepositoryError PullRequest)) :
    (repository.pullRequests.nodes = [] →
      ∀ prs, fetchPrompt true currentBranch fetchRepository compare order ≠
        .ok (.pullRequests prs)) ∧
    (repository.pullRequests.nodes ≠ [] →
      fetchPrompt true currentBranch fetchRepository compare order =
        .ok (.pullRequests (entriesOf compare (openPrs repository.pullRequests.nodes)))) := by
  unfold fetchPrompt
  rw [Bool.not_true, if_neg Bool.false_ne_true]
  dsimp only
  rw [h]
  dsimp only
  constructor
  · intro hnil prs
    rw [hnil, List.isEmpty_nil, if_pos rfl]
    split <;> nofun
  · intro hne
    rw [if_neg (by simpa using hne), evaluateOpen_eq]
    show (if (openPrs _).isEmpty then _ else _) = _
    split
    · next hempty =>
      rw [List.isEmpty_iff.1 hempty]
      rfl
    · rfl

/-! ## The CI state of an entry -/

/-- The CI state that an entry tells, unless it tells only that GitHub is still computing. -/
def State.ci : State → Option (Option CiState)
  | .blocked b => some b.ci
  | .unblocked _ => some none
  | .calculating => none

theorem ci_evaluate (branchSync : Option BranchSyncState) (ci : Option CiState)
    (review : Option ReviewState) (unblocked : Option UnblockedState) :
    (evaluate branchSync ci review unblocked).ci = some ci := by
  unfold evaluate
  split
  · rfl
  · next hnone =>
    rw [Bool.or_eq_true, Bool.or_eq_true, not_or, not_or, Option.not_isSome_iff_eq_none,
      Option.not_isSome_iff_eq_none] at hnone
    rw [hnone.1.2]
    split <;> rfl

theorem ci_plainState (compare : String → Option UInt64) (prView : GhPrNode) :
    (plainState compare prView).ci =
      if StateUnknown prView.mergeStateStatus then none else some (ciFromNode prView) := by
  unfold plainState
  dsimp only
  split
  · rfl
  · exact ci_evaluate _ _ _ _

end MergeReady.Evaluation
