import Mathlib.Tactic.Common

/-!
# Pull requests and their states

A PR is blocked, unblocked, or its mergeability is still being calculated.  `evaluate` decides between
the first two: any blocker blocks, and without one the PR is unblocked if it is known to be.
-/

namespace MergeReady.Evaluation

/-- A PR number. -/
structure PrId where
  inner : UInt64
deriving DecidableEq, Repr

namespace PrId

def new (id : UInt64) : PrId := ⟨id⟩

end PrId

inductive BranchSyncState
  | conflict
  | updateBranch
  /-- the compare API gave no answer -/
  | syncUnknown
deriving DecidableEq, Repr

inductive CiState
  | fail
  | actionRequired
  | pending
deriving DecidableEq, Repr

inductive ReviewState
  | changesRequested
  | reviewRequired
deriving DecidableEq, Repr

inductive GenericBlockedState
  /-- blocked for a reason the API does not tell -/
  | blockedUnknown
deriving DecidableEq, Repr

/-- The blockers of a PR, at most one of each kind. -/
structure BlockedState where
  branchSync : Option BranchSyncState
  ci : Option CiState
  review : Option ReviewState
  generic : Option GenericBlockedState
deriving DecidableEq, Repr

inductive UnblockedState
  | mergeReady
  | draft
deriving DecidableEq, Repr

inductive State
  | blocked (blocked : BlockedState)
  | unblocked (unblocked : UnblockedState)
  /-- GitHub is still computing the mergeability -/
  | calculating
deriving DecidableEq, Repr

structure PullRequest where
  id : PrId
  state : State
deriving DecidableEq, Repr

/-- The state of a PR whose mergeability is known. -/
def evaluate (branchSync : Option BranchSyncState) (ci : Option CiState)
    (review : Option ReviewState) (unblocked : Option UnblockedState) : State :=
  if branchSync.isSome || ci.isSome || review.isSome then
    .blocked { branchSync, ci, review, generic := none }
  else
    match unblocked with
    | some u => .unblocked u
    | none =>
      .blocked { branchSync := none, ci := none, review := none, generic := some .blockedUnknown }

section

variable {branchSync : Option BranchSyncState} {ci : Option CiState} {review : Option ReviewState}
  {unblocked : Option UnblockedState}

/-- A PR is unblocked when it is known to be and nothing blocks it. -/
theorem evaluate_eq_unblocked {u : UnblockedState} :
    evaluate branchSync ci review unblocked = .unblocked u ↔
      branchSync = none ∧ ci = none ∧ review = none ∧ unblocked = some u := by
  unfold evaluate
  cases branchSync with
  | some _ => simp
  | none =>
    cases ci with
    | some _ => simp
    | none =>
      cases review with
      | some _ => simp
      | none =>
        cases unblocked with
        | some _ => simp
        | none => simp

end

end MergeReady.Evaluation
