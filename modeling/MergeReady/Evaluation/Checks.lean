import Mathlib.Data.String.Basic
import MergeReady.Lib.Table
import MergeReady.Evaluation.PullRequest

/-!
# The checks of a PR

A check that is run again leaves its old runs in the list GitHub returns.  `ciFromNode` keeps the
latest run of each name in a table, puts each into a bucket and aggregates the buckets; the aggregate
does not depend on the order of the rows.
-/

namespace MergeReady.Evaluation

open MergeReady.Lib

/-! ## What GitHub returns -/

/-- A context of `statusCheckRollup`. -/
inductive CheckContext
  | checkRun (name status : String) (conclusion startedAt : Option String)
  | statusContext (context state : String) (createdAt : Option String)
  /-- any other `__typename` -/
  | unknown
deriving DecidableEq, Repr

namespace CheckContext

/-- The name runs of one check share. -/
def name : CheckContext → Option String
  | checkRun name _ _ _ => some name
  | statusContext context _ _ => some context
  | unknown => none

/-- When the run started, an ISO 8601 string; a missing one counts as the oldest. -/
def recency : CheckContext → String
  | checkRun _ _ _ startedAt => startedAt.getD ""
  | statusContext _ _ createdAt => createdAt.getD ""
  | unknown => ""

end CheckContext

structure Contexts where
  nodes : List CheckContext
deriving DecidableEq, Repr

structure StatusCheckRollup where
  contexts : Contexts
deriving DecidableEq, Repr

structure Commit where
  /-- `null` for a PR without checks -/
  statusCheckRollup : Option StatusCheckRollup
deriving DecidableEq, Repr

structure CommitNode where
  commit : Commit
deriving DecidableEq, Repr

structure Commits where
  nodes : List CommitNode
deriving DecidableEq, Repr

/-- A node of `pullRequests`. -/
structure GhPrNode where
  number : UInt64
  state : String
  isDraft : Bool
  mergeable : String
  mergeStateStatus : String
  reviewDecision : Option String
  baseRefName : String
  headRefName : String
  commits : Commits
deriving DecidableEq, Repr

/-! ## Buckets -/

inductive CheckBucket
  | fail
  | cancel
  | actionRequired
  | pending
  | other
deriving DecidableEq, Repr

def contextToBucket : CheckContext → CheckBucket
  | .checkRun _ status conclusion _ =>
    if status ≠ "COMPLETED" then .pending
    else if conclusion = some "ACTION_REQUIRED" then .actionRequired
    else if conclusion = some "CANCELLED" then .cancel
    else if conclusion = some "FAILURE" ∨ conclusion = some "TIMED_OUT" ∨
        conclusion = some "STARTUP_FAILURE" then .fail
    else .other
  | .statusContext _ state _ =>
    if state = "PENDING" ∨ state = "EXPECTED" then .pending
    else if state = "ERROR" ∨ state = "FAILURE" then .fail
    else .other
  | .unknown => .other

def aggregateCi (buckets : List CheckBucket) : Option CiState :=
  if buckets.any fun b => b = .fail ∨ b = .cancel then some .fail
  else if buckets.any (· = .actionRequired) then some .actionRequired
  else if buckets.any (· = .pending) then some .pending
  else none

/-- The aggregate depends on which buckets there are, not on their order or number. -/
theorem aggregateCi_congr {l l' : List CheckBucket} (h : ∀ b, b ∈ l ↔ b ∈ l') :
    aggregateCi l = aggregateCi l' := by
  have hany : ∀ p : CheckBucket → Bool, l.any p = l'.any p := by
    intro p
    rw [Bool.eq_iff_iff, List.any_eq_true, List.any_eq_true]
    constructor
    · rintro ⟨b, hb, hp⟩
      exact ⟨b, (h b).1 hb, hp⟩
    · rintro ⟨b, hb, hp⟩
      exact ⟨b, (h b).2 hb, hp⟩
  unfold aggregateCi
  rw [hany, hany, hany]

/-! ## The latest run of each check -/

/-- The body of the loop: a run replaces the one kept for its name unless that one is as recent. -/
def keepLatest (latest : Table String CheckContext) (ctx : CheckContext) :
    Table String CheckContext :=
  match ctx.name with
  | none => latest
  | some name =>
    match latest.lookup name with
    | some prev => if ctx.recency ≤ prev.recency then latest else latest.insert name ctx
    | none => latest.insert name ctx

def latestByName (contexts : List CheckContext) : Table String CheckContext :=
  contexts.foldl keepLatest ∅

/-- The contexts of the last commit; none when there is no rollup. -/
def GhPrNode.contexts (node : GhPrNode) : List CheckContext :=
  match node.commits.nodes.head?.bind fun c => c.commit.statusCheckRollup with
  | some rollup => rollup.contexts.nodes
  | none => []

def ciFromNode (node : GhPrNode) : Option CiState :=
  let latest := latestByName node.contexts
  let buckets := latest.entries.map fun x => contextToBucket x.2
  aggregateCi buckets

/-- The order of the rows does not matter. -/
theorem ciFromNode_eq_of_perm {node : GhPrNode} {t : Table String CheckContext}
    (h : t.entries.Perm (latestByName node.contexts).entries) :
    aggregateCi (t.entries.map fun x => contextToBucket x.2) = ciFromNode node :=
  aggregateCi_congr fun _ => (h.map _).mem_iff

end MergeReady.Evaluation
