import MergeReady.Daemon.Entry
import MergeReady.Evaluation.Gh
import MergeReady.Evaluation.Render
import MergeReady.Lib.Group

/-!
# The prompt

`render` turns the PRs of a branch into the text of the prompt.  A PR has display items, one for each
blocker; PRs with the same item share one token, followed by their numbers.
-/

namespace MergeReady.Evaluation

open MergeReady.Lib
open MergeReady.Daemon (RefreshMode)

/-- The situation of a branch. -/
inductive Prompt
  | noRepository
  | unsupportedRepository
  | defaultBranch
  | noPullRequest
  /-- no PR at all: all of them are merged or closed -/
  | pullRequests (prs : List PullRequest)
deriving DecidableEq, Repr

/-- All PRs are closed, and polling can stop. -/
def Prompt.isTerminal : Prompt → Bool
  | .pullRequests prs => prs.isEmpty
  | _ => false

structure ErrorToken where
  message : Str
deriving DecidableEq, Repr

/-! ## Display items -/

inductive DisplayItem
  | conflict
  | updateBranch
  | syncUnknown
  | ciFail
  | ciAction
  | ciPending
  | changesRequested
  | reviewRequired
  | mergeReady
  | draft
  | statusCalculating
  | blockedUnknown
deriving DecidableEq, Repr

namespace DisplayItem

def fromBlocked (blocked : BlockedState) : List DisplayItem :=
  let items := []
  let items :=
    match blocked.branchSync with
    | some .conflict => items ++ [conflict]
    | some .updateBranch => items ++ [updateBranch]
    | some .syncUnknown => items ++ [syncUnknown]
    | none => items
  let items :=
    match blocked.ci with
    | some .fail => items ++ [ciFail]
    | some .actionRequired => items ++ [ciAction]
    | some .pending => items ++ [ciPending]
    | none => items
  let items :=
    match blocked.review with
    | some .changesRequested => items ++ [changesRequested]
    | some .reviewRequired => items ++ [reviewRequired]
    | none => items
  match blocked.generic with
  | some .blockedUnknown => items ++ [blockedUnknown]
  | none => items

def fromState : State → List DisplayItem
  | .blocked blocked => fromBlocked blocked
  | .unblocked .mergeReady => [mergeReady]
  | .unblocked .draft => [draft]
  | .calculating => [statusCalculating]

end DisplayItem

def toDisplayItems (prs : List PullRequest) : List (PrId × List DisplayItem) :=
  prs.map fun pr => (pr.id, DisplayItem.fromState pr.state)

def groupByDisplayItem (items : List (PrId × List DisplayItem)) : List (DisplayItem × List PrId) :=
  items.foldl (fun groups p => p.2.foldl (fun groups item => pushGroup item p.1 groups) groups) []

/-! ## Rendering -/

def joinPrIds (ids : List PrId) : Str :=
  [' '].intercalate (ids.map fun id => '#' :: (toString id.inner).toList)

def itemToToken (config : CompiledDisplayConfig) : DisplayItem → CompiledTokenConfig
  | .mergeReady => config.mergeReady
  | .conflict => config.conflict
  | .updateBranch => config.updateBranch
  | .syncUnknown => config.syncUnknown
  | .ciFail => config.ciFail
  | .ciAction => config.ciAction
  | .ciPending => config.ciPending
  | .changesRequested => config.changesRequested
  | .reviewRequired => config.reviewRequired
  | .draft => config.draft
  | .statusCalculating => config.statusCalculating
  | .blockedUnknown => config.blockedUnknown

/-- The token of a configuration that an item is shown with. -/
def DisplayConfig.tokenOf (config : DisplayConfig) : DisplayItem → TokenConfig
  | .mergeReady => config.mergeReady
  | .conflict => config.conflict
  | .updateBranch => config.updateBranch
  | .syncUnknown => config.syncUnknown
  | .ciFail => config.ciFail
  | .ciAction => config.ciAction
  | .ciPending => config.ciPending
  | .changesRequested => config.changesRequested
  | .reviewRequired => config.reviewRequired
  | .draft => config.draft
  | .statusCalculating => config.statusCalculating
  | .blockedUnknown => config.blockedUnknown

theorem CompiledFrom.itemToToken {config : DisplayConfig} {compiled : CompiledDisplayConfig}
    (h : CompiledFrom config compiled) (item : DisplayItem) :
    (config.tokenOf item).compile = .ok (itemToToken compiled item) := by
  cases item
  case mergeReady => exact h.mergeReady
  case conflict => exact h.conflict
  case updateBranch => exact h.updateBranch
  case syncUnknown => exact h.syncUnknown
  case ciFail => exact h.ciFail
  case ciAction => exact h.ciAction
  case ciPending => exact h.ciPending
  case changesRequested => exact h.changesRequested
  case reviewRequired => exact h.reviewRequired
  case draft => exact h.draft
  case statusCalculating => exact h.statusCalculating
  case blockedUnknown => exact h.blockedUnknown

structure RenderResult where
  output : Str
  refreshMode : RefreshMode
  /-- the rendered text of each PR -/
  prOutputs : List (PrId × Str)
deriving DecidableEq, Repr

/-- `items.sort_by_key(|(pr_id, _)| *pr_id)` -/
def sortById (items : List (PrId × List DisplayItem)) : List (PrId × List DisplayItem) :=
  items.mergeSort fun p q => decide (p.1.inner ≤ q.1.inner)

section

variable (paint : AnsiStyle → Str → Str) (config : CompiledDisplayConfig)

def renderWatchItems (displayItems : List DisplayItem) : Str :=
  [' '].intercalate (displayItems.map fun item => renderToken paint (itemToToken config item) (some []))

/-- The token of a group of PRs, with their numbers if there are `multiple` PRs. -/
def renderGroup (multiple : Bool) (group : DisplayItem × List PrId) : Str :=
  let prIds := if multiple then joinPrIds group.2 else []
  renderToken paint (itemToToken config group.1) (some prIds)

def render (promptResult : Except ErrorToken Prompt) : RenderResult :=
  match promptResult with
  | .ok .noRepository | .ok .unsupportedRepository | .ok .defaultBranch =>
    { output := [], refreshMode := .warm, prOutputs := [] }
  | .ok .noPullRequest =>
    { output := renderToken paint config.noPullRequest none, refreshMode := .warm, prOutputs := [] }
  | .ok (.pullRequests prs) =>
    if (Prompt.pullRequests prs).isTerminal then
      { output := [], refreshMode := .terminal, prOutputs := [] }
    else
      let items := sortById (toDisplayItems prs)
      let multiple := decide (1 < items.length)
      let prOutputs := items.map fun p => (p.1, renderWatchItems paint config p.2)
      let refreshMode :=
        if items.any fun p => p.2.any fun i => i == .ciPending || i == .statusCalculating then
          .hot
        else .warm
      let output :=
        [' '].intercalate ((groupByDisplayItem items).map (renderGroup paint config multiple))
      { output, refreshMode, prOutputs }
  | .error token =>
    { output := renderErrorToken paint config.error token.message, refreshMode := .warm,
      prOutputs := [] }

end

end MergeReady.Evaluation
