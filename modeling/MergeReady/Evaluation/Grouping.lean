import MergeReady.Evaluation.Prompt
import MergeReady.Evaluation.Template
import MergeReady.Lib.Sort

/-!
# PRs grouped by status

`render` sorts the PRs by number before it groups them.  Hence the groups, and everything else it
renders, depend only on the set of PRs, and every PR is listed under each of its display items.
-/

namespace MergeReady.Evaluation

open MergeReady.Lib
open DisplayItem (fromState fromBlocked)

/-! ## The display items of a PR -/

/-- The PRs by ascending number. -/
def byId (prs : List PullRequest) : List PullRequest :=
  prs.mergeSort fun pr pr' => decide (pr.id.inner ≤ pr'.id.inner)

theorem sortById_toDisplayItems (prs : List PullRequest) :
    sortById (toDisplayItems prs) = toDisplayItems (byId prs) := by
  symm
  exact List.map_mergeSort fun pr _ pr' _ => rfl

example : groupByDisplayItem [(PrId.new 1, [.conflict, .ciFail]), (PrId.new 2, [.ciFail])] =
    [(.conflict, [PrId.new 1]), (.ciFail, [PrId.new 1, PrId.new 2])] := by decide

/-! ## What `render` draws -/

def groupsOf (prs : List PullRequest) : List (DisplayItem × List PrId) :=
  groupByDisplayItem (sortById (toDisplayItems prs))

section

variable (paint : AnsiStyle → Str → Str) (config : CompiledDisplayConfig)

theorem render_of_ne_nil {prs : List PullRequest} (h : prs ≠ []) :
    render paint config (.ok (.pullRequests prs)) =
      let items := sortById (toDisplayItems prs)
      { output := [' '].intercalate
          ((groupByDisplayItem items).map (renderGroup paint config (decide (1 < items.length))))
        refreshMode :=
          if items.any fun p => p.2.any fun i => i == .ciPending || i == .statusCalculating then
            .hot
          else .warm
        prOutputs := items.map fun p => (p.1, renderWatchItems paint config p.2) } := by
  cases prs with
  | nil => exact absurd rfl h
  | cons pr prs => rfl

theorem length_sortById_toDisplayItems (prs : List PullRequest) :
    (sortById (toDisplayItems prs)).length = prs.length := by
  rw [sortById, List.length_mergeSort, toDisplayItems, List.length_map]

/-- What is rendered for PRs, in terms of the PRs by ascending number. -/
theorem render_pullRequests (prs : List PullRequest) :
    (render paint config (.ok (.pullRequests prs))).output = [' '].intercalate
      ((groupsOf prs).map (renderGroup paint config (decide (1 < prs.length)))) ∧
    (render paint config (.ok (.pullRequests prs))).prOutputs = (byId prs).map fun pr =>
      (pr.id, renderWatchItems paint config (fromState pr.state)) := by
  by_cases hnil : prs = []
  · subst hnil
    have hgroups : groupsOf [] = [] := by
      simp [groupsOf, sortById, toDisplayItems, groupByDisplayItem]
    rw [hgroups, byId, List.mergeSort_nil]
    exact ⟨rfl, rfl⟩
  · rw [render_of_ne_nil paint config hnil]
    dsimp only
    rw [length_sortById_toDisplayItems, sortById_toDisplayItems, groupsOf, sortById_toDisplayItems]
    refine ⟨rfl, ?_⟩
    rw [toDisplayItems, List.map_map]
    rfl

/-- The text of a token with the numbers `ids`. -/
def tokenText (token : CompiledTokenConfig) (ids : Str) : Str :=
  evalSegments paint [("symbol".toList, token.symbol), ("label".toList, token.label),
    ("pr_ids".toList, ids)] token.segments

end

/-! ### Three PRs -/

/-- What the default configuration shows for an item, and for the numbers of PRs if there are any. -/
theorem tokenText_default {config : CompiledDisplayConfig}
    (h : DisplayConfig.default.compile = .ok config) (paint : AnsiStyle → Str → Str)
    (item : DisplayItem) (ids : Str) :
    tokenText paint (itemToToken config item) ids =
      (DisplayConfig.default.tokenOf item).symbol ++
        ' ' :: (DisplayConfig.default.tokenOf item).label ++ if ids = [] then [] else ' ' :: ids := by
  have hcompile := (compiledFrom_of_compile h).itemToToken item
  have hformat : (DisplayConfig.default.tokenOf item).format = defaultPrFormat := by
    cases item <;> rfl
  obtain ⟨hsymbol, hlabel, hsegments⟩ := TokenConfig.compile_eq_ok hcompile
  rw [hformat] at hsegments
  rw [← hsymbol, ← hlabel]
  exact evalSegments_defaultPrFormat hsegments paint _ _ _

end MergeReady.Evaluation
