import Mathlib.Data.List.Infix
import MergeReady.Evaluation.FetchPrompt
import MergeReady.Evaluation.Grouping
import MergeReady.Shared.Protocol

/-!
# A refresh

From `gh` to the report: the process is run, its failure classified, its answer turned into the
prompt or an error token, and what is rendered for that sent to the daemon as an `Update`.
-/

namespace MergeReady.Evaluation

open MergeReady.Lib
open MergeReady.Daemon (RefreshMode RepoId PrOutput)

/-! ## The process -/

/-- Why a program was not started. -/
inductive SpawnError
  | notFound
  | other (error : String)

/-- How a started program ended. -/
inductive Waited
  /-- `code` is `none` for a program that a signal ended -/
  | exited (code : Option ℤ) (stdout stderr : List UInt8)
  | failed (error : String)
  /-- it took longer than the timeout and was killed -/
  | elapsed

inductive GhProcessError
  | notInstalled
  | timeout
  | failed (exitCode : ℤ) (stderr : String)
  | io (error : String)
deriving DecidableEq, Repr

/-- What running `gh` with some arguments in the directory of a refresh comes to. -/
abbrev Gh := List String → Except SpawnError Waited

section

-- `String::from_utf8_lossy`
variable (fromUtf8Lossy : List UInt8 → String)

def runProgram (gh : Gh) (args : List String) : Except GhProcessError (List UInt8) :=
  match gh args with
  | .error .notFound => .error .notInstalled
  | .error (.other e) => .error (.io e)
  | .ok (.failed e) => .error (.io e)
  | .ok .elapsed => .error .timeout
  | .ok (.exited code stdout stderr) =>
    if code = some 0 then .ok stdout
    else .error (.failed (code.getD 1) (fromUtf8Lossy stderr))

/-- `stderr.contains(text)` -/
def contains (stderr text : String) : Bool := decide (text.toList <:+: stderr.toList)

def classifyGhError (exitCode : ℤ) (stderr : String) : GhError :=
  if exitCode == 4 || (exitCode == 1 && contains stderr "HTTP 401") then .authRequired stderr
  else if exitCode == 1 && contains stderr "no pull requests found" then .noPr
  else if exitCode == 1 && contains stderr "rate limit" then .rateLimited
  else if exitCode == 1 && (contains stderr "no git remotes found" || contains stderr
      "none of the git remotes configured for this repository point to a known GitHub host") then
    .notGithubRepository
  else .apiError stderr

def runGh (gh : Gh) (args : List String) : Except GhError (List UInt8) :=
  match runProgram fromUtf8Lossy gh args with
  | .ok bytes => .ok bytes
  | .error .notInstalled => .error .notInstalled
  | .error .timeout => .error .timeout
  | .error (.failed exitCode stderr) => .error (classifyGhError exitCode stderr)
  | .error (.io e) => .error (.apiError e)

section

variable {gh : Gh} {args : List String} {stdout stderr : List UInt8}

theorem runProgram_of_exited (h : gh args = .ok (.exited (some 0) stdout stderr)) :
    runProgram fromUtf8Lossy gh args = .ok stdout := by
  unfold runProgram
  rw [h]
  exact if_pos rfl

theorem runGh_of_exited (h : gh args = .ok (.exited (some 0) stdout stderr)) :
    runGh fromUtf8Lossy gh args = .ok stdout := by
  unfold runGh
  rw [runProgram_of_exited fromUtf8Lossy h]

end

/-! ## The answers -/

structure GraphQlData where
  repository : Option Repository
deriving DecidableEq, Repr

structure GraphQlResponse where
  data : Option GraphQlData
deriving DecidableEq, Repr

structure GhCompare where
  behindBy : UInt64
deriving DecidableEq, Repr

/-- `serde_json::from_slice` at the answers of `gh`. -/
structure GhJson where
  graphQl : List UInt8 → Except String GraphQlResponse
  compare : List UInt8 → Option GhCompare

variable (json : GhJson)

def REPO_QUERY : String := "query($owner:String!, $repo:String!, $head:String!) \x7b
  repository(owner:$owner, name:$repo) \x7b
    defaultBranchRef \x7b name \x7d
    pullRequests(headRefName:$head, first:100, states:[OPEN,CLOSED,MERGED]) \x7b
      nodes \x7b
        number state isDraft mergeable mergeStateStatus reviewDecision
        baseRefName headRefName
        commits(last:1) \x7b nodes \x7b commit \x7b statusCheckRollup \x7b
          contexts(first:100) \x7b nodes \x7b
            __typename
            ... on CheckRun \x7b name status conclusion startedAt \x7d
            ... on StatusContext \x7b context state createdAt \x7d
          \x7d \x7d
        \x7d \x7d \x7d \x7d
      \x7d
    \x7d
  \x7d
\x7d"

def fetchRepository (gh : Gh) (branch : String) : Except GhError (Option Repository) :=
  let headArg := "head=" ++ branch
  let queryArg := "query=" ++ REPO_QUERY
  match runGh fromUtf8Lossy gh ["api", "graphql", "-F", "owner=\x7bowner\x7d", "-F",
    "repo=\x7brepo\x7d", "-f", headArg, "-f", queryArg] with
  | .error e => .error e
  | .ok bytes =>
    match json.graphQl bytes with
    | .error e => .error (.apiError e)
    | .ok resp => .ok (resp.data.bind (·.repository))

/-- The REST call of `fetch_behind_by`. -/
def compareBehindBy (gh : Gh) (path : String) : Option UInt64 :=
  match runProgram fromUtf8Lossy gh ["api", path] with
  | .ok bytes => (json.compare bytes).map (·.behindBy)
  | .error _ => none

/-! ## The report -/

def intoToken : RepositoryError → ErrorToken
  | .unauthenticated => { message := "authentication required".toList }
  | .rateLimited => { message := "rate limited".toList }
  | .unexpected => { message := "unexpected error".toList }

/-- The directory of a refresh, and the order in which its tasks happen to end.  Equal calls of two
tasks need not be answered alike. -/
structure Checkout where
  isGitRepo : Bool
  currentBranch : Option String
  /-- `gh` at the query -/
  gh : Gh
  /-- `gh` at the calls of the task `idx` -/
  ghTask : ℕ → Gh
  order : JoinOrder (Except RepositoryError PullRequest)

/-- The PRs of the branch, fetched with `gh`. -/
def Checkout.prompt (c : Checkout) : Except RepositoryError Prompt :=
  fetchPrompt c.isGitRepo c.currentBranch (fetchRepository fromUtf8Lossy json c.gh)
    (fun idx => compareBehindBy fromUtf8Lossy json (c.ghTask idx)) c.order

/-- What `refresh_callback` renders. -/
def Checkout.rendered (paint : AnsiStyle → Str → Str)
    (config : CompiledDisplayConfig) (c : Checkout) : RenderResult :=
  render paint config ((c.prompt fromUtf8Lossy json).mapError intoToken)

/-- The request that `refresh_callback` sends. -/
def refreshCallback (repoId : RepoId) (result : RenderResult) : Shared.Request :=
  .update repoId.inner (String.ofList result.output) result.refreshMode
    (result.prOutputs.map fun p => { prId := p.1.inner, output := String.ofList p.2 })

end

/-! ## What is reported -/

/-- The items that the CI state of an entry decides. -/
theorem mem_fromState (state : State) :
    (DisplayItem.ciPending ∈ DisplayItem.fromState state ↔ state.ci = some (some .pending)) ∧
      (DisplayItem.statusCalculating ∈ DisplayItem.fromState state ↔ state.ci = none) := by
  cases state with
  | blocked b =>
    obtain ⟨branchSync, ci, review, generic⟩ := b
    rcases branchSync with _ | _ | _ | _ <;> rcases ci with _ | _ | _ | _ <;>
      rcases review with _ | _ | _ <;> rcases generic with _ | ⟨⟨⟩⟩ <;> decide
  | unblocked u => cases u <;> decide
  | calculating => decide

/-- GitHub or a check of the PR has yet to come to a result. -/
def GhPrNode.Unsettled (pr : GhPrNode) : Prop :=
  StateUnknown pr.mergeStateStatus ∨ ciFromNode pr = some .pending

theorem unsettled_iff {compare : String → Option UInt64} {pr : GhPrNode} :
    ((DisplayItem.fromState (plainState compare pr)).any fun i =>
      i == .ciPending || i == .statusCalculating) = true ↔ pr.Unsettled := by
  rw [List.any_eq_true]
  have hci := ci_plainState compare pr
  constructor
  · rintro ⟨i, hi, h⟩
    rw [Bool.or_eq_true, beq_iff_eq, beq_iff_eq] at h
    rcases h with rfl | rfl
    · rw [(mem_fromState _).1, hci] at hi
      split at hi
      · cases hi
      · exact .inr (Option.some.inj hi)
    · rw [(mem_fromState _).2, hci] at hi
      split at hi
      · next hunknown => exact .inl hunknown
      · cases hi
  · intro h
    by_cases hunknown : StateUnknown pr.mergeStateStatus
    · refine ⟨.statusCalculating, ?_, rfl⟩
      rw [(mem_fromState _).2, hci, if_pos hunknown]
    · refine ⟨.ciPending, ?_, rfl⟩
      rw [(mem_fromState _).1, hci, if_neg hunknown, h.resolve_left hunknown]

theorem pairwise_openPrs (prs : List GhPrNode) :
    (openPrs prs).Pairwise fun a b => decide (a.number ≤ b.number) = true := by
  refine List.pairwise_mergeSort ?_ ?_ _
  · intro a b c hab hbc
    simp only [decide_eq_true_eq] at hab hbc ⊢
    exact UInt64.le_trans hab hbc
  · intro a b
    simp only [Bool.or_eq_true, decide_eq_true_eq]
    exact UInt64.le_total _ _

/-- The open PRs are in their order already. -/
theorem byId_openPrs (compare : ℕ → String → Option UInt64) (nodes : List GhPrNode) :
    byId (entriesOf compare (openPrs nodes)) = entriesOf compare (openPrs nodes) := by
  have hfst : ((openPrs nodes).zipIdx.map Prod.fst).Pairwise fun a b =>
      decide (a.number ≤ b.number) = true := by
    rw [List.zipIdx_map_fst]
    exact pairwise_openPrs nodes
  exact List.mergeSort_of_pairwise (List.pairwise_map.2 (List.pairwise_map.1 hfst))

section

variable {fromUtf8Lossy : List UInt8 → String} {json : GhJson}

/-- `gh` answers with the PRs of the branch, and there are some. -/
def Checkout.Answers (fromUtf8Lossy : List UInt8 → String) (json : GhJson)
    (c : Checkout) (nodes : List GhPrNode) : Prop :=
  c.isGitRepo = true ∧ nodes ≠ [] ∧ ∃ repository,
    fetchRepository fromUtf8Lossy json c.gh (c.currentBranch.getD "") =
      .ok (some repository) ∧ repository.pullRequests.nodes = nodes

/-- A refresh has PRs to show when `gh` answers with some. -/
theorem Checkout.prompt_cases (c : Checkout) :
    (∃ nodes, c.Answers fromUtf8Lossy json nodes ∧
      c.prompt fromUtf8Lossy json = .ok (.pullRequests (entriesOf
        (fun idx => compareBehindBy fromUtf8Lossy json (c.ghTask idx)) (openPrs nodes)))) ∨
    (∀ nodes, ¬ c.Answers fromUtf8Lossy json nodes) ∧
      ∀ prs, c.prompt fromUtf8Lossy json ≠ .ok (.pullRequests prs) := by
  obtain ⟨isGitRepo, currentBranch, gh, ghTask, order⟩ := c
  cases isGitRepo with
  | false => exact .inr ⟨fun nodes h => Bool.false_ne_true h.1, nofun⟩
  | true =>
    unfold Checkout.prompt Checkout.Answers
    dsimp only
    cases hfetch : fetchRepository fromUtf8Lossy json gh (currentBranch.getD "") with
    | error e =>
      refine .inr ⟨?_, fun prs => ?_⟩
      · rintro nodes ⟨-, -, _, ⟨⟩, -⟩
      · unfold fetchPrompt
        rw [Bool.not_true, if_neg Bool.false_ne_true]
        dsimp only
        rw [hfetch]
        cases e <;> nofun
    | ok found =>
      cases found with
      | none =>
        refine .inr ⟨?_, fun prs => ?_⟩
        · rintro nodes ⟨-, -, _, ⟨⟩, -⟩
        · unfold fetchPrompt
          rw [Bool.not_true, if_neg Bool.false_ne_true]
          dsimp only
          rw [hfetch]
          nofun
      | some repository =>
        have h := fetchPrompt_eq hfetch
          (fun idx => compareBehindBy fromUtf8Lossy json (ghTask idx)) order
        by_cases hnil : repository.pullRequests.nodes = []
        · refine .inr ⟨?_, h.1 hnil⟩
          rintro nodes ⟨-, hne, repository', heq, rfl⟩
          cases heq
          exact hne hnil
        · exact .inl ⟨_, ⟨rfl, hnil, repository, rfl, rfl⟩, h.2 hnil⟩

/-- The refresh mode that PRs are rendered with. -/
theorem refreshMode_openPrs (paint : AnsiStyle → Str → Str) (config : CompiledDisplayConfig)
    (compare : ℕ → String → Option UInt64) (nodes : List GhPrNode) :
    let mode := (render paint config
      (.ok (.pullRequests (entriesOf compare (openPrs nodes))))).refreshMode
    (mode = .terminal ↔ ∀ pr ∈ nodes, pr.state ≠ "OPEN") ∧
      (mode = .hot ↔ ∃ pr ∈ nodes, pr.state = "OPEN" ∧ pr.Unsettled) := by
  dsimp only
  by_cases hopen : openPrs nodes = []
  · have hclosed : ∀ pr ∈ nodes, pr.state ≠ "OPEN" := by
      intro pr hpr hstate
      have hmem := mem_openPrs.2 ⟨hpr, hstate⟩
      rw [hopen] at hmem
      cases hmem
    rw [hopen]
    refine ⟨iff_of_true rfl hclosed, iff_of_false (fun h => by cases h) ?_⟩
    rintro ⟨pr, hpr, hstate, -⟩
    exact hclosed pr hpr hstate
  · have hne : entriesOf compare (openPrs nodes) ≠ [] := by simpa [entriesOf] using hopen
    rw [render_of_ne_nil paint config hne]
    dsimp only
    rw [sortById_toDisplayItems, byId_openPrs]
    -- a PR of the list is polled fast when it is not settled
    have hany : ((toDisplayItems (entriesOf compare (openPrs nodes))).any fun p =>
        p.2.any fun i => i == .ciPending || i == .statusCalculating) = true ↔
          ∃ pr ∈ nodes, pr.state = "OPEN" ∧ pr.Unsettled := by
      rw [toDisplayItems, List.any_map, List.any_eq_true]
      constructor
      · rintro ⟨e, he, h⟩
        obtain ⟨pr, hpr, idx, rfl⟩ := mem_entriesOf he
        obtain ⟨hmem, hstate⟩ := mem_openPrs.1 hpr
        exact ⟨pr, hmem, hstate, unsettled_iff.1 h⟩
      · rintro ⟨pr, hmem, hstate, h⟩
        obtain ⟨idx, he⟩ := exists_entryOf_mem compare (mem_openPrs.2 ⟨hmem, hstate⟩)
        exact ⟨_, he, unsettled_iff.2 h⟩
    have hsome : ¬ ∀ pr ∈ nodes, pr.state ≠ "OPEN" := by
      intro hclosed
      refine hopen (List.eq_nil_iff_forall_not_mem.2 fun pr hpr => ?_)
      obtain ⟨hmem, hstate⟩ := mem_openPrs.1 hpr
      exact hclosed pr hmem hstate
    split
    · next h => exact ⟨iff_of_false (fun h => by cases h) hsome, iff_of_true rfl (hany.1 h)⟩
    · next h =>
      exact ⟨iff_of_false (fun h => by cases h) hsome,
        iff_of_false (fun h => by cases h) fun hx => h (hany.2 hx)⟩

/-- What is reported of the open PRs, each with what its task found. -/
theorem prOutputs_openPrs (paint : AnsiStyle → Str → Str) (config : CompiledDisplayConfig)
    (compare : ℕ → String → Option UInt64) (nodes : List GhPrNode) :
    (render paint config (.ok (.pullRequests (entriesOf compare (openPrs nodes))))).prOutputs =
      (openPrs nodes).zipIdx.map fun p => (PrId.new p.1.number,
        renderWatchItems paint config (DisplayItem.fromState (plainState (compare p.2) p.1))) := by
  have houtputs := (render_pullRequests paint config (entriesOf compare (openPrs nodes))).2
  rw [byId_openPrs, entriesOf, List.map_map] at houtputs
  exact houtputs

/-- The numbers of what is reported: those of the open PRs, ascending. -/
theorem numbers_openPrs (output : GhPrNode × ℕ → String) (nodes : List GhPrNode) :
    let prOutputs := (openPrs nodes).zipIdx.map fun p =>
      ({ prId := p.1.number, output := output p } : PrOutput)
    (prOutputs.map PrOutput.prId).Pairwise (· ≤ ·) ∧ (prOutputs.map PrOutput.prId).Perm
      ((nodes.filter fun pr => pr.state == "OPEN").map GhPrNode.number) := by
  have hnumbers : ((openPrs nodes).zipIdx.map fun p =>
      ({ prId := p.1.number, output := output p } : PrOutput)).map PrOutput.prId =
        (openPrs nodes).map GhPrNode.number := by
    rw [List.map_map]
    show (openPrs nodes).zipIdx.map (GhPrNode.number ∘ Prod.fst) = _
    rw [← List.map_map, List.zipIdx_map_fst]
  dsimp only
  rw [hnumbers]
  constructor
  · exact List.pairwise_map.2 ((pairwise_openPrs nodes).imp fun h => of_decide_eq_true h)
  · exact (sortByNumber_perm _).map _

/-- **What a refresh reports**, for every behaviour of `gh`.  When it answers with PRs of the
branch, the update has a text for each open one, by number, of what its task found; polling stops when
none is open, and is fast when one of them is not settled.  Otherwise there is no PR to report, and
polling goes on as usual. -/
theorem rendered_report (paint : AnsiStyle → Str → Str) (config : CompiledDisplayConfig)
    (repoId : RepoId) (c : Checkout) :
    ∃ output mode prOutputs,
      refreshCallback repoId (c.rendered fromUtf8Lossy json paint config) =
        .update repoId.inner output mode prOutputs ∧
      ((∃ nodes, c.Answers fromUtf8Lossy json nodes ∧
        prOutputs = ((openPrs nodes).zipIdx.map fun p =>
          { prId := p.1.number
            output := String.ofList (renderWatchItems paint config (DisplayItem.fromState
              (plainState (compareBehindBy fromUtf8Lossy json (c.ghTask p.2)) p.1))) }) ∧
        (prOutputs.map PrOutput.prId).Pairwise (· ≤ ·) ∧ (prOutputs.map PrOutput.prId).Perm
          ((nodes.filter fun pr => pr.state == "OPEN").map GhPrNode.number) ∧
        (mode = .terminal ↔ ∀ pr ∈ nodes, pr.state ≠ "OPEN") ∧
        (mode = .hot ↔ ∃ pr ∈ nodes, pr.state = "OPEN" ∧ pr.Unsettled)) ∨
      (∀ nodes, ¬ c.Answers fromUtf8Lossy json nodes) ∧ prOutputs = [] ∧ mode = .warm) := by
  refine ⟨_, _, _, rfl, ?_⟩
  unfold Checkout.rendered
  rcases @Checkout.prompt_cases fromUtf8Lossy json c with
    ⟨nodes, hanswers, hprompt⟩ | ⟨hnone, hprompt⟩
  · rw [hprompt]
    refine .inl ⟨nodes, hanswers, ?_⟩
    have houtputs := prOutputs_openPrs paint config
      (fun idx => compareBehindBy fromUtf8Lossy json (c.ghTask idx)) nodes
    show _ = _ ∧ _
    rw [Except.mapError, houtputs, List.map_map]
    obtain ⟨hsorted, hperm⟩ := numbers_openPrs (fun p => String.ofList
      (renderWatchItems paint config (DisplayItem.fromState
        (plainState (compareBehindBy fromUtf8Lossy json (c.ghTask p.2)) p.1)))) nodes
    exact ⟨rfl, hsorted, hperm, refreshMode_openPrs paint config _ nodes⟩
  · refine .inr ⟨hnone, ?_⟩
    cases hp : c.prompt fromUtf8Lossy json with
    | error e => exact ⟨rfl, rfl⟩
    | ok prompt =>
      cases prompt with
      | pullRequests prs => exact absurd hp (hprompt prs)
      | _ => exact ⟨rfl, rfl⟩

end

/-! ### A branch with an open PR -/

namespace Topic

def pullRequest (number : UInt64) (state : String) : GhPrNode where
  number := number
  state := state
  isDraft := false
  mergeable := "MERGEABLE"
  mergeStateStatus := "CLEAN"
  reviewDecision := some "APPROVED"
  baseRefName := "main"
  headRefName := "topic"
  commits := { nodes := [{ commit := { statusCheckRollup := none } }] }

/-- The branch has been merged once, and has a PR again. -/
def nodes : List GhPrNode := [pullRequest 3 "MERGED", pullRequest 12 "OPEN"]

/-- The text of a PR in the answer. -/
def pullRequestText (number state : String) : String :=
  "\x7b\"number\":" ++ number ++ ",\"state\":\"" ++ state ++ "\",\"isDraft\":false," ++
    "\"mergeable\":\"MERGEABLE\",\"mergeStateStatus\":\"CLEAN\"," ++
    "\"reviewDecision\":\"APPROVED\",\"baseRefName\":\"main\",\"headRefName\":\"topic\"," ++
    "\"commits\":\x7b\"nodes\":[\x7b\"commit\":\x7b\"statusCheckRollup\":null\x7d\x7d]\x7d\x7d"

def queryAnswer : List UInt8 :=
  ("\x7b\"data\":\x7b\"repository\":\x7b\"defaultBranchRef\":\x7b\"name\":\"main\"\x7d," ++
    "\"pullRequests\":\x7b\"nodes\":[" ++ pullRequestText "3" "MERGED" ++ "," ++
    pullRequestText "12" "OPEN" ++ "]\x7d\x7d\x7d\x7d").toUTF8.data.toList

def compareAnswer : List UInt8 := "\x7b\"behind_by\":0\x7d".toUTF8.data.toList

def repository : Repository where
  defaultBranchRef := some { name := "main" }
  pullRequests := { nodes := nodes }

def json : GhJson where
  graphQl bytes :=
    if bytes = queryAnswer then .ok { data := some { repository := some repository } }
    else .error "expected value at line 1 column 1"
  compare bytes := if bytes = compareAnswer then some { behindBy := 0 } else none

def checkout : Checkout where
  isGitRepo := true
  currentBranch := some "topic"
  gh _ := .ok (.exited (some 0) queryAnswer [])
  ghTask _ _ := .ok (.exited (some 0) compareAnswer [])
  order := .inOrder

theorem json_graphQl : json.graphQl queryAnswer =
    .ok { data := some { repository := some repository } } := by
  unfold json
  dsimp only
  rw [if_pos rfl]

theorem json_compare : json.compare compareAnswer = some { behindBy := 0 } := by
  unfold json
  dsimp only
  rw [if_pos rfl]

theorem fetched (fromUtf8Lossy : List UInt8 → String) :
    fetchRepository fromUtf8Lossy json checkout.gh (checkout.currentBranch.getD "") =
      .ok (some repository) := by
  have hrun : ∀ args, runGh fromUtf8Lossy checkout.gh args = .ok queryAnswer :=
    fun args => runGh_of_exited fromUtf8Lossy rfl
  unfold fetchRepository
  dsimp only
  rw [hrun]
  dsimp only
  rw [json_graphQl]
  rfl

variable {fromUtf8Lossy : List UInt8 → String}

theorem openPrs_nodes : openPrs nodes = [pullRequest 12 "OPEN"] := List.mergeSort_singleton _

theorem plainState_open (idx : ℕ) :
    plainState (compareBehindBy fromUtf8Lossy json (checkout.ghTask idx)) (pullRequest 12 "OPEN") =
      .unblocked .mergeReady := by
  have hcall : ∀ path, compareBehindBy fromUtf8Lossy json (checkout.ghTask idx) path = some 0 := by
    intro path
    have hrun : runProgram fromUtf8Lossy (checkout.ghTask idx) ["api", path] = .ok compareAnswer :=
      runProgram_of_exited fromUtf8Lossy rfl
    unfold compareBehindBy
    rw [hrun]
    dsimp only
    rw [json_compare]
    rfl
  refine plainState_eq_mergeReady.2 ⟨.inl rfl, by decide, ?_, by decide, by decide, by decide, rfl⟩
  exact fetchBehindBy_eq_some_zero.2 (.inr (.inr (hcall _)))

theorem prompt_checkout : checkout.prompt fromUtf8Lossy json =
    .ok (.pullRequests [{ id := PrId.new 12, state := .unblocked .mergeReady }]) := by
  have hprompt := (fetchPrompt_eq (fetched fromUtf8Lossy)
    (fun idx => compareBehindBy fromUtf8Lossy json (checkout.ghTask idx)) checkout.order).2
      (List.cons_ne_nil _ _)
  refine hprompt.trans ?_
  show Except.ok (Prompt.pullRequests (entriesOf _ (openPrs nodes))) = _
  rw [openPrs_nodes]
  show Except.ok (Prompt.pullRequests [entryOf _ _]) = _
  rw [entryOf, plainState_open]
  rfl

/-- With the default configuration, in any colours. -/
theorem rendered_checkout {config : CompiledDisplayConfig}
    (h : DisplayConfig.default.compile = .ok config) (paint : AnsiStyle → Str → Str) :
    checkout.rendered fromUtf8Lossy json paint config =
      { output := "✓ Ready for merge".toList, refreshMode := .warm
        prOutputs := [(PrId.new 12, "✓ Ready for merge".toList)] } := by
  have htoken : renderToken paint (itemToToken config .mergeReady) (some []) =
      "✓ Ready for merge".toList := tokenText_default h paint .mergeReady []
  have hitems : sortById (toDisplayItems [{ id := PrId.new 12, state := .unblocked .mergeReady }]) =
      [(PrId.new 12, [.mergeReady])] := by
    rw [sortById_toDisplayItems, byId, List.mergeSort_singleton]
    rfl
  rw [Checkout.rendered, prompt_checkout]
  refine (render_of_ne_nil paint config (List.cons_ne_nil _ [])).trans ?_
  rw [hitems]
  have hgroup : renderGroup paint config false (.mergeReady, [PrId.new 12]) =
      "✓ Ready for merge".toList := htoken
  have hwatch : renderWatchItems paint config [.mergeReady] = "✓ Ready for merge".toList := by
    rw [renderWatchItems, List.map_singleton, List.intercalate_singleton, htoken]
  show RenderResult.mk ([' '].intercalate [renderGroup _ _ false (.mergeReady, [PrId.new 12])]) .warm
    [(PrId.new 12, renderWatchItems _ _ [.mergeReady])] = _
  rw [List.intercalate_singleton, hgroup, hwatch]

end Topic

end MergeReady.Evaluation
