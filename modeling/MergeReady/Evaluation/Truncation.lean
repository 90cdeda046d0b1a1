import MergeReady.Evaluation.FetchPrompt
import MergeReady.Evaluation.Latest

/-!
# What a page leaves out

The query asks for the first hundred PRs of a branch and the first hundred contexts of each head
commit, and nothing tells whether there are more.  This file says when what is left out changes what
is shown.
-/

namespace MergeReady.Evaluation

open MergeReady.Lib

/-! ## The repository and the answer -/

/-- `first:100`, of PRs and of contexts -/
def PAGE_SIZE : ℕ := 100

/-- What GitHub has: every PR with all its commits, and every commit with all its contexts.  A number
is the number of one PR. -/
structure RepoState where
  defaultBranchRef : Option DefaultBranchRef
  pullRequests : List GhPrNode
  nodup : (pullRequests.map GhPrNode.number).Nodup

/-- `contexts(first:100)` -/
def answerCommit (c : CommitNode) : CommitNode :=
  { commit :=
      { statusCheckRollup := c.commit.statusCheckRollup.map fun rollup =>
          { contexts := { nodes := rollup.contexts.nodes.take PAGE_SIZE } } } }

/-- `commits(last:1)` -/
def answerPr (pr : GhPrNode) : GhPrNode :=
  { pr with commits := { nodes := (pr.commits.nodes.getLast?.map answerCommit).toList } }

namespace RepoState

/-- `pullRequests(headRefName:$head, states:[OPEN,CLOSED,MERGED])` -/
def headed (s : RepoState) (head : String) : List GhPrNode :=
  s.pullRequests.filter fun pr => pr.headRefName == head

/-- The answer to the query. -/
def answer (s : RepoState) (head : String) : Repository where
  defaultBranchRef := s.defaultBranchRef
  pullRequests := { nodes := ((s.headed head).take PAGE_SIZE).map answerPr }

theorem nodup_headed (s : RepoState) (head : String) :
    ((s.headed head).map GhPrNode.number).Nodup :=
  s.nodup.sublist (List.filter_sublist.map _)

end RepoState

/-- All contexts of the head commit. -/
def GhPrNode.headContexts (pr : GhPrNode) : List CheckContext :=
  match pr.commits.nodes.getLast?.bind fun c => c.commit.statusCheckRollup with
  | some rollup => rollup.contexts.nodes
  | none => []

theorem contexts_answerPr (pr : GhPrNode) :
    (answerPr pr).contexts = pr.headContexts.take PAGE_SIZE := by
  unfold GhPrNode.contexts GhPrNode.headContexts answerPr
  cases pr.commits.nodes.getLast? with
  | none => rfl
  | some c =>
    cases hrollup : c.commit.statusCheckRollup with
    | none => simp [answerCommit, hrollup]
    | some rollup => simp [answerCommit, hrollup]

/-! ## When the page decides the CI state -/

/-- Each blocking run of `runs` has one in `runs'` that is as grave. -/
def Dominated (runs runs' : List CheckContext) : Prop :=
  ∀ c ∈ runs, stateOf c ≠ none → ∃ c' ∈ runs', rank (stateOf c) ≤ rank (stateOf c')

theorem rank_pos_of_ne_none {st : Option CiState} (h : st ≠ none) : 0 < rank st := by
  cases st with
  | none => exact absurd rfl h
  | some st => cases st <;> decide

theorem exists_stateOf_eq_priorityState {runs : List CheckContext} (h : priorityState runs ≠ none) :
    ∃ c ∈ runs, stateOf c = priorityState runs := by
  cases hst : priorityState runs with
  | none => exact absurd hst h
  | some st =>
    rw [← aggregateCi_map_contextToBucket] at hst
    exact exists_stateOf_eq hst

theorem rank_priorityState_le_iff {runs runs' : List CheckContext} :
    rank (priorityState runs) ≤ rank (priorityState runs') ↔ Dominated runs runs' := by
  constructor
  · intro hle c hc hblocks
    have hc := rank_stateOf_le hc
    rw [aggregateCi_map_contextToBucket] at hc
    have hpos := rank_pos_of_ne_none hblocks
    have hne : priorityState runs' ≠ none := by
      intro hnone
      rw [hnone] at hle
      have : rank none = 0 := rfl
      omega
    obtain ⟨c', hc', hst⟩ := exists_stateOf_eq_priorityState hne
    exact ⟨c', hc', hst ▸ hc.trans hle⟩
  · intro hdom
    by_cases hnone : priorityState runs = none
    · rw [hnone]
      exact Nat.zero_le _
    · obtain ⟨c, hc, hst⟩ := exists_stateOf_eq_priorityState hnone
      obtain ⟨c', hc', hle⟩ := hdom c hc (hst ▸ hnone)
      have hc' := rank_stateOf_le hc'
      rw [aggregateCi_map_contextToBucket] at hc'
      exact hst ▸ hle.trans hc'

theorem mem_latestRuns_of_append_left {l l' : List CheckContext} {c : CheckContext}
    (h : c ∈ latestRuns (l ++ l')) (hc : c ∉ l') : c ∈ latestRuns l := by
  obtain ⟨name, hname⟩ := mem_latestRuns.1 h
  rw [latestRun, runsOf_append] at hname
  exact mem_latestRuns.2 ⟨name, argmax_of_append_left hname fun hmem => hc (mem_runsOf.1 hmem).1⟩

theorem mem_latestRuns_append {l l' : List CheckContext} {c : CheckContext} (h : c ∈ latestRuns l)
    (hnewer : ∀ d ∈ l', d.name = c.name → d.recency ≤ c.recency) : c ∈ latestRuns (l ++ l') := by
  obtain ⟨name, hname⟩ := mem_latestRuns.1 h
  have hc := (mem_runsOf.1 (List.argmax_mem hname)).2
  refine mem_latestRuns.2 ⟨name, ?_⟩
  rw [latestRun, runsOf_append]
  refine argmax_append_of_le hname fun d hd => ?_
  obtain ⟨hd, hdname⟩ := mem_runsOf.1 hd
  exact hnewer d hd (hdname.trans hc.symm)

/-- A blocking run beyond the page is no graver than all that count on the page, and where a newer run
beyond the page takes the place of a blocking run on the page, another run is as grave. -/
structure PageDecides (contexts : List CheckContext) : Prop where
  beyond : ∀ c ∈ contexts.drop PAGE_SIZE, c ∈ latestRuns contexts → stateOf c ≠ none →
    ∃ c' ∈ latestRuns (contexts.take PAGE_SIZE), rank (stateOf c) ≤ rank (stateOf c')
  superseded : ∀ c ∈ latestRuns (contexts.take PAGE_SIZE), stateOf c ≠ none →
    (∃ d ∈ contexts.drop PAGE_SIZE, d.name = c.name ∧ c.recency < d.recency) →
    ∃ c' ∈ latestRuns contexts, rank (stateOf c) ≤ rank (stateOf c')

theorem pageDecides_iff {contexts : List CheckContext} :
    PageDecides contexts ↔ priorityState (latestRuns (contexts.take PAGE_SIZE)) =
      priorityState (latestRuns contexts) := by
  have hsplit : contexts.take PAGE_SIZE ++ contexts.drop PAGE_SIZE = contexts :=
    List.take_append_drop _ _
  constructor
  · rintro ⟨hbeyond, hsuperseded⟩
    refine rank_injective (le_antisymm (rank_priorityState_le_iff.2 fun c hc hblocks => ?_)
      (rank_priorityState_le_iff.2 fun c hc hblocks => ?_))
    · by_cases hnewer : ∃ d ∈ contexts.drop PAGE_SIZE, d.name = c.name ∧ c.recency < d.recency
      · exact hsuperseded c hc hblocks hnewer
      · have hall : c ∈ latestRuns (contexts.take PAGE_SIZE ++ contexts.drop PAGE_SIZE) :=
          mem_latestRuns_append hc fun d hd hname =>
            not_lt.1 fun hlt => hnewer ⟨d, hd, hname, hlt⟩
        rw [hsplit] at hall
        exact ⟨c, hall, le_rfl⟩
    · by_cases hmem : c ∈ contexts.drop PAGE_SIZE
      · exact hbeyond c hmem hc hblocks
      · rw [← hsplit] at hc
        exact ⟨c, mem_latestRuns_of_append_left hc hmem, le_rfl⟩
  · intro heq
    have hle := rank_priorityState_le_iff.1 (le_of_eq (congrArg rank heq))
    have hge := rank_priorityState_le_iff.1 (ge_of_eq (congrArg rank heq))
    exact ⟨fun c _ hc => hge c hc, fun c hc hblocks _ => hle c hc hblocks⟩

/-! ## What is shown of the PRs of a branch -/

/-- The branch counts as done only if no PR is open, every open PR has an entry, and the CI state an
entry tells is the aggregate of all contexts of the head commit. -/
structure NothingOverlooked (pulls : List GhPrNode) (result : Except RepositoryError Prompt) :
    Prop where
  terminal : result = .ok (.pullRequests []) → ∀ pr ∈ pulls, pr.state ≠ "OPEN"
  entry : ∀ pr ∈ pulls, pr.state = "OPEN" → ∃ prs, result = .ok (.pullRequests prs) ∧
    ∃ e ∈ prs, e.id = PrId.new pr.number
  ci : ∀ pr ∈ pulls, pr.state = "OPEN" → ∀ prs, result = .ok (.pullRequests prs) →
    ∀ e ∈ prs, e.id = PrId.new pr.number → ∀ ci, e.state.ci = some ci →
      ci = priorityState (latestRuns pr.headContexts)

/-- No open PR is beyond the page of PRs, and for each open PR, unless GitHub is still computing its
mergeability, the page of contexts decides. -/
structure Fits (pulls : List GhPrNode) : Prop where
  listed : ∀ pr ∈ pulls.drop PAGE_SIZE, pr.state ≠ "OPEN"
  checks : ∀ pr ∈ pulls.take PAGE_SIZE, pr.state = "OPEN" → ¬ StateUnknown pr.mergeStateStatus →
    PageDecides pr.headContexts

def RepoState.fetched (s : RepoState) (currentBranch : Option String)
    (compare : ℕ → String → Option UInt64)
    (order : JoinOrder (Except RepositoryError PullRequest)) : Except RepositoryError Prompt :=
  fetchPrompt true currentBranch (fun head => .ok (some (s.answer head))) compare order

section

variable {s : RepoState} {currentBranch : Option String} {compare : ℕ → String → Option UInt64}
  {order : JoinOrder (Except RepositoryError PullRequest)}

theorem mem_entries {pulls : List GhPrNode} {e : PullRequest}
    (h : e ∈ entriesOf compare (openPrs ((pulls.take PAGE_SIZE).map answerPr))) :
    ∃ pr ∈ pulls.take PAGE_SIZE, pr.state = "OPEN" ∧
      ∃ idx, e = entryOf (compare idx) (answerPr pr) := by
  obtain ⟨a, ha, idx, rfl⟩ := mem_entriesOf h
  obtain ⟨ha, hopen⟩ := mem_openPrs.1 ha
  obtain ⟨pr, hpr, rfl⟩ := List.mem_map.1 ha
  exact ⟨pr, hpr, hopen, idx, rfl⟩

theorem exists_entry_mem (compare : ℕ → String → Option UInt64) {pulls : List GhPrNode}
    {pr : GhPrNode} (hpr : pr ∈ pulls.take PAGE_SIZE) (hopen : pr.state = "OPEN") :
    ∃ idx, entryOf (compare idx) (answerPr pr) ∈
      entriesOf compare (openPrs ((pulls.take PAGE_SIZE).map answerPr)) :=
  exists_entryOf_mem compare (mem_openPrs.2 ⟨List.mem_map.2 ⟨pr, hpr, rfl⟩, hopen⟩)

/-- What is fetched: the entries, unless the branch never had a PR. -/
theorem RepoState.fetched_eq_ok {prs : List PullRequest} :
    s.fetched currentBranch compare order = .ok (.pullRequests prs) ↔
      s.headed (currentBranch.getD "") ≠ [] ∧
        prs = entriesOf compare
          (openPrs (((s.headed (currentBranch.getD "")).take PAGE_SIZE).map answerPr)) := by
  obtain ⟨hnil, hne⟩ := @fetchPrompt_eq (fun head => .ok (some (s.answer head))) currentBranch
    (s.answer (currentBranch.getD "")) rfl compare order
  have hnodes : (s.answer (currentBranch.getD "")).pullRequests.nodes = [] ↔
      s.headed (currentBranch.getD "") = [] := by
    show ((s.headed (currentBranch.getD "")).take PAGE_SIZE).map answerPr = [] ↔ _
    rw [List.map_eq_nil_iff, List.take_eq_nil_iff, or_iff_right (by decide)]
  by_cases hpulls : s.headed (currentBranch.getD "") = []
  · exact iff_of_false (hnil (hnodes.2 hpulls) prs) fun h => h.1 hpulls
  · have heq := hne fun h => hpulls (hnodes.1 h)
    unfold RepoState.fetched
    rw [heq, Except.ok.injEq, Prompt.pullRequests.injEq, and_iff_right hpulls, eq_comm]
    rfl

theorem entry_unique {pulls : List GhPrNode} (h : (pulls.map GhPrNode.number).Nodup)
    {pr : GhPrNode} (hpr : pr ∈ pulls) {e : PullRequest}
    (he : e ∈ entriesOf compare (openPrs ((pulls.take PAGE_SIZE).map answerPr)))
    (hid : e.id = PrId.new pr.number) :
    pr ∈ pulls.take PAGE_SIZE ∧ pr.state = "OPEN" ∧
      ∃ idx, e = entryOf (compare idx) (answerPr pr) := by
  obtain ⟨pr', hpr', hopen, idx, rfl⟩ := mem_entries he
  have hnumber : pr'.number = pr.number := congrArg PrId.inner hid
  obtain rfl := List.inj_on_of_nodup_map h (List.mem_of_mem_take hpr') hpr hnumber
  exact ⟨hpr', hopen, idx, rfl⟩

/-- The CI state that the entry of a PR on the page tells. -/
theorem ci_entryOf_answerPr (compare : String → Option UInt64) (pr : GhPrNode) :
    (entryOf compare (answerPr pr)).state.ci =
      if StateUnknown pr.mergeStateStatus then none
      else some (priorityState (latestRuns (pr.headContexts.take PAGE_SIZE))) := by
  show (plainState compare (answerPr pr)).ci = _
  rw [ci_plainState, ciFromNode_eq, aggregateCi_map_contextToBucket, contexts_answerPr]
  rfl

theorem NothingOverlooked.fits
    (h : NothingOverlooked (s.headed (currentBranch.getD ""))
      (s.fetched currentBranch compare order)) : Fits (s.headed (currentBranch.getD "")) where
  listed pr hpr hopen := by
    have hmem := List.mem_of_mem_drop hpr
    obtain ⟨prs, hok, e, he, hid⟩ := h.entry pr hmem hopen
    obtain ⟨-, rfl⟩ := RepoState.fetched_eq_ok.1 hok
    obtain ⟨hpage, -, -⟩ := entry_unique (s.nodup_headed _) hmem he hid
    have hdisjoint := List.disjoint_take_drop (s.nodup_headed (currentBranch.getD "")).of_map
      (le_refl PAGE_SIZE)
    exact hdisjoint hpage hpr
  checks pr hpr hopen hknown := by
    have hmem := List.mem_of_mem_take hpr
    have hok : s.fetched currentBranch compare order = _ :=
      RepoState.fetched_eq_ok.2 ⟨List.ne_nil_of_mem hmem, rfl⟩
    obtain ⟨idx, hin⟩ := exists_entry_mem compare hpr hopen
    have hentry := h.ci pr hmem hopen _ hok _ hin rfl _
      ((ci_entryOf_answerPr (compare idx) pr).trans (if_neg hknown))
    exact pageDecides_iff.2 hentry

theorem Fits.nothingOverlooked (h : Fits (s.headed (currentBranch.getD ""))) :
    NothingOverlooked (s.headed (currentBranch.getD "")) (s.fetched currentBranch compare order) := by
  have hpage : ∀ pr ∈ s.headed (currentBranch.getD ""), pr.state = "OPEN" →
      pr ∈ (s.headed (currentBranch.getD "")).take PAGE_SIZE := by
    intro pr hpr hopen
    rw [← List.take_append_drop PAGE_SIZE (s.headed _), List.mem_append] at hpr
    exact hpr.resolve_right fun hdrop => h.listed pr hdrop hopen
  refine ⟨fun hterminal pr hpr hopen => ?_, fun pr hpr hopen => ?_,
    fun pr hpr hopen prs hok e he hid ci hci => ?_⟩
  · obtain ⟨-, hnil⟩ := RepoState.fetched_eq_ok.1 hterminal
    obtain ⟨idx, hentry⟩ := exists_entry_mem compare (hpage pr hpr hopen) hopen
    rw [← hnil] at hentry
    cases hentry
  · obtain ⟨idx, hentry⟩ := exists_entry_mem compare (hpage pr hpr hopen) hopen
    exact ⟨_, RepoState.fetched_eq_ok.2 ⟨List.ne_nil_of_mem hpr, rfl⟩, _, hentry, rfl⟩
  · obtain ⟨-, rfl⟩ := RepoState.fetched_eq_ok.1 hok
    obtain ⟨hmem, -, idx, rfl⟩ := entry_unique (s.nodup_headed _) hpr he hid
    rw [ci_entryOf_answerPr] at hci
    split at hci
    · cases hci
    · next hknown =>
      rw [← Option.some.inj hci]
      exact pageDecides_iff.1 (h.checks pr hmem hopen hknown)

end

/-- **When nothing is overlooked**: when no open PR is beyond the page, and the page of contexts
decides the CI state of each. -/
theorem nothingOverlooked_iff (s : RepoState) (currentBranch : Option String)
    (compare : ℕ → String → Option UInt64)
    (order : JoinOrder (Except RepositoryError PullRequest)) :
    NothingOverlooked (s.headed (currentBranch.getD "")) (s.fetched currentBranch compare order) ↔
      Fits (s.headed (currentBranch.getD "")) :=
  ⟨NothingOverlooked.fits, Fits.nothingOverlooked⟩

/-! ### A branch with many PRs, and a commit with many contexts -/

namespace Cut

def merged (n : ℕ) : GhPrNode :=
  { Tied.node with number := UInt64.ofNat (n + 2), state := "MERGED" }

theorem toNat_number_merged {n : ℕ} (h : n ∈ List.range 100) : (merged n).number.toNat = n + 2 := by
  rw [List.mem_range] at h
  exact UInt64.toNat_ofNat_of_lt' (show n + 2 < 2 ^ 64 by omega)

/-- A hundred merged PRs, and then an open one. -/
def manyPrs : RepoState where
  defaultBranchRef := none
  pullRequests := (List.range 100).map merged ++ [Tied.node]
  nodup := by
    rw [List.map_append, List.map_map]
    refine List.Nodup.append (List.Nodup.map_on (fun m hm n hn heq => ?_) List.nodup_range)
      (List.nodup_singleton _) fun number hm hn => ?_
    · have heq : (merged m).number.toNat = (merged n).number.toNat := congrArg UInt64.toNat heq
      rw [toNat_number_merged hm, toNat_number_merged hn] at heq
      omega
    · obtain ⟨n, hmem, rfl⟩ := List.mem_map.1 hm
      have heq : (merged n).number.toNat = 1 := congrArg UInt64.toNat (List.mem_singleton.1 hn)
      rw [toNat_number_merged hmem] at heq
      omega

def passed (n : ℕ) : CheckContext :=
  .checkRun ("check-" ++ String.ofList (Nat.toDigits 10 n)) "COMPLETED" (some "SUCCESS")
    (some "2026-01-01T00:00:00Z")

/-- A hundred checks that passed, each of its own name, and then one that failed. -/
def contexts : List CheckContext := (List.range 100).map passed ++ [Tied.failed]

theorem ne_build (digits : String) : "check-" ++ digits ≠ "build" := by
  intro h
  have hhead := congrArg (fun s => s.toList.head?) h
  rw [String.toList_append] at hhead
  cases hhead

theorem nodup_name_contexts : (contexts.map CheckContext.name).Nodup := by
  rw [contexts, List.map_append, List.map_map]
  refine List.Nodup.append (List.Nodup.map (fun m n heq => ?_) List.nodup_range)
    (List.nodup_singleton _) fun name hm hn => ?_
  · have hlist := congrArg String.toList (Option.some.inj heq)
    simp only [String.toList_append, String.toList_ofList] at hlist
    have hdigits := congrArg (fun l => Nat.ofDigitChars 10 l 0) (List.append_cancel_left hlist)
    simpa only [Nat.ofDigitChars_ten_toDigits] using hdigits
  · obtain ⟨n, -, rfl⟩ := List.mem_map.1 hm
    exact ne_build _ (Option.some.inj (List.mem_singleton.1 hn))

/-- The contexts are those of the one PR. -/
def manyContexts : RepoState where
  defaultBranchRef := none
  pullRequests := [Tied.node.withContexts contexts]
  nodup := List.nodup_singleton _

theorem headed_manyPrs : manyPrs.headed "topic" = (List.range 100).map merged ++ [Tied.node] := by
  refine List.filter_eq_self.2 fun pr hpr => ?_
  rcases List.mem_append.1 hpr with hpr | hpr
  · obtain ⟨n, -, rfl⟩ := List.mem_map.1 hpr
    rfl
  · rw [List.mem_singleton.1 hpr]
    rfl

theorem take_headed_manyPrs :
    (manyPrs.headed "topic").take PAGE_SIZE = (List.range 100).map merged := by
  rw [headed_manyPrs]
  exact List.take_left' (by rw [List.length_map, List.length_range]; rfl)

/-- The branch with an open PR counts as done. -/
theorem fetched_manyPrs (compare : ℕ → String → Option UInt64) :
    manyPrs.fetched (some "topic") compare .inOrder = .ok (.pullRequests []) := by
  have hnone : openPrs (((manyPrs.headed "topic").take PAGE_SIZE).map answerPr) = [] := by
    refine List.eq_nil_iff_forall_not_mem.2 fun a ha => ?_
    obtain ⟨ha, hopen⟩ := mem_openPrs.1 ha
    rw [take_headed_manyPrs] at ha
    obtain ⟨pr, hpr, rfl⟩ := List.mem_map.1 ha
    obtain ⟨n, -, rfl⟩ := List.mem_map.1 hpr
    exact absurd hopen (show "MERGED" ≠ "OPEN" by decide)
  refine RepoState.fetched_eq_ok.2 ⟨?_, ?_⟩
  · show manyPrs.headed "topic" ≠ []
    rw [headed_manyPrs]
    exact List.append_ne_nil_of_right_ne_nil _ (List.cons_ne_nil _ _)
  · show [] = entriesOf compare (openPrs (((manyPrs.headed "topic").take PAGE_SIZE).map answerPr))
    rw [hnone]
    rfl

/-- The failed check is the run of its name that counts, and all runs on the page have passed. -/
theorem not_fits_manyContexts : ¬ Fits (manyContexts.headed "topic") := by
  intro h
  have hlen : ((List.range 100).map passed).length = PAGE_SIZE := by
    rw [List.length_map, List.length_range]
    rfl
  have hpage : contexts.take PAGE_SIZE = (List.range 100).map passed := List.take_left' hlen
  have hrest : contexts.drop PAGE_SIZE = [Tied.failed] := List.drop_left' hlen
  have hpr : Tied.node.withContexts contexts ∈ (manyContexts.headed "topic").take PAGE_SIZE :=
    List.mem_singleton_self _
  have hcounts : Tied.failed ∈ latestRuns contexts := by
    have hothers : runsOf "build" ((List.range 100).map passed) = [] := by
      refine List.filter_eq_nil_iff.2 fun c hc => ?_
      obtain ⟨n, -, rfl⟩ := List.mem_map.1 hc
      simpa [passed, CheckContext.name] using ne_build _
    have hruns : runsOf "build" contexts = [Tied.failed] := by
      rw [contexts, runsOf_append, hothers]
      rfl
    refine mem_latestRuns.2 ⟨"build", ?_⟩
    rw [latestRun, hruns]
    rfl
  obtain ⟨c, hc, hrank⟩ := (h.checks _ hpr rfl (by decide)).beyond Tied.failed
    (hrest ▸ List.mem_singleton_self _) hcounts (by decide)
  obtain ⟨name, hname⟩ := mem_latestRuns.1 (hpage ▸ hc)
  obtain ⟨n, -, rfl⟩ := List.mem_map.1 (mem_runsOf.1 (List.argmax_mem hname)).1
  exact absurd hrank (show ¬ 3 ≤ 0 by decide)

end Cut

open Cut in
/-- A branch whose hundred and first PR is open counts as done, and a hundred and first check that
failed is not told of. -/
theorem not_nothingOverlooked :
    (manyPrs.fetched (some "topic") (fun _ _ => some 0) .inOrder = .ok (.pullRequests []) ∧
      ¬ NothingOverlooked (manyPrs.headed "topic")
        (manyPrs.fetched (some "topic") (fun _ _ => some 0) .inOrder)) ∧
    (contexts.map CheckContext.name).Nodup ∧ ¬ NothingOverlooked (manyContexts.headed "topic")
        (manyContexts.fetched (some "topic") (fun _ _ => some 0) .inOrder) := by
  refine ⟨⟨fetched_manyPrs _, fun h => ?_⟩, nodup_name_contexts, fun h => ?_⟩
  · refine h.terminal (fetched_manyPrs _) Tied.node ?_ rfl
    rw [headed_manyPrs]
    exact List.mem_append_right _ (List.mem_singleton_self _)
  · exact not_fits_manyContexts (@NothingOverlooked.fits manyContexts (some "topic") _ _ h)

end MergeReady.Evaluation
