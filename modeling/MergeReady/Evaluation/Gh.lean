import MergeReady.Evaluation.Checks

/-!
# Evaluating one PR

`evaluateSinglePr` translates the fields of a PR node into signals and evaluates them.  It skips the
compare call, a REST request for each PR, where the answer cannot depend on it; `plainState` is the
same evaluation without these shortcuts.
-/

namespace MergeReady.Evaluation

/-! ## The compare call -/

/-- The characters a path segment may contain as they are. -/
def isUnreserved (byte : UInt8) : Bool :=
  (48 ≤ byte && byte ≤ 57) || (65 ≤ byte && byte ≤ 90) || (97 ≤ byte && byte ≤ 122) ||
    byte == 45 || byte == 46 || byte == 95 || byte == 126

def hexUpper (nibble : UInt8) : Char :=
  if nibble ≤ 9 then Char.ofNat (48 + nibble.toNat) else Char.ofNat (65 + (nibble.toNat - 10))

/-- One byte of a segment, percent-encoded if it has to be. -/
def encodeByte (byte : UInt8) : List Char :=
  if isUnreserved byte then [Char.ofNat byte.toNat]
  else ['%', hexUpper (byte >>> 4), hexUpper (byte &&& 0x0f)]

def encodePathSegment (input : String) : String :=
  String.ofList (input.toUTF8.data.toList.flatMap encodeByte)

def buildComparePath (baseRef headRef : String) : String :=
  "repos/\x7bowner\x7d/\x7brepo\x7d/compare/" ++ encodePathSegment baseRef ++ "..." ++
    encodePathSegment headRef

/-- How many commits the head is behind the base.  `compare path` is what the call of this path
yields: the `behind_by` of the response, or nothing when the call or its parsing fails. -/
def fetchBehindBy (compare : String → Option UInt64) (baseRef headRef : String) : Option UInt64 :=
  if baseRef.isEmpty || headRef.isEmpty then some 0
  else compare (buildComparePath baseRef headRef)

/-! ## Signals -/

def translateSync (mergeable : String) (behindBy : Option UInt64) : Option BranchSyncState :=
  if mergeable = "CONFLICTING" then some .conflict
  else if behindBy = some 0 then none
  else if behindBy.isSome then some .updateBranch
  else some .syncUnknown

/-- Whether `behindBy` can change what `translateSync` gives. -/
def needsCompare (mergeable : String) : Bool := mergeable != "CONFLICTING"

def translateReview (decision : Option String) : Option ReviewState :=
  if decision = some "CHANGES_REQUESTED" then some .changesRequested
  else if decision = some "REVIEW_REQUIRED" then some .reviewRequired
  else none

def translateUnblocked (isDraft : Bool) (mergeStateStatus : String) : Option UnblockedState :=
  if isDraft then some .draft
  else if mergeStateStatus = "CLEAN" ∨ mergeStateStatus = "HAS_HOOKS" then some .mergeReady
  else none

/-- GitHub has not computed the mergeability yet. -/
def StateUnknown (mergeStateStatus : String) : Prop :=
  mergeStateStatus = "MERGE_STATE_UNKNOWN" ∨ mergeStateStatus = "UNKNOWN"

instance (mergeStateStatus : String) : Decidable (StateUnknown mergeStateStatus) :=
  inferInstanceAs (Decidable (_ ∨ _))

/-- A failure of the infrastructure. -/
inductive RepositoryError
  | unauthenticated
  | rateLimited
  | unexpected
deriving DecidableEq, Repr

def evaluateSinglePr (compare : String → Option UInt64) (prView : GhPrNode) :
    Except RepositoryError PullRequest :=
  let id := PrId.new prView.number
  let ci := ciFromNode prView
  if StateUnknown prView.mergeStateStatus then .ok { id, state := .calculating }
  else
    let behindBy :=
      if needsCompare prView.mergeable then
        fetchBehindBy compare prView.baseRefName prView.headRefName
      else none
    let branchSync := translateSync prView.mergeable behindBy
    let review := translateReview prView.reviewDecision
    let unblocked := translateUnblocked prView.isDraft prView.mergeStateStatus
    .ok { id, state := evaluate branchSync ci review unblocked }

/-! ### What each signal says -/

theorem translateSync_eq_none {mergeable : String} {behindBy : Option UInt64} :
    translateSync mergeable behindBy = none ↔ mergeable ≠ "CONFLICTING" ∧ behindBy = some 0 := by
  unfold translateSync
  by_cases hm : mergeable = "CONFLICTING"
  · simp [hm]
  · by_cases hb : behindBy = some 0
    · simp [hm, hb]
    · rw [if_neg hm, if_neg hb]
      split <;> simp [hb]

theorem translateSync_of_not_needsCompare {mergeable : String} (h : needsCompare mergeable = false)
    (behindBy behindBy' : Option UInt64) :
    translateSync mergeable behindBy = translateSync mergeable behindBy' := by
  have hm : mergeable = "CONFLICTING" := by simpa [needsCompare] using h
  unfold translateSync
  rw [if_pos hm, if_pos hm]

theorem translateReview_eq_none {decision : Option String} :
    translateReview decision = none ↔
      decision ≠ some "CHANGES_REQUESTED" ∧ decision ≠ some "REVIEW_REQUIRED" := by
  unfold translateReview
  by_cases hc : decision = some "CHANGES_REQUESTED"
  · simp [hc]
  · by_cases hr : decision = some "REVIEW_REQUIRED"
    · simp [hr]
    · simp [hc, hr]

theorem translateUnblocked_eq_mergeReady {isDraft : Bool} {mergeStateStatus : String} :
    translateUnblocked isDraft mergeStateStatus = some .mergeReady ↔
      isDraft = false ∧ (mergeStateStatus = "CLEAN" ∨ mergeStateStatus = "HAS_HOOKS") := by
  unfold translateUnblocked
  cases isDraft with
  | true => simp
  | false =>
    by_cases hs : mergeStateStatus = "CLEAN" ∨ mergeStateStatus = "HAS_HOOKS"
    · simp [hs]
    · simp [hs]

theorem not_stateUnknown {mergeStateStatus : String}
    (h : mergeStateStatus = "CLEAN" ∨ mergeStateStatus = "HAS_HOOKS") :
    ¬ StateUnknown mergeStateStatus := by
  unfold StateUnknown
  rcases h with rfl | rfl <;> decide

/-! ## The evaluation without shortcuts -/

/-- The state of a PR when the compare is always made and every signal computed, before the PR is
found to be of unknown state. -/
def plainState (compare : String → Option UInt64) (prView : GhPrNode) : State :=
  let behindBy := fetchBehindBy compare prView.baseRefName prView.headRefName
  let branchSync := translateSync prView.mergeable behindBy
  let ci := ciFromNode prView
  let review := translateReview prView.reviewDecision
  let unblocked := translateUnblocked prView.isDraft prView.mergeStateStatus
  let state := evaluate branchSync ci review unblocked
  if StateUnknown prView.mergeStateStatus then .calculating else state

/-- **The shortcuts never change the answer.** -/
theorem evaluateSinglePr_eq_plain (compare : String → Option UInt64) (prView : GhPrNode) :
    evaluateSinglePr compare prView =
      .ok { id := PrId.new prView.number, state := plainState compare prView } := by
  unfold evaluateSinglePr plainState
  dsimp only
  by_cases hs : StateUnknown prView.mergeStateStatus
  · rw [if_pos hs, if_pos hs]
  · rw [if_neg hs, if_neg hs]
    cases hn : needsCompare prView.mergeable with
    | true => rfl
    | false =>
      rw [translateSync_of_not_needsCompare hn (fetchBehindBy compare _ _) none]
      rfl

/-- The plain evaluation finds a PR ready when no signal blocks and GitHub calls it mergeable. -/
theorem plainState_eq_mergeReady {compare : String → Option UInt64} {prView : GhPrNode} :
    plainState compare prView = .unblocked .mergeReady ↔
      (prView.mergeStateStatus = "CLEAN" ∨ prView.mergeStateStatus = "HAS_HOOKS") ∧
        prView.mergeable ≠ "CONFLICTING" ∧
        fetchBehindBy compare prView.baseRefName prView.headRefName = some 0 ∧
        ciFromNode prView = none ∧
        prView.reviewDecision ≠ some "CHANGES_REQUESTED" ∧
        prView.reviewDecision ≠ some "REVIEW_REQUIRED" ∧ prView.isDraft = false := by
  unfold plainState
  dsimp only
  constructor
  · intro h
    split at h
    · cases h
    · obtain ⟨hsync, hci, hreview, hunblocked⟩ := evaluate_eq_unblocked.1 h
      obtain ⟨hmergeable, hbehind⟩ := translateSync_eq_none.1 hsync
      obtain ⟨hchanges, hrequired⟩ := translateReview_eq_none.1 hreview
      obtain ⟨hdraft, hstatus⟩ := translateUnblocked_eq_mergeReady.1 hunblocked
      exact ⟨hstatus, hmergeable, hbehind, hci, hchanges, hrequired, hdraft⟩
  · rintro ⟨hstatus, hmergeable, hbehind, hci, hchanges, hrequired, hdraft⟩
    rw [if_neg (not_stateUnknown hstatus), evaluate_eq_unblocked]
    exact ⟨translateSync_eq_none.2 ⟨hmergeable, hbehind⟩, hci,
      translateReview_eq_none.2 ⟨hchanges, hrequired⟩,
      translateUnblocked_eq_mergeReady.2 ⟨hdraft, hstatus⟩⟩

/-- The head is level with the base when one of the two refs is empty, without a call, or when the call
says so. -/
theorem fetchBehindBy_eq_some_zero {compare : String → Option UInt64} {baseRef headRef : String} :
    fetchBehindBy compare baseRef headRef = some 0 ↔
      baseRef = "" ∨ headRef = "" ∨ compare (buildComparePath baseRef headRef) = some 0 := by
  unfold fetchBehindBy
  by_cases hb : baseRef = ""
  · simp [hb]
  · by_cases hh : headRef = ""
    · simp [hh]
    · simp [hb, hh]

/-- **A PR is shown as ready exactly when nothing blocks it**, whatever the compare call yields; refs
that are empty are level without a call; and the state is that of the evaluation without
shortcuts. -/
theorem mergeReady_iff_nothing_blocks (compare : String → Option UInt64) (prView : GhPrNode) :
    ∃ pr, evaluateSinglePr compare prView = .ok pr ∧ pr.id = PrId.new prView.number ∧
      pr.state = plainState compare prView ∧
      (pr.state = .unblocked .mergeReady ↔
        (prView.mergeStateStatus = "CLEAN" ∨ prView.mergeStateStatus = "HAS_HOOKS") ∧
          prView.mergeable ≠ "CONFLICTING" ∧
          (prView.baseRefName = "" ∨ prView.headRefName = "" ∨
            compare (buildComparePath prView.baseRefName prView.headRefName) = some 0) ∧
          ciFromNode prView = none ∧
          prView.reviewDecision ≠ some "CHANGES_REQUESTED" ∧
          prView.reviewDecision ≠ some "REVIEW_REQUIRED" ∧ prView.isDraft = false) := by
  refine ⟨_, evaluateSinglePr_eq_plain compare prView, rfl, rfl, ?_⟩
  rw [← fetchBehindBy_eq_some_zero]
  exact plainState_eq_mergeReady

end MergeReady.Evaluation
