import MergeReady.Evaluation.Compile

/-!
# The display configuration

A configuration is compiled, once it is loaded, format by format.  That ends normally exactly when
every format is safe, and the default formats are.
-/

namespace MergeReady.Evaluation

open MergeReady.Lib MergeReady.Lib.Str

structure TokenConfig where
  symbol : Str
  label : Str
  format : Str

structure ErrorConfig where
  symbol : Str
  format : Str

structure DisplayConfig where
  mergeReady : TokenConfig
  noPullRequest : TokenConfig
  conflict : TokenConfig
  updateBranch : TokenConfig
  syncUnknown : TokenConfig
  ciFail : TokenConfig
  ciAction : TokenConfig
  ciPending : TokenConfig
  changesRequested : TokenConfig
  reviewRequired : TokenConfig
  draft : TokenConfig
  statusCalculating : TokenConfig
  blockedUnknown : TokenConfig
  error : ErrorConfig

structure CompiledTokenConfig where
  symbol : Str
  label : Str
  segments : List CompiledSegment

structure CompiledErrorConfig where
  symbol : Str
  segments : List CompiledSegment

structure CompiledDisplayConfig where
  mergeReady : CompiledTokenConfig
  noPullRequest : CompiledTokenConfig
  conflict : CompiledTokenConfig
  updateBranch : CompiledTokenConfig
  syncUnknown : CompiledTokenConfig
  ciFail : CompiledTokenConfig
  ciAction : CompiledTokenConfig
  ciPending : CompiledTokenConfig
  changesRequested : CompiledTokenConfig
  reviewRequired : CompiledTokenConfig
  draft : CompiledTokenConfig
  statusCalculating : CompiledTokenConfig
  blockedUnknown : CompiledTokenConfig
  error : CompiledErrorConfig

def TokenConfig.compile (cfg : TokenConfig) : Fallible CompiledTokenConfig := do
  let segments ← compileSegments cfg.format
  .ok { symbol := cfg.symbol, label := cfg.label, segments }

def ErrorConfig.compile (cfg : ErrorConfig) : Fallible CompiledErrorConfig := do
  let segments ← compileSegments cfg.format
  .ok { symbol := cfg.symbol, segments }

def DisplayConfig.compile (cfg : DisplayConfig) : Fallible CompiledDisplayConfig := do
  let mergeReady ← cfg.mergeReady.compile
  let noPullRequest ← cfg.noPullRequest.compile
  let conflict ← cfg.conflict.compile
  let updateBranch ← cfg.updateBranch.compile
  let syncUnknown ← cfg.syncUnknown.compile
  let ciFail ← cfg.ciFail.compile
  let ciAction ← cfg.ciAction.compile
  let ciPending ← cfg.ciPending.compile
  let changesRequested ← cfg.changesRequested.compile
  let reviewRequired ← cfg.reviewRequired.compile
  let draft ← cfg.draft.compile
  let statusCalculating ← cfg.statusCalculating.compile
  let blockedUnknown ← cfg.blockedUnknown.compile
  let error ← cfg.error.compile
  .ok { mergeReady, noPullRequest, conflict, updateBranch, syncUnknown, ciFail, ciAction, ciPending,
        changesRequested, reviewRequired, draft, statusCalculating, blockedUnknown, error }

/-! ## What the fields are compiled from -/

theorem TokenConfig.compile_eq_ok {cfg : TokenConfig} {compiled : CompiledTokenConfig}
    (h : cfg.compile = .ok compiled) : compiled.symbol = cfg.symbol ∧
      compiled.label = cfg.label ∧ compileSegments cfg.format = .ok compiled.segments := by
  obtain ⟨segments, hsegments, h⟩ := bind_eq_ok.1 h
  cases h
  exact ⟨rfl, rfl, hsegments⟩

theorem ErrorConfig.compile_eq_ok {cfg : ErrorConfig} {compiled : CompiledErrorConfig}
    (h : cfg.compile = .ok compiled) :
    compiled.symbol = cfg.symbol ∧ compileSegments cfg.format = .ok compiled.segments := by
  obtain ⟨segments, hsegments, h⟩ := bind_eq_ok.1 h
  cases h
  exact ⟨rfl, hsegments⟩

/-- Each field is compiled from the field of the same name. -/
structure CompiledFrom (cfg : DisplayConfig) (compiled : CompiledDisplayConfig) : Prop where
  mergeReady : cfg.mergeReady.compile = .ok compiled.mergeReady
  noPullRequest : cfg.noPullRequest.compile = .ok compiled.noPullRequest
  conflict : cfg.conflict.compile = .ok compiled.conflict
  updateBranch : cfg.updateBranch.compile = .ok compiled.updateBranch
  syncUnknown : cfg.syncUnknown.compile = .ok compiled.syncUnknown
  ciFail : cfg.ciFail.compile = .ok compiled.ciFail
  ciAction : cfg.ciAction.compile = .ok compiled.ciAction
  ciPending : cfg.ciPending.compile = .ok compiled.ciPending
  changesRequested : cfg.changesRequested.compile = .ok compiled.changesRequested
  reviewRequired : cfg.reviewRequired.compile = .ok compiled.reviewRequired
  draft : cfg.draft.compile = .ok compiled.draft
  statusCalculating : cfg.statusCalculating.compile = .ok compiled.statusCalculating
  blockedUnknown : cfg.blockedUnknown.compile = .ok compiled.blockedUnknown
  error : cfg.error.compile = .ok compiled.error

theorem compiledFrom_of_compile {cfg : DisplayConfig} {compiled : CompiledDisplayConfig}
    (h : cfg.compile = .ok compiled) : CompiledFrom cfg compiled := by
  unfold DisplayConfig.compile at h
  obtain ⟨_, mergeReady, h⟩ := bind_eq_ok.1 h
  obtain ⟨_, noPullRequest, h⟩ := bind_eq_ok.1 h
  obtain ⟨_, conflict, h⟩ := bind_eq_ok.1 h
  obtain ⟨_, updateBranch, h⟩ := bind_eq_ok.1 h
  obtain ⟨_, syncUnknown, h⟩ := bind_eq_ok.1 h
  obtain ⟨_, ciFail, h⟩ := bind_eq_ok.1 h
  obtain ⟨_, ciAction, h⟩ := bind_eq_ok.1 h
  obtain ⟨_, ciPending, h⟩ := bind_eq_ok.1 h
  obtain ⟨_, changesRequested, h⟩ := bind_eq_ok.1 h
  obtain ⟨_, reviewRequired, h⟩ := bind_eq_ok.1 h
  obtain ⟨_, draft, h⟩ := bind_eq_ok.1 h
  obtain ⟨_, statusCalculating, h⟩ := bind_eq_ok.1 h
  obtain ⟨_, blockedUnknown, h⟩ := bind_eq_ok.1 h
  obtain ⟨_, error, h⟩ := bind_eq_ok.1 h
  cases h
  exact { mergeReady, noPullRequest, conflict, updateBranch, syncUnknown, ciFail, ciAction,
          ciPending, changesRequested, reviewRequired, draft, statusCalculating, blockedUnknown,
          error }

/-! ## The formats of a configuration -/

/-- The formats of the tokens, in the order of the fields. -/
def DisplayConfig.formats (cfg : DisplayConfig) : List Str :=
  [cfg.mergeReady, cfg.noPullRequest, cfg.conflict, cfg.updateBranch, cfg.syncUnknown, cfg.ciFail,
    cfg.ciAction, cfg.ciPending, cfg.changesRequested, cfg.reviewRequired, cfg.draft,
    cfg.statusCalculating, cfg.blockedUnknown].map TokenConfig.format ++ [cfg.error.format]

theorem TokenConfig.returns_compile (cfg : TokenConfig) :
    Returns cfg.compile ↔ FormatSafe cfg.format := by
  rw [← returns_compileSegments]
  unfold TokenConfig.compile
  exact returns_bind_ok _ _

theorem ErrorConfig.returns_compile (cfg : ErrorConfig) :
    Returns cfg.compile ↔ FormatSafe cfg.format := by
  rw [← returns_compileSegments]
  unfold ErrorConfig.compile
  exact returns_bind_ok _ _

/-- A configuration is compiled when each of its formats is. -/
theorem DisplayConfig.returns_compile (cfg : DisplayConfig) :
    Returns cfg.compile ↔ ∀ format ∈ cfg.formats, FormatSafe format := by
  have htoken : ∀ token : TokenConfig, FormatSafe token.format ↔ ∃ c, token.compile = .ok c :=
    fun token => token.returns_compile.symm
  have herror : ∀ error : ErrorConfig, FormatSafe error.format ↔ ∃ c, error.compile = .ok c :=
    fun error => error.returns_compile.symm
  simp [DisplayConfig.compile, DisplayConfig.formats, returns_bind, htoken, herror]

/-- **When a format, and a configuration, is compiled.** -/
theorem compile_returns_iff (format : Str) (cfg : DisplayConfig) :
    (Returns (compileSegments format) ↔ FormatSafe format) ∧
    (Returns cfg.compile ↔ ∀ format ∈ cfg.formats, FormatSafe format) :=
  ⟨returns_compileSegments format, cfg.returns_compile⟩

/-- A colour of six bytes with an accented letter across the first cut. -/
theorem not_returns_accent : ¬ Returns (compileSegments "[x](fg:#aéaaa)".toList) := by
  rw [returns_compileSegments]
  intro h
  have hstyle : StyleOf "[x](fg:#aéaaa)".toList "fg:#aéaaa".toList := by
    have hchunk : ChunkOf "[x](fg:#aéaaa)".toList (.styled [] ['x'] "fg:#aéaaa".toList []) := by
      refine .styled ?_ Plain.nil ⟨?_, ?_⟩ <;> decide
    exact .here hchunk rfl
  have hvalue : "#aéaaa".toList ∈ colorValues (splitWhitespace "fg:#aéaaa".toList) := by decide
  obtain ⟨⟨l, r, hlr, hl⟩, -⟩ := h _ hstyle _ hvalue "aéaaa".toList (by decide) (by decide)
  have hnone : splitAt? "aéaaa".toList 2 = none := by decide
  rw [splitAt?_eq_some.2 ⟨hlr, hl⟩] at hnone
  cases hnone

/-! ## The defaults -/

def defaultPrFormat : Str := "$symbol $label( $pr_ids)".toList

def defaultFormat : Str := "$symbol $label".toList

def defaultErrorFormat : Str := "$symbol $message".toList

def ErrorConfig.default : ErrorConfig where
  symbol := "✗".toList
  format := defaultErrorFormat

def DisplayConfig.default : DisplayConfig :=
  let prTok (symbol label : String) : TokenConfig :=
    { symbol := symbol.toList, label := label.toList, format := defaultPrFormat }
  let tok (symbol label : String) : TokenConfig :=
    { symbol := symbol.toList, label := label.toList, format := defaultFormat }
  { mergeReady := prTok "✓" "Ready for merge"
    noPullRequest := tok "+" "Create PR"
    conflict := prTok "✗" "Resolve conflict"
    updateBranch := prTok "✗" "Update branch"
    syncUnknown := prTok "?" "Check branch sync"
    ciFail := prTok "✗" "Fix CI failure"
    ciAction := prTok "⚠" "Run CI action"
    ciPending := prTok "⧖" "Wait for CI"
    changesRequested := prTok "⚠" "Resolve review"
    reviewRequired := prTok "@" "Assign reviewer"
    draft := prTok "✎" "Ready for review"
    statusCalculating := prTok "⧖" "Wait for status"
    blockedUnknown := prTok "?" "Check merge blocker"
    error := ErrorConfig.default }

/-- Formats without styles are compiled, -/
theorem DisplayConfig.returns_compile_of_not_mem {cfg : DisplayConfig}
    (h : ∀ format ∈ cfg.formats, ']' ∉ format) : Returns cfg.compile := by
  rw [DisplayConfig.returns_compile]
  intro format hmem styleStr hs
  exact absurd hs (not_styleOf_of_not_mem (h format hmem))

/-- and so are the defaults. -/
theorem DisplayConfig.returns_compile_default : Returns DisplayConfig.default.compile :=
  DisplayConfig.returns_compile_of_not_mem (by decide)

end MergeReady.Evaluation
