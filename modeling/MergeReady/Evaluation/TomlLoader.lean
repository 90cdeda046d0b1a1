import MergeReady.Evaluation.DisplayConfig
import MergeReady.Lib.Memo
import MergeReady.Lib.Run
import MergeReady.Lib.Utf8

/-!
# Loading the configuration

A call reads the file, looks its fingerprint up in the cache, and compiles and stores the
configuration when it is not there.  The lookup and the store are two critical sections, and calls
and edits of the file come between them in any order.
-/

namespace MergeReady.Evaluation

open MergeReady.Lib MergeReady.Lib.Str

abbrev Bytes := List UInt8

structure RawTokenConfig where
  symbol : Option Str
  label : Option Str
  format : Option Str

structure RawErrorConfig where
  symbol : Option Str
  format : Option Str

structure RawDisplayConfig where
  mergeReady : Option RawTokenConfig
  noPullRequest : Option RawTokenConfig
  conflict : Option RawTokenConfig
  updateBranch : Option RawTokenConfig
  syncUnknown : Option RawTokenConfig
  ciFail : Option RawTokenConfig
  ciAction : Option RawTokenConfig
  ciPending : Option RawTokenConfig
  changesRequested : Option RawTokenConfig
  reviewRequired : Option RawTokenConfig
  draft : Option RawTokenConfig
  statusCalculating : Option RawTokenConfig
  blockedUnknown : Option RawTokenConfig
  error : Option RawErrorConfig

def RawDisplayConfig.default : RawDisplayConfig where
  mergeReady := none
  noPullRequest := none
  conflict := none
  updateBranch := none
  syncUnknown := none
  ciFail := none
  ciAction := none
  ciPending := none
  changesRequested := none
  reviewRequired := none
  draft := none
  statusCalculating := none
  blockedUnknown := none
  error := none

def mergeToken (raw : Option RawTokenConfig) (default : TokenConfig) : TokenConfig :=
  match raw with
  | none => default
  | some raw =>
    { symbol := raw.symbol.getD default.symbol
      label := raw.label.getD default.label
      format := raw.format.getD default.format }

def mergeError (raw : Option RawErrorConfig) (default : ErrorConfig) : ErrorConfig :=
  match raw with
  | none => default
  | some raw =>
    { symbol := raw.symbol.getD default.symbol
      format := raw.format.getD default.format }

def mergeWithDefaults (raw : RawDisplayConfig) : DisplayConfig :=
  let defaults := DisplayConfig.default
  { mergeReady := mergeToken raw.mergeReady defaults.mergeReady
    noPullRequest := mergeToken raw.noPullRequest defaults.noPullRequest
    conflict := mergeToken raw.conflict defaults.conflict
    updateBranch := mergeToken raw.updateBranch defaults.updateBranch
    syncUnknown := mergeToken raw.syncUnknown defaults.syncUnknown
    ciFail := mergeToken raw.ciFail defaults.ciFail
    ciAction := mergeToken raw.ciAction defaults.ciAction
    ciPending := mergeToken raw.ciPending defaults.ciPending
    changesRequested := mergeToken raw.changesRequested defaults.changesRequested
    reviewRequired := mergeToken raw.reviewRequired defaults.reviewRequired
    draft := mergeToken raw.draft defaults.draft
    statusCalculating := mergeToken raw.statusCalculating defaults.statusCalculating
    blockedUnknown := mergeToken raw.blockedUnknown defaults.blockedUnknown
    error := mergeError raw.error defaults.error }

theorem mergeWithDefaults_default : mergeWithDefaults .default = DisplayConfig.default := rfl

/-- What the loader takes from other crates: `toml::from_str` and `XxHash3_64::oneshot`. -/
structure Crates where
  fromStr : Str → Option RawDisplayConfig
  oneshot : Bytes → UInt64

namespace Crates

variable (c : Crates)

def fingerprint (content : Option Bytes) : Option UInt64 := content.map c.oneshot

def parseDisplayConfig (content : Str) : DisplayConfig :=
  let raw := (c.fromStr content).getD .default
  mergeWithDefaults raw

/-- The configuration contained in what was read. -/
def display (content : Option Bytes) : DisplayConfig :=
  match content.bind fromUtf8 with
  | none => .default
  | some text => c.parseDisplayConfig text

/-- A file that is absent, not UTF-8 or not valid TOML gives the defaults. -/
theorem display_eq_default {content : Option Bytes}
    (h : (content.bind fromUtf8).bind c.fromStr = none) : c.display content = .default := by
  unfold display
  cases htext : content.bind fromUtf8 with
  | none => rfl
  | some text =>
    rw [htext, Option.bind_some] at h
    show mergeWithDefaults ((c.fromStr text).getD .default) = .default
    rw [h, Option.getD_none]
    exact mergeWithDefaults_default

end Crates

/-- Each value of the token is the one that the text has, or the default where it has none. -/
structure TokenOrDefault (raw : Option RawTokenConfig) (default token : TokenConfig) : Prop where
  symbol : token.symbol = (raw.bind RawTokenConfig.symbol).getD default.symbol
  label : token.label = (raw.bind RawTokenConfig.label).getD default.label
  format : token.format = (raw.bind RawTokenConfig.format).getD default.format

structure ErrorOrDefault (raw : Option RawErrorConfig) (default error : ErrorConfig) : Prop where
  symbol : error.symbol = (raw.bind RawErrorConfig.symbol).getD default.symbol
  format : error.format = (raw.bind RawErrorConfig.format).getD default.format

/-- The configuration contained in a valid text, field by field. -/
structure Contained (raw : RawDisplayConfig) (display : DisplayConfig) : Prop where
  mergeReady : TokenOrDefault raw.mergeReady DisplayConfig.default.mergeReady display.mergeReady
  noPullRequest :
    TokenOrDefault raw.noPullRequest DisplayConfig.default.noPullRequest display.noPullRequest
  conflict : TokenOrDefault raw.conflict DisplayConfig.default.conflict display.conflict
  updateBranch :
    TokenOrDefault raw.updateBranch DisplayConfig.default.updateBranch display.updateBranch
  syncUnknown : TokenOrDefault raw.syncUnknown DisplayConfig.default.syncUnknown display.syncUnknown
  ciFail : TokenOrDefault raw.ciFail DisplayConfig.default.ciFail display.ciFail
  ciAction : TokenOrDefault raw.ciAction DisplayConfig.default.ciAction display.ciAction
  ciPending : TokenOrDefault raw.ciPending DisplayConfig.default.ciPending display.ciPending
  changesRequested : TokenOrDefault raw.changesRequested DisplayConfig.default.changesRequested
    display.changesRequested
  reviewRequired :
    TokenOrDefault raw.reviewRequired DisplayConfig.default.reviewRequired display.reviewRequired
  draft : TokenOrDefault raw.draft DisplayConfig.default.draft display.draft
  statusCalculating : TokenOrDefault raw.statusCalculating DisplayConfig.default.statusCalculating
    display.statusCalculating
  blockedUnknown :
    TokenOrDefault raw.blockedUnknown DisplayConfig.default.blockedUnknown display.blockedUnknown
  error : ErrorOrDefault raw.error DisplayConfig.default.error display.error

theorem tokenOrDefault_mergeToken (raw : Option RawTokenConfig) (default : TokenConfig) :
    TokenOrDefault raw default (mergeToken raw default) := by
  cases raw <;> exact ⟨rfl, rfl, rfl⟩

theorem errorOrDefault_mergeError (raw : Option RawErrorConfig) (default : ErrorConfig) :
    ErrorOrDefault raw default (mergeError raw default) := by
  cases raw <;> exact ⟨rfl, rfl⟩

theorem contained_mergeWithDefaults (raw : RawDisplayConfig) :
    Contained raw (mergeWithDefaults raw) := by
  constructor
  all_goals first | exact tokenOrDefault_mergeToken _ _ | exact errorOrDefault_mergeError _ _

theorem Crates.contained_display (c : Crates) {content : Option Bytes} {raw : RawDisplayConfig}
    (h : (content.bind fromUtf8).bind c.fromStr = some raw) : Contained raw (c.display content) := by
  obtain ⟨text, htext, hraw⟩ := Option.bind_eq_some_iff.1 h
  unfold Crates.display Crates.parseDisplayConfig
  rw [htext]
  dsimp only
  rw [hraw]
  exact contained_mergeWithDefaults raw

/-! ## The calls -/

structure CachedConfig where
  fingerprint : Option UInt64
  config : CompiledDisplayConfig

/-- The configuration in the cache, if it is there under this fingerprint. -/
def lookup (cache : Option CachedConfig) (fp : Option UInt64) : Option CompiledDisplayConfig :=
  (cache.filter fun cached => decide (cached.fingerprint = fp)).map CachedConfig.config

theorem lookup_eq_some {cache : Option CachedConfig} {fp : Option UInt64}
    {config : CompiledDisplayConfig} :
    lookup cache fp = some config ↔ cache = some ⟨fp, config⟩ := by
  cases cache with
  | none => simp [lookup]
  | some cached =>
    obtain ⟨fp', config'⟩ := cached
    by_cases h : fp' = fp <;> simp [lookup, Option.filter, h]

/-- How far a call of `load_compiled_display_config` is, with the values it holds. -/
inductive Phase
  | called
  | read (content : Option Bytes) (fp : Option UInt64)
  | missed (content : Option Bytes) (fp : Option UInt64)
  | compiled (content : Option Bytes) (fp : Option UInt64) (compiled : CompiledDisplayConfig)
  | ended (content : Option Bytes) (result : Fallible CompiledDisplayConfig)

/-- The steps that a call has left at most. -/
def Phase.left : Phase → ℕ
  | .called => 4
  | .read _ _ => 3
  | .missed _ _ => 2
  | .compiled _ _ _ => 1
  | .ended _ _ => 0

/-- The file, the cache and the calls, which are any number. -/
structure Loading (ι : Type) where
  file : Option Bytes
  cache : Option CachedConfig
  calls : ι → Phase

/-- What happens: the file is edited, created or deleted, or a call takes a step. -/
inductive LoadEvent (ι : Type)
  | edit (content : Option Bytes)
  | read (i : ι) (content : Option Bytes)
  | lookup (i : ι)
  | compile (i : ι)
  | store (i : ι)

def LoadEvent.call {ι : Type} : LoadEvent ι → Option ι
  | .edit _ => none
  | .read i _ | .lookup i | .compile i | .store i => some i

namespace Loading

variable {ι : Type} (c : Crates)

/-- At the start of the process: nothing is cached and no call has begun. -/
def init (file : Option Bytes) : Loading ι :=
  { file, cache := none, calls := fun _ => .called }

def set [DecidableEq ι] (s : Loading ι) (i : ι) (phase : Phase) : Loading ι :=
  { s with calls := Function.update s.calls i phase }

/-- The steps.  A read that an edit overlaps, or that fails, gives any content (`torn`).  No step
panics under the lock, so it is never poisoned: a format is compiled outside of it. -/
inductive Step [DecidableEq ι] (s : Loading ι) : LoadEvent ι → Loading ι → Prop
  | edit {content} : Step s (.edit content) { s with file := content }
  | read {i} (hi : s.calls i = .called) :
      Step s (.read i s.file) (s.set i (.read s.file (c.fingerprint s.file)))
  | torn {i content} (hi : s.calls i = .called) :
      Step s (.read i content) (s.set i (.read content (c.fingerprint content)))
  | hit {i content fp config} (hi : s.calls i = .read content fp)
      (hl : Evaluation.lookup s.cache fp = some config) :
      Step s (.lookup i) (s.set i (.ended content (.ok config)))
  | miss {i content fp} (hi : s.calls i = .read content fp)
      (hl : Evaluation.lookup s.cache fp = none) :
      Step s (.lookup i) (s.set i (.missed content fp))
  | compile {i content fp compiled} (hi : s.calls i = .missed content fp)
      (hc : (c.display content).compile = .ok compiled) :
      Step s (.compile i) (s.set i (.compiled content fp compiled))
  | panic {i content fp p} (hi : s.calls i = .missed content fp)
      (hc : (c.display content).compile = .error p) :
      Step s (.compile i) (s.set i (.ended content (.error p)))
  | store {i content fp compiled} (hi : s.calls i = .compiled content fp compiled) :
      Step s (.store i)
        { s.set i (.ended content (.ok compiled)) with cache := some ⟨fp, compiled⟩ }

/-! ## What a call holds -/

variable {c} {ls : List (LoadEvent ι)} {s t : Loading ι} {i : ι}

/-- The calls have read `content`, among others. -/
def contentsRead (ls : List (LoadEvent ι)) : Set (Option Bytes) :=
  {content | ∃ i, .read i content ∈ ls}

/-- The bytes that the calls have read. -/
def bytesRead (ls : List (LoadEvent ι)) : Set Bytes := {bytes | some bytes ∈ contentsRead ls}

theorem injOn_fingerprint (h : Set.InjOn c.oneshot (bytesRead ls)) :
    Set.InjOn c.fingerprint (contentsRead ls) := by
  intro content hmem content' hmem' heq
  cases content with
  | none =>
    cases content' with
    | none => rfl
    | some bytes' => cases heq
  | some bytes =>
    cases content' with
    | none => cases heq
    | some bytes' => exact congrArg some (h hmem hmem' (Option.some.inj heq))

/-- Call `i` has read `content`, and nothing else. -/
def ReadOnce (ls : List (LoadEvent ι)) (i : ι) (content : Option Bytes) : Prop :=
  ∀ content', .read i content' ∈ ls ↔ content' = content

/-- The values that call `i` holds belong to what it has read itself. -/
inductive Sound (c : Crates) (ls : List (LoadEvent ι)) (i : ι) : Phase → Prop
  | called (h : ∀ content, .read i content ∉ ls) : Sound c ls i .called
  | read {content} (h : ReadOnce ls i content) :
      Sound c ls i (.read content (c.fingerprint content))
  | missed {content} (h : ReadOnce ls i content) :
      Sound c ls i (.missed content (c.fingerprint content))
  | compiled {content compiled} (h : ReadOnce ls i content)
      (hc : (c.display content).compile = .ok compiled) :
      Sound c ls i (.compiled content (c.fingerprint content) compiled)
  | ended {content} (h : ReadOnce ls i content) :
      Sound c ls i (.ended content (c.display content).compile)

theorem not_mem_snoc {l : LoadEvent ι} {content : Option Bytes} (h : .read i content ∉ ls)
    (hl : l ≠ .read i content) : .read i content ∉ ls ++ [l] := by
  rw [List.mem_append, List.mem_singleton, not_or]
  exact ⟨h, Ne.symm hl⟩

theorem ReadOnce.snoc {l : LoadEvent ι} {content : Option Bytes} (h : ReadOnce ls i content)
    (hl : ∀ content', l ≠ .read i content') : ReadOnce (ls ++ [l]) i content := by
  intro content'
  rw [List.mem_append, List.mem_singleton, h content', or_iff_left (Ne.symm (hl content'))]

theorem ReadOnce.mem {content : Option Bytes} (h : ReadOnce ls i content) :
    content ∈ contentsRead ls := ⟨i, (h content).2 rfl⟩

/-- The first read of a call. -/
theorem ReadOnce.of_called (h : ∀ content, .read i content ∉ ls) (content : Option Bytes) :
    ReadOnce (ls ++ [.read i content]) i content := by
  intro content'
  rw [List.mem_append, List.mem_singleton, or_iff_right (h content')]
  constructor
  · rintro ⟨⟩
    rfl
  · rintro rfl
    rfl

/-- What call `i` holds does not change when others go on. -/
theorem Sound.snoc {l : LoadEvent ι} {phase : Phase} (h : Sound c ls i phase)
    (hl : ∀ content, l ≠ .read i content) : Sound c (ls ++ [l]) i phase := by
  cases h with
  | called h => exact .called fun content => not_mem_snoc (h content) (hl content)
  | read h => exact .read (h.snoc hl)
  | missed h => exact .missed (h.snoc hl)
  | compiled h hc => exact .compiled (h.snoc hl) hc
  | ended h => exact .ended (h.snoc hl)

/-! ## The invariant -/

/-- The cache as a memo of compilations under fingerprints. -/
def memo (s : Loading ι) : Option (Option UInt64 × CompiledDisplayConfig) :=
  s.cache.map fun cached => (cached.fingerprint, cached.config)

/-- What the cache keeps was compiled from something that was read, and what each call holds from
what it has read. -/
structure Inv (c : Crates) (ls : List (LoadEvent ι)) (s : Loading ι) : Prop where
  cache : Memo.Holds c.fingerprint (fun content => (c.display content).compile) (contentsRead ls)
    s.memo
  calls : ∀ i, Sound c ls i (s.calls i)

theorem contentsRead_snoc (l : LoadEvent ι) : contentsRead ls ⊆ contentsRead (ls ++ [l]) := by
  rintro content ⟨i, hi⟩
  exact ⟨i, List.mem_append_left _ hi⟩

theorem inv_init (file : Option Bytes) : Inv c [] (init file : Loading ι) where
  cache := Memo.Holds.empty
  calls _ := .called fun _ => List.not_mem_nil

variable [DecidableEq ι]

theorem calls_set_self (phase : Phase) : (s.set i phase).calls i = phase :=
  Function.update_self _ _ _

theorem calls_set_of_ne {j : ι} (h : j ≠ i) (phase : Phase) : (s.set i phase).calls j = s.calls j :=
  Function.update_of_ne h _ _

/-- A step of call `i` leaves the other calls as they are. -/
theorem Inv.sound_set {l : LoadEvent ι} {phase : Phase} (h : Inv c ls s) (hl : l.call = some i)
    (hi : Sound c (ls ++ [l]) i phase) (j : ι) :
    Sound c (ls ++ [l]) j ((s.set i phase).calls j) := by
  by_cases hj : j = i
  · subst hj
    rw [calls_set_self]
    exact hi
  · rw [calls_set_of_ne hj]
    refine (h.calls j).snoc ?_
    rintro content rfl
    exact hj (Option.some.inj hl)

/-- The read of a call. -/
theorem Inv.read (h : Inv c ls s) (hi : s.calls i = .called) (content : Option Bytes) :
    Inv c (ls ++ [.read i content]) (s.set i (.read content (c.fingerprint content))) where
  cache := h.cache.mono (contentsRead_snoc _)
  calls := by
    refine h.sound_set rfl ?_
    cases hi ▸ h.calls i with
    | called hnone => exact .read (.of_called hnone content)

/-- One step keeps the invariant. -/
theorem Inv.step {l : LoadEvent ι} (h : Inv c ls s)
    (hinj : Set.InjOn c.fingerprint (contentsRead ls)) (hst : Step c s l t) :
    Inv c (ls ++ [l]) t := by
  have hmono := h.cache.mono (contentsRead_snoc l)
  cases hst with
  | edit => exact ⟨hmono, fun i => (h.calls i).snoc fun content => nofun⟩
  | read hi => exact h.read hi _
  | torn hi => exact h.read hi _
  | @hit i content fp config hi hl =>
    refine ⟨hmono, h.sound_set rfl ?_⟩
    cases hi ▸ h.calls i with
    | read hread =>
      -- whichever call stored the entry, it stored the compilation of the same content
      have hentry : s.memo = some (c.fingerprint content, config) := by
        rw [memo, lookup_eq_some.1 hl]
        rfl
      rw [← h.cache.hit hinj hread.mem hentry]
      exact .ended (hread.snoc fun content => nofun)
  | @miss i content fp hi hl =>
    refine ⟨hmono, h.sound_set rfl ?_⟩
    cases hi ▸ h.calls i with
    | read hread => exact .missed (hread.snoc fun content => nofun)
  | @compile i content fp compiled hi hc =>
    refine ⟨hmono, h.sound_set rfl ?_⟩
    cases hi ▸ h.calls i with
    | missed hread => exact .compiled (hread.snoc fun content => nofun) hc
  | @panic i content fp p hi hc =>
    refine ⟨hmono, h.sound_set rfl ?_⟩
    cases hi ▸ h.calls i with
    | missed hread =>
      rw [← hc]
      exact .ended (hread.snoc fun content => nofun)
  | @store i content fp compiled hi =>
    cases hi ▸ h.calls i with
    | compiled hread hc =>
      have hread' := hread.snoc (l := .store i) fun content => nofun
      refine ⟨.store hread'.mem hc, h.sound_set rfl ?_⟩
      rw [← hc]
      exact .ended hread'

/-- **The invariant holds in every run**, as long as no two contents that were read share a hash. -/
theorem inv_of_run {file : Option Bytes} (hr : Run (Step c) (init file) ls s)
    (hinj : Set.InjOn c.oneshot (bytesRead ls)) : Inv c ls s := by
  refine Run.history (P := fun ls s => Set.InjOn c.oneshot (bytesRead ls) → Inv c ls s)
    (fun _ => inv_init file) (fun ls s l t _ ih hst hinj => ?_) hr hinj
  have hinj' : Set.InjOn c.oneshot (bytesRead ls) :=
    hinj.mono fun bytes hmem => contentsRead_snoc l hmem
  exact (ih hinj').step (injOn_fingerprint hinj') hst

/-! ## The calls end -/

/-- The steps of call `i` among the events. -/
def stepsOf (i : ι) (ls : List (LoadEvent ι)) : ℕ := ls.countP fun l => l.call = some i

/-- A call that goes from `phase` to a later one, and no other, comes closer to its end. -/
theorem left_set {l : LoadEvent ι} {phase : Phase} (hl : l.call = some i)
    (hlt : phase.left + 1 ≤ (s.calls i).left) (j : ι) :
    stepsOf j [l] + ((s.set i phase).calls j).left ≤ (s.calls j).left := by
  unfold stepsOf
  rw [List.countP_singleton, hl]
  by_cases hj : j = i
  · subst hj
    rw [calls_set_self, if_pos (by simp)]
    omega
  · rw [calls_set_of_ne hj, if_neg (by simpa using Ne.symm hj)]
    omega

theorem Step.left_le {l : LoadEvent ι} (h : Step c s l t) (j : ι) :
    stepsOf j [l] + (t.calls j).left ≤ (s.calls j).left := by
  cases h with
  | edit => exact (Nat.zero_add _).le
  | read hi => exact left_set rfl (by rw [hi]; exact le_rfl) j
  | torn hi => exact left_set rfl (by rw [hi]; exact le_rfl) j
  | hit hi => exact left_set rfl (by rw [hi, Phase.left, Phase.left]; omega) j
  | miss hi => exact left_set rfl (by rw [hi]; exact le_rfl) j
  | compile hi => exact left_set rfl (by rw [hi]; exact le_rfl) j
  | panic hi => exact left_set rfl (by rw [hi, Phase.left, Phase.left]; omega) j
  | store hi => exact left_set (s := s) rfl (by rw [hi]; exact le_rfl) j

theorem left_le_of_run (hr : Run (Step c) s ls t) (i : ι) :
    stepsOf i ls + (t.calls i).left ≤ (s.calls i).left := by
  induction hr with
  | nil s => exact (Nat.zero_add _).le
  | @cons s t u l ls h _ ih =>
    have hone := h.left_le i
    have hsum : stepsOf i (l :: ls) = stepsOf i [l] + stepsOf i ls :=
      @List.countP_append _ _ [l] ls
    omega

/-- A call that has not ended can take a step, whatever the others hold. -/
theorem exists_step (s : Loading ι) (i : ι) :
    (∃ content result, s.calls i = .ended content result) ∨
      ∃ l t, l.call = some i ∧ Step c s l t := by
  cases hi : s.calls i with
  | called => exact .inr ⟨_, _, rfl, .read hi⟩
  | read content fp =>
    cases hl : Evaluation.lookup s.cache fp with
    | none => exact .inr ⟨_, _, rfl, .miss hi hl⟩
    | some config => exact .inr ⟨_, _, rfl, .hit hi hl⟩
  | missed content fp =>
    cases hc : (c.display content).compile with
    | error p => exact .inr ⟨_, _, rfl, .panic hi hc⟩
    | ok compiled => exact .inr ⟨_, _, rfl, .compile hi hc⟩
  | compiled content fp compiled => exact .inr ⟨_, _, rfl, .store hi⟩
  | ended content result => exact .inl ⟨content, result, rfl⟩

/-- **The cache is transparent**: a call ends as the compilation of what it has read itself does,
the cache keeps the compilation of what has its fingerprint, and every call can go on and ends after
four steps at most.  A text that is valid has the values of its fields, the defaults where it has none,
and what is no configuration is the defaults. -/
theorem loadCompiledDisplayConfig_transparent {file : Option Bytes}
    (hr : Run (Step c) (init file) ls s) (hinj : Set.InjOn c.oneshot (bytesRead ls)) :
    (∀ i content result, s.calls i = .ended content result →
      ReadOnce ls i content ∧ result = (c.display content).compile) ∧
    (∀ cached, s.cache = some cached → ∃ content ∈ contentsRead ls,
      cached.fingerprint = c.fingerprint content ∧
        (c.display content).compile = .ok cached.config) ∧
    (∀ i, stepsOf i ls ≤ 4 ∧ ((∃ content result, s.calls i = .ended content result) ∨
      ∃ l t, l.call = some i ∧ Step c s l t)) ∧
    (∀ (content : Option Bytes) (raw : RawDisplayConfig),
      (content.bind fromUtf8).bind c.fromStr = some raw → Contained raw (c.display content)) ∧
    ∀ content : Option Bytes, (content.bind fromUtf8).bind c.fromStr = none →
      c.display content = .default := by
  have h := inv_of_run hr hinj
  refine ⟨fun i content result hi => ?_, fun cached hcache => ?_, fun i => ⟨?_, exists_step s i⟩,
    fun content raw => c.contained_display, fun content => c.display_eq_default⟩
  · cases hi ▸ h.calls i with
    | ended hread => exact ⟨hread, rfl⟩
  · refine h.cache (cached.fingerprint, cached.config) ?_
    rw [memo, hcache]
    rfl
  · have hle := left_le_of_run hr i
    change _ ≤ 4 at hle
    omega

/-! ### A slow call -/

/-- Another symbol for a PR that is ready. -/
def starText : Str := "[merge_ready]\nsymbol = \"★\"".toList

def starRaw : RawDisplayConfig :=
  { RawDisplayConfig.default with
    mergeReady := some { symbol := some "★".toList, label := none, format := none } }

def starBytes : Bytes := utf8 starText

/-- Two crates that do what theirs do on this text and on the empty one. -/
def starCrates : Crates where
  fromStr content :=
    if content = starText then some starRaw else if content = [] then some .default else none
  oneshot bytes := if bytes = starBytes then 0x43B47910090D5604 else 0x2D06800538D394C2

/-- While the first call compiles what it has read, the file is emptied and a second call runs from
start to end.  The first one stores its compilation over that of the second, the third compiles the
empty text again, and the fourth finds it. -/
def slowEvents : List (LoadEvent ℕ) :=
  [.read 0 (some starBytes), .lookup 0, .edit (some []), .read 1 (some []), .lookup 1, .compile 1,
    .compile 0, .store 1, .store 0, .read 2 (some []), .lookup 2, .compile 2, .store 2,
    .read 3 (some []), .lookup 3]

theorem display_star : starCrates.display (some starBytes) = mergeWithDefaults starRaw := by
  have htext : (some starBytes).bind fromUtf8 = some starText := fromUtf8_utf8 starText
  unfold Crates.display
  rw [htext]
  rfl

theorem returns_compile_star : Returns (starCrates.display (some starBytes)).compile := by
  rw [display_star]
  exact DisplayConfig.returns_compile_of_not_mem (by decide)

theorem oneshot_star : starCrates.oneshot starBytes ≠ starCrates.oneshot [] := by decide

theorem bytesRead_slowEvents {bytes : Bytes} (h : bytes ∈ bytesRead slowEvents) :
    bytes = starBytes ∨ bytes = [] := by
  obtain ⟨i, hi⟩ := h
  simp only [slowEvents, List.mem_cons, List.not_mem_nil, LoadEvent.read.injEq, reduceCtorEq,
    Option.some.injEq, false_or, or_false] at hi
  rcases hi with ⟨-, h⟩ | ⟨-, h⟩ | ⟨-, h⟩ | ⟨-, h⟩
  · exact .inl h
  · exact .inr h
  · exact .inr h
  · exact .inr h

theorem injOn_slowEvents : Set.InjOn starCrates.oneshot (bytesRead slowEvents) := by
  intro bytes hmem bytes' hmem' heq
  rcases bytesRead_slowEvents hmem with rfl | rfl <;>
    rcases bytesRead_slowEvents hmem' with rfl | rfl
  · rfl
  · exact absurd heq oneshot_star
  · exact absurd heq.symm oneshot_star
  · rfl

theorem run_slowEvents : ∃ s, Run (Step starCrates) (init (some starBytes)) slowEvents s ∧
    (∃ compiled, s.calls 0 = .ended (some starBytes) (.ok compiled)) ∧
    ∃ compiled, s.calls 3 = .ended (some []) (.ok compiled) := by
  obtain ⟨compiled, hc⟩ := returns_compile_star
  obtain ⟨compiled', hc'⟩ := DisplayConfig.returns_compile_default
  have hempty : (starCrates.display (some [])).compile = .ok compiled' := hc'
  have hmiss : Evaluation.lookup (some ⟨starCrates.fingerprint (some starBytes), compiled⟩)
      (starCrates.fingerprint (some [])) = none := by
    have hne : ¬ starCrates.fingerprint (some starBytes) = starCrates.fingerprint (some []) :=
      fun h => oneshot_star (Option.some.inj h)
    simp [Evaluation.lookup, Option.filter, hne]
  refine ⟨_, .cons (.read rfl) (.cons (.miss rfl rfl) (.cons .edit (.cons (.read rfl)
    (.cons (.miss rfl rfl) (.cons (.compile rfl hempty) (.cons (.compile rfl hc) (.cons (.store rfl)
    (.cons (.store rfl) (.cons (.read rfl) (.cons (.miss rfl hmiss) (.cons (.compile rfl hempty)
    (.cons (.store rfl) (.cons (.read rfl) (.cons (.hit rfl (lookup_eq_some.2 rfl))
    (.nil _))))))))))))))), ⟨compiled, rfl⟩, compiled', rfl⟩

/-- The slow call gets the symbol of the text it has read, and the last one that of the empty text. -/
theorem loadCompiledDisplayConfig_transparent_slow : ∃ s compiled compiled',
    Run (Step starCrates) (init (some starBytes)) slowEvents s ∧
    s.calls 0 = .ended (some starBytes) (.ok compiled) ∧
    s.calls 3 = .ended (some []) (.ok compiled') ∧
    compiled.mergeReady.symbol = "★".toList ∧
    compiled.mergeReady.label = "Ready for merge".toList ∧
    compiled'.mergeReady.symbol = "✓".toList := by
  obtain ⟨s, hr, ⟨compiled, h0⟩, compiled', h3⟩ := run_slowEvents
  obtain ⟨hended, -, -, hcontained, -⟩ := loadCompiledDisplayConfig_transparent hr injOn_slowEvents
  have hstar : Contained starRaw (starCrates.display (some starBytes)) := by
    refine hcontained _ _ ?_
    rw [show (some starBytes).bind fromUtf8 = some starText from fromUtf8_utf8 starText]
    rfl
  have hempty : Contained .default (starCrates.display (some [])) := hcontained _ _ rfl
  obtain ⟨hsymbol, hlabel, -⟩ := TokenConfig.compile_eq_ok
    (compiledFrom_of_compile (hended 0 _ _ h0).2.symm).mergeReady
  obtain ⟨hsymbol', -, -⟩ := TokenConfig.compile_eq_ok
    (compiledFrom_of_compile (hended 3 _ _ h3).2.symm).mergeReady
  exact ⟨s, compiled, compiled', hr, h0, h3, hsymbol.trans hstar.mergeReady.symbol,
    hlabel.trans hstar.mergeReady.label, hsymbol'.trans hempty.mergeReady.symbol⟩

end Loading

end MergeReady.Evaluation
