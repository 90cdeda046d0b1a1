import MergeReady.Evaluation.Depth
import MergeReady.Evaluation.Prompt
import MergeReady.Prompt.Sanitize

/-!
# Sanitizing what is rendered

The renderer of the daemon paints with colour codes, and the prompt's sanitizer lets colour codes
through.  Rendered from a configuration and values without control characters, a text is one of plain
characters and complete colour codes, and the sanitizer leaves it as it is.
-/

namespace MergeReady.Prompt

open MergeReady.Lib MergeReady.Lib.Str MergeReady.Lib.Terminal
open MergeReady.Evaluation

/-! ## Painting -/

/-- A text without C0, DEL and C1 characters. -/
def NoControl (s : Str) : Prop := ∀ c ∈ s, isControl c = false

instance (s : Str) : Decidable (NoControl s) := List.decidableBAll (fun c => isControl c = false) s

/-- How the terminal package paints: nothing around the content for the plain style, and for every
other style a code before it, of digits and semicolons, and the reset code after it. -/
structure Paints (paint : AnsiStyle → Str → Str) : Prop where
  plain : ∀ content, paint AnsiStyle.new content = content
  styled : ∀ style, style ≠ AnsiStyle.new → ∃ code : Str,
    (∀ c ∈ code, c.isDigit = true ∨ c = ';') ∧
      ∀ content, paint style content =
        ESC :: '[' :: (code ++ 'm' :: (content ++ [ESC, '[', '0', 'm']))

theorem isParameter_of_code {c : Char} (h : c.isDigit = true ∨ c = ';') :
    isParameter c = true := by
  rcases h with h | rfl
  · simp only [Char.isDigit, Bool.and_eq_true, decide_eq_true_eq, ge_iff_le,
      UInt32.le_iff_toNat_le] at h
    have h0 : '0'.val.toNat = 48 := rfl
    have h9 : '9'.val.toNat = 57 := rfl
    unfold isParameter
    refine decide_eq_true ?_
    rw [Char.toNat]
    omega
  · decide

theorem not_isFinal_of_code {c : Char} (h : c.isDigit = true ∨ c = ';') : isFinal c = false := by
  have hrange := of_decide_eq_true (isParameter_of_code h)
  unfold isFinal
  refine decide_eq_false ?_
  omega

/-- A coloured text is coloured after it is painted. -/
theorem coloured_paint {paint : AnsiStyle → Str → Str} (hp : Paints paint) (style : AnsiStyle)
    {content : Str} (h : Coloured content) : Coloured (paint style content) := by
  by_cases hs : style = AnsiStyle.new
  · rw [hs, hp.plain]
    exact h
  · obtain ⟨code, hcode, hpaint⟩ := hp.styled style hs
    have hreset : Coloured [ESC, '[', '0', 'm'] := by
      have hzero : ∀ c ∈ ['0'], isFinal c = false := List.forall_mem_singleton.2 (by decide)
      exact .colour hzero .nil
    rw [hpaint]
    exact .colour (fun c hc => not_isFinal_of_code (hcode c hc)) (h.append hreset)

/-! ## Rendering a format -/

theorem NoControl.append {s t : Str} (hs : NoControl s) (ht : NoControl t) : NoControl (s ++ t) := by
  intro c hc
  rcases List.mem_append.1 hc with hc | hc
  · exact hs c hc
  · exact ht c hc

theorem NoControl.of_append {s t : Str} (h : NoControl (s ++ t)) : NoControl s ∧ NoControl t :=
  ⟨fun c hc => h c (List.mem_append_left _ hc), fun c hc => h c (List.mem_append_right _ hc)⟩

/-- Every value is free of control characters. -/
def CleanVars (vars : Vars) : Prop := ∀ p ∈ vars, NoControl p.2

/-- The characters of a token are in the text, or in a value. -/
theorem noControl_shown {vars : Vars} (hvars : CleanVars vars) {t : Str} (ht : NoControl t) :
    ∀ token ∈ tokens t, NoControl (token.shown vars.get) := by
  induction t using tokens.induct with
  | case1 =>
    rw [tokens]
    intro token htoken
    cases htoken
  | case2 c t hc ih =>
    rw [tokens, if_pos hc]
    intro token htoken
    have hname : NoControl (t.takeWhile isNameChar) := fun d hd =>
      ht d (List.mem_cons_of_mem _ ((List.takeWhile_sublist _).subset hd))
    rcases List.mem_cons.1 htoken with rfl | htoken
    · rw [Token.shown]
      cases hv : vars.get (t.takeWhile isNameChar) with
      | none =>
        intro d hd
        rcases List.mem_cons.1 hd with rfl | hd
        · decide
        · exact hname d hd
      | some v =>
        obtain ⟨p, hfind, rfl⟩ := Option.map_eq_some_iff.1 hv
        exact hvars p (List.mem_of_find?_eq_some hfind)
    · refine ih (fun d hd => ?_) token htoken
      exact ht d (List.mem_cons_of_mem _ ((List.dropWhile_sublist _).subset hd))
  | case3 c t hc ih =>
    rw [tokens, if_neg hc]
    intro token htoken
    rcases List.mem_cons.1 htoken with rfl | htoken
    · intro d hd
      exact ht d (List.mem_cons.2 (.inl (List.mem_singleton.1 hd)))
    · exact ih (fun d hd => ht d (List.mem_cons_of_mem _ hd)) token htoken

theorem noControl_substituteVars {vars : Vars} (hvars : CleanVars vars) {t : Str}
    (ht : NoControl t) : NoControl (substituteVars vars t) := by
  rw [substituteVars_eq]
  intro c hc
  obtain ⟨token, htoken, hc⟩ := List.mem_flatMap.1 hc
  exact noControl_shown hvars ht token htoken c hc

section

variable {paint : AnsiStyle → Str → Str} {vars : Vars}

mutual

/-- **A format without control characters is rendered to a coloured text.** -/
theorem coloured_evalSegments (hp : Paints paint) (hvars : CleanVars vars) :
    ∀ (compiled : List CompiledSegment) {segs : List Segment}, compileAll segs = .ok compiled →
      NoControl (unparse segs) → Coloured (evalSegments paint vars compiled)
  | [], _, _, _ => by
    rw [evalSegments]
    exact .nil
  | c :: compiled, segs, h, hclean => by
    obtain ⟨seg, rest, rfl, hc, hrest⟩ := compileAll_eq_ok_cons h
    rw [unparse] at hclean
    rw [evalSegments]
    exact (coloured_evalSegment hp hvars c hc hclean.of_append.1).append
      (coloured_evalSegments hp hvars compiled hrest hclean.of_append.2)

theorem coloured_evalSegment (hp : Paints paint) (hvars : CleanVars vars) :
    ∀ (c : CompiledSegment) {seg : Segment}, compileSegment seg = .ok c →
      NoControl (unparseSegment seg) → Coloured (evalSegment paint vars c)
  | .text t, seg, h, hclean => by
    have hseg : seg = .text t := compileSegment_source h
    subst hseg
    rw [evalSegment]
    exact coloured_of_plain (noControl_substituteVars hvars hclean)
  | .styled content style, seg, h, hclean => by
    obtain ⟨text, styleStr, inner, rfl, hparse, hinner⟩ := compileSegment_source h
    have htext : unparse inner = text := (parseSegments_eq_ok.1 hparse).unparse_eq
    have hinnerClean : NoControl (unparse inner) := fun d hd =>
      hclean d (by rw [htext] at hd; simp [unparseSegment, hd])
    rw [evalSegment]
    exact coloured_paint hp _ (coloured_evalSegments hp hvars content hinner hinnerClean)
  | .conditional content, seg, h, hclean => by
    obtain ⟨inner, rfl, hinner⟩ := compileSegment_source h
    have hinnerClean : NoControl (unparse inner) := fun d hd =>
      hclean d (by simp [unparseSegment, hd])
    rw [evalSegment]
    by_cases hsup : ∃ name ∈ collectVarRefs content, Supplied vars.get name
    · rw [evalConditional_of_supplied hsup]
      exact coloured_evalSegments hp hvars content hinner hinnerClean
    · rw [evalConditional_of_not_supplied hsup]
      exact .nil

end

end

/-- The sanitizer leaves a coloured text as it is. -/
theorem sanitizeOutput_of_coloured {s : Str} (h : Coloured s) :
    sanitizeOutput (String.ofList s) = String.ofList s := by
  unfold sanitizeOutput
  rw [String.toList_ofList, sanitizeChars_eq, h.flatMap_keep_lex]

/-! ## Rendering a token, an error and a list of PRs -/

structure CleanToken (token : TokenConfig) : Prop where
  symbol : NoControl token.symbol
  label : NoControl token.label
  format : NoControl token.format

structure CleanError (config : ErrorConfig) : Prop where
  symbol : NoControl config.symbol
  format : NoControl config.format

/-- The tokens of a configuration, in the order of its fields. -/
def tokensOf (config : DisplayConfig) : List TokenConfig :=
  [config.mergeReady, config.noPullRequest, config.conflict, config.updateBranch,
    config.syncUnknown, config.ciFail, config.ciAction, config.ciPending, config.changesRequested,
    config.reviewRequired, config.draft, config.statusCalculating, config.blockedUnknown]

structure CleanConfig (config : DisplayConfig) : Prop where
  token : ∀ token ∈ tokensOf config, CleanToken token
  error : CleanError config.error

section

variable {paint : AnsiStyle → Str → Str}

theorem coloured_of_compile (hp : Paints paint) {vars : Vars} (hvars : CleanVars vars)
    {format : Str} {segments : List CompiledSegment}
    (h : compileSegments format = .ok segments) (hformat : NoControl format) :
    Coloured (evalSegments paint vars segments) := by
  obtain ⟨segs, hparse, hcompile⟩ := compileSegments_eq_ok.1 h
  have htext : unparse segs = format := (parseSegments_eq_ok.1 hparse).unparse_eq
  rw [← htext] at hformat
  exact coloured_evalSegments hp hvars segments hcompile hformat

theorem coloured_renderToken (hp : Paints paint) {token : TokenConfig}
    {compiled : CompiledTokenConfig} (hclean : CleanToken token)
    (h : token.compile = .ok compiled) {prIds : Option Str}
    (hids : ∀ ids, prIds = some ids → NoControl ids) :
    Coloured (renderToken paint compiled prIds) := by
  obtain ⟨hsymbol, hlabel, hsegments⟩ := TokenConfig.compile_eq_ok h
  rw [renderToken_eq, hsymbol, hlabel]
  refine coloured_of_compile hp ?_ hsegments hclean.format
  intro p hmem
  rcases List.mem_append.1 hmem with hmem | hmem
  · rcases List.mem_cons.1 hmem with rfl | hmem
    · exact hclean.symbol
    · rw [List.mem_singleton.1 hmem]
      exact hclean.label
  · cases prIds with
    | none => cases hmem
    | some ids =>
      rw [List.mem_singleton.1 hmem]
      exact hids ids rfl

theorem coloured_renderErrorToken (hp : Paints paint) {config : ErrorConfig}
    {compiled : CompiledErrorConfig} (hclean : CleanError config)
    (h : config.compile = .ok compiled) {message : Str} (hmessage : NoControl message) :
    Coloured (renderErrorToken paint compiled message) := by
  obtain ⟨hsymbol, hsegments⟩ := ErrorConfig.compile_eq_ok h
  rw [renderErrorToken_eq, hsymbol]
  refine coloured_of_compile hp ?_ hsegments hclean.format
  intro p hmem
  rcases List.mem_cons.1 hmem with rfl | hmem
  · exact hclean.symbol
  · rw [List.mem_singleton.1 hmem]
    exact hmessage

/-- The numbers of PRs are plain. -/
theorem noControl_joinPrIds (ids : List PrId) : NoControl (joinPrIds ids) := by
  refine intercalate_induction nofun (fun _ _ => .append) (by decide) fun text htext => ?_
  obtain ⟨id, -, rfl⟩ := List.mem_map.1 htext
  intro c hc
  rcases List.mem_cons.1 hc with rfl | hc
  · decide
  · exact not_isControl_of_mem_toString hc

theorem tokenOf_mem (config : DisplayConfig) (item : DisplayItem) :
    config.tokenOf item ∈ tokensOf config := by
  cases item <;> simp [DisplayConfig.tokenOf, tokensOf]

theorem coloured_render (hp : Paints paint) {config : DisplayConfig}
    {compiled : CompiledDisplayConfig} (hclean : CleanConfig config)
    (h : config.compile = .ok compiled) (prs : List PullRequest) :
    Coloured (render paint compiled (.ok (.pullRequests prs))).output := by
  have hspace : Coloured [' '] := .text (by decide) .nil
  unfold render
  dsimp only
  split
  · exact .nil
  · refine intercalate_induction .nil (fun _ _ => .append) hspace fun text htext => ?_
    obtain ⟨group, -, rfl⟩ := List.mem_map.1 htext
    rw [renderGroup]
    refine coloured_renderToken hp (hclean.token _ (tokenOf_mem config group.1))
      ((compiledFrom_of_compile h).itemToToken group.1) ?_
    intro ids hids
    cases hids
    split
    · exact noControl_joinPrIds _
    · nofun

end

/-- **The sanitizer leaves what is rendered as it is**: a token, an error, and the prompt of any list of
PRs, from a configuration and values without control characters. -/
theorem sanitizeOutput_rendered {paint : AnsiStyle → Str → Str} (hp : Paints paint) :
    (∀ (token : TokenConfig) (compiled : CompiledTokenConfig) (prIds : Option Str),
      CleanToken token → token.compile = .ok compiled →
      (∀ ids, prIds = some ids → NoControl ids) →
      sanitizeOutput (String.ofList (renderToken paint compiled prIds)) =
        String.ofList (renderToken paint compiled prIds)) ∧
    (∀ (config : ErrorConfig) (compiled : CompiledErrorConfig) (message : Str),
      CleanError config → config.compile = .ok compiled → NoControl message →
      sanitizeOutput (String.ofList (renderErrorToken paint compiled message)) =
        String.ofList (renderErrorToken paint compiled message)) ∧
    ∀ (config : DisplayConfig) (compiled : CompiledDisplayConfig) (prs : List PullRequest),
      CleanConfig config → config.compile = .ok compiled →
      sanitizeOutput (String.ofList (render paint compiled (.ok (.pullRequests prs))).output) =
        String.ofList (render paint compiled (.ok (.pullRequests prs))).output :=
  ⟨fun _ _ _ hclean h hids => sanitizeOutput_of_coloured (coloured_renderToken hp hclean h hids),
    fun _ _ _ hclean h hmessage =>
      sanitizeOutput_of_coloured (coloured_renderErrorToken hp hclean h hmessage),
    fun _ _ prs hclean h => sanitizeOutput_of_coloured (coloured_render hp hclean h prs)⟩

/-! ### A token in two styles -/

theorem paints_paintBoldGreen : Paints paintBoldGreen where
  plain _ := if_pos rfl
  styled style hs := by
    refine ⟨"1;32".toList, by simp, fun content => ?_⟩
    rw [paintBoldGreen, if_neg hs, List.append_assoc]
    rfl

/-- The symbol in bold green, the label, and the numbers of the PRs. -/
def readyToken : TokenConfig where
  symbol := "✓".toList
  label := "Ready for merge".toList
  format := "[$symbol](bold green) $label( $pr_ids)".toList

/-- The defaults, with the symbol of a PR that is ready in a style. -/
def readyConfig : DisplayConfig := { DisplayConfig.default with mergeReady := readyToken }

theorem returns_compile_readyConfig : Returns readyConfig.compile := by
  rw [DisplayConfig.returns_compile]
  intro format hmem
  rcases List.mem_cons.1 hmem with rfl | hmem
  · exact (returns_compileSegments _).1 returns_compileSegments_label
  · have hno : ∀ format ∈ readyConfig.formats.tail, ']' ∉ format := by decide
    intro styleStr hs
    exact absurd hs (not_styleOf_of_not_mem (hno format hmem))

theorem cleanConfig_readyConfig : CleanConfig readyConfig where
  token token h := by
    simp only [tokensOf, List.mem_cons, List.not_mem_nil, or_false] at h
    rcases h with rfl | rfl | rfl | rfl | rfl | rfl | rfl | rfl | rfl | rfl | rfl | rfl | rfl <;>
      exact ⟨by decide, by decide, by decide⟩
  error := ⟨by decide, by decide⟩

/-- The sanitizer lets all of the text through. -/
def Unchanged (text : Str) : Prop := sanitizeOutput (String.ofList text) = String.ofList text

/-- A token, an error, and the prompt of two PRs. -/
theorem sanitizeOutput_rendered_ready : ∃ compiled, readyConfig.compile = .ok compiled ∧
    Unchanged (renderToken paintBoldGreen compiled.mergeReady (some "#1734 #2669".toList)) ∧
    Unchanged (renderErrorToken paintBoldGreen compiled.error "rate limited".toList) ∧
    Unchanged (render paintBoldGreen compiled (.ok (.pullRequests
      [⟨PrId.new 2669, .unblocked .mergeReady⟩, ⟨PrId.new 1734, .calculating⟩]))).output := by
  obtain ⟨compiled, hcompiled⟩ := returns_compile_readyConfig
  have hfrom := compiledFrom_of_compile hcompiled
  have hclean := cleanConfig_readyConfig
  obtain ⟨htoken, herror, hprompt⟩ := sanitizeOutput_rendered paints_paintBoldGreen
  refine ⟨compiled, hcompiled, ?_, ?_, hprompt _ _ _ hclean hcompiled⟩
  · refine htoken _ _ _ (hclean.token readyToken List.mem_cons_self) hfrom.mergeReady fun ids hids => ?_
    obtain rfl := Option.some.inj hids
    decide
  · exact herror _ _ _ hclean.error hfrom.error (by decide)

end MergeReady.Prompt
