import MergeReady.Evaluation.Scanner

/-!
# What a format means

A text is a list of tokens, the references to variables and the other characters.  `Reads` says what a
parsed format shows, part by part and with no regard to how it was compiled; rendering gives the text
it says, apart from the styles.
-/

namespace MergeReady.Evaluation

open MergeReady.Lib

/-! ## The tokens of a text -/

inductive Token
  | lit (c : Char)
  /-- `$name`, the longest name possible -/
  | ref (name : Str)
deriving DecidableEq, Repr

def tokens : Str → List Token
  | [] => []
  | c :: s =>
    if c = '$' ∧ s.takeWhile isNameChar ≠ [] then
      .ref (s.takeWhile isNameChar) :: tokens (s.dropWhile isNameChar)
    else .lit c :: tokens s
termination_by s => s.length
decreasing_by
  · exact Nat.lt_succ_of_le (List.dropWhile_sublist _).length_le
  · exact Nat.lt_succ_self _

namespace Token

def name? : Token → Option Str
  | lit _ => none
  | ref name => some name

/-- A reference to a variable that is not supplied is shown as it is written. -/
def shown (values : Str → Option Str) : Token → Str
  | lit c => [c]
  | ref name => (values name).getD ('$' :: name)

end Token

/-- The names a text refers to. -/
def refNames (t : Str) : List Str := (tokens t).filterMap Token.name?

/-- The text with each token as it is shown. -/
def expand (values : Str → Option Str) (t : Str) : Str := (tokens t).flatMap (Token.shown values)

theorem tokens_of_ne {c : Char} (h : c ≠ '$') (t : Str) : tokens (c :: t) = .lit c :: tokens t := by
  rw [tokens, if_neg fun hc => h hc.1]

theorem tokens_dollar {t : Str} (h : t.takeWhile isNameChar ≠ []) :
    tokens ('$' :: t) = .ref (t.takeWhile isNameChar) :: tokens (t.dropWhile isNameChar) := by
  rw [tokens, if_pos ⟨rfl, h⟩]

theorem tokens_loneDollar {t : Str} (h : t.takeWhile isNameChar = []) :
    tokens ('$' :: t) = .lit '$' :: tokens t := by
  rw [tokens, if_neg fun hc => hc.2 h]

theorem extractVarNames_eq (t : Str) : extractVarNames t = refNames t := by
  unfold refNames
  induction t using extractVarNames.induct with
  | case1 => rw [extractVarNames, tokens, List.filterMap_nil]
  | case2 t name hname ih =>
    rw [extractVarNames, if_pos rfl, if_pos hname, tokens_dollar hname, ih]
    rfl
  | case3 t name hname ih =>
    have hname : t.takeWhile isNameChar = [] := by simpa [name] using hname
    rw [dropWhile_of_takeWhile_eq_nil hname] at ih
    rw [extractVarNames, if_pos rfl, if_neg (by simpa using hname),
      dropWhile_of_takeWhile_eq_nil hname, tokens_loneDollar hname, ih]
    rfl
  | case4 c t hc ih =>
    rw [extractVarNames, if_neg hc, tokens_of_ne hc, ih]
    rfl

/-- The text up to the first `$` is shown as it is. -/
theorem expand_eq_append (values : Str → Option Str) (t : Str) :
    expand values t = t.takeWhile (· ≠ '$') ++ expand values (t.dropWhile (· ≠ '$')) := by
  induction t with
  | nil => rfl
  | cons c t ih =>
    by_cases hc : c = '$'
    · rw [List.takeWhile_cons_of_neg (by simp [hc]), List.dropWhile_cons_of_neg (by simp [hc]),
        List.nil_append]
    · rw [List.takeWhile_cons_of_pos (by simp [hc]), List.dropWhile_cons_of_pos (by simp [hc]),
        List.cons_append, ← ih]
      unfold expand
      rw [tokens_of_ne hc]
      rfl

theorem substituteVars_eq (vars : Vars) (t : Str) :
    substituteVars vars t = expand vars.get t := by
  induction t using substituteVars.induct vars with
  | case1 => rw [substituteVars, expand, tokens, List.flatMap_nil]
  | case2 t name hname val hval ih =>
    rw [substituteVars, if_pos rfl, if_pos hname, hval, ih, expand, expand, tokens_dollar hname,
      List.flatMap_cons, Token.shown, hval]
    rfl
  | case3 t name hname hval ih =>
    rw [substituteVars, if_pos rfl, if_pos hname, hval, ih, expand, expand, tokens_dollar hname,
      List.flatMap_cons, Token.shown, hval]
    rfl
  | case4 t name hname ih =>
    have hname : t.takeWhile isNameChar = [] := by simpa [name] using hname
    rw [substituteVars, if_pos rfl, if_neg (by simpa using hname), ih, expand, expand,
      tokens_loneDollar hname]
    rfl
  | case5 c t hc ih =>
    rw [substituteVars, if_neg hc, ih, expand_eq_append vars.get (c :: t),
      List.takeWhile_cons_of_pos (by simpa using hc), List.dropWhile_cons_of_pos (by simpa using hc)]

/-! ## What a parsed format shows -/

/-- The name is that of a supplied variable with a value. -/
def Supplied (values : Str → Option Str) (name : Str) : Prop := ∃ v, values name = some v ∧ v ≠ []

/-- `Reads values segs names out` — the parts `segs` refer to `names`, and with these values of the
variables they show `out`. -/
inductive Reads (values : Str → Option Str) : List Segment → List Str → Str → Prop
  | nil : Reads values [] [] []
  | text {t : Str} {segs : List Segment} {names : List Str} {out : Str} :
      Reads values segs names out →
      Reads values (.text t :: segs) (refNames t ++ names) (expand values t ++ out)
  /-- the content of a styled part is parsed in its turn -/
  | styled {content styleStr : Str} {inner segs : List Segment} {names names' : List Str}
      {out out' : Str} :
      parseSegments content = .ok inner → Reads values inner names out → Reads values segs names' out' →
      Reads values (.styled content styleStr :: segs) (names ++ names') (out ++ out')
  | shown {inner segs : List Segment} {names names' : List Str} {out out' : Str} :
      Reads values inner names out → (∃ name ∈ names, Supplied values name) →
      Reads values segs names' out' →
      Reads values (.conditional inner :: segs) (names ++ names') (out ++ out')
  | dropped {inner segs : List Segment} {names names' : List Str} {out out' : Str} :
      Reads values inner names out → (¬ ∃ name ∈ names, Supplied values name) →
      Reads values segs names' out' →
      Reads values (.conditional inner :: segs) (names ++ names') out'

/-- A format is read in one way only. -/
theorem Reads.unique {values : Str → Option Str} {segs : List Segment} {names names' : List Str}
    {out out' : Str} (h : Reads values segs names out) (h' : Reads values segs names' out') :
    names = names' ∧ out = out' := by
  induction h generalizing names' out' with
  | nil =>
    cases h'
    exact ⟨rfl, rfl⟩
  | text _ ih =>
    cases h' with
    | text h' =>
      obtain ⟨rfl, rfl⟩ := ih h'
      exact ⟨rfl, rfl⟩
  | styled hp _ _ ih ih' =>
    cases h' with
    | styled hp' hi hs =>
      cases hp.symm.trans hp'
      obtain ⟨rfl, rfl⟩ := ih hi
      obtain ⟨rfl, rfl⟩ := ih' hs
      exact ⟨rfl, rfl⟩
  | shown _ hsup _ ih ih' =>
    cases h' with
    | shown hi _ hs =>
      obtain ⟨rfl, rfl⟩ := ih hi
      obtain ⟨rfl, rfl⟩ := ih' hs
      exact ⟨rfl, rfl⟩
    | dropped hi hnot _ =>
      obtain ⟨rfl, rfl⟩ := ih hi
      exact absurd hsup hnot
  | dropped _ hnot _ ih ih' =>
    cases h' with
    | shown hi hsup _ =>
      obtain ⟨rfl, rfl⟩ := ih hi
      exact absurd hsup hnot
    | dropped hi _ hs =>
      obtain ⟨rfl, rfl⟩ := ih hi
      obtain ⟨rfl, rfl⟩ := ih' hs
      exact ⟨rfl, rfl⟩

/-! ## Rendering -/

section

variable {inner : List CompiledSegment} {vars : Vars}

/-- A block is shown when a variable it refers to has a value, and only then. -/
theorem evalConditional_of_supplied (h : ∃ name ∈ collectVarRefs inner, Supplied vars.get name)
    (shown : Str) : evalConditional inner vars shown = shown := by
  obtain ⟨name, hmem, v, hv, hne⟩ := h
  unfold evalConditional
  dsimp only
  rw [if_neg (List.ne_nil_of_mem hmem)]
  split
  · rename_i hall
    have hempty := List.all_eq_true.1 hall name hmem
    rw [hv] at hempty
    exact absurd (List.isEmpty_iff.1 hempty) hne
  · rfl

theorem evalConditional_of_not_supplied (h : ¬ ∃ name ∈ collectVarRefs inner, Supplied vars.get name)
    (shown : Str) : evalConditional inner vars shown = [] := by
  unfold evalConditional
  dsimp only
  split
  · rfl
  · split
    · rfl
    · rename_i hall
      refine absurd (List.all_eq_true.2 fun name hmem => ?_) hall
      cases hv : vars.get name with
      | none => rfl
      | some v =>
        dsimp only
        by_contra hne
        exact h ⟨name, hmem, v, hv, by simpa using hne⟩

end

/-- The painting that leaves a text as it is. -/
def unstyled (_ : AnsiStyle) (t : Str) : Str := t

theorem compileSegments_eq_ok {format : Str} {compiled : List CompiledSegment} :
    compileSegments format = .ok compiled ↔
      ∃ segs, parseSegments format = .ok segs ∧ compileAll segs = .ok compiled := by
  obtain ⟨segs, hp⟩ := exists_parses [] format
  have hsegs := parseSegments_eq_ok.2 hp
  rw [compileSegments_of_parses hp]
  constructor
  · exact fun h => ⟨segs, hsegs, h⟩
  · rintro ⟨segs', hsegs', h⟩
    cases hsegs.symm.trans hsegs'
    exact h

theorem compileAll_eq_ok_nil {segs : List Segment} (h : compileAll segs = .ok []) : segs = [] := by
  cases segs with
  | nil => rfl
  | cons seg segs =>
    rw [compileAll, bind_eq_ok] at h
    obtain ⟨c, -, h⟩ := h
    obtain ⟨cs, -, h⟩ := bind_eq_ok.1 h
    cases h

theorem compileAll_eq_ok_cons {segs : List Segment} {c : CompiledSegment}
    {compiled : List CompiledSegment} (h : compileAll segs = .ok (c :: compiled)) :
    ∃ seg rest, segs = seg :: rest ∧ compileSegment seg = .ok c ∧ compileAll rest = .ok compiled := by
  cases segs with
  | nil =>
    rw [compileAll] at h
    cases h
  | cons seg rest =>
    rw [compileAll, bind_eq_ok] at h
    obtain ⟨c', hc, h⟩ := h
    obtain ⟨cs, hcs, h⟩ := bind_eq_ok.1 h
    cases h
    exact ⟨seg, rest, rfl, hc, hcs⟩

/-- The segment a compiled one comes from. -/
theorem compileSegment_source {seg : Segment} {c : CompiledSegment}
    (h : compileSegment seg = .ok c) :
    match c with
    | .text t => seg = .text t
    | .styled content _ => ∃ text styleStr inner, seg = .styled text styleStr ∧
        parseSegments text = .ok inner ∧ compileAll inner = .ok content
    | .conditional content => ∃ inner, seg = .conditional inner ∧ compileAll inner = .ok content := by
  cases seg with
  | text t =>
    rw [compileSegment] at h
    cases h
    rfl
  | styled text styleStr =>
    rw [compileSegment] at h
    obtain ⟨compiled, hcontent, h⟩ := bind_eq_ok.1 h
    obtain ⟨style, -, h⟩ := bind_eq_ok.1 h
    obtain ⟨segs, hp, hc⟩ := compileSegments_eq_ok.1 hcontent
    cases h
    exact ⟨text, styleStr, segs, rfl, hp, hc⟩
  | conditional inner =>
    rw [compileSegment] at h
    obtain ⟨compiled, hc, h⟩ := bind_eq_ok.1 h
    cases h
    exact ⟨inner, rfl, hc⟩

mutual

/-- **A compiled format shows what the format says.** -/
theorem reads_compileAll (vars : Vars) : ∀ (compiled : List CompiledSegment) (segs : List Segment),
    compileAll segs = .ok compiled →
      Reads vars.get segs (collectVarRefs compiled) (evalSegments unstyled vars compiled)
  | [], segs, h => by
    obtain rfl := compileAll_eq_ok_nil h
    exact .nil
  | c :: compiled, segs, h => by
    obtain ⟨seg, rest, rfl, hc, hrest⟩ := compileAll_eq_ok_cons h
    exact reads_compileSegment vars c seg hc (reads_compileAll vars compiled rest hrest)

theorem reads_compileSegment (vars : Vars) : ∀ (c : CompiledSegment) (seg : Segment),
    compileSegment seg = .ok c → ∀ {segs : List Segment} {names : List Str} {out : Str},
      Reads vars.get segs names out →
        Reads vars.get (seg :: segs) (varRefs c ++ names) (evalSegment unstyled vars c ++ out)
  | .text t, seg, h, segs, names, out, hrest => by
    have hseg : seg = .text t := compileSegment_source h
    subst hseg
    rw [varRefs, extractVarNames_eq, evalSegment, substituteVars_eq]
    exact .text hrest
  | .styled content style, seg, h, segs, names, out, hrest => by
    obtain ⟨text, styleStr, inner, rfl, hp, hinner⟩ := compileSegment_source h
    rw [varRefs, evalSegment]
    exact .styled hp (reads_compileAll vars content inner hinner) hrest
  | .conditional content, seg, h, segs, names, out, hrest => by
    obtain ⟨inner, rfl, hinner⟩ := compileSegment_source h
    have hreads := reads_compileAll vars content inner hinner
    rw [varRefs, evalSegment]
    by_cases hsup : ∃ name ∈ collectVarRefs content, Supplied vars.get name
    · rw [evalConditional_of_supplied hsup]
      exact .shown hreads hsup hrest
    · rw [evalConditional_of_not_supplied hsup, List.nil_append]
      exact .dropped hreads hsup hrest

end

/-! ## Tokens and errors -/

/-- `Shows values format out` — the meaning of a format. -/
def Shows (values : Str → Option Str) (format out : Str) : Prop :=
  ∃ segs names, parseSegments format = .ok segs ∧ Reads values segs names out

theorem shows_iff {vars : Vars} {format : Str} {compiled : List CompiledSegment}
    (h : compileSegments format = .ok compiled) (out : Str) :
    Shows vars.get format out ↔ out = evalSegments unstyled vars compiled := by
  obtain ⟨segs, hp, hc⟩ := compileSegments_eq_ok.1 h
  have hreads := reads_compileAll vars compiled segs hc
  constructor
  · rintro ⟨segs', names, hp', hreads'⟩
    cases hp.symm.trans hp'
    exact (hreads'.unique hreads).2
  · rintro rfl
    exact ⟨segs, _, hp, hreads⟩

/-- The values of the variables of a token. -/
def tokenValues (symbol label : Str) (prIds : Option Str) (name : Str) : Option Str :=
  if name = "symbol".toList then some symbol
  else if name = "label".toList then some label
  else if name = "pr_ids".toList then prIds
  else none

/-- The values of the variables of an error. -/
def errorValues (symbol message : Str) (name : Str) : Option Str :=
  if name = "symbol".toList then some symbol
  else if name = "message".toList then some message
  else none

theorem Vars.get_nil (name : Str) : Vars.get [] name = none := rfl

theorem Vars.get_cons (key v : Str) (vars : Vars) (name : Str) :
    Vars.get ((key, v) :: vars) name = if name = key then some v else Vars.get vars name := by
  unfold Vars.get
  by_cases h : name = key
  · rw [List.find?_cons_of_pos (by simpa using h.symm), if_pos h]
    rfl
  · rw [List.find?_cons_of_neg (by simpa using Ne.symm h), if_neg h]

/-- The first variable of a name is looked up. -/
theorem Vars.get_eq_lookup (vars : Vars) (name : Str) : vars.get name = vars.lookup name := by
  induction vars with
  | nil => rfl
  | cons p vars ih =>
    obtain ⟨key, v⟩ := p
    rw [Vars.get_cons, List.lookup_cons, ih]
    by_cases h : name = key
    · rw [if_pos h, beq_iff_eq.2 h]
    · rw [if_neg h, beq_eq_false_iff_ne.2 h]

/-- The variables of a token. -/
def tokenVars (symbol label : Str) (prIds : Option Str) : Vars :=
  [("symbol".toList, symbol), ("label".toList, label)] ++
    (prIds.map fun ids => ("pr_ids".toList, ids)).toList

/-- The variables of an error. -/
def errorVars (symbol message : Str) : Vars :=
  [("symbol".toList, symbol), ("message".toList, message)]

theorem get_tokenVars (symbol label : Str) (prIds : Option Str) :
    (tokenVars symbol label prIds).get = tokenValues symbol label prIds := by
  funext name
  cases prIds with
  | none =>
    show Vars.get [_, _] name = _
    rw [Vars.get_cons, Vars.get_cons, Vars.get_nil, tokenValues, ite_self]
  | some ids =>
    show Vars.get [_, _, _] name = _
    rw [Vars.get_cons, Vars.get_cons, Vars.get_cons, Vars.get_nil, tokenValues]

theorem get_errorVars (symbol message : Str) :
    (errorVars symbol message).get = errorValues symbol message := by
  funext name
  rw [errorVars, Vars.get_cons, Vars.get_cons, Vars.get_nil, errorValues]

theorem renderToken_eq (paint : AnsiStyle → Str → Str) (token : CompiledTokenConfig)
    (prIds : Option Str) :
    renderToken paint token prIds =
      evalSegments paint (tokenVars token.symbol token.label prIds) token.segments := by
  cases prIds <;> rfl

theorem renderErrorToken_eq (paint : AnsiStyle → Str → Str) (config : CompiledErrorConfig)
    (message : Str) :
    renderErrorToken paint config message =
      evalSegments paint (errorVars config.symbol message) config.segments := rfl

/-- **Rendering follows the meaning of the format**, for every format that can be compiled, of a token
and of an error; and in a text, the names that decide whether a block is shown are those that are
looked up to replace them. -/
theorem render_shows (symbol label format message : Str) (prIds : Option Str) :
    (match compileSegments format with
      | .ok segments => ∀ out,
          (Shows (tokenValues symbol label prIds) format out ↔
            out = renderToken unstyled { symbol, label, segments } prIds) ∧
          (Shows (errorValues symbol message) format out ↔
            out = renderErrorToken unstyled { symbol, segments } message)
      | .error _ => ¬ FormatSafe format) ∧
    ∀ (vars : Vars) (text : Str),
      extractLoop text 0 = .ok (refNames text) ∧
        substituteLoop vars text 0 = .ok (expand (fun name => vars.lookup name) text,
          refNames text) := by
  refine ⟨?_, fun vars text => ?_⟩
  · have hreturns := returns_compileSegments format
    cases hc : compileSegments format with
    | error p =>
      rw [hc] at hreturns
      exact fun hsafe => not_returns_error p (hreturns.2 hsafe)
    | ok segments =>
      intro out
      rw [renderToken_eq, renderErrorToken_eq, ← get_tokenVars, ← get_errorVars]
      exact ⟨shows_iff hc out, shows_iff hc out⟩
  · have hget : (fun name => vars.lookup name) = vars.get :=
      funext fun name => (vars.get_eq_lookup name).symm
    rw [hget, ← extractVarNames_eq, ← substituteVars_eq]
    exact scanners_eq vars text

/-! ### A symbol, a label and numbers -/

theorem parseSegments_text {t : Str} (h : t ≠ []) (hp : Plain t) :
    parseSegments t = .ok [.text t] := by
  have htext : unparse [.text t] = t := by rw [unparse, unparse, unparseSegment, List.append_nil]
  have hcanonical : Canonical [.text t] := ⟨h, fun _ _ hnext => (by cases hnext), trivial⟩
  have hprintable : ∀ seg ∈ [Segment.text t], seg.Printable := List.forall_mem_singleton.2 hp
  rw [← parseSegments_of_printable hcanonical hprintable, htext]

section

variable {values : Str → Option Str}

theorem expand_nil : expand values [] = [] := by
  rw [expand, tokens, List.flatMap_nil]

theorem expand_lit {c : Char} (h : c ≠ '$') (t : Str) :
    expand values (c :: t) = c :: expand values t := by
  rw [expand, tokens_of_ne h]
  rfl

theorem takeWhile_append_of_stop {name t : Str} (hname : name.all isNameChar = true)
    (ht : t.takeWhile isNameChar = []) : (name ++ t).takeWhile isNameChar = name := by
  rw [List.takeWhile_append_of_pos fun c hc => List.all_eq_true.1 hname c hc, ht, List.append_nil]

/-- A reference is replaced by the value, up to the end of the name. -/
theorem expand_ref {name t v : Str} (hne : name ≠ []) (hname : name.all isNameChar = true)
    (ht : t.takeWhile isNameChar = []) (hv : values name = some v) :
    expand values ('$' :: (name ++ t)) = v ++ expand values t := by
  have htake := takeWhile_append_of_stop hname ht
  have hdrop : (name ++ t).dropWhile isNameChar = t := by
    rw [List.dropWhile_append_of_pos fun c hc => List.all_eq_true.1 hname c hc,
      dropWhile_of_takeWhile_eq_nil ht]
  rw [expand, tokens_dollar (htake.symm ▸ hne), htake, hdrop, List.flatMap_cons, Token.shown, hv]
  rfl

/-- A reference at the end of a text, -/
theorem expand_ref_end {name v : Str} (hne : name ≠ []) (hname : name.all isNameChar = true)
    (hv : values name = some v) : expand values ('$' :: name) = v := by
  have h := expand_ref (t := []) hne hname rfl hv
  rwa [List.append_nil, expand_nil, List.append_nil] at h

/-- and one after a blank. -/
theorem expand_blank_ref {name v : Str} (hne : name ≠ []) (hname : name.all isNameChar = true)
    (hv : values name = some v) : expand values (' ' :: '$' :: name) = ' ' :: v := by
  rw [expand_lit (by decide), expand_ref_end hne hname hv]

variable {symbol label ids message : Str}

/-- The formats of tokens show a symbol and a label, -/
theorem expand_symbol_label (hs : values "symbol".toList = some symbol)
    (hl : values "label".toList = some label) :
    expand values "$symbol $label".toList = symbol ++ ' ' :: label := by
  show expand values ('$' :: ("symbol".toList ++ ' ' :: '$' :: "label".toList)) = _
  rw [expand_ref (by decide) (by decide) (by decide) hs,
    expand_blank_ref (by decide) (by decide) hl]

/-- and that of an error its message. -/
theorem expand_symbol_message (hs : values "symbol".toList = some symbol)
    (hm : values "message".toList = some message) :
    expand values defaultErrorFormat = symbol ++ ' ' :: message := by
  show expand values ('$' :: ("symbol".toList ++ ' ' :: '$' :: "message".toList)) = _
  rw [expand_ref (by decide) (by decide) (by decide) hs,
    expand_blank_ref (by decide) (by decide) hm]

theorem expand_prIds (hi : values "pr_ids".toList = some ids) :
    expand values " $pr_ids".toList = ' ' :: ids :=
  expand_blank_ref (by decide) (by decide) hi

theorem refNames_prIds : refNames " $pr_ids".toList = ["pr_ids".toList] := by
  show refNames (' ' :: '$' :: "pr_ids".toList) = _
  rw [refNames, tokens_of_ne (by decide), tokens_dollar (by decide)]
  show [_] ++ (tokens []).filterMap Token.name? = _
  rw [tokens]
  rfl

end

section

variable {values : Str → Option Str} {symbol label ids message : Str}

/-- The block of the formats shows the numbers of the PRs, -/
theorem reads_prIds (h : values "pr_ids".toList = some ids) (hne : ids ≠ []) :
    ∃ names, Reads values [.conditional [.text " $pr_ids".toList]] names (' ' :: ids) := by
  have hout : expand values " $pr_ids".toList ++ [] ++ [] = ' ' :: ids := by
    rw [expand_prIds h, List.append_nil, List.append_nil]
  have hmem : "pr_ids".toList ∈ refNames " $pr_ids".toList ++ [] := by
    rw [refNames_prIds]
    exact List.mem_cons_self
  rw [← hout]
  exact ⟨_, .shown (.text .nil) ⟨_, hmem, ids, h, hne⟩ .nil⟩

/-- and nothing when there are none. -/
theorem reads_noPrIds (h : ¬ Supplied values "pr_ids".toList) :
    ∃ names, Reads values [.conditional [.text " $pr_ids".toList]] names [] := by
  refine ⟨_, .dropped (.text .nil) ?_ .nil⟩
  rintro ⟨name, hmem, hsup⟩
  rw [refNames_prIds, List.append_nil, List.mem_singleton] at hmem
  exact h (hmem ▸ hsup)

theorem shows_label {names : List Str} {out : Str}
    (h : Reads values [.conditional [.text " $pr_ids".toList]] names out)
    (hs : values "symbol".toList = some symbol) (hl : values "label".toList = some label) :
    Shows values (unparse labelSegments) (symbol ++ ' ' :: label ++ out) := by
  have hout : expand values "$symbol".toList ++ [] ++ (expand values " $label".toList ++ out) =
      symbol ++ ' ' :: label ++ out := by
    show expand values ('$' :: "symbol".toList) ++ [] ++
      (expand values (' ' :: '$' :: "label".toList) ++ out) = _
    rw [expand_ref_end (by decide) (by decide) hs, expand_blank_ref (by decide) (by decide) hl,
      List.append_nil, List.append_assoc]
  rw [← hout]
  exact ⟨labelSegments, _,
    parseSegments_of_printable canonical_labelSegments printable_labelSegments,
    .styled (parseSegments_text (by decide) ⟨by decide, by decide⟩) (.text .nil) (.text h)⟩

theorem shows_error (hs : values "symbol".toList = some symbol)
    (hm : values "message".toList = some message) :
    Shows values defaultErrorFormat (symbol ++ ' ' :: message) := by
  rw [← expand_symbol_message hs hm, ← List.append_nil (expand values defaultErrorFormat)]
  exact ⟨_, _, parseSegments_text (by decide) ⟨by decide, by decide⟩, .text .nil⟩

end

/-- The default format of a token. -/
theorem compileSegments_defaultPrFormat : compileSegments defaultPrFormat =
    .ok [.text "$symbol $label".toList, .conditional [.text " $pr_ids".toList]] := by
  have hcanonical : Canonical
      [.text "$symbol $label".toList, .conditional [.text " $pr_ids".toList]] := by
    simp [Canonical, Segment.Canonical, Segment.IsText]
  have hparse := parseSegments_of_printable hcanonical (by simp [Segment.Printable, Plain])
  have hcompile := compileSegments_of_parses (parseSegments_eq_ok.1 hparse)
  simp only [compileAll, compileSegment] at hcompile
  exact hcompile

theorem evalSegments_defaultPrFormat {segments : List CompiledSegment}
    (h : compileSegments defaultPrFormat = .ok segments) (paint : AnsiStyle → Str → Str)
    (symbol label ids : Str) :
    evalSegments paint (tokenVars symbol label (some ids)) segments =
      symbol ++ ' ' :: label ++ if ids = [] then [] else ' ' :: ids := by
  rw [compileSegments_defaultPrFormat] at h
  obtain rfl := Except.ok.inj h
  have hrefs : collectVarRefs [.text " $pr_ids".toList] = ["pr_ids".toList] := by
    rw [collectVarRefs, collectVarRefs, varRefs, extractVarNames_eq, refNames_prIds]
    rfl
  have hs : tokenValues symbol label (some ids) "symbol".toList = some symbol := rfl
  have hi : tokenValues symbol label (some ids) "pr_ids".toList = some ids := rfl
  simp only [evalSegments, evalSegment, substituteVars_eq, get_tokenVars, List.append_nil]
  rw [expand_symbol_label hs rfl, expand_prIds hi]
  congr 1
  by_cases hids : ids = []
  · rw [if_pos hids, evalConditional_of_not_supplied]
    rw [hrefs, get_tokenVars]
    rintro ⟨name, hmem, v, hv, hne⟩
    rw [List.mem_singleton.1 hmem] at hv
    exact hne ((Option.some.inj hv).symm.trans hids)
  · rw [if_neg hids, evalConditional_of_supplied]
    rw [hrefs, get_tokenVars]
    exact ⟨_, List.mem_cons_self, ids, rfl, hids⟩

/-- A label and a message that look like parts of a format are shown as they are. -/
theorem render_shows_label : ∃ segments errorSegments,
    compileSegments (unparse labelSegments) = .ok segments ∧
    compileSegments defaultErrorFormat = .ok errorSegments ∧
    renderToken unstyled ⟨"✓".toList, "[$symbol](".toList, segments⟩ (some "#12 #7".toList) =
      "✓ [$symbol]( #12 #7".toList ∧
    renderToken unstyled ⟨"✓".toList, "Ready".toList, segments⟩ none = "✓ Ready".toList ∧
    renderErrorToken unstyled ⟨"✗".toList, errorSegments⟩ "$symbol".toList =
      "✗ $symbol".toList := by
  obtain ⟨segments, hsegments⟩ := returns_compileSegments_label
  obtain ⟨errorSegments, herror⟩ : Returns (compileSegments defaultErrorFormat) :=
    returns_compile_content (by decide)
  have hids := (render_shows "✓".toList "[$symbol](".toList (unparse labelSegments) []
    (some "#12 #7".toList)).1
  have hnone := (render_shows "✓".toList "Ready".toList (unparse labelSegments) [] none).1
  have hmessage := (render_shows "✗".toList [] defaultErrorFormat "$symbol".toList none).1
  rw [hsegments] at hids hnone
  rw [herror] at hmessage
  refine ⟨segments, errorSegments, hsegments, herror, ?_, ?_, ?_⟩
  · obtain ⟨names, hreads⟩ : ∃ names, Reads (tokenValues "✓".toList "[$symbol](".toList
        (some "#12 #7".toList)) [.conditional [.text " $pr_ids".toList]] names " #12 #7".toList :=
      reads_prIds rfl (by decide)
    exact ((hids _).1.1 (shows_label hreads rfl rfl)).symm
  · obtain ⟨names, hreads⟩ : ∃ names, Reads (tokenValues "✓".toList "Ready".toList none)
        [.conditional [.text " $pr_ids".toList]] names [] :=
      reads_noPrIds fun ⟨_, hv, _⟩ => by cases hv
    exact ((hnone _).1.1 (shows_label hreads rfl rfl)).symm
  · exact ((hmessage _).2.1 (shows_error rfl rfl)).symm

end MergeReady.Evaluation
