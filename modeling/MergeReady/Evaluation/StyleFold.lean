import Mathlib.Data.List.Perm.Basic
import MergeReady.Evaluation.StyleSpec

/-!
# What a style string means

A style string is read as a fold over its words: the last word with a colour for the text decides it,
the last word with one for the background decides that, and the modifiers are put together.
`parse_eq` says so, and the words of different kinds can change places.
-/

namespace MergeReady.Evaluation

open MergeReady.Lib MergeReady.Lib.Str

/-! ## The last value of a list -/

section

variable {τ α : Type*} (value : τ → Option α)

def lastValue (l : List τ) : Option α := (l.filterMap value).getLast?

variable {value}

theorem lastValue_cons_of_eq_none {a : τ} (l : List τ) (h : value a = none) :
    lastValue value (a :: l) = lastValue value l := by
  rw [lastValue, List.filterMap_cons_none h]
  rfl

/-- A value is one for the elements after it to take over from. -/
theorem lastValue_cons_or (a : τ) (l : List τ) (before : Option α) :
    (lastValue value (a :: l)).or before = (lastValue value l).or ((value a).or before) := by
  cases h : value a with
  | none => rw [lastValue_cons_of_eq_none l h, Option.none_or]
  | some v =>
    rw [lastValue, List.filterMap_cons_some h, List.getLast?_cons, Option.some_or, Option.some_or]
    unfold lastValue
    cases (l.filterMap value).getLast? with
    | none => rfl
    | some w => rfl

/-- Only the elements with a value count. -/
theorem filterMap_eq_of_filter {p : τ → Bool} (hp : ∀ a, (value a).isSome → p a = true) {l l' : List τ}
    (h : l.filter p = l'.filter p) : l.filterMap value = l'.filterMap value := by
  have hfilter : ∀ l : List τ, (l.filter p).filterMap value = l.filterMap value := by
    intro l
    rw [List.filterMap_filter]
    congr 1
    funext a
    cases hv : value a with
    | none => exact ite_self _
    | some v => exact if_pos (hp a (by rw [hv]; rfl))
  rw [← hfilter l, h, hfilter l']

end

/-! ## The kinds of words -/

def MeansNone (token : Str) : Prop := toAsciiLowercase token = "none".toList

instance (token : Str) : Decidable (MeansNone token) :=
  inferInstanceAs (Decidable (toAsciiLowercase token = "none".toList))

def modifierOf (token : Str) : Option StyleModifiers :=
  StyleModifiers.parseToken (toAsciiLowercase token)

def validColor (value : Str) : Option ColorSpec :=
  match parseColorValue value with
  | .ok color => color
  | .error _ => none

/-- The colour that a word gives the text: a name, or a valid value after `fg:`. -/
def foregroundOf (token : Str) : Option ColorSpec :=
  ((parseNamedColor (toAsciiLowercase token)).map .named).or
    ((stripPrefix "fg:".toList (toAsciiLowercase token)).bind validColor)

/-- The colour that a word gives the background: a valid value after `bg:`. -/
def backgroundOf (token : Str) : Option ColorSpec :=
  (stripPrefix "bg:".toList (toAsciiLowercase token)).bind validColor

/-- A word that means something. -/
def Recognised (token : Str) : Prop :=
  MeansNone token ∨ (modifierOf token).isSome ∨ (foregroundOf token).isSome ∨
    (backgroundOf token).isSome

instance (token : Str) : Decidable (Recognised token) := by
  unfold Recognised
  infer_instance

def unionOf : List StyleModifiers → StyleModifiers
  | [] => .empty
  | modifier :: modifiers => modifier.insert (unionOf modifiers)

/-- The style that words mean. -/
def styleOf (tokens : List Str) : StyleSpec :=
  if ∃ token ∈ tokens, MeansNone token then .none
  else
    .styled (lastValue foregroundOf tokens) (lastValue backgroundOf tokens)
      (unionOf (tokens.filterMap modifierOf))

namespace StyleModifiers

theorem insert_assoc (a b c : StyleModifiers) : (a.insert b).insert c = a.insert (b.insert c) :=
  congrArg StyleModifiers.mk (UInt16.or_assoc a.bits b.bits c.bits)

theorem insert_comm (a b : StyleModifiers) : a.insert b = b.insert a :=
  congrArg StyleModifiers.mk (UInt16.or_comm a.bits b.bits)

@[simp] theorem insert_empty (a : StyleModifiers) : a.insert empty = a :=
  congrArg StyleModifiers.mk UInt16.or_zero

@[simp] theorem empty_insert (a : StyleModifiers) : empty.insert a = a :=
  congrArg StyleModifiers.mk UInt16.zero_or

end StyleModifiers

theorem unionOf_eq_foldr (modifiers : List StyleModifiers) :
    unionOf modifiers = modifiers.foldr StyleModifiers.insert .empty := by
  induction modifiers with
  | nil => rfl
  | cons modifier modifiers ih => rw [unionOf, ih, List.foldr_cons]

theorem unionOf_perm {modifiers modifiers' : List StyleModifiers} (h : modifiers.Perm modifiers') :
    unionOf modifiers = unionOf modifiers' := by
  rw [unionOf_eq_foldr, unionOf_eq_foldr]
  have hcomm : LeftCommutative StyleModifiers.insert :=
    ⟨fun a b c => by
      rw [← StyleModifiers.insert_assoc, StyleModifiers.insert_comm a b,
        StyleModifiers.insert_assoc]⟩
  exact h.foldr_eq _

/-! ## No word is of two kinds -/

/-- The name of a modifier is not the name of a colour. -/
theorem parseNamedColor_of_modifier {lower : Str} {modifier : StyleModifiers}
    (h : StyleModifiers.parseToken lower = some modifier) : parseNamedColor lower = none := by
  unfold StyleModifiers.parseToken at h
  split at h
  case h_9 => cases h
  all_goals
    rename_i hname
    unfold parseNamedColor
    rw [hname]
    rfl

theorem stripPrefix_of_not_mem {p s : Str} (hp : ':' ∈ p) (hs : ':' ∉ s) :
    stripPrefix p s = none := by
  cases h : stripPrefix p s with
  | none => rfl
  | some t =>
    rw [stripPrefix_eq_some.1 h, List.mem_append, not_or] at hs
    exact absurd hp hs.1

theorem validColor_of_ok {value : Str} {color : Option ColorSpec}
    (h : parseColorValue value = .ok color) : validColor value = color := by
  unfold validColor
  rw [h]

/-- A word with a colon is a modifier or a name of a colour in no case. -/
theorem colon_not_mem {lower : Str}
    (h : (StyleModifiers.parseToken lower).isSome ∨ (parseNamedColor lower).isSome) :
    ':' ∉ lower := by
  intro hcolon
  rcases h with h | h
  · rw [parseToken_of_colon hcolon] at h
    cases h
  · rw [parseNamedColor_of_colon hcolon] at h
    cases h

section

variable {token : Str}

theorem foregroundOf_of_modifier {modifier : StyleModifiers} (h : modifierOf token = some modifier) :
    foregroundOf token = none := by
  have hcolon := colon_not_mem (.inl (by rw [← modifierOf, h]; rfl))
  unfold foregroundOf
  rw [parseNamedColor_of_modifier h, stripPrefix_of_not_mem (by decide) hcolon]
  rfl

theorem backgroundOf_of_modifier {modifier : StyleModifiers} (h : modifierOf token = some modifier) :
    backgroundOf token = none := by
  have hcolon := colon_not_mem (.inl (by rw [← modifierOf, h]; rfl))
  unfold backgroundOf
  rw [stripPrefix_of_not_mem (by decide) hcolon]
  rfl

theorem foregroundOf_of_named {color : NamedColor}
    (h : parseNamedColor (toAsciiLowercase token) = some color) :
    foregroundOf token = some (.named color) := by
  unfold foregroundOf
  rw [h]
  rfl

theorem backgroundOf_of_named {color : NamedColor}
    (h : parseNamedColor (toAsciiLowercase token) = some color) : backgroundOf token = none := by
  have hcolon := colon_not_mem (.inr (by rw [h]; rfl))
  unfold backgroundOf
  rw [stripPrefix_of_not_mem (by decide) hcolon]
  rfl

theorem backgroundOf_of_fg {value : Str}
    (h : stripPrefix "fg:".toList (toAsciiLowercase token) = some value) :
    backgroundOf token = none := by
  unfold backgroundOf
  rw [stripPrefix_eq_some.1 h]
  rfl

theorem foregroundOf_of_not_named (hn : parseNamedColor (toAsciiLowercase token) = none) :
    foregroundOf token = (stripPrefix "fg:".toList (toAsciiLowercase token)).bind validColor := by
  unfold foregroundOf
  rw [hn]
  rfl

/-! ## The loop is a fold -/

/-- What is read in front of `tokens`, and the style that they mean then. -/
def styleFrom (fg bg : Option ColorSpec) (modifiers : StyleModifiers) (tokens : List Str) :
    StyleSpec :=
  if ∃ token ∈ tokens, MeansNone token then .none
  else
    .styled ((lastValue foregroundOf tokens).or fg) ((lastValue backgroundOf tokens).or bg)
      (modifiers.insert (unionOf (tokens.filterMap modifierOf)))

variable {tokens : List Str} {fg bg : Option ColorSpec} {modifiers : StyleModifiers}

theorem styleFrom_none (h : MeansNone token) :
    styleFrom fg bg modifiers (token :: tokens) = .none :=
  if_pos ⟨token, List.mem_cons_self, h⟩

/-- A word adds what it means to what is read before it. -/
theorem styleFrom_cons (h : ¬ MeansNone token) :
    styleFrom fg bg modifiers (token :: tokens) =
      styleFrom ((foregroundOf token).or fg) ((backgroundOf token).or bg)
        (modifiers.insert ((modifierOf token).getD .empty)) tokens := by
  have hex : (∃ t ∈ token :: tokens, MeansNone t) ↔ ∃ t ∈ tokens, MeansNone t := by
    rw [List.exists_mem_cons_iff, or_iff_right h]
  have hunion : unionOf ((token :: tokens).filterMap modifierOf) =
      ((modifierOf token).getD .empty).insert (unionOf (tokens.filterMap modifierOf)) := by
    cases hm : modifierOf token with
    | none => rw [List.filterMap_cons_none hm, Option.getD_none, StyleModifiers.empty_insert]
    | some modifier => rw [List.filterMap_cons_some hm, Option.getD_some, unionOf]
  unfold styleFrom
  rw [if_congr hex rfl rfl, lastValue_cons_or, lastValue_cons_or, hunion,
    StyleModifiers.insert_assoc]

/-- A word that is not `none` is read on its own. -/
theorem parseTokens_cons (h : ¬ MeansNone token)
    (hsafe : ∀ value, colorValue? (toAsciiLowercase token) = some value → ColorSafe value) :
    StyleSpec.parseTokens fg bg modifiers (token :: tokens) =
      StyleSpec.parseTokens ((foregroundOf token).or fg) ((backgroundOf token).or bg)
        (modifiers.insert ((modifierOf token).getD .empty)) tokens := by
  rw [StyleSpec.parseTokens]
  simp only [if_neg (show toAsciiLowercase token ≠ "none".toList from h)]
  cases hm : StyleModifiers.parseToken (toAsciiLowercase token) with
  | some modifier =>
    rw [foregroundOf_of_modifier hm, backgroundOf_of_modifier hm, show modifierOf token = _ from hm]
    rfl
  | none =>
    have hmod : modifiers.insert ((modifierOf token).getD .empty) = modifiers := by
      rw [show modifierOf token = _ from hm, Option.getD_none, StyleModifiers.insert_empty]
    rw [hmod]
    cases hn : parseNamedColor (toAsciiLowercase token) with
    | some color =>
      rw [foregroundOf_of_named hn, backgroundOf_of_named hn]
      rfl
    | none =>
      rw [foregroundOf_of_not_named hn]
      unfold colorValue? at hsafe
      cases hfg : stripPrefix "fg:".toList (toAsciiLowercase token) with
      | some value =>
        obtain ⟨color, hcolor⟩ := returns_parseColorValue.2 (hsafe value (by rw [hfg]; rfl))
        rw [backgroundOf_of_fg hfg, Option.bind_some, validColor_of_ok hcolor]
        simp only [hcolor, ok_bind]
        cases color with
        | none => rfl
        | some color => rfl
      | none =>
        unfold backgroundOf
        cases hbg : stripPrefix "bg:".toList (toAsciiLowercase token) with
        | some value =>
          obtain ⟨color, hcolor⟩ := returns_parseColorValue.2 (hsafe value (by rw [hfg, hbg]; rfl))
          rw [Option.bind_some, validColor_of_ok hcolor]
          simp only [hcolor, ok_bind]
          cases color with
          | none => rfl
          | some color => rfl
        | none => rfl

/-- **The loop gives the style that the words mean.** -/
theorem parseTokens_eq (hsafe : ∀ value ∈ colorValues tokens, ColorSafe value) :
    StyleSpec.parseTokens fg bg modifiers tokens = .ok (styleFrom fg bg modifiers tokens) := by
  induction tokens generalizing fg bg modifiers with
  | nil =>
    rw [StyleSpec.parseTokens, styleFrom, if_neg (by simp)]
    simp [lastValue, unionOf]
  | cons token tokens ih =>
    by_cases h : MeansNone token
    · rw [styleFrom_none h, StyleSpec.parseTokens]
      simp only [if_pos (show toAsciiLowercase token = "none".toList from h)]
    have hvalues : (∀ value, colorValue? (toAsciiLowercase token) = some value → ColorSafe value) ∧
        ∀ value ∈ colorValues tokens, ColorSafe value := by
      cases hv : colorValue? (toAsciiLowercase token) with
      | none =>
        rw [colorValues_cons_of_eq_none h hv] at hsafe
        exact ⟨fun value hvalue => (by cases hvalue), hsafe⟩
      | some value =>
        rw [colorValues_cons_of_eq_some h hv, List.forall_mem_cons] at hsafe
        refine ⟨fun value' hvalue => ?_, hsafe.2⟩
        cases hvalue
        exact hsafe.1
    rw [parseTokens_cons h hvalues.1, styleFrom_cons h]
    exact ih hvalues.2

end

/-- **A style string means what its words mean.** -/
theorem parse_eq {s : Str} (hs : StyleSafe s) :
    StyleSpec.parse s = .ok (styleOf (splitWhitespace s)) := by
  unfold StyleSpec.parse
  rw [parseTokens_eq hs]
  unfold styleFrom styleOf
  rw [Option.or_none, Option.or_none, StyleModifiers.empty_insert]

/-! ## Cases of letters -/

theorem not_isWhitespace_of_ascii {c : Char} (h : 0x21 ≤ c.toNat) (h' : c.toNat ≤ 0x7e) :
    isWhitespace c = false := by
  have hne : ∀ {d : Char}, d.toNat < 0x21 ∨ 0x7e < d.toNat → c ≠ d := by
    rintro d hd rfl
    omega
  have hle : ¬ c ≤ '\r' := fun hc => by
    have hc : c.toNat ≤ 13 := hc
    omega
  have hge : ¬ '\u2000' ≤ c := fun hc => by
    have hc : 0x2000 ≤ c.toNat := hc
    omega
  unfold isWhitespace
  simp [hne (d := ' ') (by decide), hle, hge, hne (d := '\x85') (by decide),
    hne (d := '\xa0') (by decide), hne (d := '\u1680') (by decide), hne (d := '\u2028') (by decide),
    hne (d := '\u2029') (by decide), hne (d := '\u202f') (by decide),
    hne (d := '\u205f') (by decide), hne (d := '\u3000') (by decide)]

theorem isWhitespace_toLower (c : Char) : isWhitespace c.toLower = isWhitespace c := by
  unfold Char.toLower
  split
  · next h =>
    have hlow : 65 ≤ c.toNat := UInt32.le_iff_toNat_le.1 h.1
    have hhigh : c.toNat ≤ 90 := UInt32.le_iff_toNat_le.1 h.2
    have hval : (c.val + ('a'.val - 'A'.val)).toNat = c.toNat + 32 := by
      rw [UInt32.toNat_add]
      exact Nat.mod_eq_of_lt (show c.toNat + 32 < 2 ^ 32 by omega)
    rw [not_isWhitespace_of_ascii (c := c) (by omega) (by omega)]
    refine not_isWhitespace_of_ascii ?_ ?_
    · show 0x21 ≤ (c.val + ('a'.val - 'A'.val)).toNat
      omega
    · show (c.val + ('a'.val - 'A'.val)).toNat ≤ 0x7e
      omega
  · rfl

theorem splitOnP_toAsciiLowercase (s : Str) :
    (toAsciiLowercase s).splitOnP isWhitespace =
      (s.splitOnP isWhitespace).map toAsciiLowercase := by
  induction s with
  | nil => rfl
  | cons c s ih =>
    rw [toAsciiLowercase, List.map_cons, List.splitOnP_cons_eq_if_modifyHead, isWhitespace_toLower,
      List.splitOnP_cons_eq_if_modifyHead, ← toAsciiLowercase, ih]
    split
    · rfl
    · cases s.splitOnP isWhitespace with
      | nil => rfl
      | cons t ts => rfl

/-- The words of a style string in lower case. -/
theorem splitWhitespace_toAsciiLowercase (s : Str) :
    splitWhitespace (toAsciiLowercase s) = (splitWhitespace s).map toAsciiLowercase := by
  unfold splitWhitespace
  rw [splitOnP_toAsciiLowercase, List.filter_map]
  congr 1
  refine List.filter_congr fun t _ => ?_
  simp [toAsciiLowercase]

/-- Only the words in lower case are read. -/
theorem parseTokens_congr {tokens tokens' : List Str}
    (h : tokens.map toAsciiLowercase = tokens'.map toAsciiLowercase) (fg bg : Option ColorSpec)
    (modifiers : StyleModifiers) :
    StyleSpec.parseTokens fg bg modifiers tokens =
      StyleSpec.parseTokens fg bg modifiers tokens' := by
  induction tokens generalizing tokens' fg bg modifiers with
  | nil =>
    obtain rfl := List.map_eq_nil_iff.1 h.symm
    rfl
  | cons token tokens ih =>
    obtain ⟨token', rest, rfl, hlower, hrest⟩ := List.map_eq_cons_iff.1 h.symm
    rw [StyleSpec.parseTokens, StyleSpec.parseTokens, hlower]
    simp only [ih hrest.symm]

/-- **A style string is read without regard to the case of its letters.** -/
theorem parse_congr {s s' : Str} (h : toAsciiLowercase s = toAsciiLowercase s') :
    StyleSpec.parse s = StyleSpec.parse s' := by
  have hwords := congrArg splitWhitespace h
  rw [splitWhitespace_toAsciiLowercase, splitWhitespace_toAsciiLowercase] at hwords
  exact parseTokens_congr hwords _ _ _

/-! ## Words left out and words moved -/

section

variable {tokens tokens' : List Str}

/-- The words that mean something decide. -/
theorem styleOf_eq_of_filter (h : tokens.filter Recognised = tokens'.filter Recognised) :
    styleOf tokens = styleOf tokens' := by
  have hnone : (∃ token ∈ tokens, MeansNone token) ↔ ∃ token ∈ tokens', MeansNone token := by
    have hfilter : ∀ l : List Str,
        (∃ token ∈ l, MeansNone token) ↔ ∃ token ∈ l.filter Recognised, MeansNone token := by
      intro l
      constructor
      · rintro ⟨token, hmem, ht⟩
        exact ⟨token, List.mem_filter.2 ⟨hmem, decide_eq_true (.inl ht)⟩, ht⟩
      · rintro ⟨token, hmem, ht⟩
        exact ⟨token, (List.mem_filter.1 hmem).1, ht⟩
    rw [hfilter tokens, h, ← hfilter tokens']
  have hfg : tokens.filterMap foregroundOf = tokens'.filterMap foregroundOf :=
    filterMap_eq_of_filter (fun token ht => decide_eq_true (.inr (.inr (.inl ht)))) h
  have hbg : tokens.filterMap backgroundOf = tokens'.filterMap backgroundOf :=
    filterMap_eq_of_filter (fun token ht => decide_eq_true (.inr (.inr (.inr ht)))) h
  have hmod : tokens.filterMap modifierOf = tokens'.filterMap modifierOf :=
    filterMap_eq_of_filter (fun token ht => decide_eq_true (.inr (.inl ht))) h
  unfold styleOf lastValue
  rw [if_congr hnone rfl rfl, hfg, hbg, hmod]

/-- Words can change places when those for the text keep their order and those for the background
keep theirs. -/
theorem styleOf_eq_of_perm (h : tokens.Perm tokens')
    (hfg : tokens.filter (fun token => (foregroundOf token).isSome) =
      tokens'.filter fun token => (foregroundOf token).isSome)
    (hbg : tokens.filter (fun token => (backgroundOf token).isSome) =
      tokens'.filter fun token => (backgroundOf token).isSome) :
    styleOf tokens = styleOf tokens' := by
  have hnone : (∃ token ∈ tokens, MeansNone token) ↔ ∃ token ∈ tokens', MeansNone token :=
    exists_congr fun token => and_congr_left fun _ => h.mem_iff
  unfold styleOf lastValue
  rw [if_congr hnone rfl rfl, filterMap_eq_of_filter (fun _ ht => ht) hfg,
    filterMap_eq_of_filter (fun _ ht => ht) hbg, unionOf_perm (h.filterMap modifierOf)]

end

/-- **Style strings mean the fold of their words**: `none` when one of them is `none`, and otherwise
the last colour for the text, the last one for the background and all modifiers.  The case of
letters, words that mean nothing and the order of words of different kinds make no difference. -/
theorem parse_fold {s : Str} (hs : StyleSafe s) :
    (StyleSpec.parse s = .ok .none ↔ ∃ token ∈ splitWhitespace s, MeansNone token) ∧
    ((¬ ∃ token ∈ splitWhitespace s, MeansNone token) → StyleSpec.parse s =
      .ok (.styled (lastValue foregroundOf (splitWhitespace s))
        (lastValue backgroundOf (splitWhitespace s))
        (unionOf ((splitWhitespace s).filterMap modifierOf)))) ∧
    (∀ s', toAsciiLowercase s = toAsciiLowercase s' → StyleSpec.parse s = StyleSpec.parse s') ∧
    ∀ s', StyleSafe s' →
      ((splitWhitespace s).filter Recognised = (splitWhitespace s').filter Recognised →
        StyleSpec.parse s = StyleSpec.parse s') ∧
      ((splitWhitespace s).Perm (splitWhitespace s') →
        (splitWhitespace s).filter (fun token => (foregroundOf token).isSome) =
          (splitWhitespace s').filter (fun token => (foregroundOf token).isSome) →
        (splitWhitespace s).filter (fun token => (backgroundOf token).isSome) =
          (splitWhitespace s').filter (fun token => (backgroundOf token).isSome) →
        StyleSpec.parse s = StyleSpec.parse s') := by
  refine ⟨?_, ?_, fun s' h => parse_congr h, fun s' hs' => ⟨fun h => ?_, fun h hfg hbg => ?_⟩⟩
  · rw [parse_eq hs, styleOf]
    split
    · next h => exact iff_of_true rfl h
    · next h => exact iff_of_false (fun heq => by cases heq) h
  · intro h
    rw [parse_eq hs, styleOf, if_neg h]
  · rw [parse_eq hs, parse_eq hs', styleOf_eq_of_filter h]
  · rw [parse_eq hs, parse_eq hs', styleOf_eq_of_perm h hfg hbg]

/-- A style string with a word and a value that mean nothing. -/
def mixedStyle : Str := "fg:196 xyzzy BOLD bg:typo green".toList

theorem parse_fold_mixedStyle :
    StyleSpec.parse mixedStyle = .ok (.styled (some (.named .green)) none .bold) ∧
      StyleSpec.parse mixedStyle = StyleSpec.parse "fg:196 bold GREEN".toList ∧
      StyleSpec.parse mixedStyle = StyleSpec.parse "fg:196 BOLD green".toList ∧
      StyleSpec.parse mixedStyle = StyleSpec.parse "xyzzy bg:typo fg:196 green BOLD".toList := by
  have hmixed : StyleSafe mixedStyle := (returns_parse _).1 ⟨_, rfl⟩
  have hfold := parse_fold hmixed
  have hplain : StyleSafe "fg:196 BOLD green".toList := (returns_parse _).1 ⟨_, rfl⟩
  have hordered : StyleSafe "xyzzy bg:typo fg:196 green BOLD".toList := (returns_parse _).1 ⟨_, rfl⟩
  have hless : StyleSpec.parse mixedStyle = StyleSpec.parse "fg:196 BOLD green".toList :=
    (hfold.2.2.2 _ hplain).1 (by decide)
  refine ⟨?_, ?_, hless, (hfold.2.2.2 _ hordered).2 (by decide) (by decide) (by decide)⟩
  · rw [hfold.2.1 (by decide)]
    rfl
  · rw [hless]
    exact (parse_fold hplain).2.2.1 _ (by decide)

end MergeReady.Evaluation
