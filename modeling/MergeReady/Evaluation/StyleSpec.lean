import MergeReady.Lib.Str

/-!
# Style strings

`StyleSpec.parse` reads the words of a style string.  Only the value of an `fg:` or `bg:` word is
cut into pieces, and `StyleSafe` says when the cuts of every such value fall between characters.
-/

namespace MergeReady.Evaluation

open MergeReady.Lib MergeReady.Lib.Str

/-! ## Colours -/

inductive NamedColor
  | black | red | green | yellow | blue | purple | cyan | white
  | brightBlack | brightRed | brightGreen | brightYellow
  | brightBlue | brightPurple | brightCyan | brightWhite
deriving DecidableEq, Repr

inductive ColorSpec
  | named (color : NamedColor)
  | ansi256 (n : UInt8)
  | rgb (r g b : UInt8)
deriving DecidableEq, Repr

def parseNamedColor (s : Str) : Option NamedColor :=
  match String.ofList s with
  | "black" => some .black
  | "red" => some .red
  | "green" => some .green
  | "yellow" => some .yellow
  | "blue" => some .blue
  | "purple" => some .purple
  | "cyan" => some .cyan
  | "white" => some .white
  | "bright-black" => some .brightBlack
  | "bright-red" => some .brightRed
  | "bright-green" => some .brightGreen
  | "bright-yellow" => some .brightYellow
  | "bright-blue" => some .brightBlue
  | "bright-purple" => some .brightPurple
  | "bright-cyan" => some .brightCyan
  | "bright-white" => some .brightWhite
  | _ => none

def parseColorValue (s : Str) : Fallible (Option ColorSpec) :=
  match (stripPrefix ['#'] s).filter fun hex => byteLen hex = 6 with
  | some hex => do
    match fromStrRadix 16 (← slice hex 0 2) with
    | none => .ok none
    | some r =>
      match fromStrRadix 16 (← slice hex 2 4) with
      | none => .ok none
      | some g =>
        match fromStrRadix 16 (← slice hex 4 6) with
        | none => .ok none
        | some b => .ok (some (.rgb r g b))
  | none =>
    match fromStrRadix 10 s with
    | some n => .ok (some (.ansi256 n))
    | none => .ok ((parseNamedColor s).map .named)

/-- `HexSafe hex` — the characters of the six bytes `hex` do not lie across the cuts: none across the
first one, and none across the second one when the two bytes before are a number. -/
def HexSafe (hex : Str) : Prop :=
  IsBoundary hex 2 ∧ ∀ pair tail, hex = pair ++ tail → byteLen pair = 2 →
    (fromStrRadix 16 pair).isSome → IsBoundary hex 4

/-- `ColorSafe value` — as a colour `value` is cut between characters. -/
def ColorSafe (value : Str) : Prop :=
  ∀ hex, value = '#' :: hex → byteLen hex = 6 → HexSafe hex

/-- The three pieces are cut off exactly when the text is safe. -/
theorem returns_parseColorValue_hex {hex : Str} (h6 : byteLen hex = 6) :
    Returns (parseColorValue ('#' :: hex)) ↔ HexSafe hex := by
  have hfilter : (stripPrefix ['#'] ('#' :: hex)).filter (fun hex => byteLen hex = 6) = some hex := by
    simp [stripPrefix, h6]
  unfold parseColorValue
  simp only [hfilter]
  rw [returns_bind]
  constructor
  · rintro ⟨pair, hpair, hret⟩
    refine ⟨isBoundary_of_slice hpair, ?_⟩
    intro pair' tail hex_eq hpair' hnum
    have hsame : slice hex 0 2 = .ok pair' :=
      slice_eq_ok.2 ⟨[], tail, hex_eq, rfl, by omega⟩
    rw [hpair] at hsame
    cases hsame
    obtain ⟨r, hr⟩ := Option.isSome_iff_exists.1 hnum
    rw [hr] at hret
    obtain ⟨pair₂, hpair₂, -⟩ := (returns_bind _ _).1 hret
    exact isBoundary_of_slice hpair₂
  · rintro ⟨⟨pair, tail, hex_eq, hpair⟩, hsecond⟩
    refine ⟨pair, slice_eq_ok.2 ⟨[], tail, hex_eq, rfl, by omega⟩, ?_⟩
    cases hr : fromStrRadix 16 pair with
    | none => exact returns_ok _
    | some r =>
      obtain ⟨front, last, hex_eq', hfront⟩ := hsecond pair tail hex_eq hpair (by simp [hr])
      obtain ⟨mid, rfl, rfl⟩ :=
        exists_append_of_byteLen_le (hex_eq.symm.trans hex_eq') (by omega)
      have hlens : byteLen pair + (byteLen mid + byteLen last) = 6 := by
        rw [← h6, hex_eq, byteLen_append, byteLen_append]
      rw [byteLen_append] at hfront
      have hmid : slice hex 2 4 = .ok mid :=
        slice_eq_ok.2 ⟨pair, last, hex_eq, hpair, by omega⟩
      have hlast : slice hex 4 6 = .ok last := by
        refine slice_eq_ok.2 ⟨pair ++ mid, [], by simp [hex_eq], ?_, by omega⟩
        rw [byteLen_append]
        omega
      simp only [hmid, hlast, ok_bind]
      cases fromStrRadix 16 mid with
      | none => exact returns_ok _
      | some g =>
        cases fromStrRadix 16 last with
        | none => exact returns_ok _
        | some b => exact returns_ok _

/-- **A colour is read exactly when its value is safe.** -/
theorem returns_parseColorValue {value : Str} :
    Returns (parseColorValue value) ↔ ColorSafe value := by
  by_cases h : ∃ hex, value = '#' :: hex ∧ byteLen hex = 6
  · obtain ⟨hex, rfl, h6⟩ := h
    rw [returns_parseColorValue_hex h6]
    constructor
    · rintro hsafe _ heq -
      cases heq
      exact hsafe
    · intro hsafe
      exact hsafe hex rfl h6
  · have hfilter : (stripPrefix ['#'] value).filter (fun hex => byteLen hex = 6) = none := by
      rw [Option.filter_eq_none_iff]
      intro hex hhex
      have h6 : ¬ byteLen hex = 6 := fun h6 => h ⟨hex, stripPrefix_eq_some.1 hhex, h6⟩
      simpa using h6
    constructor
    · intro _ hex hhex h6
      exact absurd ⟨hex, hhex, h6⟩ h
    · intro _
      unfold parseColorValue
      simp only [hfilter]
      cases fromStrRadix 10 value with
      | none => exact returns_ok _
      | some n => exact returns_ok _

/-! ## Modifiers -/

/-- The set of modifiers, one bit each. -/
structure StyleModifiers where
  bits : UInt16
deriving DecidableEq, Repr

namespace StyleModifiers

/-- `1 << n` -/
def flag (n : UInt16) : StyleModifiers := ⟨1 <<< n⟩

def bold : StyleModifiers := flag 0
def italic : StyleModifiers := flag 1
def underline : StyleModifiers := flag 2
def dimmed : StyleModifiers := flag 3
def inverted : StyleModifiers := flag 4
def blink : StyleModifiers := flag 5
def hidden : StyleModifiers := flag 6
def strikethrough : StyleModifiers := flag 7

def empty : StyleModifiers := ⟨0⟩

def insert (modifiers modifier : StyleModifiers) : StyleModifiers :=
  ⟨modifiers.bits ||| modifier.bits⟩

def parseToken (token : Str) : Option StyleModifiers :=
  match String.ofList token with
  | "bold" => some bold
  | "italic" => some italic
  | "underline" => some underline
  | "dimmed" => some dimmed
  | "inverted" => some inverted
  | "blink" => some blink
  | "hidden" => some hidden
  | "strikethrough" => some strikethrough
  | _ => none

end StyleModifiers

/-! ## Styles -/

inductive StyleSpec
  | none
  | styled (fg bg : Option ColorSpec) (modifiers : StyleModifiers)
deriving DecidableEq, Repr

/-- The loop of `StyleSpec::parse`. -/
def StyleSpec.parseTokens (fg bg : Option ColorSpec) (modifiers : StyleModifiers) :
    List Str → Fallible StyleSpec
  | [] => .ok (.styled fg bg modifiers)
  | token :: tokens =>
    let lower := toAsciiLowercase token
    if lower = "none".toList then .ok .none
    else
      match StyleModifiers.parseToken lower with
      | some modifier => parseTokens fg bg (modifiers.insert modifier) tokens
      | .none =>
        match parseNamedColor lower with
        | some color => parseTokens (some (.named color)) bg modifiers tokens
        | .none =>
          match stripPrefix "fg:".toList lower with
          | some value => do
            match ← parseColorValue value with
            | some color => parseTokens (some color) bg modifiers tokens
            | .none => parseTokens fg bg modifiers tokens
          | .none =>
            match stripPrefix "bg:".toList lower with
            | some value => do
              match ← parseColorValue value with
              | some color => parseTokens fg (some color) modifiers tokens
              | .none => parseTokens fg bg modifiers tokens
            | .none => parseTokens fg bg modifiers tokens

def StyleSpec.parse (s : Str) : Fallible StyleSpec :=
  StyleSpec.parseTokens .none .none .empty (splitWhitespace s)

/-- The word gives a colour for the text or for its background. -/
def colorValue? (lower : Str) : Option Str :=
  (stripPrefix "fg:".toList lower).or (stripPrefix "bg:".toList lower)

/-- The values of the colours in front of the first `none`. -/
def colorValues (tokens : List Str) : List Str :=
  ((tokens.map toAsciiLowercase).takeWhile (· ≠ "none".toList)).filterMap colorValue?

/-- `StyleSafe s` — every colour value that is read in the style string `s` is safe. -/
def StyleSafe (s : Str) : Prop := ∀ value ∈ colorValues (splitWhitespace s), ColorSafe value

/-! ## When a style is read -/

theorem ofList_ne_of_colon {s : Str} {name : String} (hs : ':' ∈ s) (hname : ':' ∉ name.toList) :
    String.ofList s ≠ name := by
  rintro rfl
  rw [String.toList_ofList] at hname
  exact hname hs

/-- A word with a colon is no modifier. -/
theorem parseToken_of_colon {s : Str} (hs : ':' ∈ s) : StyleModifiers.parseToken s = .none := by
  unfold StyleModifiers.parseToken
  split
  case h_9 => rfl
  all_goals
    rename_i hname
    exact absurd hname (ofList_ne_of_colon hs (by decide))

/-- A word with a colon is not the name of a colour. -/
theorem parseNamedColor_of_colon {s : Str} (hs : ':' ∈ s) : parseNamedColor s = .none := by
  unfold parseNamedColor
  split
  case h_17 => rfl
  all_goals
    rename_i hname
    exact absurd hname (ofList_ne_of_colon hs (by decide))

theorem colon_mem_of_colorValue? {lower value : Str} (h : colorValue? lower = some value) :
    ':' ∈ lower := by
  rcases Option.or_eq_some_iff.1 h with h | ⟨-, h⟩
  · simp [stripPrefix_eq_some.1 h]
  · simp [stripPrefix_eq_some.1 h]

section

variable {token : Str} {tokens : List Str}

theorem colorValues_cons_none (h : toAsciiLowercase token = "none".toList) :
    colorValues (token :: tokens) = [] := by
  simp [colorValues, h]

theorem colorValues_cons_of_eq_none (h : toAsciiLowercase token ≠ "none".toList)
    (hv : colorValue? (toAsciiLowercase token) = .none) :
    colorValues (token :: tokens) = colorValues tokens := by
  unfold colorValues
  rw [List.map_cons, List.takeWhile_cons_of_pos (by simpa using h), List.filterMap_cons_none hv]

theorem colorValues_cons_of_eq_some {value : Str} (h : toAsciiLowercase token ≠ "none".toList)
    (hv : colorValue? (toAsciiLowercase token) = some value) :
    colorValues (token :: tokens) = value :: colorValues tokens := by
  unfold colorValues
  rw [List.map_cons, List.takeWhile_cons_of_pos (by simpa using h), List.filterMap_cons_some hv]

end

/-- A colour is read, and then the words after it whether there is one or not. -/
theorem returns_color_bind {value : Str} {found : ColorSpec → Fallible StyleSpec}
    {missed : Fallible StyleSpec} {P : Prop} (hfound : ∀ color, Returns (found color) ↔ P)
    (hmissed : Returns missed ↔ P) :
    Returns (do match ← parseColorValue value with
      | some color => found color
      | .none => missed) ↔ ColorSafe value ∧ P := by
  rw [← returns_parseColorValue]
  refine returns_bind_iff _ fun color => ?_
  cases color with
  | none => exact hmissed
  | some color => exact hfound color

/-- **The words of a style are read exactly when the colour values among them are safe.** -/
theorem returns_parseTokens (fg bg : Option ColorSpec) (modifiers : StyleModifiers)
    (tokens : List Str) :
    Returns (StyleSpec.parseTokens fg bg modifiers tokens) ↔
      ∀ value ∈ colorValues tokens, ColorSafe value := by
  induction tokens generalizing fg bg modifiers with
  | nil => simp [StyleSpec.parseTokens, colorValues]
  | cons token tokens ih =>
    by_cases hnone : toAsciiLowercase token = "none".toList
    · simp [StyleSpec.parseTokens, hnone, colorValues_cons_none hnone]
    unfold StyleSpec.parseTokens
    simp only [if_neg hnone]
    cases hv : colorValue? (toAsciiLowercase token) with
    | none =>
      obtain ⟨hfg, hbg⟩ := Option.or_eq_none_iff.1 hv
      rw [colorValues_cons_of_eq_none hnone hv]
      cases StyleModifiers.parseToken (toAsciiLowercase token) with
      | some modifier => exact ih _ _ _
      | none =>
        cases parseNamedColor (toAsciiLowercase token) with
        | some color => exact ih _ _ _
        | none => simp only [hfg, hbg]; exact ih _ _ _
    | some value =>
      have hcolon := colon_mem_of_colorValue? hv
      rw [colorValues_cons_of_eq_some hnone hv, List.forall_mem_cons]
      simp only [parseToken_of_colon hcolon, parseNamedColor_of_colon hcolon]
      rcases Option.or_eq_some_iff.1 hv with hfg | ⟨hfg, hbg⟩
      · simp only [hfg]
        exact returns_color_bind (fun _ => ih _ _ _) (ih _ _ _)
      · simp only [hfg, hbg]
        exact returns_color_bind (fun _ => ih _ _ _) (ih _ _ _)

/-- **A style string is read exactly when it is safe.** -/
theorem returns_parse (s : Str) : Returns (StyleSpec.parse s) ↔ StyleSafe s :=
  returns_parseTokens _ _ _ _

end MergeReady.Evaluation
