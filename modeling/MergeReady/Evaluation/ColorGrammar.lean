import MergeReady.Evaluation.StyleSpec
import MergeReady.Lib.Digits

/-!
# The grammar of colours

A colour is written as `#` and six hexadecimal digits, as a number below 256, or by its name.  The
parser reads each of these.  Its numbers may have a `+` in front, though, and it cuts every text of six
bytes after a `#`; `readsGrammar_iff` says on which texts it keeps to the grammar.
-/

namespace MergeReady.Evaluation

open MergeReady.Lib MergeReady.Lib.Str

/-! ## The documented colours -/

def NamedColor.name : NamedColor → Str
  | .black => "black".toList
  | .red => "red".toList
  | .green => "green".toList
  | .yellow => "yellow".toList
  | .blue => "blue".toList
  | .purple => "purple".toList
  | .cyan => "cyan".toList
  | .white => "white".toList
  | .brightBlack => "bright-black".toList
  | .brightRed => "bright-red".toList
  | .brightGreen => "bright-green".toList
  | .brightYellow => "bright-yellow".toList
  | .brightBlue => "bright-blue".toList
  | .brightPurple => "bright-purple".toList
  | .brightCyan => "bright-cyan".toList
  | .brightWhite => "bright-white".toList

/-- The number that two hexadecimal digits denote. -/
def HexPair (c d : Char) (n : UInt8) : Prop :=
  IsHex c ∧ IsHex d ∧ 16 * digitValue c + digitValue d = n.toNat

/-- `ColorText s color` — the text `s` is a documented way to write the colour. -/
inductive ColorText : Str → ColorSpec → Prop
  | rgb {r₁ r₂ g₁ g₂ b₁ b₂ : Char} {r g b : UInt8} :
      HexPair r₁ r₂ r → HexPair g₁ g₂ g → HexPair b₁ b₂ b →
      ColorText ['#', r₁, r₂, g₁, g₂, b₁, b₂] (.rgb r g b)
  | ansi256 {s : Str} {n : UInt8} : Denotes IsDecimal 10 s n.toNat → ColorText s (.ansi256 n)
  | named (color : NamedColor) : ColorText color.name (.named color)

/-- The parser keeps to the grammar on this text: it gives a colour when the text is one, and nothing
when the text is none. -/
def ReadsGrammar (s : Str) : Prop :=
  (∀ color, parseColorValue s = .ok (some color) ↔ ColorText s color) ∧
    (parseColorValue s = .ok none ↔ ∀ color, ¬ ColorText s color)

/-- Decimal digits after a `+`. -/
def SignedNumber (s : Str) : Prop := ∃ t n, s = '+' :: t ∧ Denotes IsDecimal 10 t (UInt8.toNat n)

/-- Two hexadecimal digits, or a `+` and one. -/
def SignedPair (c d : Char) (n : UInt8) : Prop :=
  HexPair c d n ∨ (c = '+' ∧ IsHex d ∧ digitValue d = n.toNat)

/-- Three pairs after a `#`, and a `+` in one of them. -/
def SignedHex (s : Str) : Prop :=
  ∃ r₁ r₂ g₁ g₂ b₁ b₂ r g b, s = ['#', r₁, r₂, g₁, g₂, b₁, b₂] ∧
    SignedPair r₁ r₂ r ∧ SignedPair g₁ g₂ g ∧ SignedPair b₁ b₂ b ∧ (r₁ = '+' ∨ g₁ = '+' ∨ b₁ = '+')

/-! ## Pairs of digits -/

theorem fromStrRadix_ten {s : Str} {n : UInt8} :
    fromStrRadix 10 s = some n ↔
      Denotes IsDecimal 10 s n.toNat ∨ ∃ t, s = '+' :: t ∧ Denotes IsDecimal 10 t n.toNat :=
  fromStrRadix_eq_some (fun _ _ => toDigit_ten) (by decide) (by decide)

theorem utf8Size_of_isHex {c : Char} (h : IsHex c) : c.utf8Size = 1 := by
  rw [Char.utf8Size_eq_one_iff, UInt32.le_iff_toNat_le]
  have h9 : '9'.toNat = 57 := rfl
  have hf : 'f'.toNat = 102 := rfl
  have hF : 'F'.toNat = 70 := rfl
  unfold IsHex IsDecimal at h
  simp only [char_le_iff] at h
  show c.toNat ≤ 127
  omega

theorem byteLen_of_isHex {s : Str} (h : ∀ c ∈ s, IsHex c) : byteLen s = s.length := by
  induction s with
  | nil => rfl
  | cons c s ih =>
    rw [List.forall_mem_cons] at h
    rw [byteLen_cons, utf8Size_of_isHex h.1, ih h.2, List.length_cons, Nat.add_comm]

/-- A number of two bytes is a pair of digits, or a `+` and one digit. -/
theorem fromStrRadix_pair {s : Str} {n : UInt8} :
    byteLen s = 2 ∧ fromStrRadix 16 s = some n ↔ ∃ c d, s = [c, d] ∧ SignedPair c d n := by
  rw [fromStrRadix_eq_some (fun _ _ => toDigit_sixteen) (by decide) (by decide)]
  constructor
  · rintro ⟨hlen, h | ⟨t, rfl, h⟩⟩
    · rw [byteLen_of_isHex h.digits, List.length_eq_two] at hlen
      obtain ⟨c, d, rfl⟩ := hlen
      refine ⟨c, d, rfl, .inl ⟨h.digits c (by simp), h.digits d (by simp), ?_⟩⟩
      rw [← h.value, valueAfter, List.foldl_cons, List.foldl_cons, List.foldl_nil]
      omega
    · have hplus : ('+' : Char).utf8Size = 1 := rfl
      rw [byteLen_cons, hplus, byteLen_of_isHex h.digits] at hlen
      obtain ⟨d, rfl⟩ := List.length_eq_one_iff.1 (show t.length = 1 by omega)
      refine ⟨'+', d, rfl, .inr ⟨rfl, h.digits d (by simp), ?_⟩⟩
      rw [← h.value, valueAfter, List.foldl_cons, List.foldl_nil]
      omega
  · rintro ⟨c, d, rfl, ⟨hc, hd, hv⟩ | ⟨rfl, hd, hv⟩⟩
    · have hall : ∀ e ∈ [c, d], IsHex e :=
        List.forall_mem_cons.2 ⟨hc, List.forall_mem_singleton.2 hd⟩
      refine ⟨byteLen_of_isHex hall, .inl ⟨List.cons_ne_nil _ _, hall, ?_⟩⟩
      rw [← hv, valueAfter, List.foldl_cons, List.foldl_cons, List.foldl_nil]
      omega
    · have hall : ∀ e ∈ [d], IsHex e := List.forall_mem_singleton.2 hd
      have hplus : ('+' : Char).utf8Size = 1 := rfl
      refine ⟨?_, .inr ⟨[d], rfl, List.cons_ne_nil _ _, hall, ?_⟩⟩
      · rw [byteLen_cons, hplus, byteLen_of_isHex hall]
        rfl
      · rw [← hv, valueAfter, List.foldl_cons, List.foldl_nil]
        omega

theorem eq_append_of_slices {hex p q t : Str} (h6 : byteLen hex = 6)
    (hp : slice hex 0 2 = .ok p) (hq : slice hex 2 4 = .ok q) (ht : slice hex 4 6 = .ok t) :
    hex = p ++ (q ++ t) ∧ byteLen p = 2 ∧ byteLen q = 2 ∧ byteLen t = 2 := by
  obtain ⟨l, rest, hhex, hl, hp⟩ := slice_eq_ok.1 hp
  obtain rfl := byteLen_eq_zero.1 hl
  obtain ⟨l', rest', hhex', hl', hq⟩ := slice_eq_ok.1 hq
  obtain ⟨l'', rest'', hhex'', hl'', ht⟩ := slice_eq_ok.1 ht
  rw [List.nil_append] at hhex
  obtain ⟨mid, rfl, hmid⟩ :=
    exists_append_of_byteLen_le (hhex.symm.trans hhex') (show byteLen p ≤ byteLen l' by omega)
  obtain rfl : mid = [] := byteLen_eq_zero.1 (by rw [byteLen_append] at hl'; omega)
  rw [List.append_nil] at hhex'
  rw [← List.append_assoc] at hhex'
  obtain ⟨mid, rfl, hmid'⟩ := exists_append_of_byteLen_le (hhex'.symm.trans hhex'')
    (show byteLen (p ++ q) ≤ byteLen l'' by rw [byteLen_append]; omega)
  have hlens := congrArg byteLen hhex''
  simp only [byteLen_append] at hlens hl''
  obtain rfl : mid = [] := byteLen_eq_zero.1 (by omega)
  obtain rfl : rest'' = [] := byteLen_eq_zero.1 (by omega)
  refine ⟨by rw [hhex'']; simp, by omega, by omega, by omega⟩

/-! ## What the parser accepts -/

/-- The grammar with signs, `ColorText` and more. -/
inductive Accepted : Str → ColorSpec → Prop
  | rgb {r₁ r₂ g₁ g₂ b₁ b₂ : Char} {r g b : UInt8} :
      SignedPair r₁ r₂ r → SignedPair g₁ g₂ g → SignedPair b₁ b₂ b →
      Accepted ['#', r₁, r₂, g₁, g₂, b₁, b₂] (.rgb r g b)
  | ansi256 {s : Str} {n : UInt8} : Denotes IsDecimal 10 s n.toNat → Accepted s (.ansi256 n)
  | signed {s : Str} {n : UInt8} :
      Denotes IsDecimal 10 s n.toNat → Accepted ('+' :: s) (.ansi256 n)
  | named (color : NamedColor) : Accepted color.name (.named color)

theorem parseNamedColor_eq_some {s : Str} {color : NamedColor} :
    parseNamedColor s = some color ↔ s = color.name := by
  constructor
  · intro h
    unfold parseNamedColor at h
    split at h
    case h_17 => cases h
    all_goals
      rename_i hname
      cases h
      rw [← String.toList_ofList (l := s), hname]
      rfl
  · rintro rfl
    cases color <;> rfl

theorem parseColorValue_hex {hex : Str} (h6 : byteLen hex = 6) {color : ColorSpec} :
    parseColorValue ('#' :: hex) = .ok (some color) ↔ Accepted ('#' :: hex) color := by
  have hfilter : (stripPrefix ['#'] ('#' :: hex)).filter (fun hex => byteLen hex = 6) = some hex := by
    simp [stripPrefix, h6]
  unfold parseColorValue
  simp only [hfilter]
  constructor
  · intro h
    obtain ⟨p, hp, h⟩ := bind_eq_ok.1 h
    cases hr : fromStrRadix 16 p with
    | none => rw [hr] at h; cases h
    | some r =>
      rw [hr] at h
      obtain ⟨q, hq, h⟩ := bind_eq_ok.1 h
      cases hg : fromStrRadix 16 q with
      | none => rw [hg] at h; cases h
      | some g =>
        rw [hg] at h
        obtain ⟨t, ht, h⟩ := bind_eq_ok.1 h
        cases hb : fromStrRadix 16 t with
        | none => rw [hb] at h; cases h
        | some b =>
          rw [hb] at h
          cases h
          obtain ⟨rfl, hplen, hqlen, htlen⟩ := eq_append_of_slices h6 hp hq ht
          obtain ⟨r₁, r₂, rfl, hrpair⟩ := fromStrRadix_pair.1 ⟨hplen, hr⟩
          obtain ⟨g₁, g₂, rfl, hgpair⟩ := fromStrRadix_pair.1 ⟨hqlen, hg⟩
          obtain ⟨b₁, b₂, rfl, hbpair⟩ := fromStrRadix_pair.1 ⟨htlen, hb⟩
          exact .rgb hrpair hgpair hbpair
  · intro h
    generalize hs : '#' :: hex = s at h
    cases h with
    | @rgb r₁ r₂ g₁ g₂ b₁ b₂ r g b hr hg hb =>
      obtain ⟨-, rfl⟩ := List.cons_eq_cons.1 hs
      obtain ⟨hplen, hr⟩ := fromStrRadix_pair.2 ⟨r₁, r₂, rfl, hr⟩
      obtain ⟨hqlen, hg⟩ := fromStrRadix_pair.2 ⟨g₁, g₂, rfl, hg⟩
      obtain ⟨htlen, hb⟩ := fromStrRadix_pair.2 ⟨b₁, b₂, rfl, hb⟩
      have hp : slice [r₁, r₂, g₁, g₂, b₁, b₂] 0 2 = .ok [r₁, r₂] :=
        slice_eq_ok.2 ⟨[], [g₁, g₂, b₁, b₂], rfl, rfl, by rw [hplen]⟩
      have hq : slice [r₁, r₂, g₁, g₂, b₁, b₂] 2 4 = .ok [g₁, g₂] :=
        slice_eq_ok.2 ⟨[r₁, r₂], [b₁, b₂], rfl, hplen, by rw [hqlen]⟩
      have ht : slice [r₁, r₂, g₁, g₂, b₁, b₂] 4 6 = .ok [b₁, b₂] := by
        refine slice_eq_ok.2 ⟨[r₁, r₂] ++ [g₁, g₂], [], rfl, ?_, by rw [htlen]⟩
        rw [byteLen_append, hplen, hqlen]
      simp only [hp, hq, ht, hr, hg, hb, ok_bind]
    | ansi256 hn =>
      rw [← hs] at hn
      exact absurd (hn.digits '#' List.mem_cons_self) (by decide)
    | signed => cases hs
    | named color => cases color <;> cases hs

theorem parseColorValue_plain {s : Str} (hs : ∀ hex, s = '#' :: hex → byteLen hex ≠ 6)
    {color : ColorSpec} : parseColorValue s = .ok (some color) ↔ Accepted s color := by
  have hfilter : (stripPrefix ['#'] s).filter (fun hex => byteLen hex = 6) = none := by
    rw [Option.filter_eq_none_iff]
    intro hex hhex
    have h6 := hs hex (stripPrefix_eq_some.1 hhex)
    simpa using h6
  unfold parseColorValue
  simp only [hfilter]
  constructor
  · intro h
    cases hn : fromStrRadix 10 s with
    | some n =>
      rw [hn] at h
      cases h
      rcases fromStrRadix_ten.1 hn with hdigits | ⟨t, rfl, hdigits⟩
      · exact .ansi256 hdigits
      · exact .signed hdigits
    | none =>
      rw [hn] at h
      obtain ⟨name, hname, rfl⟩ := Option.map_eq_some_iff.1 (Except.ok.inj h)
      rw [parseNamedColor_eq_some.1 hname]
      exact .named name
  · intro h
    cases h with
    | rgb hr hg hb =>
      refine absurd ?_ (hs _ rfl)
      obtain ⟨hplen, -⟩ := fromStrRadix_pair.2 ⟨_, _, rfl, hr⟩
      obtain ⟨hqlen, -⟩ := fromStrRadix_pair.2 ⟨_, _, rfl, hg⟩
      obtain ⟨htlen, -⟩ := fromStrRadix_pair.2 ⟨_, _, rfl, hb⟩
      simp only [byteLen_cons, byteLen_nil] at hplen hqlen htlen ⊢
      omega
    | ansi256 hn => rw [fromStrRadix_ten.2 (.inl hn)]
    | signed hn => rw [fromStrRadix_ten.2 (.inr ⟨_, rfl, hn⟩)]
    | named name => cases name <;> rfl

/-- **The parser accepts the grammar with signs.** -/
theorem parseColorValue_eq_some {s : Str} {color : ColorSpec} :
    parseColorValue s = .ok (some color) ↔ Accepted s color := by
  by_cases h : ∃ hex, s = '#' :: hex ∧ byteLen hex = 6
  · obtain ⟨hex, rfl, h6⟩ := h
    exact parseColorValue_hex h6
  · exact parseColorValue_plain fun hex heq h6 => h ⟨hex, heq, h6⟩

/-! ## Where it keeps to the grammar -/

theorem ColorText.accepted {s : Str} {color : ColorSpec} (h : ColorText s color) :
    Accepted s color := by
  cases h with
  | rgb hr hg hb => exact .rgb (.inl hr) (.inl hg) (.inl hb)
  | ansi256 hn => exact .ansi256 hn
  | named name => exact .named name

theorem SignedPair.hexPair {c d : Char} {n : UInt8} (h : SignedPair c d n) (hc : c ≠ '+') :
    HexPair c d n := by
  rcases h with h | ⟨rfl, -⟩
  · exact h
  · exact absurd rfl hc

theorem HexPair.ne_plus {c d : Char} {n : UInt8} (h : HexPair c d n) : c ≠ '+' := by
  rintro rfl
  exact absurd h.1 (by decide)

/-- What is accepted is a colour of the grammar unless it has a sign in it. -/
theorem Accepted.colorText {s : Str} {color : ColorSpec} (h : Accepted s color)
    (hnumber : ¬ SignedNumber s) (hhex : ¬ SignedHex s) : ColorText s color := by
  cases h with
  | @rgb r₁ r₂ g₁ g₂ b₁ b₂ r g b hr hg hb =>
    have hplus : ¬ (r₁ = '+' ∨ g₁ = '+' ∨ b₁ = '+') := fun h =>
      hhex ⟨r₁, r₂, g₁, g₂, b₁, b₂, r, g, b, rfl, hr, hg, hb, h⟩
    rw [not_or, not_or] at hplus
    exact .rgb (hr.hexPair hplus.1) (hg.hexPair hplus.2.1) (hb.hexPair hplus.2.2)
  | ansi256 hn => exact .ansi256 hn
  | signed hn => exact absurd ⟨_, _, rfl, hn⟩ hnumber
  | named name => exact .named name

theorem SignedNumber.not_colorText {s : Str} (h : SignedNumber s) (color : ColorSpec) :
    ¬ ColorText s color := by
  obtain ⟨t, n, rfl, hn⟩ := h
  intro hc
  generalize hs : '+' :: t = s at hc
  cases hc with
  | rgb => cases hs
  | ansi256 hn' =>
    rw [← hs] at hn'
    exact absurd (hn'.digits '+' List.mem_cons_self) (by decide)
  | named name => cases name <;> cases hs

theorem SignedHex.not_colorText {s : Str} (h : SignedHex s) (color : ColorSpec) :
    ¬ ColorText s color := by
  obtain ⟨r₁, r₂, g₁, g₂, b₁, b₂, r, g, b, rfl, -, -, -, hplus⟩ := h
  intro hc
  generalize hs : ['#', r₁, r₂, g₁, g₂, b₁, b₂] = s at hc
  cases hc with
  | rgb hr hg hb =>
    cases hs
    rcases hplus with h | h | h
    · exact hr.ne_plus h
    · exact hg.ne_plus h
    · exact hb.ne_plus h
  | ansi256 hn =>
    rw [← hs] at hn
    exact absurd (hn.digits '#' List.mem_cons_self) (by decide)
  | named name => cases name <;> cases hs

section

variable {s : Str}

theorem ReadsGrammar.colorText (h : ReadsGrammar s) {color : ColorSpec} (hc : Accepted s color) :
    ColorText s color :=
  (h.1 color).1 (parseColorValue_eq_some.2 hc)

/-- A text that cannot be cut is none of the grammar, and the parser does not say so. -/
theorem ReadsGrammar.colorSafe (h : ReadsGrammar s) : ColorSafe s := by
  rw [← returns_parseColorValue]
  by_contra hpanic
  refine hpanic ⟨none, h.2.2 fun color hc => ?_⟩
  exact hpanic ⟨some color, (h.1 color).2 hc⟩

theorem ReadsGrammar.not_signedNumber (h : ReadsGrammar s) : ¬ SignedNumber s := by
  intro hs
  have hnot := hs.not_colorText
  obtain ⟨t, n, rfl, hn⟩ := hs
  exact hnot _ (h.colorText (.signed hn))

theorem ReadsGrammar.not_signedHex (h : ReadsGrammar s) : ¬ SignedHex s := by
  intro hs
  have hnot := hs.not_colorText
  obtain ⟨r₁, r₂, g₁, g₂, b₁, b₂, r, g, b, rfl, hr, hg, hb, -⟩ := hs
  exact hnot _ (h.colorText (.rgb hr hg hb))

end

/-- **The parser keeps to the grammar** on every text but these: a number after a `+`, pairs of
digits with a `+` among them, and six bytes after a `#` that cannot be cut in three. -/
theorem readsGrammar_iff (s : Str) :
    ReadsGrammar s ↔ ColorSafe s ∧ ¬ SignedNumber s ∧ ¬ SignedHex s := by
  constructor
  · intro h
    exact ⟨h.colorSafe, h.not_signedNumber, h.not_signedHex⟩
  · rintro ⟨hsafe, hnumber, hhex⟩
    have hsome : ∀ color, parseColorValue s = .ok (some color) ↔ ColorText s color := by
      intro color
      rw [parseColorValue_eq_some]
      exact ⟨fun h => h.colorText hnumber hhex, ColorText.accepted⟩
    refine ⟨hsome, ?_, ?_⟩
    · intro h color hc
      rw [(hsome color).2 hc] at h
      cases h
    · intro h
      obtain ⟨color, hcolor⟩ := returns_parseColorValue.2 hsafe
      cases color with
      | none => exact hcolor
      | some color => exact absurd ((hsome color).1 hcolor) (h color)

/-- Signs are read, and a letter across a cut stops the program. -/
theorem not_readsGrammar_signed :
    ¬ ReadsGrammar "+5".toList ∧ ¬ ReadsGrammar "#+1+2+3".toList ∧
      ¬ ReadsGrammar "#aéaaa".toList := by
  refine ⟨fun h => ?_, fun h => ?_, fun h => ?_⟩
  · refine h.not_signedNumber ⟨['5'], 5, rfl, List.cons_ne_nil _ _, ?_, rfl⟩
    exact List.forall_mem_singleton.2 (by decide)
  · refine h.not_signedHex ⟨'+', '1', '+', '2', '+', '3', 1, 2, 3, rfl, ?_, ?_, ?_, .inl rfl⟩
    · exact .inr ⟨rfl, by decide, rfl⟩
    · exact .inr ⟨rfl, by decide, rfl⟩
    · exact .inr ⟨rfl, by decide, rfl⟩
  · obtain ⟨color, hcolor⟩ := returns_parseColorValue.2 h.colorSafe
    cases hcolor

end MergeReady.Evaluation
