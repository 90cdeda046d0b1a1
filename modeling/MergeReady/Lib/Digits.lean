import MergeReady.Lib.Str

/-!
# Numbers in digits

What `u8::from_str_radix` reads: digits that denote a number below 256, alone or after a `+`; and what
`parse` reads for the other unsigned types.
-/

namespace MergeReady.Lib.Str

/-! ## Digits -/

def IsDecimal (c : Char) : Prop := '0' ≤ c ∧ c ≤ '9'

def IsHex (c : Char) : Prop := IsDecimal c ∨ ('a' ≤ c ∧ c ≤ 'f') ∨ ('A' ≤ c ∧ c ≤ 'F')

instance (c : Char) : Decidable (IsDecimal c) := inferInstanceAs (Decidable (_ ∧ _))

instance (c : Char) : Decidable (IsHex c) := inferInstanceAs (Decidable (_ ∨ _))

/-- The value of a digit, of a letter that of its place after the nine. -/
def digitValue (c : Char) : ℕ :=
  if '0' ≤ c ∧ c ≤ '9' then c.toNat - '0'.toNat
  else if 'a' ≤ c ∧ c ≤ 'z' then c.toNat - 'a'.toNat + 10
  else c.toNat - 'A'.toNat + 10

theorem char_le_iff {c d : Char} : c ≤ d ↔ c.toNat ≤ d.toNat := Iff.rfl

/-- A digit has its value, when that is below the radix. -/
theorem toDigit_eq_some {radix : ℕ} {c : Char} {d : ℕ} :
    toDigit radix c = some d ↔
      (IsDecimal c ∨ ('a' ≤ c ∧ c ≤ 'z') ∨ ('A' ≤ c ∧ c ≤ 'Z')) ∧ digitValue c < radix ∧
        digitValue c = d := by
  unfold toDigit digitValue IsDecimal
  by_cases h0 : '0' ≤ c ∧ c ≤ '9'
  · simp [h0, Option.filter_some, and_comm]
  by_cases ha : 'a' ≤ c ∧ c ≤ 'z'
  · simp [h0, ha, Option.filter_some, and_comm]
  by_cases hA : 'A' ≤ c ∧ c ≤ 'Z'
  · simp [h0, ha, hA, Option.filter_some, and_comm]
  · simp [h0, ha, hA]

/-- Below the radix are the ten digits, and for a radix of 16 six letters more. -/
theorem digit_lt_iff {c : Char} :
    ((IsDecimal c ∨ ('a' ≤ c ∧ c ≤ 'z') ∨ ('A' ≤ c ∧ c ≤ 'Z')) ∧ digitValue c < 10 ↔ IsDecimal c) ∧
    ((IsDecimal c ∨ ('a' ≤ c ∧ c ≤ 'z') ∨ ('A' ≤ c ∧ c ≤ 'Z')) ∧ digitValue c < 16 ↔ IsHex c) := by
  have h0 : '0'.toNat = 48 := rfl
  have h9 : '9'.toNat = 57 := rfl
  have ha : 'a'.toNat = 97 := rfl
  have hf : 'f'.toNat = 102 := rfl
  have hz : 'z'.toNat = 122 := rfl
  have hA : 'A'.toNat = 65 := rfl
  have hF : 'F'.toNat = 70 := rfl
  have hZ : 'Z'.toNat = 90 := rfl
  simp only [IsHex, IsDecimal, digitValue, char_le_iff]
  split_ifs <;> omega

theorem toDigit_ten {c : Char} {d : ℕ} :
    toDigit 10 c = some d ↔ IsDecimal c ∧ digitValue c = d := by
  rw [toDigit_eq_some, ← and_assoc, digit_lt_iff.1]

theorem toDigit_sixteen {c : Char} {d : ℕ} :
    toDigit 16 c = some d ↔ IsHex c ∧ digitValue c = d := by
  rw [toDigit_eq_some, ← and_assoc, digit_lt_iff.2]

/-! ## The number that digits denote -/

/-- The value of digits after a number. -/
def valueAfter (radix n : ℕ) (s : Str) : ℕ := s.foldl (fun n c => n * radix + digitValue c) n

/-- `Denotes digit radix s n` — the text `s` consists of digits, at least one, and denotes `n`. -/
structure Denotes (digit : Char → Prop) (radix : ℕ) (s : Str) (n : ℕ) : Prop where
  ne_nil : s ≠ []
  digits : ∀ c ∈ s, digit c
  value : valueAfter radix 0 s = n

section

variable {digit : Char → Prop} {radix : ℕ}

theorem le_valueAfter (hradix : 0 < radix) (n : ℕ) (s : Str) : n ≤ valueAfter radix n s := by
  induction s generalizing n with
  | nil => exact Nat.le_refl n
  | cons c s ih =>
    calc n ≤ n * radix := Nat.le_mul_of_pos_right n hradix
      _ ≤ n * radix + digitValue c := Nat.le_add_right _ _
      _ ≤ valueAfter radix (n * radix + digitValue c) s := ih _

/-- The digits are read as long as the number fits. -/
theorem readDigits_eq_some (hdigit : ∀ c d, toDigit radix c = some d ↔ digit c ∧ digitValue c = d)
    (hradix : 0 < radix) {n m : ℕ} {s : Str} (hn : n < 256) :
    readDigits radix n s = some m ↔
      (∀ c ∈ s, digit c) ∧ valueAfter radix n s = m ∧ m < 256 := by
  induction s generalizing n with
  | nil =>
    constructor
    · intro h
      cases h
      exact ⟨List.forall_mem_nil _, rfl, hn⟩
    · rintro ⟨-, rfl, -⟩
      rfl
  | cons c s ih =>
    rw [readDigits, List.forall_mem_cons, Option.bind_eq_bind, Option.bind_eq_some_iff]
    constructor
    · rintro ⟨d, hd, h⟩
      obtain ⟨hc, rfl⟩ := (hdigit c d).1 hd
      split at h
      · next hlt =>
        obtain ⟨hs, hv, hm⟩ := (ih hlt).1 h
        exact ⟨⟨hc, hs⟩, hv, hm⟩
      · cases h
    · rintro ⟨⟨hc, hs⟩, hv, hm⟩
      refine ⟨digitValue c, (hdigit c _).2 ⟨hc, rfl⟩, ?_⟩
      have hlt : n * radix + digitValue c < 256 := by
        refine lt_of_le_of_lt (le_valueAfter hradix _ s) ?_
        exact lt_of_eq_of_lt hv hm
      rw [if_pos hlt]
      exact (ih hlt).2 ⟨hs, hv, hm⟩

theorem map_readDigits_eq_some
    (hdigit : ∀ c d, toDigit radix c = some d ↔ digit c ∧ digitValue c = d) (hradix : 0 < radix)
    {s : Str} {n : UInt8} :
    (readDigits radix 0 s).map UInt8.ofNat = some n ↔
      (∀ c ∈ s, digit c) ∧ valueAfter radix 0 s = n.toNat := by
  rw [Option.map_eq_some_iff]
  constructor
  · rintro ⟨m, hm, rfl⟩
    obtain ⟨hs, hv, hlt⟩ := (readDigits_eq_some hdigit hradix (by decide)).1 hm
    rw [UInt8.toNat_ofNat_of_lt' hlt]
    exact ⟨hs, hv⟩
  · rintro ⟨hs, hv⟩
    refine ⟨n.toNat, ?_, UInt8.ofNat_toNat⟩
    exact (readDigits_eq_some hdigit hradix (by decide)).2 ⟨hs, hv, n.toNat_lt⟩

theorem fromStrRadix_plus (radix : ℕ) (c : Char) (t : Str) :
    fromStrRadix radix ('+' :: c :: t) = (readDigits radix 0 (c :: t)).map UInt8.ofNat := rfl

theorem fromStrRadix_of_ne {s : Str} (h : ∀ c t, s ≠ '+' :: c :: t) (hs : s ≠ []) :
    fromStrRadix radix s = (readDigits radix 0 s).map UInt8.ofNat := by
  have hread : ∀ digits : Str, digits = s →
      (if digits = [] then none else (readDigits radix 0 digits).map UInt8.ofNat) =
        (readDigits radix 0 s).map UInt8.ofNat := by
    rintro _ rfl
    exact if_neg hs
  unfold fromStrRadix
  refine hread _ ?_
  split
  · next c t => exact absurd rfl (h c t)
  · rfl

/-- **A number is read from its digits**, and from its digits after a `+`. -/
theorem fromStrRadix_eq_some
    (hdigit : ∀ c d, toDigit radix c = some d ↔ digit c ∧ digitValue c = d) (hradix : 0 < radix)
    (hplus : ¬ digit '+') {s : Str} {n : UInt8} :
    fromStrRadix radix s = some n ↔
      Denotes digit radix s n.toNat ∨ ∃ t, s = '+' :: t ∧ Denotes digit radix t n.toNat := by
  have hread : ∀ t : Str, t ≠ [] →
      ((readDigits radix 0 t).map UInt8.ofNat = some n ↔ Denotes digit radix t n.toNat) := by
    intro t ht
    rw [map_readDigits_eq_some hdigit hradix]
    exact ⟨fun h => ⟨ht, h.1, h.2⟩, fun h => ⟨h.digits, h.value⟩⟩
  by_cases hs : ∃ c t, s = '+' :: c :: t
  · obtain ⟨c, t, rfl⟩ := hs
    have hno : ¬ Denotes digit radix ('+' :: c :: t) n.toNat := fun h =>
      hplus (h.digits '+' List.mem_cons_self)
    rw [fromStrRadix_plus, hread _ (List.cons_ne_nil c t), or_iff_right hno]
    constructor
    · intro h
      exact ⟨c :: t, rfl, h⟩
    · rintro ⟨t', heq, h⟩
      cases heq
      exact h
  · have hright : ¬ ∃ t, s = '+' :: t ∧ Denotes digit radix t n.toNat := by
      rintro ⟨t, rfl, h⟩
      cases t with
      | nil => exact h.ne_nil rfl
      | cons c t => exact hs ⟨c, t, rfl⟩
    rw [or_iff_left hright]
    by_cases hnil : s = []
    · subst hnil
      constructor
      · intro h; cases h
      · intro h; exact absurd rfl h.ne_nil
    · rw [fromStrRadix_of_ne (fun c t h => hs ⟨c, t, h⟩) hnil, hread s hnil]

end

/-! ## Numbers of an unsigned type -/

/-- The digits of a number that may have a `+` in front. -/
def dropPlus : Str → Str
  | '+' :: c :: s => c :: s
  | s => s

/-- `s.parse().ok()` for the type of the numbers below `bound`: decimal digits after an optional `+`. -/
def parseUnsigned (bound : ℕ) (s : Str) : Option ℕ :=
  let digits := dropPlus s
  if digits ≠ [] ∧ digits.all fun c => decide (IsDecimal c) then
    (some (valueAfter 10 0 digits)).filter (· < bound)
  else none

theorem dropPlus_of_ne {s : Str} (hs : s.head? ≠ some '+') : dropPlus s = s := by
  unfold dropPlus
  split
  · exact absurd rfl hs
  · rfl

theorem parseUnsigned_eq_some {bound n : ℕ} {s : Str} :
    parseUnsigned bound s = some n ↔ Denotes IsDecimal 10 (dropPlus s) n ∧ n < bound := by
  unfold parseUnsigned
  dsimp only
  constructor
  · intro h
    split at h
    · next hd =>
      rw [Option.filter_eq_some_iff, Option.some.injEq, decide_eq_true_eq] at h
      exact ⟨⟨hd.1, fun c hc => of_decide_eq_true (List.all_eq_true.1 hd.2 c hc), h.1⟩, h.2⟩
    · cases h
  · rintro ⟨⟨hne, hd, rfl⟩, hn⟩
    have hall := List.all_eq_true.2 fun c hc => decide_eq_true (hd c hc)
    rw [if_pos ⟨hne, hall⟩, Option.filter_eq_some_iff, decide_eq_true_eq]
    exact ⟨rfl, hn⟩

theorem isDecimal_of_mem_toDigits {n : ℕ} {c : Char} (hc : c ∈ Nat.toDigits 10 n) : IsDecimal c := by
  have hdigit := Nat.isDigit_of_mem_toDigits (by decide) (by decide) hc
  simp only [Char.isDigit, Bool.and_eq_true, decide_eq_true_eq] at hdigit
  exact hdigit

theorem not_isWhitespace_of_isDecimal {c : Char} (h : IsDecimal c) : isWhitespace c = false := by
  have h0 : '0'.toNat = 48 := rfl
  have h9 : '9'.toNat = 57 := rfl
  have hr : '\r'.toNat = 13 := rfl
  have hquad : '\u2000'.toNat = 8192 := rfl
  obtain ⟨hle, hge⟩ := h
  by_contra hw
  rw [Bool.not_eq_false] at hw
  simp only [isWhitespace, Bool.or_eq_true, Bool.and_eq_true, decide_eq_true_eq] at hw
  -- a single character is not between the digits, and neither range meets theirs
  rcases hw with (((((((((rfl | ⟨-, h⟩) | rfl) | rfl) | rfl) | ⟨h, -⟩) | rfl) | rfl) | rfl) | rfl) | rfl
  all_goals first
    | exact absurd hle (by decide)
    | exact absurd hge (by decide)
    | (rw [char_le_iff] at hle hge h; omega)

theorem denotes_toDigits (n : ℕ) : Denotes IsDecimal 10 (Nat.toDigits 10 n) n where
  ne_nil := Nat.toDigits_ne_nil
  digits _ := isDecimal_of_mem_toDigits
  value := by
    have hfold : ∀ (l : Str) (m : ℕ), (∀ c ∈ l, IsDecimal c) →
        valueAfter 10 m l = Nat.ofDigitChars 10 l m := by
      intro l
      induction l with
      | nil => exact fun m _ => Nat.ofDigitChars_nil.symm
      | cons c l ih =>
        intro m hl
        rw [List.forall_mem_cons] at hl
        have hc : digitValue c = c.toNat - '0'.toNat := if_pos hl.1
        show valueAfter 10 (m * 10 + digitValue c) l = _
        rw [ih _ hl.2, Nat.ofDigitChars_cons, hc, Nat.mul_comm]
    rw [hfold _ _ fun c => isDecimal_of_mem_toDigits, Nat.ofDigitChars_ten_toDigits]

/-- **A number is read back from its digits.** -/
theorem parseUnsigned_toDigits {bound n : ℕ} (hn : n < bound) :
    parseUnsigned bound (Nat.toDigits 10 n) = some n := by
  have hplus : (Nat.toDigits 10 n).head? ≠ some '+' := fun h =>
    absurd (isDecimal_of_mem_toDigits (List.mem_of_mem_head? h)) (by decide)
  rw [parseUnsigned_eq_some, dropPlus_of_ne hplus]
  exact ⟨denotes_toDigits n, hn⟩

end MergeReady.Lib.Str
