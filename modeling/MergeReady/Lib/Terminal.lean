import Mathlib.Data.List.TakeWhile
import Mathlib.Tactic.Common

/-!
# Terminal control sequences

Text for a terminal as a list of tokens: characters, control sequences `ESC [ body final`, and
escapes that start none.  A text is safe when the only control characters in it are those that start
a well-formed colour code.  `safe_flatMap_keep_iff` says when a filter that keeps colour codes and
plain characters makes a text safe.
-/

namespace MergeReady.Lib.Terminal

def ESC : Char := '\x1b'

/-- C0, DEL and C1. -/
def isControl (c : Char) : Bool :=
  decide (c.toNat ≤ 0x1f) || decide (0x7f ≤ c.toNat ∧ c.toNat ≤ 0x9f)

/-- The characters that end a control sequence. -/
def isFinal (c : Char) : Bool := decide (0x40 ≤ c.toNat ∧ c.toNat ≤ 0x7e)

def isParameter (c : Char) : Bool := decide (0x30 ≤ c.toNat ∧ c.toNat ≤ 0x3f)

def isIntermediate (c : Char) : Bool := decide (0x20 ≤ c.toNat ∧ c.toNat ≤ 0x2f)

theorem isControl_eq_false_iff {c : Char} :
    isControl c = false ↔ 0x20 ≤ c.toNat ∧ (c.toNat < 0x7f ∨ 0x9f < c.toNat) := by
  unfold isControl
  rw [Bool.or_eq_false_iff, decide_eq_false_iff_not, decide_eq_false_iff_not]
  omega

theorem not_isControl_of_isParameter {c : Char} (h : isParameter c = true) :
    isControl c = false := by
  have hrange := of_decide_eq_true h
  rw [isControl_eq_false_iff]
  omega

theorem not_isControl_of_isIntermediate {c : Char} (h : isIntermediate c = true) :
    isControl c = false := by
  have hrange := of_decide_eq_true h
  rw [isControl_eq_false_iff]
  omega

theorem not_isControl_of_all {cs : List Char} (h : (cs.all fun c => !isControl c) = true) :
    ∀ c ∈ cs, isControl c = false := by
  simpa using h

theorem not_isControl_of_isAlphanum {c : Char} (h : c.isAlphanum = true) : isControl c = false := by
  have hA : 'A'.val.toNat = 65 := rfl
  have hZ : 'Z'.val.toNat = 90 := rfl
  have ha : 'a'.val.toNat = 97 := rfl
  have hz : 'z'.val.toNat = 122 := rfl
  have h0 : '0'.val.toNat = 48 := rfl
  have h9 : '9'.val.toNat = 57 := rfl
  delta Char.isAlphanum Char.isAlpha Char.isUpper Char.isLower Char.isDigit at h
  simp only [Bool.or_eq_true, Bool.and_eq_true, decide_eq_true_eq, ge_iff_le,
    UInt32.le_iff_toNat_le] at h
  rw [isControl_eq_false_iff, Char.toNat]
  omega

theorem isAlphanum_of_mem_toString {n : UInt64} {c : Char} (h : c ∈ (toString n).toList) :
    c.isAlphanum = true := by
  have hrepr : (toString n).toList = Nat.toDigits 10 n.toNat := Nat.toList_repr
  rw [hrepr] at h
  have hdigit : c.isDigit = true := Nat.isDigit_of_mem_toDigits (by decide) (by decide) h
  show (c.isAlpha || c.isDigit) = true
  rw [hdigit, Bool.or_true]

theorem not_isControl_of_mem_toString {n : UInt64} {c : Char} (h : c ∈ (toString n).toList) :
    isControl c = false :=
  not_isControl_of_isAlphanum (isAlphanum_of_mem_toString h)

/-- What holds at every place of a text holds at its first place and at every later one. -/
theorem forall_suffix_cons {P : Char → List Char → Prop} {c : Char} {cs : List Char} :
    (∀ d after, d :: after <:+ c :: cs → P d after) ↔
      P c cs ∧ ∀ d after, d :: after <:+ cs → P d after := by
  constructor
  · intro h
    exact ⟨h c cs (List.suffix_refl _), fun d after hd => h d after (hd.trans (List.suffix_cons c cs))⟩
  · rintro ⟨hc, hcs⟩ d after hd
    rcases List.suffix_cons_iff.1 hd with heq | hd
    · obtain ⟨rfl, rfl⟩ := List.cons.inj heq
      exact hc
    · exact hcs d after hd

/-! ## Tokens -/

inductive Token
  /-- a character, not `ESC` -/
  | text (c : Char)
  /-- an `ESC` that starts no control sequence -/
  | escape
  /-- `ESC [ body final` -/
  | sequence (body : List Char) (final : Char)
  /-- `ESC [ body` and the end of the text -/
  | unfinished (body : List Char)
deriving DecidableEq

/-- The part of a text before its first final character. -/
def body (cs : List Char) : List Char := cs.takeWhile fun c => !isFinal c

/-- The part of a text from its first final character on. -/
def fromFinal (cs : List Char) : List Char := cs.dropWhile fun c => !isFinal c

theorem length_fromFinal_le (cs : List Char) : (fromFinal cs).length ≤ cs.length :=
  List.length_dropWhile_le _ _

theorem not_isFinal_of_mem_body {cs : List Char} {c : Char} (h : c ∈ body cs) :
    isFinal c = false := by
  simpa using List.mem_takeWhile_imp h

theorem body_of_final {b : List Char} {f : Char} {rest : List Char}
    (hb : ∀ c ∈ b, isFinal c = false) (hf : isFinal f = true) : body (b ++ f :: rest) = b := by
  unfold body
  rw [List.takeWhile_append_of_pos (fun c hc => by simp [hb c hc]),
    List.takeWhile_cons_of_neg (by simp [hf]), List.append_nil]

/-- The tokens of a text. -/
def lex : List Char → List Token
  | [] => []
  | c :: cs =>
    if c = ESC then
      match cs with
      | '[' :: cs =>
        match _h : fromFinal cs with
        | [] => [.unfinished cs]
        | final :: rest => .sequence (body cs) final :: lex rest
      | cs => .escape :: lex cs
    else .text c :: lex cs
termination_by cs => cs.length
decreasing_by
  · have := length_fromFinal_le cs
    simp_all only [List.length_cons]
    omega
  · simp
  · simp

/-- A token as the lexer gives it. -/
def Token.WellFormed : Token → Prop
  | .text c => c ≠ ESC
  | .escape => True
  | .sequence body _ => ∀ c ∈ body, isFinal c = false
  | .unfinished _ => True

theorem wellFormed_of_mem_lex {cs : List Char} {t : Token} (h : t ∈ lex cs) : t.WellFormed := by
  fun_induction lex cs with
  | case1 => cases h
  | case2 =>
    obtain rfl := List.mem_singleton.1 h
    trivial
  | case3 cs final rest hrest ih =>
    rcases List.mem_cons.1 h with rfl | h
    · exact fun c hc => not_isFinal_of_mem_body hc
    · exact ih h
  | case4 cs hcs ih =>
    rcases List.mem_cons.1 h with rfl | h
    · trivial
    · exact ih h
  | case5 c cs hc ih =>
    rcases List.mem_cons.1 h with rfl | h
    · exact hc
    · exact ih h

/-! ## Colour codes -/

/-- Parameter characters, then intermediate characters. -/
def SgrBody (b : List Char) : Prop :=
  ∃ parameters intermediates, b = parameters ++ intermediates ∧
    (∀ c ∈ parameters, isParameter c = true) ∧ ∀ c ∈ intermediates, isIntermediate c = true

/-- The text starts with a complete colour code. -/
def StartsSgr (cs : List Char) : Prop :=
  ∃ b rest, cs = ESC :: '[' :: (b ++ 'm' :: rest) ∧ SgrBody b

/-- Every control character of the text starts a complete colour code. -/
def Safe (cs : List Char) : Prop :=
  ∀ c after, c :: after <:+ cs → isControl c = true → StartsSgr (c :: after)

theorem SgrBody.not_isControl {b : List Char} (h : SgrBody b) {c : Char} (hc : c ∈ b) :
    isControl c = false := by
  obtain ⟨parameters, intermediates, rfl, hp, hi⟩ := h
  rcases List.mem_append.1 hc with hc | hc
  · exact not_isControl_of_isParameter (hp c hc)
  · exact not_isControl_of_isIntermediate (hi c hc)

theorem SgrBody.not_isFinal {b : List Char} (h : SgrBody b) {c : Char} (hc : c ∈ b) :
    isFinal c = false := by
  obtain ⟨parameters, intermediates, rfl, hp, hi⟩ := h
  unfold isFinal
  refine decide_eq_false ?_
  rcases List.mem_append.1 hc with hc | hc
  · have := of_decide_eq_true (hp c hc)
    omega
  · have := of_decide_eq_true (hi c hc)
    omega

theorem startsSgr_iff {b rest : List Char} (hb : ∀ c ∈ b, isFinal c = false) :
    StartsSgr (ESC :: '[' :: (b ++ 'm' :: rest)) ↔ SgrBody b := by
  constructor
  · rintro ⟨b', rest', heq, hb'⟩
    have heq : b ++ 'm' :: rest = b' ++ 'm' :: rest' := by simpa using heq
    have hbody := congrArg body heq
    rw [body_of_final hb rfl, body_of_final (fun c hc => hb'.not_isFinal hc) rfl] at hbody
    exact hbody ▸ hb'
  · intro h
    exact ⟨b, rest, rfl, h⟩

@[simp] theorem safe_nil : Safe [] := by
  intro c after h
  simp at h

theorem safe_cons {c : Char} {cs : List Char} :
    Safe (c :: cs) ↔ (isControl c = true → StartsSgr (c :: cs)) ∧ Safe cs :=
  forall_suffix_cons

theorem safe_append_of_plain {b cs : List Char} (hb : ∀ c ∈ b, isControl c = false) :
    Safe (b ++ cs) ↔ Safe cs := by
  induction b with
  | nil => rfl
  | cons c b ih =>
    rw [List.cons_append, safe_cons, ih fun d hd => hb d (List.mem_cons_of_mem _ hd)]
    simp [hb c List.mem_cons_self]

/-- A safe text has no control character but `ESC`: no line break, no bell, no C1 introducer. -/
theorem Safe.eq_ESC {cs : List Char} (h : Safe cs) {c : Char} (hc : c ∈ cs)
    (hctl : isControl c = true) : c = ESC := by
  obtain ⟨before, after, rfl⟩ := List.append_of_mem hc
  obtain ⟨b, rest, heq, -⟩ := h c after (List.suffix_append _ _) hctl
  exact (List.cons.inj heq).1

/-! ## Keeping the colours -/

/-- What a filter keeps of a token: plain characters and colour codes. -/
def Token.keep : Token → List Char
  | .text c => if isControl c then [] else [c]
  | .escape => []
  | .sequence body final => if final = 'm' then ESC :: '[' :: (body ++ [final]) else []
  | .unfinished _ => []

theorem Token.not_isControl_of_mem_keep_text {c d : Char} (h : d ∈ (Token.text c).keep) :
    isControl d = false := by
  change d ∈ (if isControl c then [] else [c]) at h
  split at h
  · cases h
  · rename_i hc
    obtain rfl := List.mem_singleton.1 h
    simpa using hc

theorem Token.keep_colour (b : List Char) :
    (Token.sequence b 'm').keep = ESC :: '[' :: (b ++ ['m']) := by
  simp [Token.keep]

theorem Token.keep_of_ne {b : List Char} {final : Char} (h : final ≠ 'm') :
    (Token.sequence b final).keep = [] := by
  simp [Token.keep, h]

/-- A colour code in front of a safe text. -/
theorem safe_colour_iff {b cs : List Char} (hb : ∀ c ∈ b, isFinal c = false) (hcs : Safe cs) :
    Safe (ESC :: '[' :: (b ++ 'm' :: cs)) ↔ SgrBody b := by
  rw [safe_cons, startsSgr_iff hb]
  constructor
  · rintro ⟨h, -⟩
    exact h rfl
  · intro h
    refine ⟨fun _ => h, ?_⟩
    rw [safe_cons, safe_append_of_plain fun c hc => h.not_isControl hc, safe_cons]
    exact ⟨nofun, nofun, hcs⟩

/-- What follows a colour code of a safe text is safe. -/
theorem Safe.of_colour {b cs : List Char} (h : Safe (ESC :: '[' :: (b ++ 'm' :: cs))) : Safe cs := by
  intro c after hc
  refine h c after (hc.trans ?_)
  exact ⟨ESC :: '[' :: (b ++ ['m']), by simp⟩

/-- **When the colours kept make a safe text**: exactly when each of them is well formed. -/
theorem safe_flatMap_keep_iff {ts : List Token} (hts : ∀ t ∈ ts, t.WellFormed) :
    Safe (ts.flatMap Token.keep) ↔ ∀ b, Token.sequence b 'm' ∈ ts → SgrBody b := by
  induction ts with
  | nil => simp
  | cons t ts ih =>
    have ih := ih fun u hu => hts u (List.mem_cons_of_mem _ hu)
    have ht := hts t List.mem_cons_self
    rw [List.flatMap_cons]
    cases t with
    | text c =>
      rw [safe_append_of_plain fun d hd => Token.not_isControl_of_mem_keep_text hd, ih]
      simp
    | escape => simpa [Token.keep] using ih
    | unfinished b => simpa [Token.keep] using ih
    | sequence b final =>
      by_cases hm : final = 'm'
      · subst hm
        rw [Token.keep_colour, List.cons_append, List.cons_append, List.append_assoc,
          List.singleton_append]
        constructor
        · intro h b' hb'
          have hrest := h.of_colour
          rcases List.mem_cons.1 hb' with heq | hb'
          · obtain ⟨rfl, -⟩ := Token.sequence.inj heq
            exact (safe_colour_iff ht hrest).1 h
          · exact ih.1 hrest b' hb'
        · intro h
          have hrest := ih.2 fun b' hb' => h b' (List.mem_cons_of_mem _ hb')
          exact (safe_colour_iff ht hrest).2 (h b List.mem_cons_self)
      · rw [Token.keep_of_ne hm, List.nil_append, ih]
        constructor
        · intro h b' hb'
          rcases List.mem_cons.1 hb' with heq | hb'
          · exact absurd (Token.sequence.inj heq).2.symm hm
          · exact h b' hb'
        · intro h b' hb'
          exact h b' (List.mem_cons_of_mem _ hb')

/-! ## Coloured texts -/

/-- A text of plain characters and complete sequences that end in `m`. -/
inductive Coloured : List Char → Prop
  | nil : Coloured []
  | text {c : Char} {cs : List Char} : isControl c = false → Coloured cs → Coloured (c :: cs)
  | colour {b cs : List Char} : (∀ c ∈ b, isFinal c = false) → Coloured cs →
      Coloured (ESC :: '[' :: (b ++ 'm' :: cs))

theorem Coloured.append {cs ds : List Char} (h : Coloured cs) (hds : Coloured ds) :
    Coloured (cs ++ ds) := by
  induction h with
  | nil => exact hds
  | text hc _ ih => exact .text hc ih
  | colour hb _ ih =>
    rw [List.cons_append, List.cons_append, List.append_assoc]
    exact .colour hb ih

theorem coloured_of_plain {cs : List Char} (h : ∀ c ∈ cs, isControl c = false) : Coloured cs := by
  induction cs with
  | nil => exact .nil
  | cons c cs ih =>
    exact .text (h c List.mem_cons_self) (ih fun d hd => h d (List.mem_cons_of_mem _ hd))

theorem fromFinal_of_final {b : List Char} {f : Char} {rest : List Char}
    (hb : ∀ c ∈ b, isFinal c = false) (hf : isFinal f = true) :
    fromFinal (b ++ f :: rest) = f :: rest := by
  unfold fromFinal
  rw [List.dropWhile_append_of_pos (fun c hc => by simp [hb c hc]),
    List.dropWhile_cons_of_neg (by simp [hf])]

theorem lex_colour {b cs : List Char} (hb : ∀ c ∈ b, isFinal c = false) :
    lex (ESC :: '[' :: (b ++ 'm' :: cs)) = .sequence b 'm' :: lex cs := by
  have hfrom : fromFinal (b ++ 'm' :: cs) = 'm' :: cs :=
    fromFinal_of_final hb (show isFinal 'm' = true from rfl)
  rw [lex, if_pos rfl]
  split
  · rename_i hnil
    rw [hfrom] at hnil
    cases hnil
  · rename_i final rest hrest
    rw [hfrom] at hrest
    cases hrest
    rw [body_of_final hb rfl]

/-- **Colours and plain characters are kept as they are.** -/
theorem Coloured.flatMap_keep_lex {cs : List Char} (h : Coloured cs) :
    (lex cs).flatMap Token.keep = cs := by
  induction h with
  | nil =>
    rw [lex]
    rfl
  | @text c cs hc _ ih =>
    have hne : c ≠ ESC := by
      rintro rfl
      cases hc
    rw [lex.eq_def]
    dsimp only
    rw [if_neg hne, List.flatMap_cons, ih, Token.keep, hc]
    rfl
  | @colour b cs hb _ ih =>
    rw [lex_colour hb, List.flatMap_cons, ih, Token.keep_colour]
    simp

end MergeReady.Lib.Terminal
