import Mathlib.Data.List.DropRight
import Mathlib.Data.List.Induction
import MergeReady.Lib.Machine

/-!
# Strings and their byte offsets

A string is the list of its characters, and a position in it is a number of bytes of its UTF-8
encoding.  A string can be cut at a position only where one character ends and the next one starts;
cutting it anywhere else panics.
-/

namespace MergeReady.Lib

/-- A string of Unicode characters. -/
abbrev Str := List Char

namespace Str

/-- The number of bytes of the UTF-8 encoding. -/
def byteLen (s : Str) : ℕ := (s.map Char.utf8Size).sum

@[simp] theorem byteLen_nil : byteLen [] = 0 := rfl

@[simp] theorem byteLen_cons (c : Char) (s : Str) :
    byteLen (c :: s) = c.utf8Size + byteLen s := by
  simp [byteLen]

@[simp] theorem byteLen_append (s t : Str) : byteLen (s ++ t) = byteLen s + byteLen t := by
  simp [byteLen]

theorem byteLen_eq_zero {s : Str} : byteLen s = 0 ↔ s = [] := by
  cases s with
  | nil => simp
  | cons c s =>
    have := c.utf8Size_pos
    rw [byteLen_cons]
    constructor
    · intro h; omega
    · intro h; cases h

/-- Of two cuts of a string, the earlier one cuts the first part of the later one. -/
theorem exists_append_of_byteLen_le {l r l' r' : Str} (h : l ++ r = l' ++ r')
    (hle : byteLen l ≤ byteLen l') : ∃ mid, l' = l ++ mid ∧ r = mid ++ r' := by
  rcases List.append_eq_append_iff.1 h with ⟨mid, hl, hr⟩ | ⟨mid, hl, hr⟩
  · exact ⟨mid, hl, hr⟩
  · have hmid : mid = [] := by
      rw [hl, byteLen_append] at hle
      exact byteLen_eq_zero.1 (by omega)
    subst hmid
    exact ⟨[], by simpa using hl.symm, by simpa using hr.symm⟩

/-- The two parts of a string at a position, when it is one between two characters. -/
def splitAt? : Str → ℕ → Option (Str × Str)
  | s, 0 => some ([], s)
  | [], _ + 1 => none
  | c :: s, n + 1 =>
    if c.utf8Size ≤ n + 1 then
      (splitAt? s (n + 1 - c.utf8Size)).map fun p => (c :: p.1, p.2)
    else none

theorem splitAt?_eq_some {s l r : Str} {n : ℕ} :
    splitAt? s n = some (l, r) ↔ s = l ++ r ∧ byteLen l = n := by
  fun_induction splitAt? s n generalizing l r with
  | case1 s =>
    constructor
    · intro h; cases h; exact ⟨rfl, rfl⟩
    · rintro ⟨rfl, hl⟩
      cases l with
      | nil => rfl
      | cons c l => have := c.utf8Size_pos; rw [byteLen_cons] at hl; omega
  | case2 n =>
    constructor
    · intro h; cases h
    · rintro ⟨h, hl⟩
      obtain ⟨rfl, rfl⟩ := List.nil_eq_append_iff.1 h
      cases hl
  | case3 c s n hc ih =>
    rw [Option.map_eq_some_iff]
    constructor
    · rintro ⟨⟨l', r'⟩, h, hp⟩
      cases hp
      obtain ⟨rfl, hl⟩ := ih.1 h
      refine ⟨rfl, ?_⟩
      rw [byteLen_cons, hl]
      omega
    · rintro ⟨h, hl⟩
      cases l with
      | nil => cases hl
      | cons d l =>
        cases h
        rw [byteLen_cons] at hl
        exact ⟨(l, r), ih.2 ⟨rfl, by omega⟩, rfl⟩
  | case4 c s n hc =>
    constructor
    · intro h; cases h
    · rintro ⟨h, hl⟩
      cases l with
      | nil => cases hl
      | cons d l => cases h; rw [byteLen_cons] at hl; omega

/-- `IsBoundary s n` — a character of `s` starts at byte `n`, or `s` ends there. -/
def IsBoundary (s : Str) (n : ℕ) : Prop := ∃ l r, s = l ++ r ∧ byteLen l = n

/-! ## Slices -/

/-- `&s[n..]` -/
def sliceFrom (s : Str) (n : ℕ) : Fallible Str :=
  match splitAt? s n with
  | some (_, r) => .ok r
  | none => .error .charBoundary

/-- `&s[..n]` -/
def sliceTo (s : Str) (n : ℕ) : Fallible Str :=
  match splitAt? s n with
  | some (l, _) => .ok l
  | none => .error .charBoundary

/-- `&s[m..n]` -/
def slice (s : Str) (m n : ℕ) : Fallible Str := do
  let r ← sliceFrom s m
  if m ≤ n then sliceTo r (n - m) else .error .charBoundary

theorem sliceFrom_eq_ok {s r : Str} {n : ℕ} :
    sliceFrom s n = .ok r ↔ ∃ l, s = l ++ r ∧ byteLen l = n := by
  unfold sliceFrom
  split
  · next l r' h =>
    constructor
    · intro hr; cases hr; exact ⟨l, splitAt?_eq_some.1 h⟩
    · rintro ⟨l', hl'⟩; rw [splitAt?_eq_some.2 hl'] at h; cases h; rfl
  · next h =>
    constructor
    · intro hr; cases hr
    · rintro ⟨l', hl'⟩; rw [splitAt?_eq_some.2 hl'] at h; cases h

theorem sliceTo_eq_ok {s l : Str} {n : ℕ} :
    sliceTo s n = .ok l ↔ ∃ r, s = l ++ r ∧ byteLen l = n := by
  unfold sliceTo
  split
  · next l' r h =>
    constructor
    · intro hl; cases hl; exact ⟨r, splitAt?_eq_some.1 h⟩
    · rintro ⟨r', hr'⟩; rw [splitAt?_eq_some.2 hr'] at h; cases h; rfl
  · next h =>
    constructor
    · intro hl; cases hl
    · rintro ⟨r', hr'⟩; rw [splitAt?_eq_some.2 hr'] at h; cases h

theorem slice_eq_ok {s t : Str} {m n : ℕ} :
    slice s m n = .ok t ↔ ∃ l r, s = l ++ (t ++ r) ∧ byteLen l = m ∧ m + byteLen t = n := by
  unfold slice
  rw [bind_eq_ok]
  constructor
  · rintro ⟨r, hr, ht⟩
    obtain ⟨l, rfl, hl⟩ := sliceFrom_eq_ok.1 hr
    by_cases hmn : m ≤ n
    · rw [if_pos hmn] at ht
      obtain ⟨r', rfl, ht⟩ := sliceTo_eq_ok.1 ht
      exact ⟨l, r', rfl, hl, by omega⟩
    · rw [if_neg hmn] at ht
      cases ht
  · rintro ⟨l, r, rfl, hl, hn⟩
    refine ⟨t ++ r, sliceFrom_eq_ok.2 ⟨l, rfl, hl⟩, ?_⟩
    rw [if_pos (by omega)]
    exact sliceTo_eq_ok.2 ⟨r, rfl, by omega⟩

theorem isBoundary_of_slice {s t : Str} {m n : ℕ} (h : slice s m n = .ok t) : IsBoundary s n := by
  obtain ⟨l, r, rfl, hl, hn⟩ := slice_eq_ok.1 h
  refine ⟨l ++ t, r, (List.append_assoc _ _ _).symm, ?_⟩
  rw [byteLen_append]
  omega

/-! ## Searching -/

/-- `s.find(c)`: the position of the first `c`. -/
def find (c : Char) : Str → Option ℕ
  | [] => none
  | d :: s => if d = c then some 0 else (find c s).map (d.utf8Size + ·)

theorem find_eq_none {c : Char} {s : Str} : find c s = none ↔ c ∉ s := by
  induction s with
  | nil => simp [find]
  | cons d s ih =>
    unfold find
    by_cases h : d = c
    · simp [h]
    · rw [if_neg h, Option.map_eq_none_iff, ih, List.mem_cons, not_or]
      exact ⟨fun hs => ⟨Ne.symm h, hs⟩, fun hs => hs.2⟩

theorem find_append {c : Char} {l : Str} (hc : c ∉ l) (r : Str) :
    find c (l ++ r) = (find c r).map (byteLen l + ·) := by
  induction l with
  | nil => simp
  | cons d l ih =>
    rw [List.mem_cons, not_or] at hc
    rw [List.cons_append, find, if_neg (Ne.symm hc.1), ih hc.2, Option.map_map]
    congr 1
    funext n
    show d.utf8Size + (byteLen l + n) = byteLen (d :: l) + n
    rw [byteLen_cons]
    omega

/-- The position found is that of the first occurrence. -/
theorem find_append_cons {c : Char} {l r : Str} (hc : c ∉ l) :
    find c (l ++ c :: r) = some (byteLen l) := by
  rw [find_append hc, find, if_pos rfl]
  rfl

theorem byteLen_le_of_find {c : Char} {l r : Str} {n : ℕ} (hc : c ∉ l)
    (h : find c (l ++ r) = some n) : byteLen l ≤ n := by
  rw [find_append hc, Option.map_eq_some_iff] at h
  obtain ⟨m, -, rfl⟩ := h
  exact Nat.le_add_right _ _

/-- `s.strip_prefix(p)` -/
def stripPrefix : Str → Str → Option Str
  | [], s => some s
  | _ :: _, [] => none
  | p :: ps, c :: s => if p = c then stripPrefix ps s else none

theorem stripPrefix_eq_some {p s t : Str} : stripPrefix p s = some t ↔ s = p ++ t := by
  fun_induction stripPrefix p s with
  | case1 s => simp
  | case2 p ps => simp
  | case3 ps c s ih => simp [ih]
  | case4 p ps c s h => simp [Ne.symm h]

/-! ## Words and numbers -/

/-- `char::is_whitespace` -/
def isWhitespace (c : Char) : Bool :=
  c = ' ' || ('\t' ≤ c && c ≤ '\r') || c = '\x85' || c = '\xa0' || c = '\u1680' ||
    ('\u2000' ≤ c && c ≤ '\u200a') || c = '\u2028' || c = '\u2029' || c = '\u202f' ||
    c = '\u205f' || c = '\u3000'

/-- `s.split_whitespace()` -/
def splitWhitespace (s : Str) : List Str := (s.splitOnP isWhitespace).filter (· ≠ [])

/-- `s.to_ascii_lowercase()` -/
def toAsciiLowercase (s : Str) : Str := s.map Char.toLower

/-- `c.to_digit(radix)` -/
def toDigit (radix : ℕ) (c : Char) : Option ℕ :=
  let digit :=
    if '0' ≤ c ∧ c ≤ '9' then some (c.toNat - '0'.toNat)
    else if 'a' ≤ c ∧ c ≤ 'z' then some (c.toNat - 'a'.toNat + 10)
    else if 'A' ≤ c ∧ c ≤ 'Z' then some (c.toNat - 'A'.toNat + 10)
    else none
  digit.filter (· < radix)

/-- The digits after what is read so far, as long as the number fits into a byte. -/
def readDigits (radix : ℕ) : ℕ → Str → Option ℕ
  | n, [] => some n
  | n, c :: s => do
    let d ← toDigit radix c
    if n * radix + d < 256 then readDigits radix (n * radix + d) s else none

/-- `u8::from_str_radix(s, radix).ok()`: digits after an optional `+`. -/
def fromStrRadix (radix : ℕ) (s : Str) : Option UInt8 :=
  let digits := match s with
    | '+' :: c :: s => c :: s
    | s => s
  if digits = [] then none else (readDigits radix 0 digits).map UInt8.ofNat

/-! ## White space at the ends -/

/-- `s.trim()` -/
def trim (s : Str) : Str := (s.dropWhile isWhitespace).rdropWhile isWhitespace

/-- White space at the end of a text that has none there itself is trimmed off. -/
theorem trim_append {s t : Str} (hfirst : s.dropWhile isWhitespace = s)
    (hlast : s.rdropWhile isWhitespace = s) (ht : ∀ c ∈ t, isWhitespace c = true) :
    trim (s ++ t) = s := by
  have hr : ∀ u : Str, (∀ c ∈ u, isWhitespace c = true) →
      (s ++ u).rdropWhile isWhitespace = s := by
    intro u
    induction u using List.reverseRecOn with
    | nil => exact fun _ => by rw [List.append_nil, hlast]
    | append_singleton u c ih =>
      intro hu
      rw [← List.append_assoc, List.rdropWhile_concat_pos _ _ _ (hu c (by simp))]
      exact ih fun d hd => hu d (List.mem_append_left _ hd)
  cases s with
  | nil =>
    rw [trim, List.nil_append, List.dropWhile_eq_nil_iff.2 ht]
    rfl
  | cons c s =>
    have hc : isWhitespace c = false := by
      by_contra h
      rw [List.dropWhile_cons_of_pos (by simpa using h)] at hfirst
      have := (List.dropWhile_sublist (l := s) isWhitespace).length_le
      rw [hfirst, List.length_cons] at this
      omega
    rw [trim, List.cons_append, List.dropWhile_cons_of_neg (by simp [hc]), ← List.cons_append]
    exact hr t ht

theorem trim_eq_self {s : Str} (h : ∀ c ∈ s, isWhitespace c = false) : trim s = s := by
  have hdrop : ∀ t : Str, (∀ c ∈ t, isWhitespace c = false) → t.dropWhile isWhitespace = t := by
    intro t ht
    cases t with
    | nil => rfl
    | cons c t => exact List.dropWhile_cons_of_neg (by rw [ht c List.mem_cons_self]; decide)
  rw [trim, hdrop s h, List.rdropWhile, hdrop s.reverse fun c hc => h c (List.mem_reverse.1 hc),
    List.reverse_reverse]

/-! ## Lines -/

/-- `s.strip_suffix(c)` -/
def stripSuffix (c : Char) (s : Str) : Option Str :=
  if s.getLast? = some c then some s.dropLast else none

theorem stripSuffix_append (c : Char) (s : Str) : stripSuffix c (s ++ [c]) = some s := by
  simp [stripSuffix]

theorem stripSuffix_of_ne {c : Char} {s : Str} (h : s.getLast? ≠ some c) : stripSuffix c s = none :=
  if_neg h

/-- `s.split_inclusive(c)`: the parts of a text, with the `c` that ends each of them. -/
def splitInclusive (c : Char) : Str → List Str
  | [] => []
  | d :: s =>
    if d = c then [d] :: splitInclusive c s
    else
      match splitInclusive c s with
      | [] => [[d]]
      | part :: parts => (d :: part) :: parts

theorem splitInclusive_append_cons {c : Char} {s : Str} (hc : c ∉ s) (t : Str) :
    splitInclusive c (s ++ c :: t) = (s ++ [c]) :: splitInclusive c t := by
  induction s with
  | nil => simp [splitInclusive]
  | cons d s ih =>
    rw [List.mem_cons, not_or] at hc
    rw [List.cons_append, splitInclusive, if_neg (Ne.symm hc.1), ih hc.2]
    rfl

/-- A line without the line feed, or the carriage return and the line feed, at its end. -/
def chompLine (line : Str) : Str :=
  match stripSuffix '\n' line with
  | none => line
  | some line => (stripSuffix '\r' line).getD line

/-- `s.lines()` -/
def lines (s : Str) : List Str := (splitInclusive '\n' s).map chompLine

/-- Texts of one line each, with a line feed after each of them, are the lines of the whole. -/
theorem lines_flatMap {texts : List Str} (hlf : ∀ s ∈ texts, '\n' ∉ s)
    (hcr : ∀ s ∈ texts, s.getLast? ≠ some '\r') :
    lines (texts.flatMap fun s => s ++ ['\n']) = texts := by
  unfold lines
  induction texts with
  | nil => rfl
  | cons s texts ih =>
    have hs : chompLine (s ++ ['\n']) = s := by
      rw [chompLine, stripSuffix_append]
      dsimp only
      rw [stripSuffix_of_ne (hcr s List.mem_cons_self)]
      rfl
    have ih := ih (fun t ht => hlf t (List.mem_cons_of_mem _ ht))
      (fun t ht => hcr t (List.mem_cons_of_mem _ ht))
    rw [List.flatMap_cons, List.append_assoc, List.singleton_append,
      splitInclusive_append_cons (hlf s List.mem_cons_self), List.map_cons, hs, ih]

/-! ## Joining -/

/-- What holds of the parts and the separator, and of texts put together, holds of the parts joined. -/
theorem intercalate_induction {P : Str → Prop} {sep : Str} (hnil : P [])
    (happend : ∀ s t, P s → P t → P (s ++ t)) (hsep : P sep) {parts : List Str}
    (hparts : ∀ s ∈ parts, P s) : P (sep.intercalate parts) := by
  induction parts with
  | nil => exact hnil
  | cons s parts ih =>
    have hs := hparts s List.mem_cons_self
    have hrest := ih fun t ht => hparts t (List.mem_cons_of_mem _ ht)
    cases parts with
    | nil =>
      rw [List.intercalate_singleton]
      exact hs
    | cons t parts =>
      rw [List.intercalate_cons_cons]
      exact happend _ _ (happend _ _ hs hsep) hrest

end Str

end MergeReady.Lib
