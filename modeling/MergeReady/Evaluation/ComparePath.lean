import MergeReady.Evaluation.Gh
import MergeReady.Lib.Digits
import MergeReady.Lib.Utf8

/-!
# The path of the compare call

A branch name is percent-encoded byte by byte, and the dots of the separator are characters that are
kept.  No valid branch name has two dots in a row or ends with one, so the first three dots of the last
segment are the separator, and the two names can be read back from the path.
-/

namespace MergeReady.Evaluation

open MergeReady.Lib MergeReady.Lib.Str

/-! ## Cutting a text at a separator -/

/-- `s.split_once(sep)` -/
def splitOnce (sep : Str) : Str → Option (Str × Str)
  | [] => (stripPrefix sep []).map fun rest => ([], rest)
  | c :: s =>
    match stripPrefix sep (c :: s) with
    | some rest => some ([], rest)
    | none => (splitOnce sep s).map fun p => (c :: p.1, p.2)

theorem splitOnce_cons_of_eq_none {sep : Str} {c : Char} {s : Str}
    (h : stripPrefix sep (c :: s) = none) :
    splitOnce sep (c :: s) = (splitOnce sep s).map fun p => (c :: p.1, p.2) := by
  rw [splitOnce, h]

theorem splitOnce_of_prefix (sep r : Str) : splitOnce sep (sep ++ r) = some ([], r) := by
  have h : stripPrefix sep (sep ++ r) = some r := stripPrefix_eq_some.2 rfl
  cases hs : sep ++ r with
  | nil =>
    rw [hs] at h
    rw [splitOnce, h]
    rfl
  | cons c s =>
    rw [hs] at h
    rw [splitOnce, h]

/-- A text without the first character of the separator is skipped. -/
theorem splitOnce_append {d : Char} {sep : Str} {t : Str} (ht : d ∉ t) (u : Str) :
    splitOnce (d :: sep) (t ++ u) = (splitOnce (d :: sep) u).map fun p => (t ++ p.1, p.2) := by
  induction t with
  | nil => simp
  | cons c t ih =>
    rw [List.mem_cons, not_or] at ht
    have hne : stripPrefix (d :: sep) (c :: (t ++ u)) = none := if_neg ht.1
    rw [List.cons_append, splitOnce_cons_of_eq_none hne, ih ht.2, Option.map_map]
    rfl

/-- The text after the last `/`. -/
def lastSegment (path : Str) : Str := path.rtakeWhile (· ≠ '/')

theorem lastSegment_append {t : Str} (h : '/' ∉ t) (path : Str) :
    lastSegment (path ++ '/' :: t) = t := by
  have hpos : ∀ c ∈ t.reverse, decide (c ≠ '/') = true := by
    intro c hc
    refine decide_eq_true ?_
    rintro rfl
    exact h (List.mem_reverse.1 hc)
  unfold lastSegment List.rtakeWhile
  rw [List.reverse_append, List.reverse_cons, List.append_assoc, List.takeWhile_append_of_pos hpos,
    List.singleton_append, List.takeWhile_cons_of_neg (by simp), List.append_nil, List.reverse_reverse]

/-! ## Percent-encoding -/

def IsUpperHex (c : Char) : Prop := IsDecimal c ∨ ('A' ≤ c ∧ c ≤ 'F')

/-- The characters that RFC 3986 calls unreserved. -/
def IsUnreservedChar (c : Char) : Prop :=
  IsDecimal c ∨ ('A' ≤ c ∧ c ≤ 'Z') ∨ ('a' ≤ c ∧ c ≤ 'z') ∨ c ∈ ['-', '.', '_', '~']

/-- `Encoded s` — the text consists of unreserved characters and of `%` with two upper-case
hexadecimal digits. -/
inductive Encoded : Str → Prop
  | nil : Encoded []
  | plain {c : Char} {s : Str} : IsUnreservedChar c → Encoded s → Encoded (c :: s)
  | escaped {a b : Char} {s : Str} :
      IsUpperHex a → IsUpperHex b → Encoded s → Encoded ('%' :: a :: b :: s)

/-- The bytes that a percent-encoded text stands for. -/
def percentDecode : Str → Option (List UInt8)
  | [] => some []
  | '%' :: a :: b :: s => do
    let high ← toDigit 16 a
    let low ← toDigit 16 b
    let bytes ← percentDecode s
    some (UInt8.ofNat (16 * high + low) :: bytes)
  | c :: s => (percentDecode s).map fun bytes => String.utf8EncodeChar c ++ bytes

/-- What `encode_path_segment` makes of the characters of a text. -/
def encodeChars (s : Str) : Str := (utf8 s).flatMap encodeByte

theorem toUTF8_eq (s : String) : s.toUTF8.data.toList = utf8 s.toList := by
  rw [String.toUTF8_eq_toByteArray, ← String.utf8Encode_toList, List.utf8Encode,
    List.data_toByteArray]
  rfl

theorem toList_encodePathSegment (input : String) :
    (encodePathSegment input).toList = encodeChars input.toList := by
  unfold encodePathSegment encodeChars
  rw [String.toList_ofList, toUTF8_eq]

theorem encodeChars_cons (c : Char) (s : Str) :
    encodeChars (c :: s) = (String.utf8EncodeChar c).flatMap encodeByte ++ encodeChars s := by
  unfold encodeChars utf8
  rw [List.flatMap_cons, List.flatMap_append]

/-! ## One byte -/

/-- A digit of a byte is written in upper case and read back. -/
theorem hexUpper_spec (n : Fin 16) :
    IsUpperHex (hexUpper (UInt8.ofNat n)) ∧ toDigit 16 (hexUpper (UInt8.ofNat n)) = some n.val := by
  unfold IsUpperHex
  revert n
  decide

theorem hexUpper_of_lt {nibble : UInt8} (h : nibble.toNat < 16) :
    IsUpperHex (hexUpper nibble) ∧ toDigit 16 (hexUpper nibble) = some nibble.toNat := by
  have hspec := hexUpper_spec ⟨nibble.toNat, h⟩
  rwa [show UInt8.ofNat nibble.toNat = nibble from UInt8.ofNat_toNat] at hspec

/-- A byte is made of its two digits. -/
theorem byte_halves (b : UInt8) :
    (b >>> 4).toNat < 16 ∧ (b &&& 0x0f).toNat < 16 ∧
      16 * (b >>> 4).toNat + (b &&& 0x0f).toNat = b.toNat := by
  have hlt := b.toNat_lt
  have hhigh : (b >>> 4).toNat = b.toNat / 16 := by
    rw [UInt8.toNat_shiftRight, Nat.shiftRight_eq_div_pow]
    rfl
  have hlow : (b &&& 0x0f).toNat = b.toNat % 16 := by
    rw [UInt8.toNat_and]
    exact Nat.and_two_pow_sub_one_eq_mod b.toNat 4
  rw [hhigh, hlow]
  omega

theorem toNat_ofNat_of_lt {n : ℕ} (h : n < 128) : (Char.ofNat n).toNat = n := by
  have hvalid : n.isValidChar := .inl (by omega)
  unfold Char.ofNat
  rw [dif_pos hvalid]
  rfl

/-- The code points of the unreserved characters. -/
theorem isUnreservedChar_iff {c : Char} : IsUnreservedChar c ↔
    (48 ≤ c.toNat ∧ c.toNat ≤ 57) ∨ (65 ≤ c.toNat ∧ c.toNat ≤ 90) ∨
      (97 ≤ c.toNat ∧ c.toNat ≤ 122) ∨ c.toNat = 45 ∨ c.toNat = 46 ∨ c.toNat = 95 ∨
        c.toNat = 126 := by
  unfold IsUnreservedChar IsDecimal
  simp only [List.mem_cons, List.not_mem_nil, or_false, ← Char.toNat_inj, char_le_iff]
  exact Iff.rfl

/-- A byte that is kept is an unreserved character. -/
theorem isUnreserved_spec {b : UInt8} (h : isUnreserved b = true) :
    b.toNat < 128 ∧ IsUnreservedChar (Char.ofNat b.toNat) := by
  have hcases : (48 ≤ b.toNat ∧ b.toNat ≤ 57) ∨ (65 ≤ b.toNat ∧ b.toNat ≤ 90) ∨
      (97 ≤ b.toNat ∧ b.toNat ≤ 122) ∨ b.toNat = 45 ∨ b.toNat = 46 ∨ b.toNat = 95 ∨
        b.toNat = 126 := by
    unfold isUnreserved at h
    simp only [Bool.or_eq_true, Bool.and_eq_true, decide_eq_true_eq, beq_iff_eq,
      UInt8.le_iff_toNat_le, ← UInt8.toNat_inj] at h
    simp only [or_assoc] at h
    exact h
  have hlt : b.toNat < 128 := by omega
  rw [isUnreservedChar_iff, toNat_ofNat_of_lt hlt]
  exact ⟨hlt, hcases⟩

/-- These characters are escaped. -/
theorem not_isUnreservedChar {c : Char} (h : c = '%' ∨ c = '/' ∨ c = '?' ∨ c = '#') :
    ¬ IsUnreservedChar c := by
  rw [isUnreservedChar_iff]
  rcases h with rfl | rfl | rfl | rfl <;> decide

theorem Encoded.append {s t : Str} (hs : Encoded s) (ht : Encoded t) : Encoded (s ++ t) := by
  induction hs with
  | nil => exact ht
  | plain hc _ ih => exact .plain hc ih
  | escaped ha hb _ ih => exact .escaped ha hb ih

theorem encoded_encodeByte (b : UInt8) : Encoded (encodeByte b) := by
  unfold encodeByte
  split
  · next h => exact .plain (isUnreserved_spec h).2 .nil
  · obtain ⟨hhigh, hlow, -⟩ := byte_halves b
    exact .escaped (hexUpper_of_lt hhigh).1 (hexUpper_of_lt hlow).1 .nil

/-- **An encoded byte is read back.** -/
theorem percentDecode_encodeByte (b : UInt8) (s : Str) :
    percentDecode (encodeByte b ++ s) = (percentDecode s).map fun bytes => b :: bytes := by
  unfold encodeByte
  split
  · next h =>
    obtain ⟨hlt, hchar⟩ := isUnreserved_spec h
    have hne : Char.ofNat b.toNat ≠ '%' := fun heq =>
      not_isUnreservedChar (.inl heq) hchar
    rw [List.singleton_append, percentDecode, utf8EncodeChar_of_ascii, toNat_ofNat_of_lt hlt]
    · simp
    · rwa [toNat_ofNat_of_lt hlt]
    · exact fun a b s heq _ => hne heq
  · obtain ⟨hhigh, hlow, hsum⟩ := byte_halves b
    rw [List.cons_append, List.cons_append, List.cons_append, List.nil_append, percentDecode,
      (hexUpper_of_lt hhigh).2, (hexUpper_of_lt hlow).2]
    cases percentDecode s with
    | none => rfl
    | some bytes =>
      show some (UInt8.ofNat (16 * _ + _) :: bytes) = some (b :: bytes)
      rw [hsum, UInt8.ofNat_toNat]

theorem percentDecode_flatMap (bytes : List UInt8) :
    percentDecode (bytes.flatMap encodeByte) = some bytes := by
  induction bytes with
  | nil => rfl
  | cons b bytes ih => rw [List.flatMap_cons, percentDecode_encodeByte, ih, Option.map_some]

theorem encoded_flatMap (bytes : List UInt8) : Encoded (bytes.flatMap encodeByte) := by
  induction bytes with
  | nil => exact .nil
  | cons b bytes ih =>
    rw [List.flatMap_cons]
    exact (encoded_encodeByte b).append ih

theorem IsUpperHex.isUnreservedChar {c : Char} (h : IsUpperHex c) : IsUnreservedChar c := by
  rcases h with h | ⟨h, h'⟩
  · exact .inl h
  · have hF : 'F'.toNat ≤ 'Z'.toNat := by decide
    exact .inr (.inl ⟨h, char_le_iff.2 ((char_le_iff.1 h').trans hF)⟩)

/-- Nothing in an encoded text ends a segment or a path. -/
theorem Encoded.not_mem {s : Str} (h : Encoded s) {d : Char} (hd : d = '/' ∨ d = '?' ∨ d = '#') :
    d ∉ s := by
  have hkept : ∀ {c : Char}, IsUnreservedChar c → d ≠ c := by
    rintro c hc rfl
    exact not_isUnreservedChar (.inr hd) hc
  have hpercent : d ≠ '%' := by rcases hd with rfl | rfl | rfl <;> decide
  induction h with
  | nil => exact List.not_mem_nil
  | plain hc _ ih => exact List.not_mem_cons_of_ne_of_not_mem (hkept hc) ih
  | escaped ha hb _ ih =>
    refine List.not_mem_cons_of_ne_of_not_mem hpercent ?_
    refine List.not_mem_cons_of_ne_of_not_mem (hkept ha.isUnreservedChar) ?_
    exact List.not_mem_cons_of_ne_of_not_mem (hkept hb.isUnreservedChar) ih

/-! ## Branch names -/

/-- A valid name of a git branch, as far as its dots and slashes go. -/
structure BranchName (name : Str) : Prop where
  ne_nil : name ≠ []
  no_dots : ¬ "..".toList <:+: name
  component : ∀ part ∈ name.splitOn '/', part.head? ≠ some '.'
  no_end : name.getLast? ≠ some '.'

/-- The two names of a compare path, read from its last segment. -/
def readComparePath (path : String) : Option (String × String) := do
  let (base, head) ← splitOnce "...".toList (lastSegment path.toList)
  let base ← fromUtf8 (← percentDecode base)
  let head ← fromUtf8 (← percentDecode head)
  some (String.ofList base, String.ofList head)

/-- Only a dot is encoded as one. -/
theorem dot_mem_encodeByte {b : UInt8} (h : '.' ∈ encodeByte b) : b.toNat = 46 := by
  unfold encodeByte at h
  split at h
  · next hkept =>
    have heq := congrArg Char.toNat (List.mem_singleton.1 h)
    rw [toNat_ofNat_of_lt (isUnreserved_spec hkept).1] at heq
    exact heq.symm
  · obtain ⟨hhigh, hlow, -⟩ := byte_halves b
    have hno : ¬ IsUpperHex '.' := by
      unfold IsUpperHex
      decide
    simp only [List.mem_cons, List.not_mem_nil, or_false] at h
    rcases h with h | h | h
    · exact absurd h (by decide)
    · exact absurd (h ▸ (hexUpper_of_lt hhigh).1) hno
    · exact absurd (h ▸ (hexUpper_of_lt hlow).1) hno

theorem dot_mem_encode {c : Char} (h : '.' ∈ (String.utf8EncodeChar c).flatMap encodeByte) :
    c = '.' := by
  obtain ⟨b, hb, h⟩ := List.mem_flatMap.1 h
  have h46 := dot_mem_encodeByte h
  rcases Nat.lt_or_ge c.toNat 128 with hc | hc
  · rw [utf8EncodeChar_of_ascii hc, List.mem_singleton] at hb
    rw [hb, UInt8.toNat_ofNat_of_lt' (show c.toNat < 256 by omega)] at h46
    exact Char.toNat_inj.1 h46
  · have hhigh := le_of_mem_utf8EncodeChar hc hb
    omega

theorem encodeByte_ne_nil (b : UInt8) : encodeByte b ≠ [] := by
  unfold encodeByte
  split
  · exact List.cons_ne_nil _ _
  · exact List.cons_ne_nil _ _

/-- What is not a dot is encoded to a text that does not start with one. -/
theorem encodeChars_of_ne_dot {c : Char} (hc : c ≠ '.') (s : Str) :
    ∃ d t, encodeChars (c :: s) = d :: t ∧ d ≠ '.' := by
  cases hbytes : String.utf8EncodeChar c with
  | nil => exact absurd hbytes (utf8EncodeChar_ne_nil c)
  | cons b bytes =>
    cases hfirst : encodeByte b with
    | nil => exact absurd hfirst (encodeByte_ne_nil b)
    | cons d t =>
      refine ⟨d, t ++ bytes.flatMap encodeByte ++ encodeChars s, ?_, ?_⟩
      · rw [encodeChars_cons, hbytes, List.flatMap_cons, hfirst]
        simp
      · rintro rfl
        exact hc (dot_mem_encode (by rw [hbytes, List.flatMap_cons, hfirst]; simp))

/-- The first three dots after a name are those of the separator. -/
theorem splitOnce_encodeChars {name : Str} (hdots : ¬ "..".toList <:+: name)
    (hend : name.getLast? ≠ some '.') (r : Str) :
    splitOnce "...".toList (encodeChars name ++ ("...".toList ++ r)) = some (encodeChars name, r) := by
  induction name with
  | nil => exact splitOnce_of_prefix _ r
  | cons c name ih =>
    have hrest := ih (fun h => hdots (h.trans (List.suffix_cons c name).isInfix)) fun h =>
      hend (by rw [List.getLast?_cons, h, Option.getD_some])
    by_cases hc : c = '.'
    · subst hc
      cases name with
      | nil => exact absurd rfl hend
      | cons c' name =>
        have hc' : c' ≠ '.' := by
          rintro rfl
          exact hdots ⟨[], name, rfl⟩
        obtain ⟨d, t, ht, hd⟩ := encodeChars_of_ne_dot hc' name
        have hdot : encodeChars ('.' :: c' :: name) = '.' :: encodeChars (c' :: name) :=
          encodeChars_cons _ _
        have hnone : stripPrefix "...".toList ('.' :: (d :: t ++ ("...".toList ++ r))) = none := by
          show (if '.' = '.' then if '.' = d then _ else none else none) = none
          rw [if_pos rfl, if_neg (Ne.symm hd)]
        rw [hdot, List.cons_append, splitOnce_cons_of_eq_none (by rw [ht]; exact hnone), hrest]
        rfl
    · have hmem : '.' ∉ (String.utf8EncodeChar c).flatMap encodeByte := fun h =>
        hc (dot_mem_encode h)
      have hskip : splitOnce "...".toList ((String.utf8EncodeChar c).flatMap encodeByte ++
          (encodeChars name ++ ("...".toList ++ r))) = _ :=
        @splitOnce_append '.' ['.', '.'] _ hmem _
      rw [encodeChars_cons, List.append_assoc, hskip]
      refine (congrArg (Option.map _) hrest).trans ?_
      rfl

theorem encoded_encodeChars (s : Str) : Encoded (encodeChars s) := encoded_flatMap _

/-- The last segment of a compare path is the two names with the separator. -/
theorem lastSegment_buildComparePath (base head : String) :
    lastSegment (buildComparePath base head).toList =
      encodeChars base.toList ++ ("...".toList ++ encodeChars head.toList) := by
  have hprefix : "repos/\x7bowner\x7d/\x7brepo\x7d/compare/".toList =
      "repos/\x7bowner\x7d/\x7brepo\x7d/compare".toList ++ ['/'] := by decide
  have hshape : (buildComparePath base head).toList =
      "repos/\x7bowner\x7d/\x7brepo\x7d/compare".toList ++
        '/' :: (encodeChars base.toList ++ ("...".toList ++ encodeChars head.toList)) := by
    unfold buildComparePath
    rw [String.toList_append, String.toList_append, String.toList_append, toList_encodePathSegment,
      toList_encodePathSegment, List.append_assoc, List.append_assoc, hprefix, List.append_assoc]
    exact congrArg _ List.singleton_append
  rw [hshape]
  refine lastSegment_append ?_ _
  have hbase := (encoded_encodeChars base.toList).not_mem (.inl rfl)
  have hhead := (encoded_encodeChars head.toList).not_mem (.inl rfl)
  rw [List.mem_append, List.mem_append, not_or, not_or]
  exact ⟨hbase, by decide, hhead⟩

/-- **The names are read back from the path.** -/
theorem readComparePath_build {base : String} (hb : BranchName base.toList) (head : String) :
    readComparePath (buildComparePath base head) = some (base, head) := by
  unfold readComparePath
  rw [lastSegment_buildComparePath, splitOnce_encodeChars hb.no_dots hb.no_end]
  show (do
    let base ← fromUtf8 (← percentDecode (encodeChars base.toList))
    let head ← fromUtf8 (← percentDecode (encodeChars head.toList))
    some (String.ofList base, String.ofList head)) = some (base, head)
  unfold encodeChars
  rw [percentDecode_flatMap, percentDecode_flatMap]
  show (do
    let base ← fromUtf8 (utf8 base.toList)
    let head ← fromUtf8 (utf8 head.toList)
    some (String.ofList base, String.ofList head)) = some (base, head)
  rw [fromUtf8_utf8, fromUtf8_utf8]
  show some (String.ofList base.toList, String.ofList head.toList) = some (base, head)
  rw [String.ofList_toList, String.ofList_toList]

/-- **The compare path is unambiguous**: cut at the first three dots and decoded, its last segment
gives the two names back, two pairs of names have two paths, and nothing in a name leaves its part of
the segment. -/
theorem buildComparePath_unambiguous {base base' : String} (hb : BranchName base.toList)
    (hb' : BranchName base'.toList) (head head' : String) :
    (buildComparePath base head = buildComparePath base' head' → base = base' ∧ head = head') ∧
    readComparePath (buildComparePath base head) = some (base, head) ∧
    ∀ name, Encoded (encodePathSegment name).toList ∧
      ∀ d, d = '/' ∨ d = '?' ∨ d = '#' → d ∉ (encodePathSegment name).toList := by
  refine ⟨fun h => ?_, readComparePath_build hb head, fun name => ?_⟩
  · have hread := readComparePath_build hb head
    rw [h, readComparePath_build hb' head'] at hread
    cases hread
    exact ⟨rfl, rfl⟩
  · rw [toList_encodePathSegment]
    exact ⟨encoded_encodeChars _, fun d hd => (encoded_encodeChars _).not_mem hd⟩

theorem branchName_release : BranchName "rel/v1.2%#".toList := by
  rw [show "rel/v1.2%#".toList = ['r', 'e', 'l', '/', 'v', '1', '.', '2', '%', '#'] from by decide]
  refine ⟨by decide, ?_, ?_, by decide⟩
  · rw [show "..".toList = ['.', '.'] from by decide]
    decide
  · rw [show ['r', 'e', 'l', '/', 'v', '1', '.', '2', '%', '#'].splitOn '/' =
      [['r', 'e', 'l'], ['v', '1', '.', '2', '%', '#']] from by decide]
    decide

theorem buildComparePath_unambiguous_release :
    BranchName "rel/v1.2%#".toList ∧ BranchName "rel/v1.2%#".toList ∧
    (buildComparePath "rel/v1.2%#" "機能.../x" = buildComparePath "rel/v1.2%#" "機能?" →
      "rel/v1.2%#" = "rel/v1.2%#" ∧ "機能.../x" = "機能?") ∧
    readComparePath (buildComparePath "rel/v1.2%#" "機能.../x") =
      some ("rel/v1.2%#", "機能.../x") ∧
    ∀ name, Encoded (encodePathSegment name).toList ∧
      ∀ d, d = '/' ∨ d = '?' ∨ d = '#' → d ∉ (encodePathSegment name).toList :=
  ⟨branchName_release, branchName_release,
    buildComparePath_unambiguous branchName_release branchName_release "機能.../x" "機能?"⟩

end MergeReady.Evaluation
