import MergeReady.Lib.Utf8
import MergeReady.Evaluation.Render

/-!
# The scanners of the variables

`extract_var_names` and `substitute_vars` go through the bytes of a text by index and slice names and
texts out of it.  This file has them as they go, with every slice checked; `substituteLoop` also notes
the names it looks up.  Neither ever slices inside a character, the text they give is that of
`extractVarNames` and `substituteVars`, and they find the same names.
-/

namespace MergeReady.Evaluation

open MergeReady.Lib MergeReady.Lib.Str

/-! ## The loops -/

/-- `b'$'` -/
def dollar : UInt8 := 36

/-- `b.is_ascii_alphanumeric() || b == b'_'` -/
def isNameByte (b : UInt8) : Bool :=
  (48 ≤ b && b ≤ 57) || (65 ≤ b && b ≤ 90) || (97 ≤ b && b ≤ 122) || b == 95

/-- `bytes[start..].iter().position(p).map_or(bytes.len(), |pos| start + pos)` -/
def positionFrom (p : UInt8 → Bool) (bytes : List UInt8) (start : ℕ) : ℕ :=
  match (bytes.drop start).findIdx? p with
  | some pos => start + pos
  | none => bytes.length

theorem positionFrom_eq {p : UInt8 → Bool} {bytes : List UInt8} {start : ℕ}
    (h : start ≤ bytes.length) :
    positionFrom p bytes start = start + ((bytes.drop start).takeWhile fun b => !p b).length := by
  have hfind : ∀ l : List UInt8,
      (l.findIdx? p).getD l.length = (l.takeWhile fun b => !p b).length := by
    intro l
    induction l with
    | nil => rfl
    | cons b l ih =>
      rw [List.findIdx?_cons]
      cases hp : p b with
      | true => simp [hp]
      | false =>
        simp only [Bool.false_eq_true, if_false, List.length_cons, hp, Bool.not_false,
          List.takeWhile_cons_of_pos, ← ih]
        cases l.findIdx? p <;> rfl
  have := hfind (bytes.drop start)
  unfold positionFrom
  split
  · rename_i pos hpos
    rw [← this, hpos]
    rfl
  · rename_i hpos
    rw [← this, hpos, Option.getD_none, List.length_drop]
    omega

theorem le_positionFrom {p : UInt8 → Bool} {bytes : List UInt8} {start : ℕ}
    (h : start ≤ bytes.length) : start ≤ positionFrom p bytes start := by
  rw [positionFrom_eq h]
  exact Nat.le_add_right _ _

/-- The search goes on from a byte it does not stop at. -/
theorem lt_positionFrom {p : UInt8 → Bool} {bytes : List UInt8} {i : ℕ} {b : UInt8}
    (hb : bytes[i]? = some b) (hp : p b = false) : i < positionFrom p bytes i := by
  obtain ⟨hi, rfl⟩ := List.getElem?_eq_some_iff.1 hb
  rw [positionFrom_eq hi.le, List.drop_eq_getElem_cons hi,
    List.takeWhile_cons_of_pos (by simpa using hp), List.length_cons]
  omega

/-- `extract_var_names`, from byte `i` on. -/
def extractLoop (s : Str) (i : ℕ) : Fallible (List Str) :=
  let bytes := utf8 s
  match hb : bytes[i]? with
  | none => .ok []
  | some b =>
    if b = dollar then
      let start := i + 1
      let stop := positionFrom (fun b => !isNameByte b) bytes start
      if start < stop then do
        let name ← slice s start stop
        let rest ← extractLoop s stop
        .ok (name :: rest)
      else extractLoop s stop
    else extractLoop s (i + 1)
termination_by (utf8 s).length - i
decreasing_by
  all_goals
    have hi := (List.getElem?_eq_some_iff.1 hb).1
    have hle : i + 1 ≤ positionFrom (fun b => !isNameByte b) (utf8 s) (i + 1) := le_positionFrom hi
    simp only [bytes] at hi
    omega

/-- `substitute_vars`, from byte `i` on: the text, and the names that are looked up for it. -/
def substituteLoop (vars : Vars) (s : Str) (i : ℕ) : Fallible (Str × List Str) :=
  let bytes := utf8 s
  match _hb : bytes[i]? with
  | none => .ok ([], [])
  | some b =>
    if _hd : b = dollar then
      let start := i + 1
      let stop := positionFrom (fun b => !isNameByte b) bytes start
      if start < stop then do
        let name ← slice s start stop
        let (rest, names) ← substituteLoop vars s stop
        match vars.get name with
        | some val => .ok (val ++ rest, name :: names)
        | none => .ok ('$' :: name ++ rest, name :: names)
      else do
        let (rest, names) ← substituteLoop vars s (i + 1)
        .ok ('$' :: rest, names)
    else do
      let next := positionFrom (· == dollar) bytes i
      let text ← slice s i next
      let (rest, names) ← substituteLoop vars s next
      .ok (text ++ rest, names)
termination_by (utf8 s).length - i
decreasing_by
  all_goals have hi := (List.getElem?_eq_some_iff.1 _hb).1
  · have hle : i + 1 ≤ positionFrom (fun b => !isNameByte b) (utf8 s) (i + 1) := le_positionFrom hi
    simp only [bytes] at hi
    omega
  · simp only [bytes] at hi
    omega
  · have hlt : i < positionFrom (· == dollar) (utf8 s) i := lt_positionFrom _hb (by simpa using _hd)
    simp only [bytes] at hi
    omega

/-! One round of each loop, at the end of the bytes and at a byte. -/

section

variable {vars : Vars} {s : Str} {i : ℕ} {b : UInt8}

theorem extractLoop_of_none (h : (utf8 s)[i]? = none) : extractLoop s i = .ok [] := by
  rw [extractLoop]
  split
  · rfl
  · rename_i hb
    rw [h] at hb
    cases hb

theorem extractLoop_of_some (h : (utf8 s)[i]? = some b) : extractLoop s i =
    if b = dollar then
      let stop := positionFrom (fun b => !isNameByte b) (utf8 s) (i + 1)
      if i + 1 < stop then do
        let name ← slice s (i + 1) stop
        let rest ← extractLoop s stop
        .ok (name :: rest)
      else extractLoop s stop
    else extractLoop s (i + 1) := by
  rw [extractLoop]
  split
  · rename_i hb
    rw [h] at hb
    cases hb
  · rename_i b' hb
    rw [h] at hb
    cases hb
    rfl

theorem substituteLoop_of_none (h : (utf8 s)[i]? = none) :
    substituteLoop vars s i = .ok ([], []) := by
  rw [substituteLoop]
  split
  · rfl
  · rename_i hb
    rw [h] at hb
    cases hb

theorem substituteLoop_of_some (h : (utf8 s)[i]? = some b) : substituteLoop vars s i =
    if b = dollar then
      let stop := positionFrom (fun b => !isNameByte b) (utf8 s) (i + 1)
      if i + 1 < stop then do
        let name ← slice s (i + 1) stop
        let (rest, names) ← substituteLoop vars s stop
        match vars.get name with
        | some val => .ok (val ++ rest, name :: names)
        | none => .ok ('$' :: name ++ rest, name :: names)
      else do
        let (rest, names) ← substituteLoop vars s (i + 1)
        .ok ('$' :: rest, names)
    else (do
      let next := positionFrom (· == dollar) (utf8 s) i
      let text ← slice s i next
      let (rest, names) ← substituteLoop vars s next
      .ok (text ++ rest, names)) := by
  rw [substituteLoop]
  split
  · rename_i hb
    rw [h] at hb
    cases hb
  · rename_i b' hb
    rw [h] at hb
    cases hb
    rfl

end

/-! ## What the bytes are -/

theorem isNameChar_iff (c : Char) : isNameChar c = true ↔
    (48 ≤ c.toNat ∧ c.toNat ≤ 57) ∨ (65 ≤ c.toNat ∧ c.toNat ≤ 90) ∨
      (97 ≤ c.toNat ∧ c.toNat ≤ 122) ∨ c.toNat = 95 := by
  have hunder : c = '_' ↔ c.toNat = 95 := by
    rw [← Char.toNat_inj]
    rfl
  have hranges : isNameChar c =
      (decide ('A'.val ≤ c.val ∧ c.val ≤ 'Z'.val) ||
        decide ('a'.val ≤ c.val) && decide (c.val ≤ 'z'.val) ||
        decide ('0'.val ≤ c.val) && decide (c.val ≤ '9'.val) || c == '_') := rfl
  simp only [hranges, Bool.or_eq_true, Bool.and_eq_true, decide_eq_true_eq, beq_iff_eq,
    UInt32.le_iff_toNat_le, hunder]
  simp only [Char.toNat]
  have h0 : 'A'.val.toNat = 65 := rfl
  have h1 : 'Z'.val.toNat = 90 := rfl
  have h2 : 'a'.val.toNat = 97 := rfl
  have h3 : 'z'.val.toNat = 122 := rfl
  have h4 : '0'.val.toNat = 48 := rfl
  have h5 : '9'.val.toNat = 57 := rfl
  omega

theorem isNameByte_iff (b : UInt8) : isNameByte b = true ↔
    (48 ≤ b.toNat ∧ b.toNat ≤ 57) ∨ (65 ≤ b.toNat ∧ b.toNat ≤ 90) ∨
      (97 ≤ b.toNat ∧ b.toNat ≤ 122) ∨ b.toNat = 95 := by
  have hunder : b = 95 ↔ b.toNat = 95 := by
    rw [← UInt8.toNat_inj]
    rfl
  simp only [isNameByte, Bool.or_eq_true, Bool.and_eq_true, decide_eq_true_eq, beq_iff_eq,
    UInt8.le_iff_toNat_le, hunder, or_assoc]
  rfl

theorem scans_nameByte : Scans isNameByte isNameChar := by
  refine scans_ascii ?_ ?_
  · intro b hb
    have := (isNameByte_iff b).1 hb
    omega
  · intro c
    rw [Bool.eq_iff_iff, Bool.and_eq_true, decide_eq_true_eq, isNameChar_iff, isNameByte_iff]
    by_cases h : c.toNat < 128
    · rw [UInt8.toNat_ofNat', Nat.mod_eq_of_lt (by omega)]
      omega
    · omega

theorem scans_dollar : Scans (· == dollar) (· == '$') := by
  refine scans_ascii ?_ ?_
  · intro b hb
    rw [beq_iff_eq.1 hb]
    decide
  · intro c
    have hdollar : c = '$' ↔ c.toNat = 36 := by
      rw [← Char.toNat_inj]
      rfl
    rw [Bool.eq_iff_iff, Bool.and_eq_true, decide_eq_true_eq, beq_iff_eq, beq_iff_eq, hdollar,
      ← UInt8.toNat_inj, show dollar.toNat = 36 from rfl]
    by_cases h : c.toNat < 128
    · rw [UInt8.toNat_ofNat', Nat.mod_eq_of_lt (by omega)]
      omega
    · omega

section

variable {l t : Str}

theorem drop_utf8_append : (utf8 (l ++ t)).drop (byteLen l) = utf8 t := by
  rw [utf8_append, ← length_utf8, List.drop_left]

/-- A search from a boundary ends where the scan of the characters does. -/
theorem positionFrom_append {p : UInt8 → Bool} {q : Char → Bool} (h : Scans (fun b => !p b) q) :
    positionFrom p (utf8 (l ++ t)) (byteLen l) = byteLen (l ++ t.takeWhile q) := by
  have hle : byteLen l ≤ (utf8 (l ++ t)).length := by
    rw [length_utf8, byteLen_append]
    exact Nat.le_add_right _ _
  rw [positionFrom_eq hle, drop_utf8_append, h.takeWhile, length_utf8, byteLen_append]

theorem getElem?_utf8_end : (utf8 l)[byteLen l]? = none := by
  rw [List.getElem?_eq_none_iff, length_utf8]

/-- The bytes of a character. -/
theorem getElem?_utf8_append {c : Char} {k : ℕ} (hk : k < c.utf8Size) :
    ∃ b ∈ String.utf8EncodeChar c, (utf8 (l ++ c :: t))[byteLen l + k]? = some b := by
  have hlen : k < (String.utf8EncodeChar c).length := by rwa [String.length_utf8EncodeChar]
  refine ⟨_, List.getElem_mem hlen, ?_⟩
  rw [utf8_append, ← length_utf8, List.getElem?_append_right (Nat.le_add_right _ _),
    Nat.add_sub_cancel_left, utf8, List.flatMap_cons, List.getElem?_append_left hlen,
    List.getElem?_eq_getElem hlen]

theorem ne_dollar_of_mem {c : Char} (hc : c ≠ '$') {b : UInt8}
    (hb : b ∈ String.utf8EncodeChar c) : b ≠ dollar := by
  have := scans_dollar.stop c (by simpa using hc) b hb
  simpa using this

theorem getElem?_utf8_dollar : (utf8 (l ++ '$' :: t))[byteLen l]? = some dollar := by
  obtain ⟨b, hb, hget⟩ := getElem?_utf8_append (l := l) (t := t) (c := '$') (k := 0) (by decide)
  have hdollar := scans_dollar.pass '$' rfl b hb
  rw [Nat.add_zero] at hget
  rw [hget, beq_iff_eq.1 hdollar]

end

/-- A part of a text is sliced out of it. -/
theorem slice_append (l mid post : Str) :
    slice (l ++ (mid ++ post)) (byteLen l) (byteLen (l ++ mid)) = .ok mid :=
  slice_eq_ok.2 ⟨l, post, rfl, rfl, by rw [byteLen_append]⟩

theorem byteLen_dollar (l name : Str) :
    byteLen (l ++ '$' :: name) = byteLen l + 1 + byteLen name := by
  rw [byteLen_append, byteLen_cons, show '$'.utf8Size = 1 from rfl]
  omega

/-- The name after a `$`, and where it ends. -/
theorem positionFrom_name (l t : Str) :
    positionFrom (fun b => !isNameByte b) (utf8 (l ++ '$' :: t)) (byteLen l + 1) =
      byteLen (l ++ '$' :: t.takeWhile isNameChar) := by
  have hpre : byteLen l + 1 = byteLen (l ++ ['$']) := by
    rw [byteLen_append]
    rfl
  have h := positionFrom_append (l := l ++ ['$']) (t := t)
    (p := fun b => !isNameByte b) (q := isNameChar) (by simpa using scans_nameByte)
  rw [hpre]
  simpa using h

theorem slice_name (l t : Str) :
    slice (l ++ '$' :: t) (byteLen l + 1) (byteLen (l ++ '$' :: t.takeWhile isNameChar)) =
      .ok (t.takeWhile isNameChar) := by
  have h := slice_append (l ++ ['$']) (t.takeWhile isNameChar) (t.dropWhile isNameChar)
  rw [List.takeWhile_append_dropWhile, byteLen_dollar] at h
  simpa using h

theorem lt_stop_iff (l name : Str) :
    byteLen l + 1 < byteLen (l ++ '$' :: name) ↔ name ≠ [] := by
  rw [byteLen_dollar, Ne, ← byteLen_eq_zero]
  omega

/-! ## The loops read the characters -/

/-- The bytes of a character that is not a `$` are stepped over. -/
theorem extractLoop_skip (l t : Str) {c : Char} (hc : c ≠ '$') :
    ∀ k ≤ c.utf8Size, extractLoop (l ++ c :: t) (byteLen l + (c.utf8Size - k)) =
      extractLoop (l ++ c :: t) (byteLen (l ++ [c])) := by
  intro k
  induction k with
  | zero =>
    intro _
    rw [Nat.sub_zero, byteLen_append, byteLen_cons, byteLen_nil, Nat.add_zero]
  | succ k ih =>
    intro hk
    obtain ⟨b, hb, hget⟩ := getElem?_utf8_append (l := l) (t := t)
      (show c.utf8Size - (k + 1) < c.utf8Size by omega)
    rw [← ih (by omega), extractLoop_of_some hget, if_neg (ne_dollar_of_mem hc hb)]
    congr 1
    omega

theorem dropWhile_of_takeWhile_eq_nil {t : Str} (h : t.takeWhile isNameChar = []) :
    t.dropWhile isNameChar = t := by
  have hsplit := List.takeWhile_append_dropWhile (p := isNameChar) (l := t)
  rwa [h, List.nil_append] at hsplit

theorem extractLoop_eq (l t : Str) :
    extractLoop (l ++ t) (byteLen l) = .ok (extractVarNames t) := by
  induction t using extractVarNames.induct generalizing l with
  | case1 => rw [List.append_nil, extractLoop_of_none getElem?_utf8_end, extractVarNames]
  | case2 t name hname ih =>
    have hrest := ih (l ++ '$' :: name)
    rw [List.append_assoc, List.cons_append, List.takeWhile_append_dropWhile] at hrest
    rw [extractLoop_of_some getElem?_utf8_dollar, extractVarNames, if_pos rfl, if_pos rfl]
    dsimp only
    rw [positionFrom_name, if_pos ((lt_stop_iff _ _).2 hname), slice_name, ok_bind, hrest, ok_bind,
      if_pos hname]
  | case3 t name hname ih =>
    have hname : t.takeWhile isNameChar = [] := by simpa [name] using hname
    have hrest := ih (l ++ ['$'])
    have hdrop := dropWhile_of_takeWhile_eq_nil hname
    rw [hdrop, List.append_assoc, List.singleton_append] at hrest
    rw [extractLoop_of_some getElem?_utf8_dollar, extractVarNames, if_pos rfl, if_pos rfl]
    dsimp only
    rw [positionFrom_name, hname, if_neg (by rw [lt_stop_iff]; simp), hrest, if_neg (by simp), hdrop]
  | case4 c t hc ih =>
    have hrest := ih (l ++ [c])
    rw [List.append_assoc, List.singleton_append] at hrest
    have hskip := extractLoop_skip l t hc c.utf8Size le_rfl
    rw [Nat.sub_self, Nat.add_zero] at hskip
    rw [hskip, hrest, extractVarNames, if_neg hc]

/-- There are no names before the first `$`. -/
theorem extractVarNames_dropWhile (t : Str) :
    extractVarNames (t.dropWhile (· ≠ '$')) = extractVarNames t := by
  induction t with
  | nil => rfl
  | cons c t ih =>
    by_cases hc : c = '$'
    · rw [List.dropWhile_cons_of_neg (by simp [hc])]
    · rw [List.dropWhile_cons_of_pos (by simp [hc]), ih, extractVarNames, if_neg hc]

/-- The text from a character that is not a `$` to the next `$`. -/
theorem positionFrom_dollar (l t : Str) {c : Char} (hc : c ≠ '$') :
    positionFrom (· == dollar) (utf8 (l ++ c :: t)) (byteLen l) =
      byteLen (l ++ c :: t.takeWhile (· ≠ '$')) := by
  have hscan : Scans (fun b => !(b == dollar)) fun c => decide (c ≠ '$') := by
    have h := scans_dollar.not
    have hq : (fun c : Char => !(c == '$')) = fun c => decide (c ≠ '$') := by
      funext c
      rw [decide_not, ← beq_eq_decide]
    rwa [hq] at h
  have h := positionFrom_append (l := l) (t := c :: t) hscan
  rwa [List.takeWhile_cons_of_pos (by simpa using hc)] at h

theorem slice_text (l t : Str) (c : Char) :
    slice (l ++ c :: t) (byteLen l) (byteLen (l ++ c :: t.takeWhile (· ≠ '$'))) =
      .ok (c :: t.takeWhile (· ≠ '$')) := by
  have h := slice_append l (c :: t.takeWhile (· ≠ '$')) (t.dropWhile (· ≠ '$'))
  rwa [List.cons_append, List.takeWhile_append_dropWhile] at h

/-- The turn of the loop at a `$`, with a name after it and without one. -/
theorem substituteLoop_name (vars : Vars) (l : Str) {t rest : Str} {names : List Str}
    (hname : t.takeWhile isNameChar ≠ [])
    (hrest : substituteLoop vars (l ++ '$' :: t) (byteLen (l ++ '$' :: t.takeWhile isNameChar)) =
      .ok (rest, names)) :
    substituteLoop vars (l ++ '$' :: t) (byteLen l) =
      match vars.get (t.takeWhile isNameChar) with
      | some val => .ok (val ++ rest, t.takeWhile isNameChar :: names)
      | none => .ok ('$' :: t.takeWhile isNameChar ++ rest, t.takeWhile isNameChar :: names) := by
  rw [substituteLoop_of_some getElem?_utf8_dollar, if_pos rfl]
  dsimp only
  rw [positionFrom_name, if_pos ((lt_stop_iff _ _).2 hname), slice_name, ok_bind, hrest, ok_bind]

theorem substituteLoop_noName (vars : Vars) (l : Str) {t rest : Str} {names : List Str}
    (hname : t.takeWhile isNameChar = [])
    (hrest : substituteLoop vars (l ++ '$' :: t) (byteLen (l ++ ['$'])) = .ok (rest, names)) :
    substituteLoop vars (l ++ '$' :: t) (byteLen l) = .ok ('$' :: rest, names) := by
  rw [byteLen_dollar, byteLen_nil, Nat.add_zero] at hrest
  rw [substituteLoop_of_some getElem?_utf8_dollar, if_pos rfl]
  dsimp only
  rw [positionFrom_name, hname, if_neg (by rw [lt_stop_iff]; simp), hrest, ok_bind]

/-- The turn of the loop at another character. -/
theorem substituteLoop_text (vars : Vars) (l : Str) {c : Char} {t rest : Str} {names : List Str}
    (hc : c ≠ '$')
    (hrest : substituteLoop vars (l ++ c :: t) (byteLen (l ++ c :: t.takeWhile (· ≠ '$'))) =
      .ok (rest, names)) :
    substituteLoop vars (l ++ c :: t) (byteLen l) =
      .ok (c :: t.takeWhile (· ≠ '$') ++ rest, names) := by
  obtain ⟨b, hb, hget⟩ := getElem?_utf8_append (l := l) (t := t) c.utf8Size_pos
  rw [Nat.add_zero] at hget
  rw [substituteLoop_of_some hget, if_neg (ne_dollar_of_mem hc hb)]
  dsimp only
  rw [positionFrom_dollar l t hc, slice_text, ok_bind, hrest, ok_bind]

theorem substituteLoop_eq (vars : Vars) (l t : Str) :
    substituteLoop vars (l ++ t) (byteLen l) = .ok (substituteVars vars t, extractVarNames t) := by
  induction t using substituteVars.induct vars generalizing l with
  | case1 =>
    rw [List.append_nil, substituteLoop_of_none getElem?_utf8_end, substituteVars, extractVarNames]
  | case2 t name hname val hval ih =>
    have hrest := ih (l ++ '$' :: name)
    rw [List.append_assoc, List.cons_append, List.takeWhile_append_dropWhile] at hrest
    rw [substituteLoop_name vars l hname hrest, substituteVars, extractVarNames, if_pos rfl,
      if_pos rfl, if_pos hname, if_pos hname, hval]
  | case3 t name hname hval ih =>
    have hrest := ih (l ++ '$' :: name)
    rw [List.append_assoc, List.cons_append, List.takeWhile_append_dropWhile] at hrest
    rw [substituteLoop_name vars l hname hrest, substituteVars, extractVarNames, if_pos rfl,
      if_pos rfl, if_pos hname, if_pos hname, hval]
  | case4 t name hname ih =>
    have hname : t.takeWhile isNameChar = [] := by simpa [name] using hname
    have hrest := ih (l ++ ['$'])
    rw [List.append_assoc, List.singleton_append] at hrest
    rw [substituteLoop_noName vars l hname hrest, substituteVars, extractVarNames, if_pos rfl,
      if_pos rfl, if_neg (by simpa using hname), if_neg (by simpa using hname),
      dropWhile_of_takeWhile_eq_nil hname]
  | case5 c t hc ih =>
    have hrest := ih (l ++ c :: t.takeWhile (· ≠ '$'))
    rw [List.append_assoc, List.cons_append, List.takeWhile_append_dropWhile,
      extractVarNames_dropWhile] at hrest
    rw [substituteLoop_text vars l hc hrest, substituteVars, extractVarNames, if_neg hc, if_neg hc]

/-- **The scanners agree.**  Going through the bytes, neither slices inside a character; they give what
the recursions over the characters give, and the names looked up in the one are those found in the
other. -/
theorem scanners_eq (vars : Vars) (t : Str) :
    extractLoop t 0 = .ok (extractVarNames t) ∧
      substituteLoop vars t 0 = .ok (substituteVars vars t, extractVarNames t) :=
  ⟨extractLoop_eq [] t, substituteLoop_eq vars [] t⟩

end MergeReady.Evaluation
