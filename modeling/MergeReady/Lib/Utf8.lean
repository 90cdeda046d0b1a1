import MergeReady.Lib.Str

/-!
# The bytes of a string

A string is stored as the UTF-8 encodings of its characters, one after the other.  An ASCII character
is one byte below 128, and no byte of another character is below 128; so a loop over the bytes that
looks for ASCII characters sees what a loop over the characters sees.
-/

namespace MergeReady.Lib.Str

/-- `s.as_bytes()` -/
def utf8 (s : Str) : List UInt8 := s.flatMap String.utf8EncodeChar

/-- `String::from_utf8(bytes).ok()` -/
def fromUtf8 (bytes : List UInt8) : Option Str :=
  (bytes.toByteArray.utf8Decode?).map Array.toList

@[simp] theorem length_utf8 (s : Str) : (utf8 s).length = byteLen s := by
  induction s with
  | nil => rfl
  | cons c s ih =>
    rw [utf8, List.flatMap_cons, List.length_append, String.length_utf8EncodeChar, byteLen_cons,
      ← ih]
    rfl

theorem utf8_append (s t : Str) : utf8 (s ++ t) = utf8 s ++ utf8 t := List.flatMap_append

/-- Encoding loses nothing. -/
@[simp] theorem fromUtf8_utf8 (s : Str) : fromUtf8 (utf8 s) = some s := by
  have h : (utf8 s).toByteArray.utf8Decode? = some s.toArray := List.utf8Decode?_utf8Encode
  rw [fromUtf8, h]
  simp

theorem fromUtf8_eq_some {bytes : List UInt8} {s : Str} :
    fromUtf8 bytes = some s ↔ bytes = utf8 s := by
  constructor
  · intro h
    obtain ⟨cs, hcs, rfl⟩ := Option.map_eq_some_iff.1 h
    have hsome : bytes.toByteArray.utf8Decode?.isSome = true := by rw [hcs]; rfl
    have henc := ByteArray.utf8Encode_get_utf8Decode? (b := bytes.toByteArray) (h := hsome)
    simp only [hcs, Option.get_some] at henc
    have hdata : bytes.toByteArray.data = (utf8 cs.toList).toByteArray.data :=
      congrArg ByteArray.data henc.symm
    rw [List.data_toByteArray, List.data_toByteArray] at hdata
    exact List.toArray_inj hdata
  · rintro rfl
    exact fromUtf8_utf8 s

/-! ## ASCII -/

theorem utf8EncodeChar_of_ascii {c : Char} (h : c.toNat < 128) :
    String.utf8EncodeChar c = [UInt8.ofNat c.toNat] := by
  have hle : c.val.toNat ≤ 0x7f := Nat.lt_succ_iff.1 h
  unfold String.utf8EncodeChar
  exact if_pos hle

/-- Every byte of a character that is not ASCII is a high one. -/
theorem le_of_mem_utf8EncodeChar {c : Char} (h : 128 ≤ c.toNat) {b : UInt8}
    (hb : b ∈ String.utf8EncodeChar c) : 128 ≤ b.toNat := by
  have hhigh : ∀ v k d : ℕ, 0 < k → 128 ≤ d → d + k ≤ 256 →
      128 ≤ (UInt8.ofNat (v % k + d)).toNat := by
    intro v k d hk hd hle
    have hlt := Nat.mod_lt v hk
    rw [UInt8.toNat_ofNat', Nat.mod_eq_of_lt (by omega)]
    omega
  have hgt : ¬ c.val.toNat ≤ 0x7f := Nat.not_le.2 h
  unfold String.utf8EncodeChar at hb
  dsimp only at hb
  rw [if_neg hgt] at hb
  split at hb
  · simp only [List.mem_cons, List.not_mem_nil, or_false] at hb
    rcases hb with rfl | rfl <;> exact hhigh _ _ _ (by decide) (by decide) (by decide)
  · split at hb
    · simp only [List.mem_cons, List.not_mem_nil, or_false] at hb
      rcases hb with rfl | rfl | rfl <;> exact hhigh _ _ _ (by decide) (by decide) (by decide)
    · simp only [List.mem_cons, List.not_mem_nil, or_false] at hb
      rcases hb with rfl | rfl | rfl | rfl <;>
        exact hhigh _ _ _ (by decide) (by decide) (by decide)

theorem utf8EncodeChar_ne_nil (c : Char) : String.utf8EncodeChar c ≠ [] := by
  intro h
  have hlen := String.length_utf8EncodeChar c
  have hpos := c.utf8Size_pos
  rw [h, List.length_nil] at hlen
  omega

/-! ## Scanning -/

section

variable {p : UInt8 → Bool} {q : Char → Bool}

/-- `Scans p q` — a scan for the bytes `p` stops where a scan for the characters `q` does. -/
structure Scans (p : UInt8 → Bool) (q : Char → Bool) : Prop where
  pass : ∀ c, q c = true → ∀ b ∈ String.utf8EncodeChar c, p b = true
  stop : ∀ c, q c = false → ∀ b ∈ String.utf8EncodeChar c, p b = false

theorem Scans.takeWhile (h : Scans p q) (s : Str) : (utf8 s).takeWhile p = utf8 (s.takeWhile q) := by
  induction s with
  | nil => rfl
  | cons c s ih =>
    rw [utf8, List.flatMap_cons]
    cases hq : q c with
    | true =>
      rw [List.takeWhile_append_of_pos (h.pass c hq), List.takeWhile_cons_of_pos hq]
      exact congrArg _ ih
    | false =>
      rw [List.takeWhile_cons_of_neg (by simp [hq])]
      cases hc : String.utf8EncodeChar c with
      | nil => exact absurd hc (utf8EncodeChar_ne_nil c)
      | cons b bs =>
        have hb := h.stop c hq b (by rw [hc]; exact List.mem_cons_self)
        rw [List.cons_append, List.takeWhile_cons_of_neg (by simp [hb])]
        rfl

/-- A scan for ASCII characters. -/
theorem scans_ascii (hp : ∀ b, p b = true → b.toNat < 128)
    (hq : ∀ c, q c = (decide (c.toNat < 128) && p (UInt8.ofNat c.toNat))) : Scans p q where
  pass c hc b hb := by
    rw [hq, Bool.and_eq_true, decide_eq_true_eq] at hc
    rw [utf8EncodeChar_of_ascii hc.1, List.mem_singleton] at hb
    rw [hb, hc.2]
  stop c hc b hb := by
    rw [hq] at hc
    by_cases h : c.toNat < 128
    · rw [utf8EncodeChar_of_ascii h, List.mem_singleton] at hb
      rw [hb]
      simpa [h] using hc
    · have hle := le_of_mem_utf8EncodeChar (Nat.not_lt.1 h) hb
      by_contra hb'
      have := hp b (by simpa using hb')
      omega

theorem Scans.not (h : Scans p q) : Scans (fun b => !p b) fun c => !q c where
  pass c hc b hb := by rw [h.stop c (by simpa using hc) b hb]; rfl
  stop c hc b hb := by rw [h.pass c (by simpa using hc) b hb]; rfl

end

end MergeReady.Lib.Str
