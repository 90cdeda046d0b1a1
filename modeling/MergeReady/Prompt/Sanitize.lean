import MergeReady.Lib.Terminal

/-!
# The prompt's sanitizer

`sanitizeOutput` scans the daemon's answer character by character.  It is the filter of the
terminal's tokens that keeps colour codes and plain characters; the scanner's inner loop takes every
character up to the final one for a part of the code.
-/

namespace MergeReady.Prompt

open MergeReady.Lib.Terminal

def isDisallowedControl (c : Char) : Bool := isControl c

/-- The inner loop: the characters of a sequence up to the final one, whether that is `m`, and the
input that is left. -/
def readSequence : List Char → List Char × Bool × List Char
  | [] => ([], false, [])
  | sc :: chars =>
    if isFinal sc then ([sc], sc == 'm', chars)
    else
      let (seq, terminatedWithM, rest) := readSequence chars
      (sc :: seq, terminatedWithM, rest)

theorem length_readSequence_le (cs : List Char) : (readSequence cs).2.2.length ≤ cs.length := by
  induction cs with
  | nil => simp [readSequence]
  | cons c cs ih =>
    unfold readSequence
    split
    · simp
    · exact Nat.le_succ_of_le ih

/-- The loop of `sanitize_output`. -/
def sanitizeChars : List Char → List Char
  | [] => []
  | c :: chars =>
    if c = ESC then
      match chars with
      | '[' :: chars =>
        let read := readSequence chars
        if read.2.1 then ESC :: '[' :: (read.1 ++ sanitizeChars read.2.2)
        else sanitizeChars read.2.2
      | chars => sanitizeChars chars
    else if isDisallowedControl c then sanitizeChars chars
    else c :: sanitizeChars chars
termination_by cs => cs.length
decreasing_by
  · exact Nat.lt_succ_of_le (Nat.le_succ_of_le (length_readSequence_le chars))
  · exact Nat.lt_succ_of_le (Nat.le_succ_of_le (length_readSequence_le chars))
  all_goals simp

def sanitizeOutput (input : String) : String := String.ofList (sanitizeChars input.toList)

/-- The inner loop stops at the first final character. -/
theorem readSequence_eq (cs : List Char) :
    readSequence cs = match fromFinal cs with
      | [] => (cs, false, [])
      | final :: rest => (body cs ++ [final], final == 'm', rest) := by
  induction cs with
  | nil => rfl
  | cons c cs ih =>
    by_cases hf : isFinal c = true
    · have hfrom : fromFinal (c :: cs) = c :: cs := List.dropWhile_cons_of_neg (by simp [hf])
      have hbody : body (c :: cs) = [] := List.takeWhile_cons_of_neg (by simp [hf])
      rw [hfrom, hbody, readSequence, if_pos hf]
      rfl
    · have hfrom : fromFinal (c :: cs) = fromFinal cs :=
        List.dropWhile_cons_of_pos (by simp [hf])
      have hbody : body (c :: cs) = c :: body cs := List.takeWhile_cons_of_pos (by simp [hf])
      rw [hfrom, hbody, readSequence, if_neg hf, ih]
      cases fromFinal cs <;> rfl

/-- **The sanitizer keeps the plain characters and the colour codes of its input.** -/
theorem sanitizeChars_eq (cs : List Char) : sanitizeChars cs = (lex cs).flatMap Token.keep := by
  fun_induction lex cs with
  | case1 => simp [sanitizeChars]
  | case2 cs h =>
    rw [sanitizeChars, if_pos rfl, readSequence_eq, h]
    simp [sanitizeChars, Token.keep]
  | case3 cs final rest h ih =>
    rw [sanitizeChars, if_pos rfl, readSequence_eq, h, List.flatMap_cons, ← ih]
    by_cases hm : final = 'm'
    · subst hm
      simp [Token.keep_colour]
    · simp [Token.keep_of_ne hm, hm]
  | case4 cs hcs ih =>
    rw [sanitizeChars, if_pos rfl, List.flatMap_cons, ← ih]
    · rfl
    · exact hcs
  | case5 c cs hc ih =>
    rw [sanitizeChars.eq_def, List.flatMap_cons, ← ih]
    unfold isDisallowedControl
    by_cases hctl : isControl c = true
    · simp [hc, hctl, Token.keep]
    · simp [hc, hctl, Token.keep]

/-- **When the sanitized text is safe**: exactly when every colour code of the input is well formed,
its characters up to the `m` being parameters and then intermediates. -/
theorem safe_sanitizeOutput_iff (input : String) :
    Safe (sanitizeOutput input).toList ↔
      ∀ b, Token.sequence b 'm' ∈ lex input.toList → SgrBody b := by
  unfold sanitizeOutput
  rw [String.toList_ofList, sanitizeChars_eq]
  exact safe_flatMap_keep_iff fun t ht => wellFormed_of_mem_lex ht

/-- A line break inside a colour code is let through. -/
theorem not_safe_line_break : ¬ Safe (sanitizeOutput "\x1b[\nm").toList := by
  have hout : (sanitizeOutput "\x1b[\nm").toList = ['\x1b', '[', '\n', 'm'] := by
    unfold sanitizeOutput
    rw [String.toList_ofList]
    simp [sanitizeChars, readSequence, ESC, isFinal]
  rw [hout]
  intro h
  have hesc := h.eq_ESC (show '\n' ∈ ['\x1b', '[', '\n', 'm'] by decide) (by decide)
  revert hesc
  decide

end MergeReady.Prompt
