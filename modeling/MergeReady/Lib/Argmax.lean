import Mathlib.Data.List.MinMax

/-!
# The first of the greatest

`List.argmax` among equally great elements picks the one that comes first.  This file says so in terms
of what comes before and after it, and what follows when a list is put into another order.
-/

namespace MergeReady.Lib

section

variable {α β : Type*} [LinearOrder β] {f : α → β}

theorem exists_argmax_eq_some {l : List α} {a : α} (ha : a ∈ l) :
    ∃ m, l.argmax f = some m ∧ f a ≤ f m := by
  cases h : l.argmax f with
  | none =>
    rw [List.argmax_eq_none.1 h] at ha
    cases ha
  | some m => exact ⟨m, rfl, List.le_of_mem_argmax ha h⟩

variable [DecidableEq α]

/-- Everything before the chosen element is smaller, and nothing after it is greater. -/
theorem argmax_eq_some_iff_append {l : List α} {m : α} :
    l.argmax f = some m ↔ ∃ before after, l = before ++ m :: after ∧
      (∀ a ∈ before, f a < f m) ∧ ∀ a ∈ after, f a ≤ f m := by
  rw [List.argmax_eq_some_iff]
  constructor
  · rintro ⟨hm, hmax, hfirst⟩
    obtain ⟨before, after, rfl, hnot⟩ := List.eq_append_cons_of_mem hm
    refine ⟨before, after, rfl, fun a ha => ?_, fun a ha => hmax a (by simp [ha])⟩
    by_contra hge
    have hidx := hfirst a (List.mem_append_left _ ha) (not_lt.1 hge)
    rw [List.idxOf_append_of_notMem hnot, List.idxOf_append_of_mem ha] at hidx
    have := List.idxOf_lt_length_of_mem ha
    omega
  · rintro ⟨before, after, rfl, hbefore, hafter⟩
    have hnot : m ∉ before := fun h => lt_irrefl _ (hbefore m h)
    refine ⟨by simp, fun a ha => ?_, fun a ha hge => ?_⟩
    · rcases List.mem_append.1 ha with ha | ha
      · exact (hbefore a ha).le
      · rcases List.mem_cons.1 ha with rfl | ha
        · exact le_refl _
        · exact hafter a ha
    · have hnot' : a ∉ before := fun h => not_lt.2 hge (hbefore a h)
      rw [List.idxOf_append_of_notMem hnot, List.idxOf_append_of_notMem hnot', List.idxOf_cons_self]
      omega

/-- An element as great as the chosen one that stands in front keeps the choice in front. -/
theorem mem_left_of_argmax_append {l₁ l₂ : List α} {m a : α} (h : (l₁ ++ l₂).argmax f = some m)
    (ha : a ∈ l₁) (hle : f m ≤ f a) : m ∈ l₁ := by
  by_contra hnot
  have hidx := (List.argmax_eq_some_iff.1 h).2.2 a (List.mem_append_left _ ha) hle
  rw [List.idxOf_append_of_notMem hnot, List.idxOf_append_of_mem ha] at hidx
  have := List.idxOf_lt_length_of_mem ha
  omega

/-- A choice that is not in the second list is the choice from the first. -/
theorem argmax_of_append_left {l₁ l₂ : List α} {m : α} (h : (l₁ ++ l₂).argmax f = some m)
    (hm : m ∉ l₂) : l₁.argmax f = some m := by
  obtain ⟨hmem, hmax, hfirst⟩ := List.argmax_eq_some_iff.1 h
  have hleft : m ∈ l₁ := (List.mem_append.1 hmem).resolve_right hm
  refine List.argmax_eq_some_iff.2 ⟨hleft, fun a ha => hmax a (List.mem_append_left _ ha), ?_⟩
  intro a ha hge
  have hidx := hfirst a (List.mem_append_left _ ha) hge
  rwa [List.idxOf_append_of_mem hleft, List.idxOf_append_of_mem ha] at hidx

/-- The choice from the first list stays the choice when nothing greater is appended. -/
theorem argmax_append_of_le {l₁ l₂ : List α} {m : α} (h : l₁.argmax f = some m)
    (hle : ∀ a ∈ l₂, f a ≤ f m) : (l₁ ++ l₂).argmax f = some m := by
  obtain ⟨before, after, rfl, hbefore, hafter⟩ := argmax_eq_some_iff_append.1 h
  refine argmax_eq_some_iff_append.2 ⟨before, after ++ l₂, by simp, hbefore, fun a ha => ?_⟩
  rcases List.mem_append.1 ha with ha | ha
  · exact hafter a ha
  · exact hle a ha

end

end MergeReady.Lib
