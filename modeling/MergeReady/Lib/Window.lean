import Mathlib.Data.List.ReduceOption

/-!
# Slots that keep the latest

Each step takes a value out of a cell, or finds the cell empty, and pushes what it found through a row
of `n` slots; what the last slot held is lost.  So the slots show the last `n` things pushed, the
latest first, and of the values pushed they keep the latest `n` as long as nothing empty was pushed
onto one (`GapFree`); `take_reduceOption_sublist_iff` says when exactly they do.
-/

namespace MergeReady.Lib

variable {α : Type*} {l : List (Option α)}

/-- Nothing empty was pushed onto a value; the latest push stands first. -/
def GapFree (l : List (Option α)) : Prop :=
  ∃ (as : List α) (k : ℕ), l = as.map some ++ List.replicate k none

theorem gapFree_nil : GapFree ([] : List (Option α)) := ⟨[], 0, rfl⟩

theorem GapFree.some_cons (h : GapFree l) (a : α) : GapFree (some a :: l) := by
  obtain ⟨as, k, rfl⟩ := h
  exact ⟨a :: as, k, rfl⟩

/-- A gap once pushed stays one. -/
theorem GapFree.of_suffix {l' : List (Option α)} (h : GapFree l) (hsuffix : l' <:+ l) :
    GapFree l' := by
  obtain ⟨as, k, rfl⟩ := h
  induction as with
  | nil =>
    obtain ⟨front, hfront⟩ := hsuffix
    rw [List.map_nil, List.nil_append] at hfront
    refine ⟨[], l'.length, (List.eq_replicate_of_mem fun o ho => ?_)⟩
    exact List.eq_of_mem_replicate (hfront ▸ List.mem_append_right _ ho)
  | cons a as ih =>
    rw [List.map_cons, List.cons_append, List.suffix_cons_iff] at hsuffix
    rcases hsuffix with rfl | hsuffix
    · exact ⟨a :: as, k, rfl⟩
    · exact ih hsuffix

theorem gapFree_none_cons : GapFree (none :: l) ↔ ∀ o ∈ l, o = none := by
  constructor
  · rintro ⟨as, k, h⟩
    cases as with
    | cons a as => cases h
    | nil =>
      rw [List.map_nil, List.nil_append] at h
      intro o ho
      exact List.eq_of_mem_replicate (h ▸ List.mem_cons_of_mem _ ho)
  · intro h
    exact ⟨[], l.length + 1, by
      rw [List.map_nil, List.nil_append, List.replicate_succ, List.eq_replicate_of_mem h,
        List.length_replicate]⟩

theorem GapFree.getElem?_join (h : GapFree l) (i : ℕ) : l[i]?.join = l.reduceOption[i]? := by
  obtain ⟨as, k, rfl⟩ := h
  induction as generalizing i with
  | nil =>
    rw [List.map_nil, List.nil_append, List.reduceOption_replicate_none, List.getElem?_replicate]
    split <;> rfl
  | cons a as ih =>
    rw [List.map_cons, List.cons_append, List.reduceOption_cons_of_some]
    cases i with
    | zero => rfl
    | succ i => exact ih i

/-- Without gaps the slots before one that holds a value hold values. -/
theorem GapFree.join_of_lt (h : GapFree l) {i j : ℕ} {b : α} (hj : l[j]?.join = some b)
    (hij : i < j) : ∃ a ∈ l.reduceOption, l[i]?.join = some a := by
  rw [h.getElem?_join] at hj
  obtain ⟨hlt, -⟩ := List.getElem?_eq_some_iff.1 hj
  refine ⟨l.reduceOption[i], List.getElem_mem _, ?_⟩
  rw [h.getElem?_join]
  exact List.getElem?_eq_getElem _

theorem filterMap_slots (l : List (Option α)) (n : ℕ) :
    (List.range n).filterMap (fun i => l[i]?.join) = (l.take n).reduceOption := by
  induction n with
  | zero => rfl
  | succ n ih =>
    rw [List.range_succ, List.filterMap_append, ih, List.take_add_one, List.reduceOption_append]
    congr 1
    rw [List.filterMap_cons, List.filterMap_nil]
    rcases l[n]? with _ | _ | a
    all_goals rfl

/-- Without gaps the first `n` slots hold the latest `n` values. -/
theorem GapFree.reduceOption_take (h : GapFree l) (n : ℕ) :
    (l.take n).reduceOption = l.reduceOption.take n := by
  obtain ⟨as, k, rfl⟩ := h
  induction as generalizing n with
  | nil =>
    rw [List.map_nil, List.nil_append, List.take_replicate, List.reduceOption_replicate_none,
      List.reduceOption_replicate_none, List.take_nil]
  | cons a as ih =>
    cases n with
    | zero => rfl
    | succ n =>
      rw [List.map_cons, List.cons_append, List.take_succ_cons, List.reduceOption_cons_of_some,
        List.reduceOption_cons_of_some, List.take_succ_cons, ih]

/-- The first `n` slots hold the latest `n` values exactly when none of the last `n` pushes was empty,
or no value was pushed before them. -/
theorem take_reduceOption_sublist_iff (l : List (Option α)) (n : ℕ) :
    (l.reduceOption.take n).Sublist (l.take n).reduceOption ↔
      (∀ o ∈ l.take n, o.isSome) ∨ ∀ o ∈ l.drop n, o = none := by
  have hsplit : l.reduceOption = (l.take n).reduceOption ++ (l.drop n).reduceOption := by
    rw [← List.reduceOption_append, List.take_append_drop]
  have hle : (l.take n).reduceOption.length ≤ n :=
    Nat.le_trans (List.reduceOption_length_le _) (List.length_take_le n l)
  have hdrop : (∀ o ∈ l.drop n, o = none) ↔ (l.drop n).reduceOption = [] := by
    rw [List.reduceOption_eq_nil_iff]
    constructor
    · intro h
      exact ⟨_, List.eq_replicate_of_mem h⟩
    · rintro ⟨k, hk⟩ o ho
      exact List.eq_of_mem_replicate (hk ▸ ho)
  rw [hdrop, hsplit, List.take_append, List.take_of_length_le hle, ← List.reduceOption_length_eq_iff]
  constructor
  · intro h
    have hlen := h.length_le
    rw [List.length_append, List.length_take] at hlen
    by_cases hB : (l.drop n).reduceOption = []
    · exact Or.inr hB
    · have := List.length_pos_of_ne_nil hB
      have := List.length_take_le n l
      have := List.reduceOption_length_le (l.take n)
      exact Or.inl (by omega)
  · rintro (h | h)
    · rcases Nat.le_total n l.length with hn | hn
      · rw [List.length_take, Nat.min_eq_left hn] at h
        rw [h, Nat.sub_self, List.take_zero, List.append_nil]
      · rw [List.drop_of_length_le hn, List.reduceOption_nil, List.take_nil, List.append_nil]
    · rw [h, List.take_nil, List.append_nil]

end MergeReady.Lib
