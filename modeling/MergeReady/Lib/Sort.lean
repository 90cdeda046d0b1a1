import Mathlib.Data.List.Nodup

/-!
# Sorting by a comparison, and by a key

Sorting by a comparison puts a list in its order.  Where no two elements have the same key, sorting by
it puts the keys in strictly ascending order, and the order the elements are given in does not matter.
-/

namespace MergeReady.Lib

/-- `slice::sort_by` -/
abbrev sortBy {α : Type} (cmp : α → α → Ordering) (l : List α) : List α :=
  l.mergeSort fun a b => (cmp a b).isLE

theorem isLE_or_isLE {α : Type} {cmp : α → α → Ordering} [Std.OrientedCmp cmp] (a b : α) :
    ((cmp a b).isLE || (cmp b a).isLE) = true := by
  have hswap : cmp b a = (cmp a b).swap := Std.OrientedCmp.eq_swap
  rw [hswap]
  cases cmp a b <;> rfl

theorem pairwise_sortBy {α : Type} {cmp : α → α → Ordering} [Std.TransCmp cmp] (l : List α) :
    (sortBy cmp l).Pairwise fun a b => (cmp a b).isLE = true := by
  refine List.pairwise_mergeSort ?_ (fun a b => isLE_or_isLE a b) l
  intro a b c hab hbc
  exact Std.TransCmp.isLE_trans hab hbc

section

variable {α : Type} {cmp : α → α → Ordering} [Std.TransCmp cmp] {l l' : List α}

/-- The sort is stable: it keeps the elements that compare equal in their order. -/
theorem filter_sortBy (l : List α) (a : α) :
    (sortBy cmp l).filter (fun b => (cmp a b).isEq) = l.filter fun b => (cmp a b).isEq := by
  have hclass : (l.filter fun b => (cmp a b).isEq).Pairwise fun b c => (cmp b c).isLE = true := by
    refine List.pairwise_of_forall_mem_list fun b hb c hc => ?_
    have hba : (cmp b a).isLE = true := by
      rw [Std.OrientedCmp.eq_comm.1 (Ordering.isEq_iff_eq_eq.1 (List.mem_filter.1 hb).2)]
      rfl
    have hac : (cmp a c).isLE = true := by
      rw [Ordering.isEq_iff_eq_eq.1 (List.mem_filter.1 hc).2]
      rfl
    exact Std.TransCmp.isLE_trans hba hac
  have hsub : (l.filter fun b => (cmp a b).isEq).Sublist (sortBy cmp l) := by
    refine List.sublist_mergeSort ?_ ?_ hclass List.filter_sublist
    · exact fun _ _ _ => Std.TransCmp.isLE_trans
    · exact fun b c => isLE_or_isLE b c
  have hsub' := hsub.filter fun b => (cmp a b).isEq
  rw [List.filter_filter] at hsub'
  simp only [Bool.and_self] at hsub'
  exact (hsub'.eq_of_length ((List.mergeSort_perm l _).filter _).length_eq.symm).symm

/-- A sorted list is told by its elements and by the order of those that compare equal. -/
theorem eq_of_pairwise_of_filter_eq (hl : l.Pairwise fun a b => (cmp a b).isLE = true)
    (hl' : l'.Pairwise fun a b => (cmp a b).isLE = true) (hperm : l'.Perm l)
    (h : ∀ a, l'.filter (fun b => (cmp a b).isEq) = l.filter fun b => (cmp a b).isEq) : l' = l := by
  induction l generalizing l' with
  | nil => exact hperm.eq_nil
  | cons a l ih =>
    cases l' with
    | nil => exact absurd hperm.symm.eq_nil (List.cons_ne_nil _ _)
    | cons b l' =>
      have hself : ∀ {c : α}, cmp c c = .eq := Std.ReflCmp.compare_self
      have hle : ∀ {c d : α} {t : List α}, (c :: t).Pairwise (fun a b => (cmp a b).isLE = true) →
          d ∈ c :: t → (cmp c d).isLE = true := by
        intro c d t ht hd
        rcases List.mem_cons.1 hd with rfl | hd
        · rw [hself]
          rfl
        · exact List.rel_of_pairwise_cons ht hd
      have hab : cmp a b = .eq := Std.OrientedCmp.isLE_antisymm
        (hle hl (hperm.mem_iff.1 List.mem_cons_self)) (hle hl' (hperm.mem_iff.2 List.mem_cons_self))
      have ha := h a
      rw [List.filter_cons, List.filter_cons, if_pos (Ordering.isEq_iff_eq_eq.2 hab),
        if_pos (Ordering.isEq_iff_eq_eq.2 hself)] at ha
      obtain ⟨rfl, -⟩ := List.cons.inj ha
      refine congrArg _ (ih hl.of_cons hl'.of_cons hperm.cons_inv fun c => ?_)
      have hc := h c
      rw [List.filter_cons, List.filter_cons] at hc
      split at hc
      · exact List.tail_eq_of_cons_eq hc
      · exact hc

theorem sortBy_congr (hperm : l'.Perm l)
    (h : ∀ a, l'.filter (fun b => (cmp a b).isEq) = l.filter fun b => (cmp a b).isEq) :
    sortBy cmp l' = sortBy cmp l := by
  refine eq_of_pairwise_of_filter_eq (pairwise_sortBy l) (pairwise_sortBy l') ?_ fun a => ?_
  · exact (List.mergeSort_perm _ _).trans (hperm.trans (List.mergeSort_perm _ _).symm)
  · rw [filter_sortBy, filter_sortBy, h]

theorem flatMap_eq_of_perm {ι : Type*} {f : ι → List α} {is is' : List ι} (h : is'.Perm is)
    (huniq : ∀ i ∈ is, ∀ j ∈ is, f i ≠ [] → f j ≠ [] → i = j) : is'.flatMap f = is.flatMap f := by
  induction h with
  | nil => rfl
  | cons i _ ih =>
    rw [List.flatMap_cons, List.flatMap_cons, ih]
    intro j hj k hk
    exact huniq j (List.mem_cons_of_mem _ hj) k (List.mem_cons_of_mem _ hk)
  | swap i j is =>
    by_cases hi : f i = []
    · simp [hi]
    by_cases hj : f j = []
    · simp [hj]
    rw [huniq i (by simp) j (by simp) hi hj]
  | trans h₁ h₂ ih₁ ih₂ =>
    rw [ih₁ fun i hi j hj => huniq i (h₂.mem_iff.1 hi) j (h₂.mem_iff.1 hj), ih₂ huniq]

/-- Blocks of which no two hold elements that compare equal are sorted into one list, in whatever order
they are given. -/
theorem sortBy_flatMap_of_perm {ι : Type*} {f : ι → List α} {is is' : List ι} (h : is'.Perm is)
    (huniq : ∀ i ∈ is, ∀ j ∈ is, ∀ b ∈ f i, ∀ c ∈ f j, cmp b c = .eq → i = j) :
    sortBy cmp (is'.flatMap f) = sortBy cmp (is.flatMap f) := by
  refine sortBy_congr (h.flatMap_right f) fun a => ?_
  rw [List.filter_flatMap, List.filter_flatMap]
  refine flatMap_eq_of_perm h fun i hi j hj hne hne' => ?_
  obtain ⟨b, hb⟩ := List.exists_mem_of_ne_nil _ hne
  obtain ⟨c, hc⟩ := List.exists_mem_of_ne_nil _ hne'
  obtain ⟨hb, hab⟩ := List.mem_filter.1 hb
  obtain ⟨hc, hac⟩ := List.mem_filter.1 hc
  have hba := Std.OrientedCmp.eq_comm.1 (Ordering.isEq_iff_eq_eq.1 hab)
  exact huniq i hi j hj b hb c hc (Std.TransCmp.eq_trans hba (Ordering.isEq_iff_eq_eq.1 hac))

end

section

variable {α β : Type} [LE β] [LT β] [Std.IsLinearOrder β] [Std.LawfulOrderLT β] {key : α → β}
  {l l' : List α}

/-- A list in which the keys ascend is the only one of its elements. -/
theorem eq_of_perm_of_ascending (hl : l.Pairwise fun a b => key a < key b)
    (hl' : l'.Pairwise fun a b => key a < key b) (h : l'.Perm l) : l' = l := by
  refine List.Perm.eq_of_pairwise ?_ hl' hl h
  intro a b _ _ hab hba
  exact absurd (Std.lt_trans hab hba) Std.lt_irrefl

variable [DecidableLE β]

/-- `slice::sort_by_key` -/
abbrev sortByKey (key : α → β) (l : List α) : List α :=
  l.mergeSort fun a b => decide (key a ≤ key b)

theorem pairwise_sortByKey (h : (l.map key).Nodup) :
    (sortByKey key l).Pairwise fun a b => key a < key b := by
  have hle : (sortByKey key l).Pairwise fun a b => decide (key a ≤ key b) = true := by
    refine List.pairwise_mergeSort ?_ ?_ l
    · intro a b c hab hbc
      exact decide_eq_true (Std.le_trans (of_decide_eq_true hab) (of_decide_eq_true hbc))
    · intro a b
      rw [Bool.or_eq_true, decide_eq_true_eq, decide_eq_true_eq]
      exact Std.le_total
  have hne : (sortByKey key l).Pairwise fun a b => key a ≠ key b :=
    List.pairwise_map.1 (((List.mergeSort_perm _ _).map key).nodup_iff.2 h)
  refine hle.imp₂ (fun a b hle hne => ?_) hne
  exact Std.lt_of_le_of_ne (of_decide_eq_true hle) hne

/-- Elements given in any order are sorted into the ascending list of them. -/
theorem sortByKey_eq_of_ascending (hl : l.Pairwise fun a b => key a < key b) (h : l'.Perm l) :
    sortByKey key l' = l := by
  have hnodup : (l.map key).Nodup := List.pairwise_map.2 (hl.imp fun h => Std.ne_of_lt h)
  exact eq_of_perm_of_ascending hl (pairwise_sortByKey ((h.map key).nodup_iff.2 hnodup))
    ((List.mergeSort_perm _ _).trans h)

end

end MergeReady.Lib
