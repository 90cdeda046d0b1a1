import Mathlib.Logic.Function.Basic

/-!
# A resource and the local states of its users

A shared resource records who owns it, and each of any number of processes has a local state that says
whether it does.  `Owned r P locals`: the two agree.  So one process at most believes that it owns the
resource.  A step changes the local state of one process, and the rules say when the agreement stays:
`Owned.same` when neither changes, `Owned.take` when the process takes what nobody owns,
`Owned.release` when the resource is given up and nobody else believes to own it.
-/

namespace MergeReady.Lib

variable {ι σ : Type*}

/-- The resource is owned by exactly the process whose local state satisfies `P`. -/
def Owned (r : Option ι) (P : σ → Prop) (locals : ι → σ) : Prop :=
  ∀ i, r = some i ↔ P (locals i)

/-- A property of every local state, after a step of `i`. -/
theorem forall_local_update [DecidableEq ι] {Q : σ → Prop} {locals : ι → σ} {i : ι} {d : σ}
    (hd : Q d) (h : ∀ j, j ≠ i → Q (locals j)) (j : ι) : Q (Function.update locals i d j) := by
  by_cases hj : j = i
  · subst hj
    rw [Function.update_self]
    exact hd
  · rw [Function.update_of_ne hj]
    exact h j hj

namespace Owned

variable {r : Option ι} {P : σ → Prop} {locals : ι → σ} {i j : ι} {d : σ}

theorem unique (h : Owned r P locals) (hi : P (locals i)) (hj : P (locals j)) : i = j :=
  Option.some.inj (((h i).2 hi).symm.trans ((h j).2 hj))

/-- The owner may give the resource up. -/
theorem others (h : Owned r P locals) (hi : P (locals i)) : ∀ j, j ≠ i → ¬ P (locals j) :=
  fun _ hj hp => hj (h.unique hp hi)

/-- Nobody but `i` owns the resource exactly when it is free or owned by `i`. -/
theorem others_iff (h : Owned r P locals) :
    (∀ j, j ≠ i → ¬ P (locals j)) ↔ r = none ∨ r = some i := by
  constructor
  · intro hothers
    cases hr : r with
    | none => exact .inl rfl
    | some j =>
      by_cases hj : j = i
      · exact .inr (congrArg some hj)
      · exact absurd ((h j).1 hr) (hothers j hj)
  · rintro hr j hj hp
    rw [← h j] at hp
    rcases hr with hr | hr
    · rw [hr] at hp
      cases hp
    · rw [hr] at hp
      exact hj (Option.some.inj hp).symm

variable [DecidableEq ι]

theorem same (h : Owned r P locals) (hd : P d ↔ P (locals i)) :
    Owned r P (Function.update locals i d) := by
  intro j
  by_cases hj : j = i
  · subst hj
    rw [Function.update_self, hd]
    exact h j
  · rw [Function.update_of_ne hj]
    exact h j

theorem take (h : Owned none P locals) (hd : P d) :
    Owned (some i) P (Function.update locals i d) := by
  intro j
  by_cases hj : j = i
  · subst hj
    rw [Function.update_self]
    exact iff_of_true rfl hd
  · rw [Function.update_of_ne hj]
    refine iff_of_false (fun he => hj (Option.some.inj he).symm) ?_
    rw [← h j]
    exact Option.some_ne_none j ∘ Eq.symm

theorem release (hothers : ∀ j, j ≠ i → ¬ P (locals j)) (hd : ¬ P d) :
    Owned none P (Function.update locals i d) := by
  intro j
  refine iff_of_false (Option.some_ne_none j ∘ Eq.symm) ?_
  exact forall_local_update (Q := fun d => ¬ P d) hd hothers j

end Owned

end MergeReady.Lib
