import Mathlib.Algebra.Ring.Nat
import Mathlib.Data.List.Induction
import Mathlib.Tactic.Common

/-!
# Runs of a labelled transition relation

`Run step s ls t`: from `s`, steps labelled `ls` in this order lead to `t`.  The rules:

* `Run.append_iff`, `Run.snoc_iff` cut a run at any place or at its last step;
* `Run.invariant` carries a property of states along a run;
* `Run.history` carries a property of the labels so far and the state they lead to;
* `Run.sum_le_one` bounds how often a run does something that it can do only once.
-/

namespace MergeReady.Lib

variable {σ ℓ : Type*}

/-- The runs of a labelled transition relation. -/
inductive Run (step : σ → ℓ → σ → Prop) : σ → List ℓ → σ → Prop
  | nil (s : σ) : Run step s [] s
  | cons {s t u : σ} {l : ℓ} {ls : List ℓ} : step s l t → Run step t ls u → Run step s (l :: ls) u

namespace Run

variable {step : σ → ℓ → σ → Prop} {s t u : σ} {l : ℓ} {ls ls' : List ℓ}

@[simp] theorem nil_iff : Run step s [] t ↔ s = t := by
  constructor
  · rintro ⟨⟩; rfl
  · rintro rfl; exact nil s

theorem cons_iff : Run step s (l :: ls) u ↔ ∃ t, step s l t ∧ Run step t ls u := by
  constructor
  · rintro (_ | ⟨h, hr⟩)
    exact ⟨_, h, hr⟩
  · rintro ⟨t, h, hr⟩
    exact cons h hr

theorem append_iff : Run step s (ls ++ ls') u ↔ ∃ t, Run step s ls t ∧ Run step t ls' u := by
  induction ls generalizing s with
  | nil => simp
  | cons l ls ih =>
    rw [List.cons_append, cons_iff]
    constructor
    · rintro ⟨t, h, hr⟩
      obtain ⟨v, h1, h2⟩ := ih.1 hr
      exact ⟨v, cons h h1, h2⟩
    · rintro ⟨v, h1, h2⟩
      obtain ⟨t, h, hr⟩ := cons_iff.1 h1
      exact ⟨t, h, ih.2 ⟨v, hr, h2⟩⟩

theorem single_iff : Run step s [l] t ↔ step s l t := by
  rw [cons_iff]
  constructor
  · rintro ⟨t', h, hr⟩
    rw [nil_iff] at hr
    exact hr ▸ h
  · intro h
    exact ⟨t, h, nil t⟩

theorem snoc_iff : Run step s (ls ++ [l]) u ↔ ∃ t, Run step s ls t ∧ step t l u := by
  rw [append_iff]
  simp only [single_iff]

theorem snoc (h : Run step s ls t) (hl : step t l u) : Run step s (ls ++ [l]) u :=
  snoc_iff.2 ⟨t, h, hl⟩

/-- A property of states that every step keeps holds at the end of a run if it does at its start. -/
theorem invariant {P : σ → Prop} (hstep : ∀ s l t, P s → step s l t → P t)
    (hr : Run step s ls t) (hs : P s) : P t := by
  induction hr with
  | nil => exact hs
  | cons h _ ih => exact ih (hstep _ _ _ hs h)

/-- A property of a run and its end that holds of the empty run and is kept when the run grows by
one step holds of every run. -/
theorem history {P : List ℓ → σ → Prop} (h0 : P [] s)
    (hstep : ∀ ls t l u, Run step s ls t → P ls t → step t l u → P (ls ++ [l]) u) :
    ∀ {ls t}, Run step s ls t → P ls t := by
  intro ls
  induction ls using List.reverseRecOn with
  | nil =>
    intro t hr
    rw [nil_iff] at hr
    exact hr ▸ h0
  | append_singleton ls l ih =>
    intro u hr
    obtain ⟨t, hr', hl⟩ := snoc_iff.1 hr
    exact hstep ls t l u hr' (ih hr') hl

/-- Before it happens `P` holds of the labels to come and the state, and once it has happened `Q` does;
under `Q` it does not happen, so it happens at most once.  `w` counts how often a label does it. -/
theorem sum_le_one {w : ℓ → ℕ} {P Q : List ℓ → σ → Prop}
    (hP : ∀ l ls s t, P (l :: ls) s → step s l t → (w l = 0 ∧ P ls t) ∨ (w l ≤ 1 ∧ Q ls t))
    (hQ : ∀ l ls s t, Q (l :: ls) s → step s l t → w l = 0 ∧ Q ls t)
    (hr : Run step s ls t) : (Q ls s → (ls.map w).sum = 0) ∧ (P ls s → (ls.map w).sum ≤ 1) := by
  induction hr with
  | nil => simp
  | cons h _ ih =>
    obtain ⟨ihQ, ihP⟩ := ih
    rw [List.map_cons, List.sum_cons]
    constructor
    · intro hq
      obtain ⟨hw, hq'⟩ := hQ _ _ _ _ hq h
      rw [hw, ihQ hq']
    · intro hp
      rcases hP _ _ _ _ hp h with ⟨hw, hp'⟩ | ⟨hw, hq'⟩
      · have := ihP hp'
        omega
      · rw [ihQ hq']
        exact hw

/-- Two relations with the same steps from the states of an invariant have the same runs from them. -/
theorem congr {step' : σ → ℓ → σ → Prop} {P : σ → Prop}
    (hiff : ∀ s l t, P s → (step s l t ↔ step' s l t))
    (hstep : ∀ s l t, P s → step' s l t → P t) (hs : P s) :
    Run step s ls t ↔ Run step' s ls t := by
  induction ls generalizing s with
  | nil => rw [nil_iff, nil_iff]
  | cons l ls ih =>
    rw [cons_iff, cons_iff]
    refine exists_congr fun u => ?_
    constructor
    · rintro ⟨h, hr⟩
      have h' := (hiff s l u hs).1 h
      exact ⟨h', (ih (hstep s l u hs h')).1 hr⟩
    · rintro ⟨h', hr⟩
      exact ⟨(hiff s l u hs).2 h', (ih (hstep s l u hs h')).2 hr⟩

/-- Where a label leads to one state at most, the labels of a run do. -/
theorem det (hdet : ∀ s l t t', step s l t → step s l t' → t = t') (hr : Run step s ls t)
    (hr' : Run step s ls u) : t = u := by
  induction hr with
  | nil s => exact nil_iff.1 hr'
  | cons h _ ih =>
    obtain ⟨v, h', hr''⟩ := cons_iff.1 hr'
    rw [hdet _ _ _ _ h' h] at hr''
    exact ih hr''

/-- The same runs under a relation with more steps. -/
theorem mono {step' : σ → ℓ → σ → Prop} (h : ∀ s l t, step s l t → step' s l t)
    (hr : Run step s ls t) : Run step' s ls t := by
  induction hr with
  | nil s => exact nil s
  | cons hl _ ih => exact cons (h _ _ _ hl) ih

end Run

end MergeReady.Lib
