import Mathlib.Algebra.Ring.Nat

/-!
# Measuring with a state

A meter reads a list from left to right; the state before an element says what the element counts
and which state comes next.  A measure of this kind is not additive: what a list counts depends on the
state that the list before it leaves behind.  It is additive over closed lists, those that lead from
the initial state back to it.
-/

namespace MergeReady.Lib

structure Meter (σ α : Type) where
  start : σ
  step : σ → α → σ
  weight : σ → α → ℕ

namespace Meter

variable {σ α : Type} (m : Meter σ α)

/-- The state after a list. -/
def after (s : σ) (l : List α) : σ := l.foldl m.step s

/-- What a list counts when it is read from the state `s` on. -/
def count (s : σ) : List α → ℕ
  | [] => 0
  | a :: l => m.weight s a + count (m.step s a) l

/-- What a list counts. -/
def measure (l : List α) : ℕ := m.count m.start l

/-- The list leads back to the initial state. -/
def Closed (l : List α) : Prop := m.after m.start l = m.start

instance [DecidableEq σ] (l : List α) : Decidable (m.Closed l) :=
  inferInstanceAs (Decidable (m.after m.start l = m.start))

theorem after_cons (s : σ) (a : α) (l : List α) : m.after s (a :: l) = m.after (m.step s a) l := rfl

theorem after_append (s : σ) (l r : List α) : m.after s (l ++ r) = m.after (m.after s l) r :=
  List.foldl_append

theorem count_append (s : σ) (l r : List α) :
    m.count s (l ++ r) = m.count s l + m.count (m.after s l) r := by
  induction l generalizing s with
  | nil => simp [count, after]
  | cons a l ih =>
    rw [List.cons_append, count, count, ih, after_cons, Nat.add_assoc]

/-- A loop that keeps the count and the state is the meter. -/
theorem foldl_eq {f : ℕ × σ → α → ℕ × σ}
    (hf : ∀ n s a, f (n, s) a = (n + m.weight s a, m.step s a)) (n : ℕ) (s : σ) (l : List α) :
    l.foldl f (n, s) = (n + m.count s l, m.after s l) := by
  induction l generalizing n s with
  | nil => rfl
  | cons a l ih =>
    rw [List.foldl_cons, hf, ih, count, after_cons, Nat.add_assoc]

/-! ## Closed lists -/

variable {m}

theorem Closed.append {l r : List α} (hl : m.Closed l) (hr : m.Closed r) : m.Closed (l ++ r) := by
  unfold Closed at *
  rw [after_append, hl, hr]

theorem measure_append {l : List α} (hl : m.Closed l) (r : List α) :
    m.measure (l ++ r) = m.measure l + m.measure r := by
  unfold measure
  rw [count_append, hl]

/-- **Closed lists one after the other count what they count together.** -/
theorem measure_flatten {parts : List (List α)} (h : ∀ l ∈ parts, m.Closed l) :
    m.measure parts.flatten = (parts.map m.measure).sum := by
  induction parts with
  | nil => rfl
  | cons l parts ih =>
    rw [List.flatten_cons, measure_append (h l List.mem_cons_self), List.map_cons, List.sum_cons,
      ih fun r hr => h r (List.mem_cons_of_mem _ hr)]

/-! ## Padding -/

/-- An element that counts one and leaves the initial state alone. -/
structure IsBlank (m : Meter σ α) (b : α) : Prop where
  step : m.step m.start b = m.start
  weight : m.weight m.start b = 1

namespace IsBlank

variable {b : α} (hb : m.IsBlank b)

include hb

theorem closed_replicate (n : ℕ) : m.Closed (List.replicate n b) := by
  induction n with
  | zero => rfl
  | succ n ih =>
    unfold Closed at *
    rw [List.replicate_succ, after_cons, hb.step, ih]

theorem measure_replicate (n : ℕ) : m.measure (List.replicate n b) = n := by
  induction n with
  | zero => rfl
  | succ n ih =>
    unfold measure at *
    rw [List.replicate_succ, count, hb.step, hb.weight, ih, Nat.add_comm]

/-- A closed list filled up to `width` on the right. -/
theorem measure_append_replicate {l : List α} {width : ℕ} (hl : m.Closed l)
    (hw : m.measure l ≤ width) :
    m.measure (l ++ List.replicate (width - m.measure l) b) = width := by
  rw [measure_append hl, hb.measure_replicate]
  omega

/-- A list filled up to `width` on the left. -/
theorem measure_replicate_append {l : List α} {width : ℕ} (hw : m.measure l ≤ width) :
    m.measure (List.replicate (width - m.measure l) b ++ l) = width := by
  rw [measure_append (hb.closed_replicate _), hb.measure_replicate]
  omega

end IsBlank

end Meter

end MergeReady.Lib
