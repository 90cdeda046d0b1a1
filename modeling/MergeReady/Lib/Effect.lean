import Mathlib.Tactic.Common

/-!
# Computations that may fail and keep their state

`Effect σ ε α` reads and writes a state of type `σ` and returns a value or an error; what it did to
the state before an error stays done.  `Yields x s a t`: from `s` it returns `a` and leaves `t`.
The rules follow the shape of a program (`Yields.bind`, `Yields.ite`, `Yields.result`), so that a
program's own rule is put together from those of its parts.  `Ends x s Q E` is the same for a
computation that may fail: what holds at its end when it returns, and when it fails.
-/

namespace MergeReady.Lib

/-- A computation over the state `σ` that returns a value or an error. -/
abbrev Effect (σ ε α : Type) := ExceptT ε (StateM σ) α

namespace Effect

variable {σ τ ε α β : Type}

/-- The computation from a state: what it returns and the state it leaves. -/
def run (x : Effect σ ε α) (s : σ) : Except ε α × σ := ExceptT.run x s

/-- The computation with its outcome as a value, for a caller that looks at the error. -/
def result (x : Effect σ ε α) : Effect σ ε (Except ε α) :=
  ExceptT.lift (ExceptT.run x)

/-- A computation over a part of a larger state. -/
def within (get : σ → τ) (put : τ → σ → σ) (x : Effect τ ε α) : Effect σ ε α :=
  ExceptT.mk fun s => ((run x (get s)).1, put (run x (get s)).2 s)

/-- From `s` the computation returns `a` and leaves `t`. -/
def Yields (x : Effect σ ε α) (s : σ) (a : α) (t : σ) : Prop := run x s = (.ok a, t)

/-- From `s` the computation fails with `e` and leaves `t`. -/
def Fails (x : Effect σ ε α) (s : σ) (e : ε) (t : σ) : Prop := run x s = (.error e, t)

section Rules

variable {x : Effect σ ε α} {f : α → Effect σ ε β} {s t u : σ} {a : α} {b : β} {e : ε}

theorem Yields.det {a' : α} {t' : σ} (h : Yields x s a t) (h' : Yields x s a' t') :
    a = a' ∧ t = t' := by
  unfold Yields at h h'
  rw [h] at h'
  cases h'
  exact ⟨rfl, rfl⟩

theorem yields_pure : Yields (pure a : Effect σ ε α) s a s := rfl

theorem yields_get : Yields (get : Effect σ ε σ) s s s := rfl

theorem yields_modify (g : σ → σ) : Yields (modify g : Effect σ ε PUnit) s ⟨⟩ (g s) := rfl

theorem fails_throw : Fails (throw e : Effect σ ε α) s e s := rfl

theorem run_bind (x : Effect σ ε α) (f : α → Effect σ ε β) (s : σ) :
    run (x >>= f) s = match run x s with
      | (.ok a, t) => run (f a) t
      | (.error e, t) => (.error e, t) := by
  simp only [run, ExceptT.run, bind, ExceptT.bind, ExceptT.mk, StateT.bind]
  rcases x s with ⟨r, t⟩
  cases r with
  | ok a => rfl
  | error e => rfl

theorem Yields.bind (h : Yields x s a t) (hf : Yields (f a) t b u) : Yields (x >>= f) s b u := by
  unfold Yields at h ⊢
  rw [run_bind, h]
  exact hf

theorem Yields.bind_fails (h : Yields x s a t) (hf : Fails (f a) t e u) :
    Fails (x >>= f) s e u := by
  unfold Yields at h
  unfold Fails at hf ⊢
  rw [run_bind, h]
  exact hf

theorem Fails.bind (h : Fails x s e t) : Fails (x >>= f) s e t := by
  unfold Fails at h ⊢
  rw [run_bind, h]

theorem Yields.ite {p : Prop} [Decidable p] {y : Effect σ ε α} (hx : p → Yields x s a t)
    (hy : ¬ p → Yields y s a t) : Yields (if p then x else y) s a t := by
  split
  · exact hx ‹_›
  · exact hy ‹_›

theorem Yields.result (h : Yields x s a t) : Yields x.result s (.ok a) t := by
  unfold Yields run at h ⊢
  simp only [Effect.result, ExceptT.lift, ExceptT.run, ExceptT.mk] at h ⊢
  show (Except.ok <$> x : StateM σ _) s = _
  simp [Functor.map, StateT.map, h]

theorem Fails.result (h : Fails x s e t) : Yields x.result s (.error e) t := by
  unfold Fails run at h
  unfold Yields run
  simp only [Effect.result, ExceptT.lift, ExceptT.run, ExceptT.mk] at h ⊢
  show (Except.ok <$> x : StateM σ _) s = _
  simp [Functor.map, StateT.map, h]

theorem Yields.within {get : σ → τ} {put : τ → σ → σ} {x : Effect τ ε α} {t : τ}
    (h : Yields x (get s) a t) : Yields (within get put x) s a (put t s) := by
  unfold Yields at h ⊢
  show ((run x (get s)).1, put (run x (get s)).2 s) = _
  rw [h]

end Rules

/-! ## Postconditions -/

/-- From `s` the computation ends in a state with `Q` of it and the value when it returns, and with
`E` of it and the error when it fails. -/
def Ends (x : Effect σ ε α) (s : σ) (Q : α → σ → Prop) (E : ε → σ → Prop) : Prop :=
  match run x s with
  | (.ok a, t) => Q a t
  | (.error e, t) => E e t

section Ends

variable {x : Effect σ ε α} {f : α → Effect σ ε β} {s t : σ} {a : α} {e : ε}
  {Q Q' : α → σ → Prop} {R : β → σ → Prop} {E E' : ε → σ → Prop}

theorem Ends.bind (h : Ends x s Q E) (hf : ∀ a t, Q a t → Ends (f a) t R E) :
    Ends (x >>= f) s R E := by
  unfold Ends at h ⊢
  rw [run_bind]
  split at h
  · next a t _ => exact hf a t h
  · exact h

theorem Ends.mono (h : Ends x s Q E) (hQ : ∀ a t, Q a t → Q' a t) (hE : ∀ e t, E e t → E' e t) :
    Ends x s Q' E' := by
  unfold Ends at h ⊢
  split at h
  · next a t _ => exact hQ a t h
  · next e t _ => exact hE e t h

theorem Ends.ite {p : Prop} [Decidable p] {y : Effect σ ε α} (hx : p → Ends x s Q E)
    (hy : ¬ p → Ends y s Q E) : Ends (if p then x else y) s Q E := by
  split
  · exact hx ‹_›
  · exact hy ‹_›

/-- A caller that looks at the error does not fail. -/
theorem Ends.result {Q : Except ε α → σ → Prop}
    (h : Ends x s (fun a t => Q (.ok a) t) fun e t => Q (.error e) t) : Ends x.result s Q E := by
  cases hx : run x s with
  | mk r t =>
    unfold Ends at h
    rw [hx] at h
    cases r with
    | ok a =>
      have hres : run x.result s = (.ok (.ok a), t) := Yields.result hx
      unfold Ends
      rw [hres]
      exact h
    | error e =>
      have hres : run x.result s = (.ok (.error e), t) := Fails.result hx
      unfold Ends
      rw [hres]
      exact h

theorem Ends.within {get : σ → τ} {put : τ → σ → σ} {x : Effect τ ε α}
    (h : Ends x (get s) (fun a t => Q a (put t s)) fun e t => E e (put t s)) :
    Ends (within get put x) s Q E := by
  unfold Ends at h ⊢
  show match ((run x (get s)).1, put (run x (get s)).2 s) with
    | (.ok a, t) => Q a t
    | (.error e, t) => E e t
  split at h
  · next a t hx =>
    rw [hx]
    exact h
  · next e t hx =>
    rw [hx]
    exact h

end Ends

end Effect

end MergeReady.Lib
