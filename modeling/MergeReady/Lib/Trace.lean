import MergeReady.Lib.Run

/-!
# Programs and their traces

A program is a function of a state, and what it does is a run of a transition relation: the labels
of the run are its trace.  `Does step x s R`: from `s` the program makes a run, and `R` holds of its
trace, of what it returns and of the state it leaves.  The rules follow the shape of a program
(`Does.pure`, `Does.bind`), so that a program's own rule is put together from those of its parts.
`Guarded ok pre l` says of a trace `l` after the trace `pre` that each of its labels may stand where
it does, seeing what comes before it.
-/

namespace MergeReady.Lib

variable {σ ℓ α β : Type}

def Does (step : σ → ℓ → σ → Prop) (x : StateM σ α) (s : σ) (R : List ℓ → α → σ → Prop) : Prop :=
  ∃ ls, Run step s ls (x s).2 ∧ R ls (x s).1 (x s).2

namespace Does

variable {step : σ → ℓ → σ → Prop} {x : StateM σ α} {f : α → StateM σ β} {s : σ} {a : α}
  {R R' : List ℓ → α → σ → Prop} {Q : List ℓ → β → σ → Prop}

theorem pure (h : R [] a s) : Does step (Pure.pure a) s R := ⟨[], .nil s, h⟩

theorem bind (hx : Does step x s R)
    (hf : ∀ l a t, Run step s l t → R l a t → Does step (f a) t fun l' => Q (l ++ l')) :
    Does step (x >>= f) s Q := by
  obtain ⟨l, hrun, hR⟩ := hx
  obtain ⟨l', hrun', hQ⟩ := hf l _ _ hrun hR
  exact ⟨l ++ l', Run.append_iff.2 ⟨_, hrun, hrun'⟩, hQ⟩

theorem mono (h : Does step x s R) (hR : ∀ l a t, Run step s l t → R l a t → R' l a t) :
    Does step x s R' := by
  obtain ⟨l, hrun, hr⟩ := h
  exact ⟨l, hrun, hR l _ _ hrun hr⟩

end Does

/-! ## What may come after what -/

/-- Each label of the trace after `pre` is one that `ok` allows after the labels before it. -/
def Guarded (ok : List ℓ → ℓ → Prop) : List ℓ → List ℓ → Prop
  | _, [] => True
  | pre, c :: l => ok pre c ∧ Guarded ok (pre ++ [c]) l

namespace Guarded

variable {ok : List ℓ → ℓ → Prop} {pre l l' : List ℓ}

theorem append_iff : Guarded ok pre (l ++ l') ↔ Guarded ok pre l ∧ Guarded ok (pre ++ l) l' := by
  induction l generalizing pre with
  | nil => simp [Guarded]
  | cons c l ih => simp [Guarded, ih, and_assoc]

theorem single_iff {c : ℓ} : Guarded ok pre [c] ↔ ok pre c := and_iff_left trivial

/-- What is allowed after everything that begins as the trace so far does. -/
theorem of_forall (h : ∀ c ∈ l, ∀ pre', pre <+: pre' → ok pre' c) : Guarded ok pre l := by
  induction l generalizing pre with
  | nil => trivial
  | cons c l ih =>
    rw [List.forall_mem_cons] at h
    exact ⟨h.1 pre (List.prefix_refl pre), ih fun d hd pre' hpre =>
      h.2 d hd pre' ((List.prefix_append pre [c]).trans hpre)⟩

theorem iff_split : Guarded ok pre l ↔
    ∀ before c after, l = before ++ c :: after → ok (pre ++ before) c := by
  induction l generalizing pre with
  | nil => simp [Guarded]
  | cons d l ih =>
    rw [Guarded, ih]
    constructor
    · rintro ⟨hd, hl⟩ before c after heq
      cases before with
      | nil =>
        obtain ⟨rfl, -⟩ := List.cons.inj heq
        rwa [List.append_nil]
      | cons b before =>
        obtain ⟨rfl, hrest⟩ := List.cons.inj heq
        have := hl before c after hrest
        rwa [List.append_assoc] at this
    · intro h
      refine ⟨?_, fun before c after heq => ?_⟩
      · have := h [] d l rfl
        rwa [List.append_nil] at this
      · have := h (d :: before) c after (congrArg (d :: ·) heq)
        rwa [List.append_assoc]

end Guarded

end MergeReady.Lib
