import Mathlib.Data.Set.Function

/-!
# A memo of one entry

A memo keeps the value of a function at one argument, under the key of that argument.  `Holds` says
so of a memo and the arguments seen so far; where no two of these share a key, what is found under
the key of an argument is the value there (`Holds.hit`).
-/

namespace MergeReady.Lib.Memo

variable {α κ β ε : Type*} {key : α → κ} {f : α → Except ε β} {seen seen' : Set α}

/-- What the memo keeps is the value at an argument seen before, under its key. -/
def Holds (key : α → κ) (f : α → Except ε β) (seen : Set α) (m : Option (κ × β)) : Prop :=
  ∀ e, m = some e → ∃ x ∈ seen, e.1 = key x ∧ f x = .ok e.2

theorem Holds.empty : Holds key f seen none := by
  rintro e ⟨⟩

theorem Holds.store {x : α} {b : β} (hx : x ∈ seen) (hb : f x = .ok b) :
    Holds key f seen (some (key x, b)) := by
  rintro e ⟨⟩
  exact ⟨x, hx, rfl, hb⟩

theorem Holds.mono {m : Option (κ × β)} (h : Holds key f seen m) (hs : seen ⊆ seen') :
    Holds key f seen' m := by
  intro e he
  obtain ⟨x, hx, hval⟩ := h e he
  exact ⟨x, hs hx, hval⟩

/-- A hit is the value at the argument that was looked up, whichever argument was stored. -/
theorem Holds.hit {m : Option (κ × β)} {x : α} {b : β} (h : Holds key f seen m)
    (hinj : Set.InjOn key seen) (hx : x ∈ seen) (hm : m = some (key x, b)) : f x = .ok b := by
  obtain ⟨y, hy, hkey, hval⟩ := h _ hm
  rw [hinj hx hy hkey]
  exact hval

end MergeReady.Lib.Memo
