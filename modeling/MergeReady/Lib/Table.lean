import Mathlib.Data.List.AList

/-!
# Association lists with values of one type

Filtering and mapping the values of an association list, and what a lookup sees after each.  A
lookup does not depend on the order of the rows, so a table stands for a hash map whose iteration
order is not specified.
-/

namespace MergeReady.Lib

/-- A finite map from `κ` to `ν`, with its rows in some order. -/
abbrev Table (κ ν : Type*) := AList fun _ : κ => ν

namespace Table

variable {κ ν : Type*}

/-- `retain`: the rows that satisfy `p`. -/
def retain (p : κ → ν → Bool) (t : Table κ ν) : Table κ ν :=
  ⟨t.entries.filter fun x => p x.1 x.2, t.nodupKeys.sublist List.filter_sublist⟩

/-- The table with `f` applied to every value. -/
def mapVal {μ : Type*} (f : κ → ν → μ) (t : Table κ ν) : Table κ μ :=
  ⟨t.entries.map fun x => ⟨x.1, f x.1 x.2⟩, List.NodupKeys.map₂ f _ t.nodupKeys⟩

@[simp] theorem entries_retain (p : κ → ν → Bool) (t : Table κ ν) :
    (t.retain p).entries = t.entries.filter fun x => p x.1 x.2 := rfl

variable [DecidableEq κ]

theorem mem_entries {t : Table κ ν} {k : κ} {v : ν} :
    ⟨k, v⟩ ∈ t.entries ↔ t.lookup k = some v := AList.mem_lookup_iff.symm

theorem lookup_retain (p : κ → ν → Bool) (t : Table κ ν) (k : κ) :
    (t.retain p).lookup k = (t.lookup k).filter (p k) := by
  ext v
  rw [← mem_entries, entries_retain, List.mem_filter, mem_entries, Option.filter_eq_some_iff]

theorem lookup_mapVal {μ : Type*} (f : κ → ν → μ) (t : Table κ ν) (k : κ) :
    (t.mapVal f).lookup k = (t.lookup k).map (f k) :=
  List.dlookup_map₂ (f := f) k

theorem lookup_insert_of_ne {t : Table κ ν} {k k' : κ} {v : ν} (h : k ≠ k') :
    (t.insert k' v).lookup k = t.lookup k := AList.lookup_insert_ne h

/-- A lookup sees the rows, not their order. -/
theorem lookup_perm {t u : Table κ ν} (h : t.entries.Perm u.entries) (k : κ) :
    t.lookup k = u.lookup k := AList.perm_lookup h

/-! ### Writes that may leave the table alone -/

/-- The table with the row of `k` overwritten by `o`, and the table itself if `o` is `none`. -/
def put (k : κ) (o : Option ν) (t : Table κ ν) : Table κ ν :=
  match o with
  | some v => t.insert k v
  | none => t

theorem lookup_put_of_ne {t : Table κ ν} {k k' : κ} {o : Option ν} (h : k ≠ k') :
    (t.put k' o).lookup k = t.lookup k := by
  cases o with
  | none => rfl
  | some v => exact lookup_insert_of_ne h

/-- **Writes under different keys commute.** -/
theorem put_comm (t : Table κ ν) {k k' : κ} (h : k ≠ k') (o o' : Option ν) :
    ((t.put k o).put k' o').entries.Perm ((t.put k' o').put k o).entries := by
  cases o with
  | none => exact List.Perm.refl _
  | some v =>
    cases o' with
    | none => exact List.Perm.refl _
    | some v' => exact AList.insert_insert_of_ne t h

end Table

end MergeReady.Lib
