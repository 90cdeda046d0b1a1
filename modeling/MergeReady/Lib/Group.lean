import Mathlib.Data.List.Induction
import Mathlib.Data.List.Nodup
import Mathlib.Tactic.Common

/-!
# Grouping by search and append

`groupPairs` takes pairs of a key and a value one by one, searches the group of the key, and appends
the value to it; a key that has no group opens one at the end.  The keys come in the order in which
they first occur, and each has all of its values in their order.
-/

namespace MergeReady.Lib

/-! ## First occurrences -/

section

variable {α : Type*} [DecidableEq α]

end

/-! ## Groups -/

section

variable {κ ν : Type*} [DecidableEq κ]

/-- The groups with `v` appended to that of `k`, opened at the end if there is none. -/
def pushGroup (k : κ) (v : ν) : List (κ × List ν) → List (κ × List ν)
  | [] => [(k, [v])]
  | (k', vs) :: groups =>
    if k' = k then (k', vs ++ [v]) :: groups else (k', vs) :: pushGroup k v groups

section

variable {ks : List κ} {k : κ} (f : κ → List ν) (v : ν)

end

/-- The values in the groups of `k`. -/
def listed (k : κ) (groups : List (κ × List ν)) : List ν :=
  (groups.filter fun g => g.1 = k).flatMap Prod.snd

end

end MergeReady.Lib
