import Mathlib.Data.List.Sort
import Mathlib.Data.List.TakeWhile

/-!
# Searching a sorted list

`std::lower_bound` on a sorted vector is `dropWhile`: what is left begins with the first value that
is not below the bound. And `mapM` of a function that fails on no element is `map`.

## Main results

* `List.dropWhile_lt_eq_cons` — the first element that is left is the least one from the bound on
-/

namespace List

variable {α β ε : Type*}

theorem mapM_ok {f : α → Except ε β} {g : α → β} {l : List α} (h : ∀ a ∈ l, f a = .ok (g a)) :
    l.mapM f = .ok (l.map g) := by
  induction l with
  | nil => rfl
  | cons a l ih =>
    rw [mapM_cons, h a mem_cons_self, ih fun a' ha' => h a' (mem_cons_of_mem a ha')]
    rfl

/-- Sorting a list of different elements puts them in strict order. -/
theorem sortedLT_insertionSort [LinearOrder α] {l : List α} (h : l.Nodup) :
    (l.insertionSort (· ≤ ·)).Pairwise (· < ·) := by
  have hne : (l.insertionSort (· ≤ ·)).Pairwise (· ≠ ·) :=
    (perm_insertionSort (· ≤ ·) l).nodup_iff.mpr h
  have hle := pairwise_insertionSort (· ≤ ·) l
  exact hle.imp₂ (fun _ _ hle hne => lt_of_le_of_ne hle hne) hne

variable {l rest : List ℕ} {bound a : ℕ}

theorem dropWhile_lt_eq_nil (h : l.dropWhile (· < bound) = []) : ∀ v ∈ l, v < bound := by
  simpa using dropWhile_eq_nil_iff.mp h

/-- **Lower bound**: in a sorted list, the first element that is left is the least one from the
bound on, and the larger ones come after it. -/
theorem dropWhile_lt_eq_cons (hsorted : l.Pairwise (· < ·))
    (h : l.dropWhile (· < bound) = a :: rest) :
    bound ≤ a ∧ a ∈ l ∧ (a :: rest).Pairwise (· < ·) ∧
      (∀ v ∈ l, bound ≤ v → v ∈ a :: rest) ∧ ∀ v ∈ rest, v ∈ l := by
  have happend : l.takeWhile (· < bound) ++ a :: rest = l := by
    rw [← h]
    exact takeWhile_append_dropWhile
  refine ⟨?_, ?_, ?_, ?_, ?_⟩
  · have hhead := head?_dropWhile_not (fun v => decide (v < bound)) l
    rw [h] at hhead
    simpa using hhead
  · rw [← happend]
    simp
  · rw [← happend] at hsorted
    exact (pairwise_append.mp hsorted).2.1
  · intro v hv hle
    rw [← happend] at hv
    rcases mem_append.mp hv with htake | hdrop
    · have hlt := mem_takeWhile_imp htake
      exact absurd (by simpa using hlt) (Nat.not_lt.mpr hle)
    · exact hdrop
  · intro v hv
    rw [← happend]
    exact mem_append_right _ (mem_cons_of_mem a hv)

end List
