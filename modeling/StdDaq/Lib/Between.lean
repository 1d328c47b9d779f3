import Mathlib.Data.Finset.Sort

/-!
# The elements of a finite set between two bounds

`s.between a b` lists the elements of `s` from `a` on and below `b`, in ascending order. Visiting
them means to go from a bound to the next element, again and again: with `b` the bound that has been
reached, the list of the elements visited grows at its end.

## Main results

* `Finset.eq_between` — a list in ascending order is known by its elements
* `Finset.between_append` — going on from a bound
* `Finset.between_succ` — going on to the next element
-/

namespace Finset

variable {s : Finset ℕ} {a b c i : ℕ}

/-- The elements from `a` on and below `b`, in ascending order. -/
def between (s : Finset ℕ) (a b : ℕ) : List ℕ := (s.filter fun i => a ≤ i ∧ i < b).sort (· ≤ ·)

@[simp] theorem mem_between : i ∈ s.between a b ↔ i ∈ s ∧ a ≤ i ∧ i < b := by
  rw [between, mem_sort, mem_filter]

theorem between_pairwise (s : Finset ℕ) (a b : ℕ) : (s.between a b).Pairwise (· < ·) :=
  (sortedLT_sort _).pairwise

theorem length_between_le (s : Finset ℕ) (a b : ℕ) : (s.between a b).length ≤ s.card := by
  rw [between, length_sort]
  exact card_filter_le _ _

/-- A list in ascending order is known by its elements. -/
theorem eq_between {l : List ℕ} (hl : l.Pairwise (· < ·))
    (hmem : ∀ i, i ∈ l ↔ i ∈ s ∧ a ≤ i ∧ i < b) : l = s.between a b := by
  have hperm : l.Perm (s.between a b) := by
    refine (List.perm_ext_iff_of_nodup hl.nodup (between_pairwise s a b).nodup).mpr fun i => ?_
    rw [hmem i, mem_between]
  exact hperm.eq_of_pairwise' (hl.imp le_of_lt) ((between_pairwise s a b).imp le_of_lt)

theorem between_eq_nil_iff : s.between a b = [] ↔ ∀ i ∈ s, a ≤ i → b ≤ i := by
  rw [List.eq_nil_iff_forall_not_mem]
  simp only [mem_between, not_and, Nat.not_lt]

/-- Going on from a bound. -/
theorem between_append (hab : a ≤ b) (hbc : b ≤ c) :
    s.between a c = s.between a b ++ s.between b c := by
  refine (eq_between ?_ fun i => ?_).symm
  · refine List.pairwise_append.mpr ⟨between_pairwise s a b, between_pairwise s b c, ?_⟩
    intro i hi j hj
    exact (mem_between.mp hi).2.2.trans_le (mem_between.mp hj).2.1
  · rw [List.mem_append, mem_between, mem_between]
    constructor
    · rintro (⟨hs, hi⟩ | ⟨hs, hi⟩) <;> exact ⟨hs, by omega⟩
    · rintro ⟨hs, hi⟩
      rcases Nat.lt_or_ge i b with hlt | hge
      · exact .inl ⟨hs, hi.1, hlt⟩
      · exact .inr ⟨hs, hge, hi.2⟩

theorem between_prefix (hab : a ≤ b) (hbc : b ≤ c) : s.between a b <+: s.between a c :=
  ⟨s.between b c, (between_append hab hbc).symm⟩

/-- Going on to the next element. -/
theorem between_succ (hab : a ≤ b) (hi : i ∈ s) (hbi : b ≤ i) (hnext : ∀ j ∈ s, b ≤ j → i ≤ j) :
    s.between a (i + 1) = s.between a b ++ [i] := by
  rw [between_append hab (hbi.trans i.le_succ)]
  congr 1
  refine (eq_between (List.pairwise_singleton _ _) fun j => ?_).symm
  rw [List.mem_singleton]
  constructor
  · rintro rfl
    exact ⟨hi, hbi, j.lt_succ_self⟩
  · rintro ⟨hs, hbj, hlt⟩
    exact le_antisymm (Nat.lt_succ_iff.mp hlt) (hnext j hs hbj)

/-- Elements above a bound do not count. -/
theorem between_filter_le (s : Finset ℕ) (a b c : ℕ) :
    (s.between a b).filter (· ≤ c) = s.between a (min b (c + 1)) := by
  refine eq_between ((between_pairwise s a b).filter _) fun i => ?_
  rw [List.mem_filter, mem_between, decide_eq_true_eq]
  constructor
  · rintro ⟨⟨hs, hi⟩, hc⟩
    exact ⟨hs, by omega⟩
  · rintro ⟨hs, hi⟩
    exact ⟨⟨hs, by omega⟩, by omega⟩

end Finset
