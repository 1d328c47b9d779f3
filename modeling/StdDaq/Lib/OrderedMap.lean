import Mathlib

/-!
# The first entry of an ordered map

`Std.TreeMap` over the natural numbers with the operations a `std::map` offers at its front:
`first?` is the entry `begin()` points to, and `eraseFirst` is `erase(begin())`. Lookup, insertion
and removal are the library's own.
-/

namespace Std.TreeMap

variable {β : Type*} {m : TreeMap ℕ β} {k : ℕ} {v : β}

/-- The entry with the smallest key. -/
def first? (m : TreeMap ℕ β) : Option (ℕ × β) := m.toList.head?

/-- The map without its entry of smallest key. -/
def eraseFirst (m : TreeMap ℕ β) : TreeMap ℕ β :=
  match m.first? with
  | none => m
  | some (k, _) => m.erase k

theorem first?_eq_none_iff : m.first? = none ↔ ∀ k : ℕ, m[k]? = none := by
  rw [first?, List.head?_eq_none_iff]
  constructor
  · intro h k
    refine Option.eq_none_iff_forall_not_mem.mpr fun v hv => ?_
    have := mem_toList_iff_getElem?_eq_some.mpr hv
    rw [h] at this
    exact List.not_mem_nil this
  · intro h
    refine List.eq_nil_iff_forall_not_mem.mpr ?_
    rintro ⟨k, v⟩ hv
    have := mem_toList_iff_getElem?_eq_some.mp hv
    rw [h k] at this
    cases this

/-- The first entry is stored, and no stored key is smaller. -/
theorem first?_eq_some (h : m.first? = some (k, v)) :
    m[k]? = some v ∧ ∀ (k' : ℕ) (v' : β), m[k']? = some v' → k ≤ k' := by
  obtain ⟨rest, hrest⟩ : ∃ rest, m.toList = (k, v) :: rest := List.head?_eq_some_iff.mp h
  have hsorted := ordered_keys_toList (t := m)
  rw [hrest, List.pairwise_cons] at hsorted
  refine ⟨mem_toList_iff_getElem?_eq_some.mp (by rw [hrest]; exact List.mem_cons_self), ?_⟩
  intro k' v' hv'
  have hmem : (k', v') ∈ (k, v) :: rest := hrest ▸ mem_toList_iff_getElem?_eq_some.mpr hv'
  rcases List.mem_cons.mp hmem with heq | hin
  · exact (congrArg Prod.fst heq).ge
  · exact (Nat.compare_eq_lt.mp (hsorted.1 _ hin)).le

theorem mem_of_getElem?_eq_some (h : m[k]? = some v) : k ∈ m := by
  rw [mem_iff_isSome_getElem?, h]
  rfl

theorem not_mem_of_getElem?_eq_none (h : m[k]? = none) : k ∉ m := by
  rw [mem_iff_isSome_getElem?, h]
  exact Bool.false_ne_true

/-- A map that has entries loses one. -/
theorem size_eraseFirst (h : 0 < m.size) : m.eraseFirst.size = m.size - 1 := by
  rw [eraseFirst]
  cases hfirst : m.first? with
  | none =>
    have hempty : m.toList = [] := List.head?_eq_none_iff.mp hfirst
    have hsize : m.toList.length = m.size := length_toList
    rw [hempty, List.length_nil] at hsize
    omega
  | some e =>
    obtain ⟨k, v⟩ := e
    have hmem := mem_of_getElem?_eq_some (first?_eq_some hfirst).1
    simp only
    rw [size_erase, if_pos (mem_iff_contains.mp hmem)]

theorem getElem?_insert_nat (m : TreeMap ℕ β) (k a : ℕ) (v : β) :
    (m.insert k v)[a]? = if a = k then some v else m[a]? := by
  rw [getElem?_insert]
  simp only [Nat.compare_eq_eq, @eq_comm ℕ k a]

theorem getElem?_erase_nat (m : TreeMap ℕ β) (k a : ℕ) :
    (m.erase k)[a]? = if a = k then none else m[a]? := by
  rw [getElem?_erase]
  simp only [Nat.compare_eq_eq, @eq_comm ℕ k a]

theorem getElem?_insertIfNew_nat (m : TreeMap ℕ β) (k a : ℕ) (v : β) :
    (m.insertIfNew k v)[a]? = if a = k ∧ m[k]? = none then some v else m[a]? := by
  have hmem : k ∉ m ↔ m[k]? = none := by
    rw [mem_iff_isSome_getElem?, Bool.not_eq_true, Option.isSome_eq_false_iff,
      Option.isNone_iff_eq_none]
  rw [getElem?_insertIfNew]
  simp only [Nat.compare_eq_eq, @eq_comm ℕ k a, hmem]

end Std.TreeMap
