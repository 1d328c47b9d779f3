import Mathlib.Data.List.Basic
import Mathlib.Data.Nat.ModEq
import Mathlib.Tactic.Ring

/-!
# Ring buffers

A ring of `n` cells keeps the end of an ever-growing sequence: entry `i` of the sequence is stored
in cell `i % n`, in the place of entry `i - n`. Nothing is said here about how the two ends are
kept. A program that keeps them modulo `n` cannot tell an empty ring from a full one, which is the
content of `mod_eq_iff`.

## Main results

* `RingBuffer.Holds.push`, `RingBuffer.Holds.drop` — storing the next entry and giving up the oldest
* `RingBuffer.mod_eq_iff` — what equal ends mean
-/

namespace RingBuffer

variable {α : Type*} {cells xs : List α} {first n : ℕ}

/-- The cells hold the entries of `xs` from `first` on. -/
structure Holds (cells xs : List α) (first : ℕ) : Prop where
  le : first ≤ xs.length
  fits : xs.length ≤ first + cells.length
  cell : ∀ i, first ≤ i → i < xs.length → cells[i % cells.length]? = xs[i]?

/-- Two ends at most one round apart fall together in an empty ring and in a full one. -/
theorem mod_eq_iff {a b : ℕ} (hle : a ≤ b) (hfits : b ≤ a + n) :
    a % n = b % n ↔ b = a ∨ b = a + n := by
  constructor
  · intro h
    have hdvd : n ∣ b - a := (Nat.modEq_iff_dvd' hle).mp h
    obtain ⟨k, hk⟩ := hdvd
    rcases k with _ | _ | k
    · left
      omega
    · right
      omega
    · right
      have hround : n * (k + 1 + 1) = n * k + n + n := by ring
      omega
  · rintro (rfl | rfl)
    · rfl
    · exact (Nat.add_mod_right a n).symm

/-- Less than one round apart means two different cells. -/
theorem mod_ne {a b : ℕ} (hlt : a < b) (hfits : b < a + n) : a % n ≠ b % n := fun h =>
  ((mod_eq_iff hlt.le hfits.le).mp h).elim (by omega) (by omega)

theorem holds_nil (cells : List α) : Holds cells [] 0 :=
  ⟨Nat.le_refl _, Nat.zero_le _, fun _ _ hi => absurd hi (Nat.not_lt_zero _)⟩

namespace Holds

/-- The next entry goes into a cell that is not needed any more. -/
theorem push (h : Holds cells xs first) (hroom : xs.length < first + cells.length) (x : α) :
    Holds (cells.set (xs.length % cells.length) x) (xs ++ [x]) first where
  le := by
    rw [List.length_append]
    exact h.le.trans (Nat.le_add_right _ _)
  fits := by
    rw [List.length_append, List.length_set]
    exact hroom
  cell i hi hlt := by
    rw [List.length_append, List.length_singleton] at hlt
    rw [List.length_set]
    have hpos : 0 < cells.length := by
      have := h.le
      omega
    rcases Nat.lt_succ_iff_lt_or_eq.mp hlt with hold | rfl
    · rw [List.getElem?_set_ne (mod_ne hold (by omega)).symm, h.cell i hi hold,
        List.getElem?_append_left hold]
    · rw [List.getElem?_set_self (Nat.mod_lt _ hpos), List.getElem?_concat_length]

/-- The oldest entry is given up, whatever its cell holds afterwards. -/
theorem drop (h : Holds cells xs first) (hlt : first < xs.length) (x : α) :
    Holds (cells.set (first % cells.length) x) xs (first + 1) where
  le := hlt
  fits := by
    rw [List.length_set]
    have := h.fits
    omega
  cell i hi hi' := by
    have hfits := h.fits
    rw [List.length_set, List.getElem?_set_ne (mod_ne hi (by omega)),
      h.cell i (Nat.le_of_succ_le hi) hi']

/-- The oldest entry. -/
theorem head (h : Holds cells xs first) (hlt : first < xs.length) :
    cells[first % cells.length]? = xs[first]? :=
  h.cell first (Nat.le_refl _) hlt

end Holds

end RingBuffer
