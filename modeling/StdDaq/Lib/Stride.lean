import Mathlib.Algebra.Order.Group.Unbundled.Abs
import Mathlib.Algebra.Order.Ring.Int
import Mathlib.Data.Int.ModEq
import Mathlib.Tactic.Ring

/-!
# Rows at equal distances, modulo a word size

Rows of `w` cells begin at `s`, `s + k`, `s + 2 * k` and so on, and their begins are formed modulo
`N`. If the array is shorter than `N` by more than a distance, no row can leave it at one end and
come back at the other, so rows that all lie inside have begins without a wrap. Then it is enough
to look at the first and the last row.

## Main results

* `inside_iff` — all rows lie inside if and only if the first and the last one do
-/

namespace Stride

variable {N s k w size : ℤ} {n : ℕ}

/-- The first row and row `n` lie inside of an array. -/
structure EndsInside (s k w size : ℤ) (n : ℕ) : Prop where
  first_nonneg : 0 ≤ s
  first_le : s + w ≤ size
  last_nonneg : 0 ≤ s + n * k
  last_le : s + n * k + w ≤ size

instance : Decidable (EndsInside s k w size n) :=
  decidable_of_iff (0 ≤ s ∧ s + w ≤ size ∧ 0 ≤ s + n * k ∧ s + n * k + w ≤ size)
    ⟨fun ⟨h₁, h₂, h₃, h₄⟩ => ⟨h₁, h₂, h₃, h₄⟩, fun ⟨h₁, h₂, h₃, h₄⟩ => ⟨h₁, h₂, h₃, h₄⟩⟩

/-- Numbers that are congruent modulo `N` and closer than `N` are the same. -/
theorem eq_of_emod_eq {a b : ℤ} (h : a % N = b % N) (hlt : |a - b| < N) : a = b := by
  have hdvd : N ∣ a - b := Int.ModEq.dvd (a := b) (b := a) h.symm
  have hzero := Int.eq_zero_of_abs_lt_dvd hdvd hlt
  omega

/-- Rows between two rows that lie inside. -/
theorem EndsInside.between (h : EndsInside s k w size n) {r : ℕ} (hr : r ≤ n) :
    0 ≤ s + r * k ∧ s + r * k + w ≤ size := by
  obtain ⟨h₁, h₂, h₃, h₄⟩ := h
  have hrn : (r : ℤ) ≤ n := by exact_mod_cast hr
  rcases Int.le_total 0 k with hk | hk
  · have hle : (r : ℤ) * k ≤ n * k := Int.mul_le_mul_of_nonneg_right hrn hk
    have hpos : 0 ≤ (r : ℤ) * k := Int.mul_nonneg (Int.natCast_nonneg r) hk
    omega
  · have hle : (n : ℤ) * k ≤ r * k := Int.mul_le_mul_of_nonpos_right hrn hk
    have hneg : (r : ℤ) * k ≤ 0 := Int.mul_nonpos_of_nonneg_of_nonpos (Int.natCast_nonneg r) hk
    omega

/-- A row that follows one inside, and lies inside, follows it without a wrap. -/
theorem emod_add_of_inside (hN : 0 < N) (hk : |k| + size < N) (hw : 0 ≤ w) {a : ℤ} (ha : 0 ≤ a)
    (ha' : a + w ≤ size) (hnext : (a + k) % N + w ≤ size) : (a + k) % N = a + k := by
  have hb : 0 ≤ (a + k) % N := Int.emod_nonneg _ hN.ne'
  refine eq_of_emod_eq (N := N) (Int.emod_emod_of_dvd _ (dvd_refl N)) ?_
  have hle := le_abs_self k
  have hge := neg_abs_le k
  rw [abs_lt]
  constructor
  · omega
  · omega

/-- **All rows lie inside of the array if and only if the first and the last one do.** -/
theorem inside_iff (hN : 0 < N) (hk : |k| + size < N) (hw : 0 ≤ w) :
    (∀ r ≤ n, (s + r * k) % N + w ≤ size) ↔ EndsInside (s % N) k w size n := by
  constructor
  · intro h
    have hfirst := h 0 (Nat.zero_le n)
    simp only [Nat.cast_zero, Int.zero_mul, Int.add_zero] at hfirst
    have hpos : 0 ≤ s % N := Int.emod_nonneg _ hN.ne'
    -- row by row, no begin wraps
    have hrow : ∀ r ≤ n, (s + r * k) % N = s % N + r * k := by
      intro r
      induction r with
      | zero =>
        intro _
        simp
      | succ r ih =>
        intro hr
        have hprev := ih (by omega)
        have hcur := h r (by omega)
        have hprevpos : 0 ≤ (s + r * k) % N := Int.emod_nonneg _ hN.ne'
        have hnext : ((s + r * k) % N + k) % N = (s + (r + 1 : ℕ) * k) % N := by
          rw [Int.emod_add_emod]
          congr 1
          push_cast
          ring
        have hstep := emod_add_of_inside hN hk hw hprevpos hcur (by rw [hnext]; exact h (r + 1) hr)
        rw [← hnext, hstep, hprev]
        push_cast
        ring
    have hlast := h n le_rfl
    have hlastpos : 0 ≤ (s + n * k) % N := Int.emod_nonneg _ hN.ne'
    rw [hrow n le_rfl] at hlast hlastpos
    exact ⟨hpos, hfirst, hlastpos, hlast⟩
  · intro h r hr
    obtain ⟨hpos, hle⟩ := h.between hr
    have habs := abs_nonneg k
    have heq : (s + r * k) % N = s % N + r * k := by
      rw [← Int.emod_add_emod, Int.emod_eq_of_lt hpos (by omega)]
    rw [heq]
    exact hle

end Stride
