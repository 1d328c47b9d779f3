import Mathlib.Data.List.Lex
import Mathlib.Data.Nat.Digits.Defs

/-!
# Decimal numerals

`Nat.toDigits 10` writes a number and `Nat.ofDigitChars 10` reads it. Zeros that are put after a
numeral multiply its value, and of two numerals of one length the one that is first in the order of
words has the smaller value.

## Main results

* `ofDigitChars_toDigits_zeros` — the value of a numeral with zeros after it
* `toDigits_lt_toDigits` — the order of numerals of one length is that of their values
-/

namespace Decimal

variable {a b n k : ℕ}

theorem toDigits_injective (h : Nat.toDigits 10 a = Nat.toDigits 10 b) : a = b := by
  have hvalue := congrArg (fun digits => Nat.ofDigitChars 10 digits 0) h
  simpa using hvalue

/-- Zeros after a numeral multiply its value. -/
theorem ofDigitChars_toDigits_zeros (n k : ℕ) :
    Nat.ofDigitChars 10 (Nat.toDigits 10 n ++ List.replicate k '0') 0 = n * 10 ^ k := by
  rw [Nat.ofDigitChars_append, Nat.ofDigitChars_ten_toDigits, Nat.ofDigitChars_replicate_zero,
    Nat.mul_comm]

theorem isDigit_of_mem_toDigits {c : Char} (h : c ∈ Nat.toDigits 10 n) : c.isDigit :=
  Nat.isDigit_of_mem_toDigits (by decide) (by decide) h

/-- A number and its quotient: the last digit comes off the numeral. -/
theorem toDigits_eq_append (h : 10 ≤ n) :
    Nat.toDigits 10 n = Nat.toDigits 10 (n / 10) ++ [(n % 10).digitChar] :=
  Nat.toDigits_of_base_le (by decide) h

theorem digitChar_lt (hab : a < b) (hb : b < 10) : a.digitChar < b.digitChar := by
  have hall : ∀ b < 10, ∀ a < b, a.digitChar < b.digitChar := by decide
  exact hall b hb a hab

/-- Words of one length are ordered by their first parts, and then by what follows. -/
theorem append_lt_append_of_lt {u v : List Char} (h : u < v) (hlen : u.length = v.length)
    (s t : List Char) : u ++ s < v ++ t := by
  induction u generalizing v with
  | nil =>
    obtain rfl := List.length_eq_zero_iff.mp hlen.symm
    exact absurd h (List.lt_irrefl _)
  | cons c u ih =>
    cases v with
    | nil => cases hlen
    | cons d v =>
      rw [List.cons_append, List.cons_append, List.cons_lt_cons_iff]
      rcases List.cons_lt_cons_iff.mp h with hcd | ⟨rfl, huv⟩
      · exact .inl hcd
      · exact .inr ⟨rfl, ih huv (Nat.succ.inj hlen)⟩

theorem append_lt_append_left (u : List Char) {s t : List Char} (h : s < t) : u ++ s < u ++ t := by
  induction u with
  | nil => exact h
  | cons c u ih => exact List.cons_lt_cons_iff.mpr (.inr ⟨rfl, ih⟩)

/-- **Order of numerals**: with the same number of digits, the smaller number comes first. -/
theorem toDigits_lt_toDigits (h : a < b)
    (hlen : (Nat.toDigits 10 a).length = (Nat.toDigits 10 b).length) :
    Nat.toDigits 10 a < Nat.toDigits 10 b := by
  induction b using Nat.strong_induction_on generalizing a with
  | h b ih =>
    by_cases ha : a < 10
    · have hb : b < 10 := by
        have hle := (Nat.length_toDigits_le_iff (b := 10) (n := b) (k := 1) (by decide)
          Nat.one_pos).mp (by rw [← hlen, Nat.toDigits_of_lt_base ha]; rfl)
        simpa using hle
      rw [Nat.toDigits_of_lt_base ha, Nat.toDigits_of_lt_base hb]
      exact List.cons_lt_cons_iff.mpr (.inl (digitChar_lt h hb))
    -- Both have a last digit; the quotients decide unless they are the same.
    · rw [toDigits_eq_append (by omega), toDigits_eq_append (n := b) (by omega)] at hlen ⊢
      rcases (Nat.div_le_div_right h.le : a / 10 ≤ b / 10).lt_or_eq with hlt | heq
      · have hquot : (Nat.toDigits 10 (a / 10)).length = (Nat.toDigits 10 (b / 10)).length := by
          simpa using hlen
        exact append_lt_append_of_lt (ih (b / 10) (by omega) hlt hquot) hquot _ _
      · rw [heq]
        refine append_lt_append_left _ (List.cons_lt_cons_iff.mpr (.inl (digitChar_lt ?_ ?_)))
        · omega
        · omega

/-- Numbers with the same quotient by a power of ten that they reach have the same number of
digits. -/
theorem length_toDigits_eq (h : a / 10 ^ k = b / 10 ^ k) (ha : 10 ^ k ≤ a) :
    (Nat.toDigits 10 a).length = (Nat.toDigits 10 b).length := by
  have hpow : 0 < 10 ^ k := Nat.pow_pos (by decide)
  have hb : 10 ^ k ≤ b := by
    have hone : 0 < a / 10 ^ k := Nat.div_pos ha hpow
    rw [h] at hone
    exact (Nat.div_pos_iff.mp hone).2
  have hle : ∀ {a b : ℕ}, a / 10 ^ k = b / 10 ^ k → 10 ^ k ≤ a →
      (Nat.toDigits 10 a).length ≤ (Nat.toDigits 10 b).length := by
    intro a b h ha
    rw [Nat.length_toDigits_le_iff (by decide) Nat.length_toDigits_pos]
    have hlt : b < 10 ^ (Nat.toDigits 10 b).length :=
      (Nat.length_toDigits_le_iff (by decide) Nat.length_toDigits_pos).mp le_rfl
    generalize (Nat.toDigits 10 b).length = m at hlt ⊢
    -- The bound is a multiple of `10 ^ k`, so it is a bound on the quotient.
    have hk : k ≤ m := by
      by_contra hlt'
      have := Nat.pow_le_pow_right (n := 10) (by decide) (Nat.le_of_not_le hlt')
      have hquot : b / 10 ^ k = 0 := Nat.div_eq_of_lt (by omega)
      rw [hquot] at h
      exact absurd ha (Nat.not_le.mpr ((Nat.div_eq_zero_iff_lt hpow).mp h))
    obtain ⟨j, rfl⟩ := Nat.exists_eq_add_of_le hk
    rw [Nat.pow_add] at hlt ⊢
    rw [Nat.mul_comm, ← Nat.div_lt_iff_lt_mul hpow, h, Nat.div_lt_iff_lt_mul hpow, Nat.mul_comm]
    exact hlt
  exact le_antisymm (hle h ha) (hle h.symm hb)

end Decimal
