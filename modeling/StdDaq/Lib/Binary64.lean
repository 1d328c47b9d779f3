import Mathlib.Data.Nat.Log
import Mathlib.Tactic.Linarith

/-!
# Natural numbers as binary64 values

What becomes of a natural number that is converted to an IEEE binary64 value: it is rounded to a
multiple of the unit of its binade, the nearest one, and between two of these to the one with even
significand. Below `2 ^ 53` the unit is one.

## Main results

* `toDouble_mono` — the conversion is monotone
* `toDouble_eq` — it is exact up to `2 ^ 53`
-/

/-- The multiple of `unit` that is nearest to `n`, and of two such the one with even quotient. -/
def roundHalfEven (unit n : ℕ) : ℕ :=
  if 2 * (n % unit) < unit ∨ 2 * (n % unit) = unit ∧ n / unit % 2 = 0 then n / unit * unit
  else (n / unit + 1) * unit

/-- The conversion to binary64, which has 53 bits for the significand. -/
def toDouble (n : ℕ) : ℕ := roundHalfEven (2 ^ (n.log2 - 52)) n

variable {unit a b : ℕ}

theorem div_mul_le_roundHalfEven (unit n : ℕ) : n / unit * unit ≤ roundHalfEven unit n := by
  rw [roundHalfEven]
  split
  · exact le_rfl
  · exact Nat.mul_le_mul_right _ (Nat.le_succ _)

theorem roundHalfEven_le_succ (unit n : ℕ) : roundHalfEven unit n ≤ (n / unit + 1) * unit := by
  rw [roundHalfEven]
  split
  · exact Nat.mul_le_mul_right _ (Nat.le_succ _)
  · exact le_rfl

theorem roundHalfEven_mul (hunit : 0 < unit) (k : ℕ) :
    roundHalfEven unit (k * unit) = k * unit := by
  rw [roundHalfEven, Nat.mul_mod_left, Nat.mul_div_cancel _ hunit]
  exact if_pos (.inl hunit)

theorem roundHalfEven_mono (unit : ℕ) (h : a ≤ b) :
    roundHalfEven unit a ≤ roundHalfEven unit b := by
  have hdiv : a / unit ≤ b / unit := Nat.div_le_div_right h
  rcases hdiv.lt_or_eq with hlt | heq
  · calc roundHalfEven unit a ≤ (a / unit + 1) * unit := roundHalfEven_le_succ _ _
      _ ≤ b / unit * unit := Nat.mul_le_mul_right _ hlt
      _ ≤ roundHalfEven unit b := div_mul_le_roundHalfEven _ _
  -- Between the same two multiples, only the remainder decides.
  · have hmod : a % unit ≤ b % unit := by
      have ha := Nat.div_add_mod a unit
      have hb := Nat.div_add_mod b unit
      rw [heq] at ha
      omega
    rw [roundHalfEven, roundHalfEven, heq]
    split
    · exact div_mul_le_roundHalfEven unit b |>.trans (by rw [roundHalfEven])
    · rw [if_neg (by omega)]

theorem toDouble_mono (h : a ≤ b) : toDouble a ≤ toDouble b := by
  have hlog : a.log2 ≤ b.log2 := by
    rw [Nat.log2_eq_log_two, Nat.log2_eq_log_two]
    exact Nat.log_mono_right h
  rw [toDouble, toDouble]
  rcases (Nat.sub_le_sub_right hlog 52).lt_or_eq with hlt | heq
  -- The power of two where the binade of `b` begins lies between them.
  · have hb : b ≠ 0 := by
      rintro rfl
      simp at hlt
    have hle : 2 ^ b.log2 ≤ b := Nat.log2_self_le hb
    have hge : a ≤ 2 ^ b.log2 := by
      refine (Nat.lt_log2_self (n := a)).le.trans (Nat.pow_le_pow_right Nat.two_pos ?_)
      omega
    have hmul : ∀ e ≤ b.log2 - 52, roundHalfEven (2 ^ e) (2 ^ b.log2) = 2 ^ b.log2 := by
      intro e he
      rw [show 2 ^ b.log2 = 2 ^ (b.log2 - e) * 2 ^ e by rw [← Nat.pow_add]; congr 1; omega]
      exact roundHalfEven_mul (Nat.two_pow_pos e) _
    calc roundHalfEven (2 ^ (a.log2 - 52)) a
        ≤ roundHalfEven (2 ^ (a.log2 - 52)) (2 ^ b.log2) := roundHalfEven_mono _ hge
      _ = roundHalfEven (2 ^ (b.log2 - 52)) (2 ^ b.log2) := by rw [hmul _ hlt.le, hmul _ le_rfl]
      _ ≤ roundHalfEven (2 ^ (b.log2 - 52)) b := roundHalfEven_mono _ hle
  · rw [heq]
    exact roundHalfEven_mono _ h

theorem toDouble_eq (h : a < 2 ^ 53) : toDouble a = a := by
  have hlog : a.log2 - 52 = 0 := by
    rcases Nat.eq_zero_or_pos a with rfl | hpos
    · simp
    · have := (Nat.log2_lt hpos.ne').mpr h
      omega
  rw [toDouble, hlog, pow_zero]
  simpa using roundHalfEven_mul Nat.one_pos a

example : toDouble (2 ^ 53 + 1) = 2 ^ 53 ∧ toDouble (2 ^ 53 + 3) = 2 ^ 53 + 4 := by decide +kernel
