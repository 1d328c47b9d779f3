import Mathlib

/-!
# The bits of bytes and words

Bits are numbered from the lowest one. A byte is known by its eight bits, a word of `n` bytes holds
its bytes in little-endian order, and so bit `p` of the word is bit `p % 8` of byte `p / 8`.

The bits of a word are moved around by exchanges: `exchange m s` exchanges each bit whose place is
in the mask `m` with the one `s` places above. What several exchanges do to a word is what they do
to the places, and that can be computed: `getLsbD_exchange`.

## Main results

* `eq_of_bits` — a byte is known by its bits
* `getLsbD_exchange` — an exchange of bits, place by place
* `getLsbD_transpose8x8` — the transposition of a square of eight times eight bits
-/

namespace Bits

/-- Bit `t` of a byte. -/
def bit (x : UInt8) (t : ℕ) : Bool := x.toBitVec.getLsbD t

/-- The byte with these bits. -/
def byteOf (f : ℕ → Bool) : UInt8 := ⟨BitVec.ofFnLE fun t : Fin 8 => f t⟩

theorem bit_byteOf (f : ℕ → Bool) {t : ℕ} (ht : t < 8) : bit (byteOf f) t = f t := by
  rw [bit, byteOf, BitVec.getLsbD_ofFnLE, dif_pos ht]

/-- A byte is known by its bits. -/
theorem eq_of_bits {x y : UInt8} (h : ∀ t < 8, bit x t = bit y t) : x = y :=
  UInt8.toBitVec_inj.mp (BitVec.eq_of_getLsbD_eq fun t ht => h t ht)

/-- The word of `n` bytes at an address. -/
def word (n : ℕ) (m : ℕ → UInt8) (a : ℕ) : BitVec (8 * n) :=
  BitVec.ofFnLE fun p : Fin (8 * n) => bit (m (a + p / 8)) (p % 8)

theorem getLsbD_word {n : ℕ} (m : ℕ → UInt8) (a : ℕ) {p : ℕ} (hp : p < 8 * n) :
    (word n m a).getLsbD p = bit (m (a + p / 8)) (p % 8) := by
  rw [word, BitVec.getLsbD_ofFnLE, dif_pos hp]

/-- Byte `k` of a word. -/
def byteAt {w : ℕ} (x : BitVec w) (k : ℕ) : UInt8 := ⟨(x >>> (8 * k)).setWidth 8⟩

theorem bit_byteAt {w : ℕ} (x : BitVec w) (k : ℕ) {t : ℕ} (ht : t < 8) :
    bit (byteAt x k) t = x.getLsbD (8 * k + t) := by
  rw [bit, byteAt, BitVec.getLsbD_setWidth, decide_eq_true ht, Bool.true_and,
    BitVec.getLsbD_ushiftRight]

/-! ### Exchanges of bits -/

section Exchange

variable {w : ℕ}

/-- Exchange the bits in the mask with those `s` places above. -/
def exchange (m : BitVec w) (s : ℕ) (x : BitVec w) : BitVec w :=
  let t := (x ^^^ (x >>> s)) &&& m
  x ^^^ t ^^^ (t <<< s)

/-- Where the bit at a place comes from. -/
def exchangePlace (m : BitVec w) (s p : ℕ) : ℕ :=
  if m.getLsbD p then p + s else if s ≤ p ∧ m.getLsbD (p - s) then p - s else p

/-- **An exchange, place by place**, when no place is exchanged twice. -/
theorem getLsbD_exchange {m : BitVec w} {s : ℕ} (hm : ∀ p, m.getLsbD p → ¬ m.getLsbD (p + s))
    (x : BitVec w) {p : ℕ} (hp : p < w) :
    (exchange m s x).getLsbD p = x.getLsbD (exchangePlace m s p) := by
  have hbit (q : ℕ) : ((x ^^^ (x >>> s)) &&& m).getLsbD q
      = ((x.getLsbD q ^^ x.getLsbD (q + s)) && m.getLsbD q) := by
    rw [BitVec.getLsbD_and, BitVec.getLsbD_xor, BitVec.getLsbD_ushiftRight, Nat.add_comm s q]
  rw [exchange, BitVec.getLsbD_xor, BitVec.getLsbD_xor, BitVec.getLsbD_shiftLeft, hbit, hbit,
    exchangePlace, decide_eq_true hp, Bool.true_and]
  by_cases hmask : m.getLsbD p
  · -- the place below it is not in the mask
    have hbelow : (!decide (p < s) && m.getLsbD (p - s)) = false := by
      rw [Bool.and_eq_false_iff, Bool.not_eq_false', decide_eq_true_iff]
      by_contra h
      rw [not_or, Bool.not_eq_false] at h
      refine hm (p - s) h.2 ?_
      rwa [Nat.sub_add_cancel (Nat.le_of_not_lt h.1)]
    rw [if_pos hmask, hmask, Bool.and_true, Bool.and_left_comm, hbelow, Bool.and_false,
      Bool.xor_false, ← Bool.xor_assoc, Bool.xor_self, Bool.false_xor]
  · rw [if_neg hmask, Bool.eq_false_iff.mpr hmask, Bool.and_false, Bool.xor_false]
    by_cases habove : s ≤ p ∧ m.getLsbD (p - s)
    · rw [if_pos habove, habove.2, decide_eq_false (Nat.not_lt.mpr habove.1), Bool.not_false,
        Bool.true_and, Bool.and_true, Nat.sub_add_cancel habove.1, Bool.xor_comm,
        Bool.xor_assoc, Bool.xor_self, Bool.xor_false]
    · have hzero : (!decide (p < s) && m.getLsbD (p - s)) = false := by
        rw [Bool.and_eq_false_iff, Bool.not_eq_false', decide_eq_true_iff]
        by_contra h
        rw [not_or, Bool.not_eq_false] at h
        exact habove ⟨Nat.le_of_not_lt h.1, h.2⟩
      rw [if_neg habove, Bool.and_left_comm, hzero, Bool.and_false, Bool.xor_false]

end Exchange

/-- The transposition of eight times eight bits, by exchanges of single bits, of squares of two
times two and of squares of four times four. -/
def transpose8x8 (x : BitVec 64) : BitVec 64 :=
  exchange 0x00000000F0F0F0F0#64 28 (exchange 0x0000CCCC0000CCCC#64 14
    (exchange 0x00AA00AA00AA00AA#64 7 x))

/-- Row `p / 8` and column `p % 8` are exchanged. -/
theorem getLsbD_transpose8x8 (x : BitVec 64) {p : ℕ} (hp : p < 64) :
    (transpose8x8 x).getLsbD p = x.getLsbD (8 * (p % 8) + p / 8) := by
  have hplace (m : BitVec 64) (s : ℕ)
      (hm : ∀ p < 64, m.getLsbD p → ¬ m.getLsbD (p + s)) :
      ∀ p, m.getLsbD p → ¬ m.getLsbD (p + s) := fun p h => by
    rcases Nat.lt_or_ge p 64 with hlt | hge
    · exact hm p hlt h
    · rw [BitVec.getLsbD_of_ge m p hge] at h
      cases h
  have hlt : ∀ p < 64, exchangePlace 0x00000000F0F0F0F0#64 28 p < 64 ∧
      exchangePlace 0x0000CCCC0000CCCC#64 14 (exchangePlace 0x00000000F0F0F0F0#64 28 p) < 64 ∧
      exchangePlace 0x00AA00AA00AA00AA#64 7 (exchangePlace 0x0000CCCC0000CCCC#64 14
        (exchangePlace 0x00000000F0F0F0F0#64 28 p)) = 8 * (p % 8) + p / 8 := by decide +kernel
  obtain ⟨h₁, h₂, hplaces⟩ := hlt p hp
  rw [transpose8x8, getLsbD_exchange (hplace _ _ (by decide +kernel)) _ hp,
    getLsbD_exchange (hplace _ _ (by decide +kernel)) _ h₁,
    getLsbD_exchange (hplace _ _ (by decide +kernel)) _ h₂, hplaces]

/-- The bytes of the transposed square: byte `k` has the bits `k` of the eight bytes read. -/
theorem bit_transpose8x8 (m : ℕ → UInt8) (a : ℕ) {k t : ℕ} (hk : k < 8) (ht : t < 8) :
    bit (byteAt (transpose8x8 (word 8 m a)) k) t = bit (m (a + t)) k := by
  have hplace : 8 * ((8 * k + t) % 8) + (8 * k + t) / 8 = 8 * t + k := by omega
  have hdiv : (8 * t + k) / 8 = t := by omega
  have hmod : (8 * t + k) % 8 = k := by omega
  rw [bit_byteAt _ _ ht, getLsbD_transpose8x8 _ (by omega), hplace,
    getLsbD_word m a (by omega), hdiv, hmod]

end Bits
