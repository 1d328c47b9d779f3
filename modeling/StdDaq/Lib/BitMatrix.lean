import Mathlib
import StdDaq.Lib.Bits

/-!
# Matrices in memory, and their transposition

A matrix stands in memory row by row. The transposed one takes its entry at the place `p` from the
place `flip rows cols p`, where `rows` and `cols` are those of the matrix that is read. The entries
may be cells or single bits: `bitsOf` is the memory as a sequence of bits, lowest bit first.

## Main results

* `flip_flip` — transposing twice gives the places back
* `bitTranspose_bitTranspose` — and so the bits
-/

namespace BitMatrix

open Bits

/-! ### Places -/

section Places

variable {rows cols i j p : ℕ}

theorem place_lt (hj : j < rows) (hi : i < cols) : j * cols + i < rows * cols := by
  have hle := Nat.mul_le_mul_right cols (Nat.succ_le_of_lt hj)
  rw [Nat.succ_mul] at hle
  omega

/-- Every place has a row and a column. -/
theorem exists_place (hp : p < rows * cols) : ∃ j < rows, ∃ i < cols, p = j * cols + i := by
  have hcols : 0 < cols := Nat.pos_of_mul_pos_left (Nat.zero_lt_of_lt hp)
  refine ⟨p / cols, (Nat.div_lt_iff_lt_mul hcols).mpr hp, p % cols, Nat.mod_lt _ hcols, ?_⟩
  rw [Nat.mul_comm, Nat.div_add_mod]

theorem place_div (hi : i < cols) : (j * cols + i) / cols = j := by
  rw [Nat.mul_comm, Nat.mul_add_div (Nat.zero_lt_of_lt hi), Nat.div_eq_of_lt hi, Nat.add_zero]

theorem place_mod (hi : i < cols) : (j * cols + i) % cols = i := by
  rw [Nat.mul_comm, Nat.mul_add_mod, Nat.mod_eq_of_lt hi]

/-- The place in a matrix of `rows` times `cols` from which the transposed matrix takes its entry at
`p`. -/
def flip (rows cols p : ℕ) : ℕ := p % rows * cols + p / rows

@[simp] theorem flip_place (hi : i < rows) : flip rows cols (j * rows + i) = i * cols + j := by
  rw [flip, place_mod hi, place_div hi]

theorem flip_lt (hp : p < rows * cols) : flip rows cols p < rows * cols := by
  rw [Nat.mul_comm] at hp
  obtain ⟨j, hj, i, hi, rfl⟩ := exists_place hp
  rw [flip_place hi]
  exact place_lt hi hj

/-- **Transposing twice** gives every place back. -/
theorem flip_flip (hp : p < rows * cols) : flip rows cols (flip cols rows p) = p := by
  obtain ⟨j, hj, i, hi, rfl⟩ := exists_place hp
  rw [flip_place hi, flip_place hj]

end Places

/-! ### Cells -/

/-- The transposed matrix, with entries of `w` bytes. -/
def cellTranspose {α : Type*} (rows cols w : ℕ) (m : ℕ → α) : ℕ → α := fun a =>
  m (flip rows cols (a / w) * w + a % w)

section Cells

variable {α : Type*} {m m' : ℕ → α} {rows cols w i j b a : ℕ}

theorem cellTranspose_place (hi : i < rows) (hb : b < w) :
    cellTranspose rows cols w m ((j * rows + i) * w + b) = m ((i * cols + j) * w + b) := by
  rw [cellTranspose, place_div hb, place_mod hb, flip_place hi]

theorem cellTranspose_one : cellTranspose rows cols 1 m a = m (flip rows cols a) := by
  rw [cellTranspose, Nat.div_one, Nat.mod_one, Nat.mul_one, Nat.add_zero]

theorem cellTranspose_congr (h : ∀ a < rows * cols * w, m a = m' a) (ha : a < rows * cols * w) :
    cellTranspose rows cols w m a = cellTranspose rows cols w m' a := by
  obtain ⟨p, hp, b, hb, rfl⟩ := exists_place ha
  rw [cellTranspose, cellTranspose, place_div hb, place_mod hb]
  exact h _ (place_lt (flip_lt hp) hb)

end Cells

/-! ### Bits -/

/-- The memory as a sequence of bits. -/
def bitsOf (m : ℕ → UInt8) (p : ℕ) : Bool := bit (m (p / 8)) (p % 8)

/-- The memory with these bits. -/
def ofBits (f : ℕ → Bool) (a : ℕ) : UInt8 := byteOf fun t => f (a * 8 + t)

section BitsOf

variable {m m' : ℕ → UInt8} {f g : ℕ → Bool} {a t n rows cols : ℕ}

theorem bitsOf_place (ht : t < 8) : bitsOf m (a * 8 + t) = bit (m a) t := by
  rw [bitsOf, place_div ht, place_mod ht]

theorem bit_ofBits (ht : t < 8) : bit (ofBits f a) t = f (a * 8 + t) := bit_byteOf _ ht

@[simp] theorem bitsOf_ofBits : bitsOf (ofBits f) = f := by
  funext p
  rw [bitsOf, bit_ofBits (Nat.mod_lt _ (by decide)), Nat.mul_comm, Nat.div_add_mod]

/-- A memory is known by its bits. -/
theorem eq_of_bitsOf (h : ∀ t < 8, bitsOf m (a * 8 + t) = bitsOf m' (a * 8 + t)) : m a = m' a :=
  eq_of_bits fun t ht => by
    rw [← bitsOf_place ht, ← bitsOf_place ht]
    exact h t ht

theorem bitsOf_congr (h : ∀ a < n, m a = m' a) {p : ℕ} (hp : p < 8 * n) :
    bitsOf m p = bitsOf m' p := by
  rw [bitsOf, bitsOf, h _ (by omega)]

/-- The transposed matrix of bits. -/
def bitTranspose (rows cols : ℕ) (m : ℕ → UInt8) : ℕ → UInt8 :=
  ofBits fun p => bitsOf m (flip rows cols p)

theorem bit_bitTranspose (ht : t < 8) :
    bit (bitTranspose rows cols m a) t = bitsOf m (flip rows cols (a * 8 + t)) := by
  rw [bitTranspose, bit_ofBits ht]

theorem bitTranspose_congr (hn : 8 * n = rows * cols) (h : ∀ a < n, m a = m' a) (ha : a < n) :
    bitTranspose rows cols m a = bitTranspose rows cols m' a := by
  refine eq_of_bits fun t ht => ?_
  have hp : a * 8 + t < rows * cols := by omega
  rw [bit_bitTranspose ht, bit_bitTranspose ht, bitsOf_congr h (hn ▸ flip_lt hp)]

/-- **Transposing the bits twice** gives the bytes back. -/
theorem bitTranspose_bitTranspose (hn : 8 * n = rows * cols) (ha : a < n) :
    bitTranspose cols rows (bitTranspose rows cols m) a = m a := by
  refine eq_of_bitsOf fun t ht => ?_
  have hp : a * 8 + t < rows * cols := by omega
  rw [bitTranspose, bitsOf_ofBits, bitTranspose, bitsOf_ofBits, flip_flip hp]

/-- Matrices of bits that stand one behind the other, each of them transposed. -/
def groupTranspose (rows cols : ℕ) (m : ℕ → UInt8) : ℕ → UInt8 := ofBits fun p =>
  bitsOf m (p / (rows * cols) * (rows * cols) + flip rows cols (p % (rows * cols)))

theorem bitsOf_groupTranspose {g q : ℕ} (hq : q < rows * cols) :
    bitsOf (groupTranspose rows cols m) (g * (rows * cols) + q)
      = bitsOf m (g * (rows * cols) + flip rows cols q) := by
  rw [groupTranspose, bitsOf_ofBits, place_div hq, place_mod hq]

end BitsOf

end BitMatrix
