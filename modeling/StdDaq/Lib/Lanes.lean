import Mathlib
import StdDaq.Lib.Bits

/-!
# Vector registers

A register is known by its lanes, and the instructions that move lanes do not look at what is in
them: they are polymorphic, and so is a network of them. To know where a network moves every lane it
is enough to run it once, on registers whose lanes hold their own place, and that is a computation:
`unpack_comp` carries the outcome over to any content.

The lanes are single bytes here. Instructions that move wider lanes move groups of bytes. A register
of 32 bytes consists of two halves of 16 on which the unpacking instructions act alike.

## Main results

* `unpack_comp`, `permute2x128_comp` — moving lanes commutes with any function of their content
* `bit_shifted` — the top bits that one-bit shifts of 16-bit lanes bring up, one after the other
* `bit_maskBytes` — the bytes of a mask of top bits
-/

namespace Lanes

open Bits

variable {α β : Type*}

/-! ### Moving lanes -/

/-- Interleave groups of `w` lanes from the lower (`half` is 0) or the upper (`half` is 1) eight
bytes of each 16 of two registers. -/
def unpack (w half : ℕ) (a b : ℕ → α) : ℕ → α := fun i =>
  let l := i % 16
  let source := i - l + half * 8 + l / w / 2 * w + l % w
  if l / w % 2 = 0 then a source else b source

/-- The interleaved lower halves. -/
def unpacklo (w : ℕ) (a b : ℕ → α) : ℕ → α := unpack w 0 a b

/-- The interleaved upper halves. -/
def unpackhi (w : ℕ) (a b : ℕ → α) : ℕ → α := unpack w 1 a b

/-- Choose two of the four halves of 16 bytes; bits 0, 1 and 4, 5 of `imm` say which. -/
def permute2x128 (a b : ℕ → α) (imm : ℕ) : ℕ → α := fun i =>
  let choice := if i < 16 then imm % 4 else imm / 16 % 4
  let source := choice % 2 * 16 + i % 16
  if choice < 2 then a source else b source

theorem unpack_comp (f : α → β) (w half : ℕ) (a b : ℕ → α) :
    unpack w half (fun l => f (a l)) (fun l => f (b l)) = fun l => f (unpack w half a b l) := by
  funext i
  rw [unpack, unpack]
  exact (apply_ite f _ _ _).symm

@[simp] theorem unpacklo_comp (f : α → β) (w : ℕ) (a b : ℕ → α) :
    unpacklo w (fun l => f (a l)) (fun l => f (b l)) = fun l => f (unpacklo w a b l) :=
  unpack_comp f w 0 a b

@[simp] theorem unpackhi_comp (f : α → β) (w : ℕ) (a b : ℕ → α) :
    unpackhi w (fun l => f (a l)) (fun l => f (b l)) = fun l => f (unpackhi w a b l) :=
  unpack_comp f w 1 a b

@[simp] theorem permute2x128_comp (f : α → β) (a b : ℕ → α) (imm : ℕ) :
    permute2x128 (fun l => f (a l)) (fun l => f (b l)) imm
      = fun l => f (permute2x128 a b imm l) := by
  funext i
  rw [permute2x128, permute2x128]
  exact (apply_ite f _ _ _).symm

/-! ### Masks of top bits -/

/-- The lanes at an address. -/
def load (m : ℕ → α) (a : ℕ) : ℕ → α := fun i => m (a + i)

/-- The top bits of the first `n` lanes. -/
def movemask (n : ℕ) (x : ℕ → UInt8) : BitVec n := BitVec.ofFnLE fun i : Fin n => bit (x i) 7

/-- Shift every 16-bit lane to the left. -/
def slliEpi16 (x : ℕ → UInt8) (s : ℕ) : ℕ → UInt8 := fun i =>
  byteAt (word 2 x (i / 2 * 2) <<< s) (i % 2)

/-- A register after `k` shifts by one bit. -/
def shifted (x : ℕ → UInt8) (k : ℕ) : ℕ → UInt8 := (fun y => slliEpi16 y 1)^[k] x

/-- The bytes of the mask. -/
def maskBytes (n : ℕ) (x : ℕ → UInt8) : List UInt8 :=
  (List.range (n / 8)).map fun c => byteAt (movemask n x) c

section Masks

variable {x : ℕ → UInt8} {i k t n c : ℕ}

/-- A shift moves a bit to the next place of its byte. Only the lowest bit of a byte comes from
another one. -/
theorem bit_slliEpi16 (ht : t + 1 < 8) : bit (slliEpi16 x 1 i) (t + 1) = bit (x i) t := by
  have hplace : 8 * (i % 2) + (t + 1) - 1 = 8 * (i % 2) + t := by omega
  have hlt : 8 * (i % 2) + (t + 1) < 8 * 2 := by omega
  have hbyte : i / 2 * 2 + (8 * (i % 2) + t) / 8 = i := by omega
  have hbit : (8 * (i % 2) + t) % 8 = t := by omega
  rw [slliEpi16, bit_byteAt _ _ ht, BitVec.getLsbD_shiftLeft, hplace, decide_eq_true hlt,
    Bool.true_and, decide_eq_false (by omega), Bool.not_false, Bool.true_and,
    getLsbD_word x _ (by omega), hbyte, hbit]

theorem bit_shifted (ht : t + k < 8) : bit (shifted x k i) (t + k) = bit (x i) t := by
  induction k with
  | zero => rfl
  | succ k ih =>
    rw [shifted, Function.iterate_succ_apply', ← Nat.add_assoc, bit_slliEpi16 (by omega)]
    exact ih (by omega)

/-- Bit `t` of byte `c` of the mask, after `k` shifts. -/
theorem bit_maskBytes (hk : k < 8) (hc : 8 * c + t < n) (ht : t < 8) :
    bit (byteAt (movemask n (shifted x k)) c) t = bit (x (8 * c + t)) (7 - k) := by
  have htop : bit (shifted x k (8 * c + t)) (7 - k + k) = bit (x (8 * c + t)) (7 - k) :=
    bit_shifted (by omega)
  rw [Nat.sub_add_cancel (by omega)] at htop
  rw [bit_byteAt _ _ ht, movemask, BitVec.getLsbD_ofFnLE, dif_pos hc, htop]

end Masks

end Lanes
