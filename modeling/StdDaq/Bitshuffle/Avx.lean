import Mathlib
import StdDaq.Bitshuffle.Sse

/-!
# Bitshuffle as it is compiled

With registers of 32 bytes the bits of more elements are collected at once, and the rows of bits are
taken apart by a network of 32 registers. Elements that do not fill a register go to the functions
for 16 bytes, and these go to the loops over bytes. `transBitElem` and `untransBitElem` are the
drivers, for the instruction set the programs are compiled for.

## Main results

* `transBitElem_eq_scal`, `untransBitElem_eq_scal` — the compiled path and the plain one agree, for
  every number and size of elements, errors included
* `untransBitElem_transBitElem` — unshuffling gives the elements back
-/

namespace StdDaq.Bitshuffle

open Memory BitMatrix Bits Lanes

/-! ### Forward -/

/-- Transpose the bits within bytes. Whether the number of bytes is a multiple of eight is checked
after the loop. -/
def transBitByteAVX (inp out : Bytes) (size elemSize : ℕ) : Outcome :=
  let nbyte := elemSize * size
  transBitByteRemainder inp (blits out (maskLoops 32 inp nbyte)) size elemSize (nbyte - nbyte % 32)

theorem transBitByteAVX_eq (inp out : Bytes) {size elemSize : ℕ} (hsize : size % 8 = 0) :
    transBitByteAVX inp out size elemSize = .ok (size * elemSize,
      fill (size * elemSize) (bitTranspose (size * elemSize) 8 inp) out) :=
  mask_then_squares (by decide : 0 < 4) inp out hsize

/-- Transpose the bits within elements. -/
def transBitElemAVX (junk inp out : Bytes) (size elemSize : ℕ) : Outcome := do
  checkMultEight size
  let (_, out) ← transByteElemSSE junk inp out size elemSize
  let (_, tmpBuf) ← transBitByteAVX out junk size elemSize
  transBitrowEight tmpBuf out size elemSize

/-! ### Back -/

/-- The 32 rows of bits of four elements. The rows of each element go through three stages of
unpacking, eight registers at a time, and a last stage puts the four elements together: the register
`q` of the columns `mm`. -/
def bitrowNetworkAVX {α : Type*} (r : ℕ → ℕ → α) (mm q : ℕ) : ℕ → α :=
  let storage (kk hh : ℕ) : ℕ → α :=
    let ymm0 (k : ℕ) := r (hh * 8 + k)
    let ymm1 (k : ℕ) := if k < 4 then unpacklo 1 (ymm0 (k * 2)) (ymm0 (k * 2 + 1))
      else unpackhi 1 (ymm0 ((k - 4) * 2)) (ymm0 ((k - 4) * 2 + 1))
    let ymm0 (k : ℕ) :=
      if k % 4 < 2 then unpacklo 2 (ymm1 (k / 4 * 4 + k % 2 * 2)) (ymm1 (k / 4 * 4 + k % 2 * 2 + 1))
      else unpackhi 2 (ymm1 (k / 4 * 4 + k % 2 * 2)) (ymm1 (k / 4 * 4 + k % 2 * 2 + 1))
    if kk % 2 = 0 then unpacklo 4 (ymm0 (kk / 2 * 2)) (ymm0 (kk / 2 * 2 + 1))
    else unpackhi 4 (ymm0 (kk / 2 * 2)) (ymm0 (kk / 2 * 2 + 1))
  let ymm0 (kk : ℕ) := storage mm kk
  let ymm1_0 := unpacklo 8 (ymm0 0) (ymm0 1)
  let ymm1_1 := unpacklo 8 (ymm0 2) (ymm0 3)
  let ymm1_2 := unpackhi 8 (ymm0 0) (ymm0 1)
  let ymm1_3 := unpackhi 8 (ymm0 2) (ymm0 3)
  match q with
  | 0 => permute2x128 ymm1_0 ymm1_1 32
  | 1 => permute2x128 ymm1_2 ymm1_3 32
  | 2 => permute2x128 ymm1_0 ymm1_1 49
  | _ => permute2x128 ymm1_2 ymm1_3 49

/-- The column that a register of the network holds, among 32. -/
def bitrowColumn (mm q : ℕ) : ℕ := mm * 2 + q / 2 * 16 + q % 2

theorem bitrowNetworkAVX_comp {α β : Type*} (f : α → β) (r : ℕ → ℕ → α) (mm q i : ℕ) :
    bitrowNetworkAVX (fun k l => f (r k l)) mm q i = f (bitrowNetworkAVX r mm q i) := by
  have hite (c : Prop) [Decidable c] (a b : ℕ → α) :
      (if c then fun l => f (a l) else fun l => f (b l)) = fun l => f ((if c then a else b) l) := by
    split <;> rfl
  rcases q with _ | _ | _ | q <;>
    simp only [bitrowNetworkAVX, unpacklo_comp, unpackhi_comp, permute2x128_comp, hite]

theorem bitrowNetworkAVX_run : ∀ mm < 8, ∀ q < 4, ∀ i < 32,
    bitrowNetworkAVX Prod.mk mm q i = (i, bitrowColumn mm q) := by decide +kernel

/-- Lane `i` of a register is the column of row `i`. -/
theorem bitrowNetworkAVX_apply (m : ℕ → ℕ → UInt8) {mm q i : ℕ} (hmm : mm < 8) (hq : q < 4)
    (hi : i < 32) : bitrowNetworkAVX m mm q i = m i (bitrowColumn mm q) := by
  have hcomp := bitrowNetworkAVX_comp (fun p : ℕ × ℕ => m p.1 p.2) Prod.mk mm q i
  rw [bitrowNetworkAVX_run mm hmm q hq i hi] at hcomp
  exact hcomp

/-- Every column is in one of the registers. -/
theorem exists_bitrowColumn {c : ℕ} (hc : c < 32) : ∃ mm < 8, ∃ q < 4, c = bitrowColumn mm q :=
  ⟨c % 16 / 2, by omega, c / 16 * 2 + c % 2, by omega, by rw [bitrowColumn]; omega⟩

theorem bitrowColumn_lt {mm q : ℕ} (hmm : mm < 8) (hq : q < 4) : bitrowColumn mm q < 32 := by
  rw [bitrowColumn]
  omega

/-- Transpose the bytes of data that has a row for each bit of an element. -/
def transByteBitrowAVX (inp out : Bytes) (size elemSize : ℕ) : Outcome := do
  checkMultEight size
  let nrows := 8 * elemSize
  let nbyteRow := size / 8
  if elemSize % 4 ≠ 0 then transByteBitrowSSE inp out size elemSize
  else .ok (size * elemSize, blits out
    (((blocks 0 nbyteRow 32).flatMap fun jj => (blocks 0 elemSize 4).flatMap fun ii =>
      (List.range 8).flatMap fun mm => (List.range 4).map fun q =>
        ((jj + bitrowColumn mm q) * nrows + ii * 8, (List.range 32).map
          (bitrowNetworkAVX (fun k => load inp ((ii * 8 + k) * nbyteRow + jj)) mm q))) ++
    (List.range nrows).flatMap fun ii =>
      (blocks (nbyteRow - nbyteRow % 32) nbyteRow 1).map fun jj =>
        (jj * nrows + ii, [inp (ii * nbyteRow + jj)])))

theorem transByteBitrowAVX_eq (inp out : Bytes) {size elemSize : ℕ} (hsize : size % 8 = 0) :
    transByteBitrowAVX inp out size elemSize = .ok (size * elemSize,
      fill (size * elemSize) (cellTranspose (8 * elemSize) (size / 8) 1 inp) out) := by
  have hn : size / 8 * (8 * elemSize) = size * elemSize := by
    rw [← Nat.mul_assoc, Nat.div_mul_cancel (Nat.dvd_of_mod_eq_zero hsize)]
  rw [transByteBitrowAVX, checkMultEight_of_dvd hsize]
  simp only [bind, Except.bind]
  by_cases hrest : elemSize % 4 ≠ 0
  · rw [if_pos hrest, transByteBitrowSSE_eq inp out hsize]
  rw [if_neg hrest, ← hn]
  refine congrArg (fun m => Except.ok (_, m)) (Paints.blits_eq ⟨?_, ?_⟩)
  · have hcell {i j : ℕ} (hi : i < 8 * elemSize) (hj : j < size / 8) :
        j * (8 * elemSize) + i ∈ {a | a < size / 8 * (8 * elemSize)} ∧ inp (i * (size / 8) + j)
          = cellTranspose (8 * elemSize) (size / 8) 1 inp (j * (8 * elemSize) + i) :=
      ⟨place_lt hj hi, by rw [cellTranspose_one, flip_place hi]⟩
    intro a x h
    simp only [stores_flatMap, stores_append, stores_map, stores_lanes, stores_cell,
      List.mem_range] at h
    rcases h with ⟨jj, hjj, ii, hii, mm, hmm, q, hq, i, hi, rfl, rfl⟩ | ⟨ii, hii, jj, hjj, rfl, rfl⟩
    · have hcols := le_of_mem_blocks (by decide) hjj
      have hrows := le_of_mem_blocks (by decide) hii
      have hcolumn := bitrowColumn_lt hmm hq
      rw [bitrowNetworkAVX_apply _ hmm hq hi, load, Nat.add_assoc, Nat.add_assoc]
      exact hcell (by omega) (by omega)
    · have hcols := le_of_mem_blocks (by decide) hjj
      exact hcell hii (by omega)
  · intro a ha
    obtain ⟨j, hj, i, hi, rfl⟩ := exists_place ha
    simp only [stores_flatMap, stores_append, stores_map, stores_lanes, stores_cell,
      List.mem_range]
    rcases Nat.lt_or_ge j (size / 8 - size / 8 % 32) with hcol | hcol
    · obtain ⟨jj, hjj, c, hc, rfl⟩ := exists_mem_blocks (size / 8) (by decide : 0 < 32)
        (Nat.zero_le j) (by omega)
      obtain ⟨ii, hii, e, he, hrow⟩ := exists_mem_blocks elemSize (by decide : 0 < 4)
        (Nat.zero_le (i / 8)) (by omega)
      obtain ⟨mm, hmm, q, hq, rfl⟩ := exists_bitrowColumn hc
      have hplace : (jj + bitrowColumn mm q) * (8 * elemSize) + i
          = (jj + bitrowColumn mm q) * (8 * elemSize) + ii * 8 + (e * 8 + i % 8) := by omega
      exact ⟨_, .inl ⟨jj, hjj, ii, hii, mm, hmm, q, hq, e * 8 + i % 8, by omega, hplace, rfl⟩⟩
    · obtain ⟨jj, hjj, c, hc, rfl⟩ :=
        exists_mem_blocks (size / 8) (by decide : 0 < 1) hcol (by omega)
      obtain rfl : c = 0 := by omega
      exact ⟨_, .inr ⟨i, hi, jj, hjj, rfl, rfl⟩⟩

/-- Shuffle the bits within the bytes of blocks of eight elements. -/
def shuffleBitEightelemAVX (inp out : Bytes) (size elemSize : ℕ) : Outcome := do
  checkMultEight size
  let nbyte := elemSize * size
  if elemSize % 4 ≠ 0 then shuffleBitEightelemSSE inp out size elemSize
  else .ok (size * elemSize, blits out
    ((blocks 0 (8 * elemSize) 32).flatMap fun jj =>
      (blocks 0 nbyte (8 * elemSize)).flatMap fun ii => (List.range 8).map fun kk =>
        (ii + jj / 8 + (7 - kk) * elemSize, maskBytes 32 (shifted (load inp (ii + jj)) kk))))

theorem shuffleBitEightelemAVX_eq (inp out : Bytes) {size elemSize : ℕ} (hsize : size % 8 = 0) :
    shuffleBitEightelemAVX inp out size elemSize = .ok (size * elemSize,
      fill (size * elemSize) (groupTranspose (8 * elemSize) 8 inp) out) := by
  rw [shuffleBitEightelemAVX, checkMultEight_of_dvd hsize]
  simp only [bind, Except.bind]
  by_cases hrest : elemSize % 4 ≠ 0
  · rw [if_pos hrest, shuffleBitEightelemSSE_eq inp out hsize]
  rw [if_neg hrest]
  congr 2
  refine (maskGroups_paints (by decide : 0 < 4) hsize (not_not.mp hrest) fun a x => ?_).blits_eq
  simp only [maskBytes, stores_flatMap, stores_map, stores_lanes, List.mem_range]
  constructor
  · rintro ⟨jj, hjj, ii, hii, h⟩
    exact ⟨ii, hii, jj, hjj, h⟩
  · rintro ⟨ii, hii, jj, hjj, h⟩
    exact ⟨jj, hjj, ii, hii, h⟩

/-- Undo the transposition of the bits within elements. -/
def untransBitElemAVX (junk inp out : Bytes) (size elemSize : ℕ) : Outcome := do
  checkMultEight size
  let (_, tmpBuf) ← transByteBitrowAVX inp junk size elemSize
  shuffleBitEightelemAVX tmpBuf out size elemSize

/-! ### The drivers -/

/-- The driver of the shuffle. -/
def transBitElem (junk inp out : Bytes) (size elemSize : ℕ) : Outcome :=
  transBitElemAVX junk inp out size elemSize

/-- The driver of the way back. -/
def untransBitElem (junk inp out : Bytes) (size elemSize : ℕ) : Outcome :=
  untransBitElemAVX junk inp out size elemSize

section Drivers

variable {size elemSize : ℕ}

theorem transBitElem_eq (junk inp out : Bytes) (hsize : size % 8 = 0) :
    transBitElem junk inp out size elemSize = .ok (size * elemSize,
      fill (size * elemSize) (bitTranspose size (8 * elemSize) inp) out) :=
  transposed_of_steps hsize (fun inp out => transByteElemSSE_eq junk inp out size elemSize)
    (fun inp out => transBitByteAVX_eq inp out hsize) junk inp out

theorem untransBitElem_eq (junk inp out : Bytes) (hsize : size % 8 = 0) :
    untransBitElem junk inp out size elemSize = .ok (size * elemSize,
      fill (size * elemSize) (bitTranspose (8 * elemSize) size inp) out) :=
  untransposed_of_steps hsize (fun inp out => transByteBitrowAVX_eq inp out hsize)
    (fun inp out => shuffleBitEightelemAVX_eq inp out hsize) junk inp out

/-- A number of elements that is not a multiple of eight is an error, and nothing is written. -/
theorem checkMultEight_error (hsize : size % 8 ≠ 0) : checkMultEight size = .error (-80) :=
  if_pos hsize

/-- **The compiled shuffle and the plain one agree**, whatever the number and the size of the
elements and whatever the memory they allocate holds. -/
theorem transBitElem_eq_scal (junk junk' inp out : Bytes) (size elemSize : ℕ) :
    transBitElem junk inp out size elemSize = transBitElemScal junk' inp out size elemSize := by
  by_cases hsize : size % 8 = 0
  · rw [transBitElem_eq junk inp out hsize, transBitElemScal_eq junk' inp out hsize]
  · rw [transBitElem, transBitElemAVX, transBitElemScal, checkMultEight_error hsize]
    rfl

/-- **The compiled way back and the plain one agree.** -/
theorem untransBitElem_eq_scal (junk junk' inp out : Bytes) (size elemSize : ℕ) :
    untransBitElem junk inp out size elemSize
      = untransBitElemScal junk' inp out size elemSize := by
  by_cases hsize : size % 8 = 0
  · rw [untransBitElem_eq junk inp out hsize, untransBitElemScal_eq junk' inp out hsize]
  · rw [untransBitElem, untransBitElemAVX, untransBitElemScal, checkMultEight_error hsize]
    rfl

/-- Transposing the matrix of bits and back. -/
theorem unshuffled {m : Bytes} {a : ℕ} (ha : a < size * elemSize) :
    bitTranspose (8 * elemSize) size (bitTranspose size (8 * elemSize) m) a = m a :=
  bitTranspose_bitTranspose (by rw [Nat.mul_left_comm]) ha

/-- **Unshuffling what was shuffled** gives the elements back and leaves what follows them alone. -/
theorem untransBitElem_transBitElem (junk junk' inp out out' : Bytes) (hsize : size % 8 = 0) :
    (do
      let (_, shuffled) ← transBitElem junk inp out size elemSize
      untransBitElem junk' shuffled out' size elemSize)
      = .ok (size * elemSize, fill (size * elemSize) inp out') := by
  rw [transBitElem_eq junk inp out hsize]
  simp only [bind, Except.bind, untransBitElem_eq junk' _ out' hsize]
  congr 2
  refine fill_congr fun a ha => ?_
  rw [← unshuffled (m := inp) ha]
  refine bitTranspose_congr ?_ (fun b hb => fill_of_lt hb) ha
  rw [← Nat.mul_assoc, Nat.mul_right_comm]

end Drivers

end StdDaq.Bitshuffle
