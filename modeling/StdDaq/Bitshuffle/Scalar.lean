import Mathlib
import StdDaq.Lib.BitMatrix
import StdDaq.Lib.Painting

/-!
# Bitshuffle without vector instructions

An image is compressed well when the bits of equal weight of neighbouring pixels stand together.
`transBitElemScal` transposes the matrix of bits that has one row for each element: first the bytes
of each element apart, then the bits of each eight bytes, then the rows of bits into their order.
`untransBitElemScal` goes back in two steps of its own.

The functions fill `out` and return the number of bytes, or a negative error. The memory a function
allocates holds whatever `junk` says. Allocation does not fail, and integers in memory are little
endian.

## Main definitions

* `transBitElemScal`, `untransBitElemScal` — the two directions, each by loops over bytes

## Main results

* `transBitElemScal_eq` — shuffling transposes the matrix of bits
* `untransBitElemScal_eq` — and unshuffling the transposed matrix
-/

namespace StdDaq.Bitshuffle

open Memory BitMatrix Bits

/-- The bytes of a buffer, from its address on. -/
abbrev Bytes := ℕ → UInt8

/-- A negative error, or the number of bytes and what `out` holds then. -/
abbrev Outcome := Except ℤ (ℕ × Bytes)

/-- The macro that lets only multiples of eight pass. -/
def checkMultEight (n : ℕ) : Except ℤ Unit := if n % 8 ≠ 0 then .error (-80) else .ok ()

@[simp] theorem checkMultEight_of_dvd {n : ℕ} (h : n % 8 = 0) : checkMultEight n = .ok () :=
  if_neg (not_not.mpr h)

/-- `fn` returns `n` and draws a part of the picture `f`, in the cells of `s`. -/
def Draws (fn : Bytes → Outcome) (n : ℕ) (f : Bytes) (s : Set ℕ) : Prop :=
  ∃ writes, (∀ out, fn out = .ok (n, blits out writes)) ∧ Paints f s writes

/-- A function that draws the whole picture. -/
theorem Draws.eq_fill {fn : Bytes → Outcome} {n : ℕ} {f : Bytes} (h : Draws fn n f {a | a < n})
    (out : Bytes) : fn out = .ok (n, fill n f out) := by
  obtain ⟨writes, heq, hpaints⟩ := h
  rw [heq, hpaints.blits_eq]

/-! ### Bytes -/

/-- The memory copy. -/
def copy (inp out : Bytes) (size elemSize : ℕ) : Outcome :=
  .ok (size * elemSize, blits out [(0, slice inp 0 (size * elemSize))])

theorem copy_eq (inp out : Bytes) (size elemSize : ℕ) :
    copy inp out size elemSize = .ok (size * elemSize, fill (size * elemSize) inp out) := by
  have hpaints : Paints inp {a | a < size * elemSize} [(0, slice inp 0 (size * elemSize))] := by
    constructor
    · intro a x h
      obtain ⟨i, hi, rfl, rfl⟩ := stores_slice.mp h
      rw [Nat.zero_add]
      exact ⟨hi, rfl⟩
    · intro a ha
      exact ⟨inp a, stores_slice.mpr ⟨a, ha, by rw [Nat.zero_add], by rw [Nat.zero_add]⟩⟩
  rw [copy, hpaints.blits_eq]

/-- The loops that transpose `lda` times `ldb` cells of `w` bytes, from the row `start` on: eight
rows a turn, then the rows that are left. -/
def transLoops (inp : Bytes) (start lda ldb w : ℕ) : List (ℕ × List UInt8) :=
  ((blocks start lda 8).flatMap fun ii => (List.range ldb).flatMap fun jj =>
    (List.range 8).map fun kk =>
      ((jj * lda + ii + kk) * w, slice inp ((ii * ldb + kk * ldb + jj) * w) w)) ++
  (blocks (lda - lda % 8) lda 1).flatMap fun ii => (List.range ldb).map fun jj =>
    ((jj * lda + ii) * w, slice inp ((ii * ldb + jj) * w) w)

/-- The macro that transposes a matrix of a given type of `w` bytes. -/
def transElemType (inp out : Bytes) (lda ldb w : ℕ) : Bytes :=
  blits out (transLoops inp 0 lda ldb w)

/-- Transpose the bytes within elements, from the element `start` on. -/
def transByteElemRemainder (inp out : Bytes) (size elemSize start : ℕ) : Outcome := do
  checkMultEight start
  .ok (size * elemSize,
    if start < size then blits out (transLoops inp start size elemSize 1) else out)

/-- Transpose the bytes within elements. -/
def transByteElemScal (inp out : Bytes) (size elemSize : ℕ) : Outcome :=
  transByteElemRemainder inp out size elemSize 0

theorem transLoops_paints (inp : Bytes) (ldb w : ℕ) {start lda : ℕ} (hstart : start % 8 = 0)
    (hle : start ≤ lda) :
    Paints (cellTranspose lda ldb w inp) {a | a < ldb * lda * w ∧ start ≤ a / w % lda}
      (transLoops inp start lda ldb w) := by
  have hcell {i jj b : ℕ} (hi : i < lda) (hlow : start ≤ i) (hjj : jj < ldb) (hb : b < w) :
      (jj * lda + i) * w + b ∈ {a | a < ldb * lda * w ∧ start ≤ a / w % lda} ∧
        inp ((i * ldb + jj) * w + b)
          = cellTranspose lda ldb w inp ((jj * lda + i) * w + b) := by
    refine ⟨⟨place_lt (place_lt hjj hi) hb, ?_⟩, (cellTranspose_place hi hb).symm⟩
    rwa [place_div hb, place_mod hi]
  constructor
  · intro a x h
    simp only [transLoops, stores_append, stores_flatMap, stores_map, stores_slice,
      List.mem_range] at h
    rcases h with ⟨ii, hii, jj, hjj, kk, hkk, b, hb, rfl, rfl⟩ | ⟨ii, hii, jj, hjj, b, hb, rfl, rfl⟩
    · have hblock := le_of_mem_blocks (by decide) hii
      rw [← Nat.add_mul, Nat.add_assoc (jj * lda)]
      exact hcell (by omega) (by omega) hjj hb
    · have hblock := le_of_mem_blocks (by decide) hii
      exact hcell (by omega) (by omega) hjj hb
  · rintro a ⟨ha, hlow⟩
    obtain ⟨p, hp, b, hb, rfl⟩ := exists_place ha
    obtain ⟨jj, hjj, i, hi, rfl⟩ := exists_place hp
    rw [place_div hb, place_mod hi] at hlow
    refine ⟨inp ((i * ldb + jj) * w + b), ?_⟩
    simp only [transLoops, stores_append, stores_flatMap, stores_map, stores_slice,
      List.mem_range]
    -- the last rows, fewer than eight, are left to the second loop
    rcases Nat.lt_or_ge i (lda - lda % 8) with hrow | hrow
    · obtain ⟨ii, hii, kk, hkk, rfl⟩ :=
        exists_mem_blocks lda (by decide : 0 < 8) hlow (by omega)
      refine .inl ⟨ii, hii, jj, hjj, kk, hkk, b, hb, ?_, ?_⟩
      · rw [Nat.add_assoc (jj * lda)]
      · rw [Nat.add_mul ii]
    · obtain ⟨ii, hii, c, hc, rfl⟩ :=
        exists_mem_blocks lda (by decide : 0 < 1) hrow (by omega)
      obtain rfl : c = 0 := by omega
      exact .inr ⟨ii, hii, jj, hjj, b, hb, rfl, rfl⟩

theorem transElemType_eq (inp out : Bytes) (lda ldb w : ℕ) :
    transElemType inp out lda ldb w
      = fill (ldb * lda * w) (cellTranspose lda ldb w inp) out := by
  rw [transElemType]
  have hpaints := transLoops_paints inp ldb w (Nat.zero_mod 8) (Nat.zero_le lda)
  refine (hpaints.congr fun a => ?_).blits_eq
  exact ⟨And.left, fun h => ⟨h, Nat.zero_le _⟩⟩

theorem transByteElemRemainder_draws (inp : Bytes) (elemSize : ℕ) {size start : ℕ}
    (hstart : start % 8 = 0) (hle : start ≤ size) :
    Draws (fun out => transByteElemRemainder inp out size elemSize start) (size * elemSize)
      (cellTranspose size elemSize 1 inp) {a | a < size * elemSize ∧ start ≤ a % size} := by
  have hpaints := transLoops_paints inp elemSize 1 hstart hle
  simp only [Nat.mul_one, Nat.div_one, Nat.mul_comm elemSize] at hpaints
  rcases Nat.lt_or_ge start size with hlt | hge
  · refine ⟨transLoops inp start size elemSize 1, fun out => ?_, hpaints⟩
    beta_reduce
    rw [transByteElemRemainder, checkMultEight_of_dvd hstart, if_pos hlt]
    rfl
  · -- no element is left
    refine ⟨[], fun out => ?_, fun a x h => absurd h not_stores_nil, fun a ha => ?_⟩
    · beta_reduce
      rw [transByteElemRemainder, checkMultEight_of_dvd hstart, if_neg (Nat.not_lt.mpr hge)]
      rfl
    · have hpos : 0 < size := Nat.pos_of_mul_pos_right (Nat.zero_lt_of_lt ha.1)
      exact absurd (Nat.mod_lt a hpos) (Nat.not_lt.mpr (hge.trans ha.2))

theorem transByteElemScal_eq (inp out : Bytes) (size elemSize : ℕ) :
    transByteElemScal inp out size elemSize
      = .ok (size * elemSize, fill (size * elemSize) (cellTranspose size elemSize 1 inp) out) := by
  obtain ⟨writes, heq, hpaints⟩ := transByteElemRemainder_draws inp elemSize
    (Nat.zero_mod 8) (Nat.zero_le size)
  refine Draws.eq_fill ⟨writes, heq, hpaints.congr fun a => ?_⟩ out
  exact ⟨And.left, fun h => ⟨h, Nat.zero_le _⟩⟩

/-- The transposition of `lda` times `ldb` cells of `elemSize` bytes by memory copies. -/
def transElem (inp out : Bytes) (lda ldb elemSize : ℕ) : Outcome :=
  .ok (lda * ldb * elemSize, blits out
    ((List.range lda).flatMap fun ii => (List.range ldb).map fun jj =>
      ((jj * lda + ii) * elemSize, slice inp ((ii * ldb + jj) * elemSize) elemSize)))

theorem transElem_eq (inp out : Bytes) (lda ldb elemSize : ℕ) :
    transElem inp out lda ldb elemSize = .ok (lda * ldb * elemSize,
      fill (lda * ldb * elemSize) (cellTranspose lda ldb elemSize inp) out) := by
  rw [transElem, Paints.blits_eq]
  constructor
  · intro a x h
    simp only [stores_flatMap, stores_map, stores_slice, List.mem_range] at h
    obtain ⟨ii, hii, jj, hjj, b, hb, rfl, rfl⟩ := h
    rw [Nat.mul_comm lda]
    exact ⟨place_lt (place_lt hjj hii) hb, (cellTranspose_place hii hb).symm⟩
  · intro a ha
    rw [Nat.mul_comm lda] at ha
    obtain ⟨p, hp, b, hb, rfl⟩ := exists_place ha
    obtain ⟨jj, hjj, ii, hii, rfl⟩ := exists_place hp
    simp only [stores_flatMap, stores_map, stores_slice, List.mem_range]
    exact ⟨_, ii, hii, jj, hjj, b, hb, rfl, rfl⟩

/-! ### Bits -/

/-- The loop that transposes the bits within the first `nbyte` bytes, from the byte `startByte` on:
eight bytes are a square of bits. -/
def bitByteLoops (inp : Bytes) (nbyte startByte : ℕ) : List (ℕ × List UInt8) :=
  (blocks (startByte / 8) (nbyte / 8) 1).flatMap fun ii =>
    let x := transpose8x8 (word 8 inp (8 * ii))
    (List.range 8).map fun kk => (kk * (nbyte / 8) + ii, [byteAt x kk])

/-- Transpose the bits within bytes, from the byte `startByte` on. -/
def transBitByteRemainder (inp out : Bytes) (size elemSize startByte : ℕ) : Outcome := do
  let nbyte := elemSize * size
  checkMultEight nbyte
  checkMultEight startByte
  .ok (size * elemSize, blits out (bitByteLoops inp nbyte startByte))

/-- Transpose the bits within bytes. -/
def transBitByteScal (inp out : Bytes) (size elemSize : ℕ) : Outcome :=
  transBitByteRemainder inp out size elemSize 0

/-- The memory with one row for each bit of a byte: bit `8 * ii + t` of row `kk`. -/
theorem bit_rows {inp : Bytes} {n ii kk t : ℕ} (hn : n % 8 = 0) (hii : ii < n / 8) (hkk : kk < 8)
    (ht : t < 8) :
    bit (bitTranspose n 8 inp (kk * (n / 8) + ii)) t = bit (inp (8 * ii + t)) kk := by
  have hplace : (kk * (n / 8) + ii) * 8 + t = kk * n + (8 * ii + t) := by
    rw [Nat.add_mul, Nat.mul_assoc, Nat.div_mul_cancel (Nat.dvd_of_mod_eq_zero hn)]
    omega
  rw [bit_bitTranspose ht, hplace, flip_place (by omega), bitsOf_place hkk]

theorem bitByteLoops_paints (inp : Bytes) {n startByte : ℕ} (hn : n % 8 = 0) :
    Paints (bitTranspose n 8 inp) {a | a < n ∧ startByte / 8 ≤ a % (n / 8)}
      (bitByteLoops inp n startByte) := by
  have height : 8 * (n / 8) = n := Nat.mul_div_cancel' (Nat.dvd_of_mod_eq_zero hn)
  constructor
  · intro a x h
    simp only [bitByteLoops, stores_flatMap, stores_map, stores_cell, List.mem_range] at h
    obtain ⟨ii, hii, kk, hkk, rfl, rfl⟩ := h
    have hblock := le_of_mem_blocks (by decide) hii
    have hlt : ii < n / 8 := by omega
    refine ⟨⟨(place_lt hkk hlt).trans_eq height, ?_⟩, eq_of_bits fun t ht => ?_⟩
    · rw [place_mod hlt]
      exact hblock.1
    · rw [bit_transpose8x8 inp _ hkk ht, bit_rows hn hlt hkk ht]
  · rintro a ⟨ha, hlow⟩
    rw [← height] at ha
    obtain ⟨kk, hkk, i, hi, rfl⟩ := exists_place ha
    rw [place_mod hi] at hlow
    obtain ⟨ii, hii, c, hc, rfl⟩ :=
      exists_mem_blocks (n / 8) (by decide : 0 < 1) hlow (by omega)
    obtain rfl : c = 0 := by omega
    simp only [bitByteLoops, stores_flatMap, stores_map, stores_cell, List.mem_range]
    exact ⟨_, ii, hii, kk, hkk, rfl, rfl⟩

theorem transBitByteRemainder_eq (inp out : Bytes) {size elemSize startByte : ℕ}
    (hn : size * elemSize % 8 = 0) (hstart : startByte % 8 = 0) :
    transBitByteRemainder inp out size elemSize startByte
      = .ok (size * elemSize, blits out (bitByteLoops inp (size * elemSize) startByte)) := by
  rw [Nat.mul_comm] at hn
  rw [transBitByteRemainder, checkMultEight_of_dvd hn, checkMultEight_of_dvd hstart,
    Nat.mul_comm size]
  rfl

/-- Bytes that are multiples of eight. -/
theorem mul_mod_eight {size : ℕ} (elemSize : ℕ) (hsize : size % 8 = 0) :
    size * elemSize % 8 = 0 := by
  rw [Nat.mul_mod, hsize, Nat.zero_mul, Nat.zero_mod]

theorem transBitByteScal_eq (inp out : Bytes) {size elemSize : ℕ} (hsize : size % 8 = 0) :
    transBitByteScal inp out size elemSize = .ok (size * elemSize,
      fill (size * elemSize) (bitTranspose (size * elemSize) 8 inp) out) := by
  have hn := mul_mod_eight elemSize hsize
  rw [transBitByteScal, transBitByteRemainder_eq inp out hn (Nat.zero_mod 8)]
  congr 2
  refine ((bitByteLoops_paints inp hn).congr fun a => ?_).blits_eq
  exact ⟨And.left, fun h => ⟨h, Nat.zero_le _⟩⟩

/-- Transpose the rows of shuffled bits within groups of eight. -/
def transBitrowEight (inp out : Bytes) (size elemSize : ℕ) : Outcome := do
  let nbyteBitrow := size / 8
  checkMultEight size
  transElem inp out 8 elemSize nbyteBitrow

theorem transBitrowEight_eq (inp out : Bytes) {size elemSize : ℕ} (hsize : size % 8 = 0) :
    transBitrowEight inp out size elemSize = .ok (size * elemSize,
      fill (size * elemSize) (cellTranspose 8 elemSize (size / 8) inp) out) := by
  have hn : 8 * elemSize * (size / 8) = size * elemSize := by
    rw [Nat.mul_right_comm, Nat.mul_div_cancel' (Nat.dvd_of_mod_eq_zero hsize)]
  rw [transBitrowEight, checkMultEight_of_dvd hsize, ← hn]
  exact transElem_eq inp out 8 elemSize (size / 8)

/-- Transpose the bits within elements. -/
def transBitElemScal (junk inp out : Bytes) (size elemSize : ℕ) : Outcome := do
  checkMultEight size
  let (_, out) ← transByteElemScal inp out size elemSize
  let (_, tmpBuf) ← transBitByteScal out junk size elemSize
  transBitrowEight tmpBuf out size elemSize

/-- The bytes apart, their bits apart, and the rows of bits into order: the transposition of the
matrix with one row of bits for each element. -/
theorem three_steps (inp : Bytes) {size elemSize : ℕ} (hsize : size % 8 = 0) {a : ℕ}
    (ha : a < size * elemSize) :
    cellTranspose 8 elemSize (size / 8)
        (bitTranspose (size * elemSize) 8 (cellTranspose size elemSize 1 inp)) a
      = bitTranspose size (8 * elemSize) inp a := by
  have hw : size = 8 * (size / 8) := (Nat.mul_div_cancel' (Nat.dvd_of_mod_eq_zero hsize)).symm
  generalize size / 8 = w at hw ⊢
  subst hw
  have hn : 8 * w * elemSize = elemSize * 8 * w := by rw [Nat.mul_comm, Nat.mul_assoc]
  rw [hn] at ha
  obtain ⟨p, hp, b, hb, rfl⟩ := exists_place ha
  obtain ⟨j, hj, kk, hkk, rfl⟩ := exists_place hp
  refine eq_of_bits fun t ht => ?_
  -- bit `kk` of byte `j` of the element `8 * b + t`
  have he : 8 * b + t < 8 * w := by omega
  have hinner : ((kk * elemSize + j) * w + b) * 8 + t
      = kk * (8 * w * elemSize) + (j * (8 * w) + (8 * b + t)) := by ring
  have houter : ((j * 8 + kk) * w + b) * 8 + t = (j * 8 + kk) * (8 * w) + (8 * b + t) := by ring
  have helem : (8 * b + t) * (8 * elemSize) + (j * 8 + kk)
      = ((8 * b + t) * elemSize + j) * 8 + kk := by ring
  have hrow : j * (8 * w) + (8 * b + t) < 8 * w * elemSize := by
    rw [Nat.mul_comm (8 * w) elemSize]
    exact place_lt hj he
  rw [cellTranspose_place hkk hb, bit_bitTranspose ht, hinner, flip_place hrow, bitsOf_place hkk,
    cellTranspose_one, flip_place he, bit_bitTranspose ht, houter, flip_place he, helem,
    bitsOf_place hkk]

/-- **Shuffling transposes the matrix of bits** with one row for each element, whichever way the
first two steps are done. -/
theorem transposed_of_steps {transByteElem transBitByte : Bytes → Bytes → ℕ → ℕ → Outcome}
    {size elemSize : ℕ} (hsize : size % 8 = 0)
    (hbytes : ∀ inp out, transByteElem inp out size elemSize = .ok (size * elemSize,
      fill (size * elemSize) (cellTranspose size elemSize 1 inp) out))
    (hbits : ∀ inp out, transBitByte inp out size elemSize = .ok (size * elemSize,
      fill (size * elemSize) (bitTranspose (size * elemSize) 8 inp) out))
    (junk inp out : Bytes) :
    (do
      checkMultEight size
      let (_, out) ← transByteElem inp out size elemSize
      let (_, tmpBuf) ← transBitByte out junk size elemSize
      transBitrowEight tmpBuf out size elemSize : Outcome)
      = .ok (size * elemSize,
          fill (size * elemSize) (bitTranspose size (8 * elemSize) inp) out) := by
  have hn : 8 * (size * elemSize) = size * elemSize * 8 := Nat.mul_comm _ _
  have hcells : size * elemSize = 8 * elemSize * (size / 8) := by
    rw [Nat.mul_right_comm, Nat.mul_div_cancel' (Nat.dvd_of_mod_eq_zero hsize)]
  rw [checkMultEight_of_dvd hsize, hbytes]
  simp only [bind, Except.bind]
  rw [hbits]
  simp only [transBitrowEight_eq _ _ hsize, fill_fill]
  congr 2
  refine fill_congr fun a ha => ?_
  rw [← three_steps inp hsize ha]
  refine cellTranspose_congr (fun b hb => ?_) (hcells ▸ ha)
  rw [← hcells] at hb
  rw [fill_of_lt hb]
  exact bitTranspose_congr hn (fun c hc => fill_of_lt hc) hb

/-- **Shuffling byte by byte** transposes the matrix of bits. -/
theorem transBitElemScal_eq (junk inp out : Bytes) {size elemSize : ℕ} (hsize : size % 8 = 0) :
    transBitElemScal junk inp out size elemSize = .ok (size * elemSize,
      fill (size * elemSize) (bitTranspose size (8 * elemSize) inp) out) :=
  transposed_of_steps hsize (fun inp out => transByteElemScal_eq inp out size elemSize)
    (fun inp out => transBitByteScal_eq inp out hsize) junk inp out

/-! ### Back -/

/-- Transpose the bytes of data that has a row for each bit of an element. -/
def transByteBitrowScal (inp out : Bytes) (size elemSize : ℕ) : Outcome := do
  let nbyteRow := size / 8
  checkMultEight size
  .ok (size * elemSize, blits out
    ((List.range elemSize).flatMap fun jj => (List.range nbyteRow).flatMap fun ii =>
      (List.range 8).map fun kk =>
        (ii * 8 * elemSize + jj * 8 + kk, [inp ((jj * 8 + kk) * nbyteRow + ii)])))

theorem transByteBitrowScal_eq (inp out : Bytes) {size elemSize : ℕ} (hsize : size % 8 = 0) :
    transByteBitrowScal inp out size elemSize = .ok (size * elemSize,
      fill (size * elemSize) (cellTranspose (8 * elemSize) (size / 8) 1 inp) out) := by
  have hn : size / 8 * (8 * elemSize) = size * elemSize := by
    rw [← Nat.mul_assoc, Nat.div_mul_cancel (Nat.dvd_of_mod_eq_zero hsize)]
  rw [transByteBitrowScal, checkMultEight_of_dvd hsize, ← hn]
  refine congrArg (fun m => Except.ok (_, m)) (Paints.blits_eq ⟨?_, ?_⟩)
  · intro a x h
    simp only [stores_flatMap, stores_map, stores_cell, List.mem_range] at h
    obtain ⟨jj, hjj, ii, hii, kk, hkk, rfl, rfl⟩ := h
    have hrow : jj * 8 + kk < 8 * elemSize := by omega
    rw [Nat.mul_assoc ii, Nat.add_assoc]
    exact ⟨place_lt hii hrow, by rw [cellTranspose_one, flip_place hrow]⟩
  · intro a ha
    obtain ⟨ii, hii, r, hr, rfl⟩ := exists_place ha
    simp only [stores_flatMap, stores_map, stores_cell, List.mem_range]
    refine ⟨_, r / 8, by omega, ii, hii, r % 8, Nat.mod_lt _ (by decide), ?_, rfl⟩
    rw [Nat.mul_assoc ii]
    omega

/-- Shuffle the bits within the bytes of blocks of eight elements. The first loop counts to a
multiple of its step. -/
def shuffleBitEightelemScal (inp out : Bytes) (size elemSize : ℕ) : Outcome := do
  checkMultEight size
  let nbyte := elemSize * size
  .ok (size * elemSize, blits out
    ((blocks 0 (8 * elemSize) 8).flatMap fun jj =>
      (blocks 0 nbyte (8 * elemSize)).flatMap fun ii =>
        let x := transpose8x8 (word 8 inp (ii + jj))
        (List.range 8).map fun kk => (ii + jj / 8 + kk * elemSize, [byteAt x kk])))

/-- The blocks of eight elements with one row for each bit of a byte. -/
theorem bit_groups {inp : Bytes} {elemSize g j kk t : ℕ} (hj : j < elemSize) (hkk : kk < 8)
    (ht : t < 8) :
    bit (groupTranspose (8 * elemSize) 8 inp (g * (8 * elemSize) + (kk * elemSize + j))) t
      = bit (inp (g * (8 * elemSize) + (8 * j + t))) kk := by
  have hrow : 8 * j + t < 8 * elemSize := by omega
  have hplace : (g * (8 * elemSize) + (kk * elemSize + j)) * 8 + t
      = g * (8 * elemSize * 8) + (kk * (8 * elemSize) + (8 * j + t)) := by ring
  have hback : g * (8 * elemSize * 8) + ((8 * j + t) * 8 + kk)
      = (g * (8 * elemSize) + (8 * j + t)) * 8 + kk := by ring
  rw [← bitsOf_place ht, hplace, bitsOf_groupTranspose, flip_place hrow, hback, bitsOf_place hkk]
  rw [Nat.mul_comm (8 * elemSize)]
  exact place_lt hkk hrow

/-- The blocks of eight elements in a buffer. -/
theorem mem_groups {size elemSize ii : ℕ} (hsize : size % 8 = 0) (helem : 0 < elemSize) :
    ii ∈ blocks 0 (elemSize * size) (8 * elemSize) ↔ ∃ g < size / 8, ii = g * (8 * elemSize) := by
  have hgroups : (elemSize * size - 0) / (8 * elemSize) = size / 8 := by
    rw [Nat.sub_zero, ← Nat.mul_div_cancel' (Nat.dvd_of_mod_eq_zero hsize), Nat.mul_left_comm,
      ← Nat.mul_assoc, Nat.mul_div_cancel_left _ (by omega),
      Nat.mul_div_cancel' (Nat.dvd_of_mod_eq_zero hsize)]
  rw [mem_blocks, hgroups]
  simp only [Nat.zero_add, Nat.mul_comm]

theorem shuffleBitEightelemScal_eq (inp out : Bytes) {size elemSize : ℕ} (hsize : size % 8 = 0) :
    shuffleBitEightelemScal inp out size elemSize = .ok (size * elemSize,
      fill (size * elemSize) (groupTranspose (8 * elemSize) 8 inp) out) := by
  have hn : size / 8 * (8 * elemSize) = size * elemSize := by
    rw [← Nat.mul_assoc, Nat.div_mul_cancel (Nat.dvd_of_mod_eq_zero hsize)]
  rw [shuffleBitEightelemScal, checkMultEight_of_dvd hsize, ← hn]
  refine congrArg (fun m => Except.ok (_, m)) (Paints.blits_eq ⟨?_, ?_⟩)
  · intro a x h
    simp only [stores_flatMap, stores_map, stores_cell, List.mem_range] at h
    obtain ⟨jj, hjj, ii, hii, kk, hkk, rfl, rfl⟩ := h
    obtain ⟨j, hj, rfl⟩ := mem_blocks.mp hjj
    have hj : j < elemSize := by omega
    obtain ⟨g, hg, rfl⟩ := (mem_groups hsize (Nat.zero_lt_of_lt hj)).mp hii
    have hplace : g * (8 * elemSize) + (0 + 8 * j) / 8 + kk * elemSize
        = g * (8 * elemSize) + (kk * elemSize + j) := by omega
    refine ⟨?_, eq_of_bits fun t ht => ?_⟩
    · rw [hplace]
      exact place_lt hg (place_lt hkk hj)
    · rw [hplace, bit_transpose8x8 inp _ hkk ht, bit_groups hj hkk ht]
      congr 2
      omega
  · intro a ha
    obtain ⟨g, hg, r, hr, rfl⟩ := exists_place ha
    obtain ⟨kk, hkk, j, hj, rfl⟩ := exists_place hr
    simp only [stores_flatMap, stores_map, stores_cell, List.mem_range]
    refine ⟨_, 8 * j, mem_blocks.mpr ⟨j, by omega, by omega⟩, g * (8 * elemSize),
      (mem_groups hsize (Nat.zero_lt_of_lt hj)).mpr ⟨g, hg, rfl⟩, kk, hkk, by omega, rfl⟩

/-- Undo the transposition of the bits within elements. -/
def untransBitElemScal (junk inp out : Bytes) (size elemSize : ℕ) : Outcome := do
  checkMultEight size
  let (_, tmpBuf) ← transByteBitrowScal inp junk size elemSize
  shuffleBitEightelemScal tmpBuf out size elemSize

/-- The bytes of the rows into order, and the bits of each eight elements apart. -/
theorem two_steps (inp : Bytes) {size elemSize : ℕ} (hsize : size % 8 = 0) {a : ℕ}
    (ha : a < size * elemSize) :
    groupTranspose (8 * elemSize) 8 (cellTranspose (8 * elemSize) (size / 8) 1 inp) a
      = bitTranspose (8 * elemSize) size inp a := by
  have hw : size = 8 * (size / 8) := (Nat.mul_div_cancel' (Nat.dvd_of_mod_eq_zero hsize)).symm
  generalize size / 8 = w at hw ⊢
  subst hw
  have hn : 8 * w * elemSize = w * (8 * elemSize) := by ring
  rw [hn] at ha
  obtain ⟨g, hg, r, hr, rfl⟩ := exists_place ha
  obtain ⟨kk, hkk, j, hj, rfl⟩ := exists_place hr
  refine eq_of_bits fun t ht => ?_
  -- bit `t` of byte `j` of the element `8 * g + kk`
  have hrow : 8 * j + t < 8 * elemSize := by omega
  have hplace : (g * (8 * elemSize) + (kk * elemSize + j)) * 8 + t
      = (8 * g + kk) * (8 * elemSize) + (8 * j + t) := by ring
  have hback : (8 * j + t) * (8 * w) + (8 * g + kk) = ((8 * j + t) * w + g) * 8 + kk := by ring
  rw [bit_groups hj hkk ht, cellTranspose_one, flip_place hrow, bit_bitTranspose ht, hplace,
    flip_place hrow, hback, bitsOf_place hkk]

theorem groupTranspose_congr {m m' : Bytes} {size elemSize : ℕ} (hsize : size % 8 = 0)
    (h : ∀ a < size * elemSize, m a = m' a) {a : ℕ} (ha : a < size * elemSize) :
    groupTranspose (8 * elemSize) 8 m a = groupTranspose (8 * elemSize) 8 m' a := by
  have hn : size / 8 * (8 * elemSize) = size * elemSize := by
    rw [← Nat.mul_assoc, Nat.div_mul_cancel (Nat.dvd_of_mod_eq_zero hsize)]
  rw [← hn] at ha
  obtain ⟨g, hg, r, hr, rfl⟩ := exists_place ha
  obtain ⟨kk, hkk, j, hj, rfl⟩ := exists_place hr
  refine eq_of_bits fun t ht => ?_
  rw [bit_groups hj hkk ht, bit_groups hj hkk ht, h]
  rw [← hn]
  exact place_lt hg (by omega)

/-- **Unshuffling transposes the matrix of bits back**, whichever way the two steps are done. -/
theorem untransposed_of_steps {transByteBitrow shuffleEight : Bytes → Bytes → ℕ → ℕ → Outcome}
    {size elemSize : ℕ} (hsize : size % 8 = 0)
    (hbytes : ∀ inp out, transByteBitrow inp out size elemSize = .ok (size * elemSize,
      fill (size * elemSize) (cellTranspose (8 * elemSize) (size / 8) 1 inp) out))
    (hbits : ∀ inp out, shuffleEight inp out size elemSize = .ok (size * elemSize,
      fill (size * elemSize) (groupTranspose (8 * elemSize) 8 inp) out))
    (junk inp out : Bytes) :
    (do
      checkMultEight size
      let (_, tmpBuf) ← transByteBitrow inp junk size elemSize
      shuffleEight tmpBuf out size elemSize : Outcome)
      = .ok (size * elemSize,
          fill (size * elemSize) (bitTranspose (8 * elemSize) size inp) out) := by
  rw [checkMultEight_of_dvd hsize, hbytes]
  simp only [bind, Except.bind, hbits]
  congr 2
  refine fill_congr fun a ha => ?_
  rw [← two_steps inp hsize ha]
  exact groupTranspose_congr hsize (fun b hb => fill_of_lt hb) ha

/-- **Unshuffling byte by byte** transposes the matrix of bits back. -/
theorem untransBitElemScal_eq (junk inp out : Bytes) {size elemSize : ℕ} (hsize : size % 8 = 0) :
    untransBitElemScal junk inp out size elemSize = .ok (size * elemSize,
      fill (size * elemSize) (bitTranspose (8 * elemSize) size inp) out) :=
  untransposed_of_steps hsize (fun inp out => transByteBitrowScal_eq inp out hsize)
    (fun inp out => shuffleBitEightelemScal_eq inp out hsize) junk inp out

end StdDaq.Bitshuffle
