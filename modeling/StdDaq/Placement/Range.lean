import Mathlib.Algebra.Order.Ring.Abs
import StdDaq.Eiger.Converter
import StdDaq.ImageBytes
import StdDaq.Jungfrau.Converter
import StdDaq.Lib.Stride

/-!
# Which conversions stay inside of the image

The constructors of the Eiger and the Jungfrau converter test the corners of a module: none is
beyond the image size, and the distances between them are those of a module. The tests let pass
corners on the image size itself and corners with negative coordinates, and they look at distances
only. But a conversion always runs from the start corner to the right, and that of the Jungfrau
downwards. So a module whose corners are given the other way round is accepted and written beyond
the image.

The conversion with gains reads beyond its input too: an input that is too short is accepted, and
only the first of the three gains has to be long enough.

The rows of a module are at equal distances, so it is enough to look at the first and the last one:
`Stride.inside_iff`. Indices of an Eiger are formed modulo `2 ^ 32` and those of a Jungfrau modulo
`2 ^ 64`, but images are too small for a module that leaves them at one end to come back at the
other.

## Main results

* `converters_inRange_iff` — which of the accepted modules are converted inside of the image
* `Eiger.Converter.isSome_convert_iff_endRows`, `Jungfrau.Converter.isSome_copyRawData_iff_endRows`,
  `Jungfrau.Converter.convertData_defined_iff_endRows` — these are the conversions that are defined
-/

namespace StdDaq

open Stride

namespace Eiger

namespace Converter

variable {config : DetectorConfig} {moduleId : ℤ} {moduleStart moduleEnd : Point} {p : ℤ} {B : ℕ}

/-- The bytes from the first one of a row to the last one of its second chip: 514 pixels, if there
is no overflow of the `unsigned int` that holds the bits of 512. -/
def rowBytes (bitDepth : ℤ) : ℤ :=
  let chipBytes := 512 * bitDepth % 2 ^ 32 / 16
  (chipBytes + bitDepth / 4) % 2 ^ 64 + chipBytes

/-- A converter is constructed without overflow of an `int`, and its conversions write inside of
an image of `B` bytes. -/
structure InRange (config : DetectorConfig) (moduleStart : Point) (B : ℕ) (c : Converter) :
    Prop where
  gap : IsInt (2 * config.bitDepth)
  column : IsInt (moduleStart.x * config.bitDepth)
  writes : ∀ copy ∈ c.copies, copy.dst + copy.len ≤ B

/-- The first row of a module, to the right of its start corner, and the last one, 255 rows
further, lie inside of an image of `B` bytes. -/
structure EndRowsInside (config : DetectorConfig) (moduleStart moduleEnd : Point) (B : ℕ) :
    Prop where
  gap : IsInt (2 * config.bitDepth)
  column : IsInt (moduleStart.x * config.bitDepth)
  ends : EndsInside
    ((moduleStart.y * config.imagePixelWidth + moduleStart.x) * (config.bitDepth / 8) % 2 ^ 32)
    (config.imagePixelWidth * (config.bitDepth / 8) * if moduleEnd.y < moduleStart.y then -1 else 1)
    (rowBytes config.bitDepth) B 255

/-! ### The members of an Eiger converter -/

/-- A number that is an `int`, but for a multiple of `2 ^ 61`. -/
theorem toInt_eq_of_cast {n : ℕ} {x : ℤ} (h : (n : ℤ) = x % 2 ^ 61) (hx : IsInt x) :
    toInt n = x := by
  have hmod : toInt n % 2 ^ 32 = x % 2 ^ 32 := by
    rw [toInt_emod, h, Int.emod_emod_of_dvd _ (by decide)]
  obtain ⟨hlo, hhi⟩ := hx
  obtain ⟨hlo', hhi'⟩ := isInt_toInt n
  refine eq_of_emod_eq hmod ?_
  rw [abs_lt]
  constructor
  · omega
  · omega

/-- An eighth of a product modulo `2 ^ 64`. -/
theorem cast_calculateRowJump (W p : ℤ) :
    (calculateRowJump (toSizeT W) (toSizeT (8 * p)) : ℤ) = W * p % 2 ^ 61 := by
  have hprod : W * (8 * p) = 8 * (W * p) := by ring
  have hpow : (2 : ℤ) ^ 64 = 8 * 2 ^ 61 := by norm_num
  have hbound : ((sizeTBound : ℕ) : ℤ) = 2 ^ 64 := rfl
  rw [calculateRowJump, Int.natCast_ediv, Int.natCast_emod, Nat.cast_mul, cast_toSizeT,
    cast_toSizeT, hbound, ← Int.mul_emod, hprod, hpow, Int.mul_emod_mul_of_pos _ _ (by decide)]
  exact Int.mul_ediv_cancel_left _ (by decide)

/-- The start index is the byte of the start corner, modulo `2 ^ 32`. -/
theorem startIndex_emod (moduleStart moduleEnd : Point) (hp : config.bitDepth = 8 * p) :
    (ofCorners config moduleStart moduleEnd).startIndex % 2 ^ 32 =
      (moduleStart.y * config.imagePixelWidth + moduleStart.x) * p % 2 ^ 32 := by
  have hcolumn : (moduleStart.x * (8 * p)).tdiv 8 = moduleStart.x * p := by
    rw [Int.mul_left_comm, Int.mul_tdiv_cancel_left _ (by decide)]
  have hindex : (ofCorners config moduleStart moduleEnd).startIndex % 2 ^ 32 =
      ((moduleStart.y % 2 ^ 64) * (config.imagePixelWidth * p % 2 ^ 61) +
        moduleStart.x * p % 2 ^ 64) % 2 ^ 64 % 2 ^ 32 := by
    have hbound : ((sizeTBound : ℕ) : ℤ) = 2 ^ 64 := rfl
    rw [ofCorners, toInt_emod, Int.natCast_emod, Nat.cast_add, Nat.cast_mul, hbound, hp, hcolumn,
      cast_calculateRowJump, cast_toSizeT, cast_toSizeT]
  have hrow : (moduleStart.y % 2 ^ 64) * (config.imagePixelWidth * p % 2 ^ 61) ≡
      moduleStart.y * (config.imagePixelWidth * p) [ZMOD 2 ^ 32] :=
    ((Int.mod_modEq _ _).of_dvd (by decide)).mul ((Int.mod_modEq _ _).of_dvd (by decide))
  have hcol : moduleStart.x * p % 2 ^ 64 ≡ moduleStart.x * p [ZMOD 2 ^ 32] :=
    (Int.mod_modEq _ _).of_dvd (by decide)
  have hsum : moduleStart.y * (config.imagePixelWidth * p) + moduleStart.x * p =
      (moduleStart.y * config.imagePixelWidth + moduleStart.x) * p := by ring
  rw [hindex, Int.emod_emod_of_dvd _ (by decide), ← hsum]
  exact hrow.add hcol

/-- The row jump is one row of the image up or down, if that is an `int`. -/
theorem rowJump_eq (moduleStart moduleEnd : Point) (hp : config.bitDepth = 8 * p)
    (hrow : IsInt (config.imagePixelWidth * p)) :
    (ofCorners config moduleStart moduleEnd).rowJump =
      config.imagePixelWidth * p * if moduleEnd.y < moduleStart.y then -1 else 1 := by
  rw [ofCorners, hp, toInt_eq_of_cast (cast_calculateRowJump _ p) hrow]

theorem cast_outputStart (c : Converter) (row : ℕ) :
    (c.outputStart row : ℤ) = (c.startIndex + row * c.rowJump) % 2 ^ 32 :=
  Int.toNat_of_nonneg (Int.emod_nonneg _ (by decide))

/-- The bytes of a row by the members of the converter. -/
theorem cast_rowBytes {bitDepth : ℤ} (h8 : 8 ∣ bitDepth) :
    (((rowSizePerChip bitDepth + gapBytes bitDepth) % sizeTBound +
      rowSizePerChip bitDepth : ℕ) : ℤ) = rowBytes bitDepth := by
  obtain ⟨p, rfl⟩ := h8
  have hchip : (rowSizePerChip (8 * p) : ℤ) = 512 * (8 * p) % 2 ^ 32 / 16 := by
    rw [rowSizePerChip, moduleXSize, toUInt32]
    omega
  have hgap : (gapBytes (8 * p) : ℤ) = 2 * p % 2 ^ 64 := by
    rw [gapBytes, Int.mul_left_comm, Int.mul_tdiv_cancel_left _ (by decide), cast_toSizeT]
  have hquarter : 8 * p / 4 = 2 * p := by omega
  have hbound : ((sizeTBound : ℕ) : ℤ) = 2 ^ 64 := rfl
  rw [Nat.cast_add, Int.natCast_emod, Nat.cast_add, hchip, hgap, hbound, Int.add_emod_emod,
    rowBytes, hquarter]

/-- The copies lie inside if the bytes from the first one of each row to the last one of its second
chip do. -/
theorem copies_inside_iff {c : Converter} (h8 : 8 ∣ config.bitDepth)
    (hsize : c.inputRowSizePerChip = rowSizePerChip config.bitDepth)
    (hgap : c.gapSize = gapBytes config.bitDepth) :
    (∀ copy ∈ c.copies, copy.dst + copy.len ≤ B) ↔
      ∀ row : ℕ, row ≤ 255 →
        (c.startIndex + row * c.rowJump) % 2 ^ 32 + rowBytes config.bitDepth ≤ (B : ℤ) := by
  have hrow (row : ℕ) : (∀ copy ∈ c.rowCopies row, copy.dst + copy.len ≤ B) ↔
      (c.startIndex + row * c.rowJump) % 2 ^ 32 + rowBytes config.bitDepth ≤ (B : ℤ) := by
    rw [← cast_outputStart, rowCopies, ← cast_rowBytes h8, hsize, hgap]
    simp only [List.forall_mem_cons, List.not_mem_nil, false_implies, implies_true, and_true]
    omega
  constructor
  · intro h row hle
    exact (hrow row).mp fun copy hmem => h copy (mem_copies.mpr ⟨row, Nat.lt_succ_of_le hle, hmem⟩)
  · intro h copy hmem
    obtain ⟨row, hlt, hmem⟩ := mem_copies.mp hmem
    exact (hrow row).mpr (h row (Nat.le_of_lt_succ hlt)) copy hmem

/-! ### The image of an Eiger -/

/-- A size that comes from an `int` and is not huge comes from a size. -/
theorem cast_toSizeT_of_lt {x : ℤ} (hx : IsInt x) (hlt : toSizeT x < 2 ^ 63) :
    (toSizeT x : ℤ) = x := by
  obtain ⟨hlo, hhi⟩ := hx
  rw [toSizeT] at hlt ⊢
  omega

/-- The number of bytes of an image, by the type of the detector. -/
theorem image_bytes (hfit : config.ProductsFit) (hp : config.bitDepth = 8 * p)
    (hB : convertedImageNBytes config = .ok B) (hlt : B < 2 ^ 63) :
    (B : ℤ) = config.imagePixelWidth * config.imagePixelHeight * 2 ∨
      (B : ℤ) = config.imagePixelWidth * config.imagePixelHeight * p ∨
      (B : ℤ) = config.imagePixelWidth * config.imagePixelHeight * 4 := by
  obtain ⟨-, -, -, hpixels, hdoubled, hbits⟩ := hfit
  rw [Int.mul_comm config.imagePixelHeight] at hpixels hdoubled
  have hdiv : (config.imagePixelWidth * config.imagePixelHeight * config.bitDepth).tdiv 8 =
      config.imagePixelWidth * config.imagePixelHeight * p := by
    rw [hp, Int.mul_left_comm, Int.mul_tdiv_cancel_left _ (by decide)]
  have hint : IsInt (config.imagePixelWidth * config.imagePixelHeight * p) := by
    rw [hp, Int.mul_left_comm] at hbits
    obtain ⟨hlo, hhi⟩ := hbits
    constructor
    · omega
    · omega
  cases hty : config.detectorType with
  | gigafrost =>
    rw [convertedImageNBytes, hty] at hB
    obtain rfl := Except.ok.inj hB
    rw [Int.mul_comm config.imagePixelHeight] at hlt ⊢
    exact .inl (cast_toSizeT_of_lt (hdoubled hty) hlt)
  | eiger | pco | jungfrauRaw =>
    rw [convertedImageNBytes, hty] at hB
    obtain rfl := Except.ok.inj hB
    simp only [hdiv] at hlt ⊢
    exact .inr (.inl (cast_toSizeT_of_lt hint hlt))
  | jungfrauConverted =>
    rw [convertedImageNBytes, hty] at hB
    obtain rfl := Except.ok.inj hB
    obtain ⟨hlo, hhi⟩ := hpixels
    refine .inr (.inr ?_)
    rw [sizeTBound, toSizeT] at hlt ⊢
    omega
  | other name =>
    rw [convertedImageNBytes, hty] at hB
    cases hB

/-- An image with pixels is shorter than half of the `unsigned int` values, and so is a row. -/
theorem image_bounds (hfit : config.ProductsFit) (hp : config.bitDepth = 8 * p) (hp0 : p ≠ 0)
    (hpixels : config.imagePixelWidth * config.imagePixelHeight ≠ 0)
    (hB : convertedImageNBytes config = .ok B) (hlt : B < 2 ^ 63) :
    B < 2 ^ 31 ∧ |config.imagePixelWidth * p| < 2 ^ 31 := by
  have hbits : |config.imagePixelWidth * config.imagePixelHeight * p| ≤ 2 ^ 28 := by
    obtain ⟨hlo, hhi⟩ := hfit.bits
    rw [hp, Int.mul_left_comm] at hlo hhi
    rw [abs_le]
    constructor
    · omega
    · omega
  have hone : 1 ≤ |p| := Int.one_le_abs hp0
  have hcount : |config.imagePixelWidth * config.imagePixelHeight| ≤ 2 ^ 28 := by
    rw [abs_mul] at hbits
    exact (le_mul_of_one_le_right (abs_nonneg _) hone).trans hbits
  have hrow : |config.imagePixelWidth * p| ≤ 2 ^ 28 := by
    have hheight : 1 ≤ |config.imagePixelHeight| :=
      Int.one_le_abs (right_ne_zero_of_mul hpixels)
    rw [Int.mul_right_comm, abs_mul] at hbits
    exact (le_mul_of_one_le_right (abs_nonneg _) hheight).trans hbits
  have hle := le_abs_self (config.imagePixelWidth * config.imagePixelHeight)
  have hle' := le_abs_self (config.imagePixelWidth * config.imagePixelHeight * p)
  refine ⟨?_, by omega⟩
  rcases image_bytes hfit hp hB hlt with h | h | h <;> omega

/-- A row has bytes, if a pixel has. -/
theorem rowBytes_pos (hdepth : IsInt (8 * p)) (hp0 : p ≠ 0) : 0 < rowBytes (8 * p) := by
  obtain ⟨hlo, hhi⟩ := hdepth
  have hchip : 0 ≤ 512 * (8 * p) % 2 ^ 32 / 16 := by omega
  rw [rowBytes]
  rcases hchip.eq_or_lt with h0 | hpos
  · rw [← h0]
    omega
  · omega

theorem rowBytes_nonneg (bitDepth : ℤ) : 0 ≤ rowBytes bitDepth := by
  rw [rowBytes]
  omega

/-- **When an Eiger conversion stays inside of the image.** -/
theorem inRange_iff (hfit : config.ProductsFit) (h8 : 8 ∣ config.bitDepth)
    (hB : convertedImageNBytes config = .ok B) (hlt : B < 2 ^ 63) :
    (ofCorners config moduleStart moduleEnd).InRange config moduleStart B ↔
      EndRowsInside config moduleStart moduleEnd B := by
  obtain ⟨p, hp⟩ := h8
  have hdiv : config.bitDepth / 8 = p := by omega
  suffices hrows : (∀ copy ∈ (ofCorners config moduleStart moduleEnd).copies,
      copy.dst + copy.len ≤ B) ↔ EndsInside
        ((moduleStart.y * config.imagePixelWidth + moduleStart.x) * p % 2 ^ 32)
        (config.imagePixelWidth * p * if moduleEnd.y < moduleStart.y then -1 else 1)
        (rowBytes config.bitDepth) B 255 by
    rw [← hdiv] at hrows
    exact ⟨fun ⟨hgap, hcolumn, hwrites⟩ => ⟨hgap, hcolumn, hrows.mp hwrites⟩,
      fun ⟨hgap, hcolumn, hends⟩ => ⟨hgap, hcolumn, hrows.mpr hends⟩⟩
  rw [copies_inside_iff ⟨p, hp⟩ rfl rfl]
  by_cases hp0 : p = 0
  · -- pixels without bytes
    subst hp0
    have hstart := startIndex_emod moduleStart moduleEnd hp
    have hjump := rowJump_eq moduleStart moduleEnd hp
      (by rw [Int.mul_zero]; decide)
    have hbytes : rowBytes config.bitDepth = 0 := by
      rw [hp]
      decide
    rw [Int.mul_zero, Int.zero_emod] at hstart
    rw [Int.mul_zero, Int.zero_mul] at hjump
    simp only [hjump, hbytes, Int.mul_zero, Int.zero_mul, Int.add_zero, Int.zero_emod, hstart]
    exact ⟨fun h => ⟨le_rfl, by omega, by omega, by omega⟩, fun _ row _ => by omega⟩
  · by_cases hpixels : config.imagePixelWidth * config.imagePixelHeight = 0
    · -- an image without bytes
      have hB0 : (B : ℤ) = 0 := by
        rcases image_bytes hfit hp hB hlt with h | h | h <;> rw [h, hpixels, Int.zero_mul]
      have hpos := rowBytes_pos (hp ▸ hfit.depth) hp0
      rw [hp]
      constructor
      · intro h
        have hfirst := h 0 (Nat.zero_le _)
        have hnonneg : 0 ≤ ((ofCorners config moduleStart moduleEnd).startIndex +
            (0 : ℕ) * (ofCorners config moduleStart moduleEnd).rowJump) % 2 ^ 32 :=
          Int.emod_nonneg _ (by decide)
        omega
      · rintro ⟨hnonneg, hle, -, -⟩
        omega
    · obtain ⟨hBlt, hrow⟩ := image_bounds hfit hp hp0 hpixels hB hlt
      obtain ⟨hlo, hhi⟩ := abs_lt.mp hrow
      rw [← startIndex_emod moduleStart moduleEnd hp, rowJump_eq _ _ hp ⟨hlo.le, hhi⟩]
      refine inside_iff (by decide) ?_ (rowBytes_nonneg _)
      have habs : |config.imagePixelWidth * p * if moduleEnd.y < moduleStart.y then -1 else 1| =
          |config.imagePixelWidth * p| := by
        split
        · rw [Int.mul_neg_one, abs_neg]
        · rw [Int.mul_one]
      omega

/-- Of the accepted modules those are converted whose end rows are inside of the image. -/
theorem isSome_convert_iff_endRows {c : Converter} (hc : create config moduleId = .ok c)
    (hfit : config.ProductsFit) (h8 : 8 ∣ config.bitDepth)
    (hB : convertedImageNBytes config = .ok B) (hlt : B < 2 ^ 63) {input output : List UInt8}
    (hinput : ∀ copy ∈ c.copies, copy.src + copy.len ≤ input.length) (houtput : output.length = B) :
    ∃ moduleStart moduleEnd, config.moduleAt (toSizeT moduleId) = .ok (moduleStart, moduleEnd) ∧
      (IsInt (2 * config.bitDepth) → IsInt (moduleStart.x * config.bitDepth) →
        ((c.convert input output).isSome ↔ EndRowsInside config moduleStart moduleEnd B)) := by
  obtain ⟨moduleStart, moduleEnd, hat⟩ := exists_corners hc
  obtain ⟨-, -, rfl⟩ := (create_eq_ok hat).mp hc
  refine ⟨moduleStart, moduleEnd, hat, fun hgap hcolumn => ?_⟩
  rw [isSome_convert_iff, ← inRange_iff hfit h8 hB hlt, houtput]
  exact ⟨fun h => ⟨hgap, hcolumn, fun copy hcopy => (h copy hcopy).2⟩,
    fun h copy hcopy => ⟨hinput copy hcopy, h.writes copy hcopy⟩⟩

end Converter

end Eiger

namespace Jungfrau

namespace Converter

variable {F : Type} {config : DetectorConfig} {moduleId : ℤ} {moduleStart moduleEnd : Point}
  {c : Converter F} {B : ℕ}

/-- A converter is constructed without overflow of an `int`, and its conversions write inside of
an image of `B` bytes. -/
structure InRange (config : DetectorConfig) (moduleStart : Point) (B : ℕ) (c : Converter F) :
    Prop where
  row : IsInt (config.imagePixelWidth * moduleStart.y)
  index : IsInt (config.imagePixelWidth * moduleStart.y + moduleStart.x)
  writes : ∀ write ∈ c.writes, write.1 + write.2 ≤ B

/-- The conversion with gains reads inside of its input, and inside of the list of gains and
pedestals of each pixel. -/
structure ReadsInside (input : List UInt16) (c : Converter F) : Prop where
  pixels : ∀ pixel ∈ c.pixels, pixel.1 < input.length
  gains : ∀ pixel ∈ c.pixels, ∀ value, input[pixel.1]? = some value →
    pixel.1 < (c.gainsAndPedestals (gainGroup value)).length

/-- The first row of a module, to the right of its start corner, and the last one, 511 rows
further down, lie inside of an image of `B` bytes. -/
structure EndRowsInside (config : DetectorConfig) (moduleStart : Point) (pixelBytes B : ℕ) :
    Prop where
  row : IsInt (config.imagePixelWidth * moduleStart.y)
  index : IsInt (config.imagePixelWidth * moduleStart.y + moduleStart.x)
  ends : EndsInside (config.imagePixelWidth * moduleStart.y + moduleStart.x)
    config.imagePixelWidth 1024 (B / pixelBytes : ℕ) 511

/-- The input has all pixels of a module, and the gains and pedestals reach as far as the pixels
that are not in the first group. -/
structure ReadsGiven (g p : Parameters F) (input : List UInt16) : Prop where
  pixels : 524288 ≤ input.length
  gains : ∀ i < 524288, ∀ value, input[i]? = some value → gainGroup value ≠ 0 →
    i < (g (gainGroup value)).length ∧ i < (p (gainGroup value)).length

/-- A start index that is an `int` does not come back at the other end. -/
theorem rows_inside_iff {s W size : ℤ} (hs : IsInt s) (hW : IsInt W) (hsize : size < 2 ^ 63) :
    (∀ row : ℕ, row ≤ 511 → (s + row * W) % 2 ^ 64 + 1024 ≤ size) ↔
      EndsInside s W 1024 size 511 := by
  obtain ⟨hlo, hhi⟩ := hs
  have habs : |W| ≤ 2 ^ 31 := abs_le.mpr ⟨hW.1, hW.2.le⟩
  rw [inside_iff (by decide) (by omega) (by decide)]
  rcases lt_or_ge s 0 with hneg | hpos
  · constructor
    · rintro ⟨-, hle, -, -⟩
      omega
    · rintro ⟨hnonneg, -, -, -⟩
      omega
  · rw [Int.emod_eq_of_lt hpos (by omega)]

theorem cast_outputStart {s : ℤ} (hindex : c.startIndex = toSizeT s)
    (hjump : c.rowJump = toSizeT config.imagePixelWidth) (row : ℕ) :
    (c.outputStart row : ℤ) = (s + row * config.imagePixelWidth) % 2 ^ 64 := by
  have hbound : ((sizeTBound : ℕ) : ℤ) = 2 ^ 64 := rfl
  have hrow : row * (config.imagePixelWidth % 2 ^ 64) ≡
      row * config.imagePixelWidth [ZMOD 2 ^ 64] :=
    (Int.mod_modEq _ _).mul_left _
  rw [outputStart, hindex, hjump, Int.natCast_emod, Nat.cast_add, Int.natCast_emod, Nat.cast_mul,
    cast_toSizeT, cast_toSizeT, hbound, Int.emod_add_emod, Int.add_emod_emod]
  exact hrow.add_left s

theorem outputStart_lt (c : Converter F) (row : ℕ) : c.outputStart row < 2 ^ 64 :=
  Nat.mod_lt _ (by decide)

/-- The writes of a conversion without gains. -/
theorem copies_inside_iff (hraw : c.withGains = false) :
    (∀ write ∈ c.writes, write.1 + write.2 ≤ B) ↔
      ∀ row : ℕ, row ≤ 511 → c.outputStart row + 1024 ≤ B / 2 := by
  simp only [writes, hraw, copies, List.map_map, List.forall_mem_map, List.mem_range,
    moduleXSize, moduleYSize, Function.comp_apply, Bool.false_eq_true, if_false]
  refine forall_congr' fun row => ?_
  omega

/-- The writes of a conversion with gains. -/
theorem pixels_inside_iff (hgains : c.withGains = true) (hlt : B < 2 ^ 63) :
    (∀ write ∈ c.writes, write.1 + write.2 ≤ B) ↔
      ∀ row : ℕ, row ≤ 511 → c.outputStart row + 1024 ≤ B / 4 := by
  simp only [writes, hgains, pixels, List.map_flatMap, List.map_map, List.mem_flatMap, List.mem_map,
    List.mem_range, moduleXSize, moduleYSize, Function.comp_apply, if_true, forall_exists_index,
    and_imp, sizeTBound]
  constructor
  · intro h row hle
    have hfirst := h _ row (by omega) 0 (by omega) rfl
    have hlast := h _ row (by omega) 1023 (by omega) rfl
    have hbound := c.outputStart_lt row
    omega
  · rintro h _ row hlt' j hj rfl
    have hrow := h row (by omega)
    omega

/-- The pixels that are read are those of the input, from the first to the last one of a module. -/
theorem forall_mem_pixels {q : ℕ → Prop} :
    (∀ pixel ∈ c.pixels, q pixel.1) ↔ ∀ i < 524288, q i := by
  simp only [pixels, List.mem_flatMap, List.mem_map, List.mem_range, moduleXSize, moduleYSize,
    forall_exists_index, and_imp]
  constructor
  · intro h i hi
    have := h _ (i / 1024) (by omega) (i % 1024) (by omega) rfl
    rwa [Nat.div_add_mod'] at this
  · rintro h _ i hi j hj rfl
    exact h _ (by omega)

/-- When a Jungfrau conversion stays inside of the image, with or without gains. -/
theorem inRange_iff {pixelBytes : ℕ} (hwidth : IsInt config.imagePixelWidth) (hlt : B < 2 ^ 63)
    (hindex : c.startIndex = toSizeT (config.imagePixelWidth * moduleStart.y + moduleStart.x))
    (hjump : c.rowJump = toSizeT config.imagePixelWidth)
    (hwrites : (∀ write ∈ c.writes, write.1 + write.2 ≤ B) ↔
      ∀ row : ℕ, row ≤ 511 → c.outputStart row + 1024 ≤ B / pixelBytes) :
    c.InRange config moduleStart B ↔ EndRowsInside config moduleStart pixelBytes B := by
  have hle : B / pixelBytes ≤ B := Nat.div_le_self _ _
  have hrows (hint : IsInt (config.imagePixelWidth * moduleStart.y + moduleStart.x)) :
      (∀ write ∈ c.writes, write.1 + write.2 ≤ B) ↔
        EndsInside (config.imagePixelWidth * moduleStart.y + moduleStart.x)
          config.imagePixelWidth 1024 (B / pixelBytes : ℕ) 511 := by
    rw [hwrites, ← rows_inside_iff hint hwidth (by omega)]
    refine forall_congr' fun row => ?_
    rw [← cast_outputStart hindex hjump row]
    norm_cast
  exact ⟨fun ⟨hrow, hint, hinside⟩ => ⟨hrow, hint, (hrows hint).mp hinside⟩,
    fun ⟨hrow, hint, hends⟩ => ⟨hrow, hint, (hrows hint).mpr hends⟩⟩

/-- What is read is there if the input and the gains and pedestals are long enough. That the first
group is has been tested. -/
theorem readsInside_iff {g p : Parameters F} {input : List UInt16}
    (hgains : c.gainsAndPedestals = fun i => (g i).zip (p i))
    (htest : c.testDataSizeConsistency input = .ok ()) :
    c.ReadsInside input ↔ ReadsGiven g p input := by
  have hlength (i : Fin 3) (k : ℕ) : k < (c.gainsAndPedestals i).length ↔
      k < (g i).length ∧ k < (p i).length := by
    rw [hgains, List.length_zip, Nat.lt_min]
  rw [testDataSizeConsistency, throwIf_eq_ok, not_lt] at htest
  have hinput : (∀ pixel ∈ c.pixels, pixel.1 < input.length) ↔ 524288 ≤ input.length := by
    rw [forall_mem_pixels (q := fun i => i < input.length)]
    exact ⟨fun h => Nat.le_of_not_lt fun hlt => absurd (h _ hlt) (lt_irrefl _),
      fun h i hi => hi.trans_le h⟩
  have hgroups : (∀ pixel ∈ c.pixels, ∀ value, input[pixel.1]? = some value →
        pixel.1 < (c.gainsAndPedestals (gainGroup value)).length) ↔
      ∀ i < 524288, ∀ value, input[i]? = some value →
        i < (c.gainsAndPedestals (gainGroup value)).length :=
    forall_mem_pixels (q := fun i => ∀ value, input[i]? = some value →
      i < (c.gainsAndPedestals (gainGroup value)).length)
  constructor
  · rintro ⟨hpixels, hreads⟩
    refine ⟨hinput.mp hpixels, fun i hi value hvalue _ => ?_⟩
    rw [← hlength]
    exact hgroups.mp hreads i hi value hvalue
  · rintro ⟨hpixels, hreads⟩
    refine ⟨hinput.mpr hpixels, hgroups.mpr fun i hi value hvalue => ?_⟩
    by_cases hgroup : gainGroup value = 0
    · rw [hgroup]
      omega
    · rw [hlength]
      exact hreads i hi value hvalue hgroup

/-- Of the accepted modules those are converted whose end rows are inside of the image. -/
theorem isSome_copyRawData_iff_endRows (hc : create config moduleId = .ok c)
    (hwidth : IsInt config.imagePixelWidth) (hlt : B < 2 ^ 63) {input output : List UInt16}
    (hinput : ∀ copy ∈ c.copies, copy.src + copy.len ≤ input.length)
    (houtput : output.length = B / 2) :
    ∃ moduleStart moduleEnd, config.moduleAt (toSizeT moduleId) = .ok (moduleStart, moduleEnd) ∧
      (IsInt (config.imagePixelWidth * moduleStart.y) →
        IsInt (config.imagePixelWidth * moduleStart.y + moduleStart.x) →
        ((c.copyRawData input output).isSome ↔ EndRowsInside config moduleStart 2 B)) := by
  obtain ⟨moduleStart, moduleEnd, hat⟩ := exists_corners hc
  obtain ⟨-, -, rfl⟩ := (create_eq_ok hat).mp hc
  refine ⟨moduleStart, moduleEnd, hat, fun hrow hindex => ?_⟩
  have hinside := inRange_iff (c := (ofStart config moduleStart : Converter F)) hwidth hlt rfl rfl
    (copies_inside_iff rfl)
  rw [isSome_copyRawData_iff, ← hinside, houtput]
  constructor
  · intro h
    refine ⟨hrow, hindex, List.forall_mem_map.mpr fun copy hcopy => ?_⟩
    have hdst := (h copy hcopy).2
    omega
  · intro h copy hcopy
    have hdst := h.writes _ (List.mem_map_of_mem hcopy)
    exact ⟨hinput copy hcopy, by omega⟩

/-- With gains, the arrays that are read have to be long enough as well. -/
theorem convertData_defined_iff_endRows [NatCast F] [Sub F] [Mul F] {g p : Parameters F}
    (hc : createWithGains g p config moduleId = .ok c)
    (hwidth : IsInt config.imagePixelWidth) (hlt : B < 2 ^ 63) {input : List UInt16}
    (htest : c.testDataSizeConsistency input = .ok ()) {output : List F}
    (houtput : output.length = B / 4) :
    ∃ moduleStart moduleEnd, config.moduleAt (toSizeT moduleId) = .ok (moduleStart, moduleEnd) ∧
      (IsInt (config.imagePixelWidth * moduleStart.y) →
        IsInt (config.imagePixelWidth * moduleStart.y + moduleStart.x) →
        ((∃ out, c.convertData input output = .ok (some out)) ↔
          EndRowsInside config moduleStart 4 B ∧ ReadsGiven g p input)) := by
  obtain ⟨raw, hraw, -, rfl⟩ := createWithGains_eq_ok.mp hc
  obtain ⟨moduleStart, moduleEnd, hat⟩ := exists_corners hraw
  obtain ⟨-, -, rfl⟩ := (create_eq_ok hat).mp hraw
  refine ⟨moduleStart, moduleEnd, hat, fun hrow hindex => ?_⟩
  rw [convertData_defined_iff htest, ← readsInside_iff rfl htest, houtput]
  set c : Converter F := { (ofStart config moduleStart : Converter F) with
    withGains := true, gainsAndPedestals := fun i => (g i).zip (p i) }
  have hinside := inRange_iff (c := c) hwidth hlt rfl rfl (pixels_inside_iff rfl hlt)
  rw [← hinside]
  constructor
  · intro h
    refine ⟨⟨hrow, hindex, List.forall_mem_map.mpr fun pixel hpixel => ?_⟩,
      fun pixel hpixel => (h pixel hpixel).1, fun pixel hpixel => (h pixel hpixel).2.1⟩
    have hdst := (h pixel hpixel).2.2
    omega
  · rintro ⟨hwrites, hreads⟩ pixel hpixel
    have hdst := hwrites.writes _ (List.mem_map_of_mem hpixel)
    exact ⟨hreads.pixels pixel hpixel, hreads.gains pixel hpixel, by omega⟩

end Converter

end Jungfrau

/-- **Which of the accepted modules are converted inside of the image.** For every configuration and
every module for which the constructor of a converter returns, and every image buffer that can
exist: the first and the last row, laid out from the start corner as the conversion does it, have to
lie inside. A conversion with gains reads inside of its arrays if the input has the pixels of a
module and the gains and pedestals of the second and third group reach as far as the pixels in
them. -/
theorem converters_inRange_iff {config : DetectorConfig} {moduleId : ℤ}
    {moduleStart moduleEnd : Point}
    (hat : config.moduleAt (toSizeT moduleId) = .ok (moduleStart, moduleEnd)) {B : ℕ}
    (hB : convertedImageNBytes config = .ok B) (hlt : B < 2 ^ 63)
    (hwidth : IsInt config.imagePixelWidth) {F : Type} :
    (∀ c : Eiger.Converter, Eiger.Converter.create config moduleId = .ok c →
      config.ProductsFit → 8 ∣ config.bitDepth →
        (c.InRange config moduleStart B ↔
          Eiger.Converter.EndRowsInside config moduleStart moduleEnd B)) ∧
    (∀ c : Jungfrau.Converter F, Jungfrau.Converter.create config moduleId = .ok c →
      (c.InRange config moduleStart B ↔
        Jungfrau.Converter.EndRowsInside config moduleStart 2 B)) ∧
    (∀ (g p : Jungfrau.Parameters F) (c : Jungfrau.Converter F) (input : List UInt16),
      Jungfrau.Converter.createWithGains g p config moduleId = .ok c →
      c.testDataSizeConsistency input = .ok () →
        (c.InRange config moduleStart B ∧ c.ReadsInside input ↔
          Jungfrau.Converter.EndRowsInside config moduleStart 4 B ∧
            Jungfrau.Converter.ReadsGiven g p input)) := by
  refine ⟨fun c hc hfit h8 => ?_, fun c hc => ?_, fun g p c input hc htest => ?_⟩
  · obtain ⟨-, -, rfl⟩ := (Eiger.Converter.create_eq_ok hat).mp hc
    exact Eiger.Converter.inRange_iff hfit h8 hB hlt
  · obtain ⟨-, -, rfl⟩ := (Jungfrau.Converter.create_eq_ok hat).mp hc
    exact Jungfrau.Converter.inRange_iff hwidth hlt rfl rfl
      (Jungfrau.Converter.copies_inside_iff rfl)
  · obtain ⟨raw, hraw, -, rfl⟩ := Jungfrau.Converter.createWithGains_eq_ok.mp hc
    obtain ⟨-, -, rfl⟩ := (Jungfrau.Converter.create_eq_ok hat).mp hraw
    rw [Jungfrau.Converter.inRange_iff hwidth hlt rfl rfl
      (Jungfrau.Converter.pixels_inside_iff rfl hlt),
      Jungfrau.Converter.readsInside_iff rfl htest]

/-- An Eiger image with one module, which fills it. -/
def oneEigerModule (moduleStart moduleEnd : Point) : DetectorConfig where
  detectorType := .eiger
  nModules := 1
  bitDepth := 8
  imagePixelHeight := 256
  imagePixelWidth := 514
  modules := [(0, moduleStart, moduleEnd)]

/-- A Jungfrau image with one module, which fills it. -/
def oneJungfrauModule (detectorType : DetectorType) (moduleStart moduleEnd : Point) :
    DetectorConfig where
  detectorType := detectorType
  nModules := 1
  bitDepth := 16
  imagePixelHeight := 512
  imagePixelWidth := 1024
  modules := [(0, moduleStart, moduleEnd)]

/-- The module that goes from the upper left to the lower right corner. -/
theorem converters_inRange_iff_upright :
    ∃ c, Eiger.Converter.create (oneEigerModule ⟨0, 0⟩ ⟨513, 255⟩) 0 = .ok c ∧
      c.InRange (oneEigerModule ⟨0, 0⟩ ⟨513, 255⟩) ⟨0, 0⟩ 131584 := by
  have hat : (oneEigerModule ⟨0, 0⟩ ⟨513, 255⟩).moduleAt (toSizeT 0) = .ok (⟨0, 0⟩, ⟨513, 255⟩) :=
    rfl
  have hcreate := (Eiger.Converter.create_eq_ok hat).mpr ⟨by decide, by decide, rfl⟩
  refine ⟨_, hcreate, ((converters_inRange_iff (F := ℕ) hat rfl (by decide) (by decide)).1 _ hcreate
    ⟨by decide, by decide, by decide, by decide, by decide, by decide⟩ (by decide)).mpr ?_⟩
  exact ⟨by decide, by decide, by decide⟩

/-- A module whose corners are given from right to left is accepted and written beyond the image,
for both detectors. The conversion with gains accepts no gains, no pedestals and no input, and reads
the first pixel of each of them. -/
theorem converters_not_inRange :
    (¬ ∀ (config : DetectorConfig) (moduleId : ℤ) (B : ℕ) (c : Eiger.Converter),
      config.ProductsFit → convertedImageNBytes config = .ok B → 8 ∣ config.bitDepth →
      Eiger.Converter.create config moduleId = .ok c →
        ∀ copy ∈ c.copies, copy.dst + copy.len ≤ B) ∧
    (¬ ∀ (config : DetectorConfig) (moduleId : ℤ) (B : ℕ) (c : Jungfrau.Converter ℕ),
      config.ProductsFit → convertedImageNBytes config = .ok B →
      Jungfrau.Converter.create config moduleId = .ok c →
        ∀ write ∈ c.writes, write.1 + write.2 ≤ B) ∧
    (¬ ∀ (config : DetectorConfig) (moduleId : ℤ) (g p : Jungfrau.Parameters ℕ)
      (c : Jungfrau.Converter ℕ) (input : List UInt16), config.ProductsFit →
      Jungfrau.Converter.createWithGains g p config moduleId = .ok c →
      c.testDataSizeConsistency input = .ok () → c.ReadsInside input) := by
  refine ⟨fun h => ?_, fun h => ?_, fun h => ?_⟩
  · have hat : (oneEigerModule ⟨513, 0⟩ ⟨0, 255⟩).moduleAt (toSizeT 0) =
        .ok (⟨513, 0⟩, ⟨0, 255⟩) := rfl
    have hwrite := h (oneEigerModule ⟨513, 0⟩ ⟨0, 255⟩) 0 131584 _
      ⟨by decide, by decide, by decide, by decide, by decide, by decide⟩ rfl (by decide)
      ((Eiger.Converter.create_eq_ok hat).mpr ⟨by decide, by decide, rfl⟩) _
      (Eiger.Converter.mem_copies.mpr ⟨255, by decide, List.mem_cons_self⟩)
    exact absurd hwrite (by decide)
  · have hat : (oneJungfrauModule .jungfrauRaw ⟨1023, 0⟩ ⟨0, 511⟩).moduleAt (toSizeT 0) =
        .ok (⟨1023, 0⟩, ⟨0, 511⟩) := rfl
    have hwrites := h (oneJungfrauModule .jungfrauRaw ⟨1023, 0⟩ ⟨0, 511⟩) 0 1048576 _
      ⟨by decide, by decide, by decide, by decide, by decide, by decide⟩ rfl
      ((Jungfrau.Converter.create_eq_ok hat).mpr ⟨by decide, by decide, rfl⟩)
    have hlast := (Jungfrau.Converter.copies_inside_iff rfl).mp hwrites 511 le_rfl
    exact absurd hlast (by decide)
  · have hat : (oneJungfrauModule .jungfrauConverted ⟨0, 0⟩ ⟨1023, 511⟩).moduleAt (toSizeT 0) =
        .ok (⟨0, 0⟩, ⟨1023, 511⟩) := rfl
    have hreads := h (oneJungfrauModule .jungfrauConverted ⟨0, 0⟩ ⟨1023, 511⟩) 0 (fun _ => [])
      (fun _ => []) _ [] ⟨by decide, by decide, by decide, by decide, by decide, by decide⟩
      (Jungfrau.Converter.createWithGains_eq_ok.mpr
        ⟨_, (Jungfrau.Converter.create_eq_ok hat).mpr ⟨by decide, by decide, rfl⟩, rfl, rfl⟩) rfl
    have hfirst := (Jungfrau.Converter.forall_mem_pixels
      (q := fun i => i < ([] : List UInt16).length)).mp hreads.pixels 0 (by decide)
    exact absurd hfirst (by decide)

end StdDaq
