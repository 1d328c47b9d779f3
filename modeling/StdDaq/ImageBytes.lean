import StdDaq.Buffer.Writer

/-!
# How many bytes an image has

Four services work out the number of bytes of an image on their own. Most take it from
`converted_image_n_bytes`, which goes by the type of the detector. `std_buffer_writer` multiplies
with `bit_depth`, `HDF5File::write_image` stores pixels of the HDF5 type that belongs to
`bit_depth`, and `calculate_size` goes by the `dtype` of the metadata, which belongs to `bit_depth`
unless the detector is a converted Jungfrau.

A GigaFRoST image has two bytes for each pixel whatever the depth is, and a converted Jungfrau image
four. So the services agree on these only if the configuration gives the depth that fits. Nothing
checks that it does: the test configurations of the converted Jungfrau have a depth of 16.

## Main results

* `sameImageBytes_iff` — when all services agree
-/

namespace StdDaq

/-- No `int` of the size computations overflows. -/
structure DetectorConfig.ProductsFit (config : DetectorConfig) : Prop where
  height : IsInt config.imagePixelHeight
  width : IsInt config.imagePixelWidth
  depth : IsInt config.bitDepth
  pixels : IsInt (config.imagePixelHeight * config.imagePixelWidth)
  doubled : config.detectorType = .gigafrost →
    IsInt (config.imagePixelHeight * config.imagePixelWidth * 2)
  bits : IsInt (config.imagePixelWidth * config.imagePixelHeight * config.bitDepth)

/-- `max_data_bytes` of `std_buffer_writer`. The product is an `int` and the divisor an `unsigned
int`. -/
def maxDataBytes (config : DetectorConfig) : ℕ :=
  toUInt32 (config.imagePixelWidth * config.imagePixelHeight * config.bitDepth) / 8

/-- The size of what `HDF5File::get_datatype` returns. -/
def getDatatype (bitDepth : ℕ) : Except String ℕ :=
  if bitDepth = 8 then .ok 1
  else if bitDepth = 16 then .ok 2
  else if bitDepth = 32 then .ok 4
  else .error s!"Unsupported bits per pixel: {bitDepth}"

/-- The number of bytes that `HDF5File::write_image` stores. -/
def writeImageBytes (config : DetectorConfig) : Except String ℕ :=
  (getDatatype (toSizeT config.bitDepth)).map fun bytes =>
    toSizeT config.imagePixelHeight * toSizeT config.imagePixelWidth * bytes

/-- All services take an image to have `C` bytes. -/
structure SameImageBytes (config : DetectorConfig) (C : ℕ) (dtype : ImageMetadataDtype) :
    Prop where
  dtype : ∃ bytes, Buffer.getBytesFromMetadataDtype dtype = .ok bytes ∧
    (C : ℤ) = config.imagePixelHeight * config.imagePixelWidth * bytes
  bufferWriter : maxDataBytes config = C
  hdf5 : writeImageBytes config = .ok C

variable {config : DetectorConfig} {C : ℕ} {dtype : ImageMetadataDtype}

theorem toSizeT_eq_iff {x : ℤ} (hx : IsInt x) {n : ℕ} (hn : n < 2 ^ 31) :
    toSizeT x = n ↔ x = n := by
  obtain ⟨hlo, hhi⟩ := hx
  rw [toSizeT]
  omega

/-- The bytes of a pixel in HDF5 go by the depth. -/
theorem getDatatype_eq_ok {bitDepth : ℤ} (h : IsInt bitDepth) {bytes : ℕ} :
    getDatatype (toSizeT bitDepth) = .ok bytes ↔
      bitDepth = 8 * bytes ∧ (bytes = 1 ∨ bytes = 2 ∨ bytes = 4) := by
  constructor
  · intro hok
    rw [getDatatype] at hok
    split at hok
    · next hd =>
      cases hok
      exact ⟨(toSizeT_eq_iff h (by decide)).mp hd, .inl rfl⟩
    · split at hok
      · next hd =>
        cases hok
        exact ⟨(toSizeT_eq_iff h (by decide)).mp hd, .inr (.inl rfl)⟩
      · split at hok
        · next hd =>
          cases hok
          exact ⟨(toSizeT_eq_iff h (by decide)).mp hd, .inr (.inr rfl)⟩
        · cases hok
  · rintro ⟨rfl, rfl | rfl | rfl⟩ <;> rfl

/-- In the metadata they do so too, but for the converted Jungfrau. -/
theorem bytes_of_getMetadataDtype (h : getMetadataDtype config = .ok dtype) :
    ∃ bytes, Buffer.getBytesFromMetadataDtype dtype = .ok bytes ∧
      (bytes = 1 ∨ bytes = 2 ∨ bytes = 4) ∧
      (config.detectorType = .jungfrauConverted → bytes = 4) ∧
      (config.detectorType ≠ .jungfrauConverted → config.bitDepth = 8 * bytes) := by
  rw [getMetadataDtype] at h
  split at h
  · next hty =>
    cases h
    exact ⟨4, rfl, by decide, fun _ => rfl, fun hne => absurd hty hne⟩
  · next hty =>
    split at h
    · next hd =>
      cases h
      exact ⟨1, rfl, by decide, fun heq => absurd heq hty, fun _ => hd⟩
    · split at h
      · next hd =>
        cases h
        exact ⟨2, rfl, by decide, fun heq => absurd heq hty, fun _ => hd⟩
      · split at h
        · next hd =>
          cases h
          exact ⟨4, rfl, by decide, fun heq => absurd heq hty, fun _ => hd⟩
        · cases h

/-- The bytes of a pixel in `converted_image_n_bytes` go by the type of the detector, and only for
some types by the depth. -/
theorem convertedImageNBytes_eq (hfit : config.ProductsFit)
    (hpos : 0 ≤ config.imagePixelHeight * config.imagePixelWidth)
    (hC : convertedImageNBytes config = .ok C) (bytes : ℕ)
    (hgf : config.detectorType = .gigafrost → bytes = 2)
    (hconverted : config.detectorType = .jungfrauConverted → bytes = 4)
    (hdepth : config.detectorType ≠ .gigafrost → config.detectorType ≠ .jungfrauConverted →
      config.bitDepth = 8 * bytes) :
    (C : ℤ) = config.imagePixelHeight * config.imagePixelWidth * bytes := by
  obtain ⟨-, -, -, ⟨-, hpixels⟩, hdoubled, ⟨-, hbits⟩⟩ := hfit
  rw [Int.mul_comm config.imagePixelWidth] at hbits
  -- the types that go by the depth
  have hdiv (hne : config.detectorType ≠ .gigafrost)
      (hne' : config.detectorType ≠ .jungfrauConverted) :
      (toSizeT ((config.imagePixelWidth * config.imagePixelHeight *
        config.bitDepth).tdiv 8) : ℤ) =
        config.imagePixelHeight * config.imagePixelWidth * bytes := by
    rw [hdepth hne hne'] at hbits ⊢
    have heq : config.imagePixelWidth * config.imagePixelHeight * (8 * bytes) =
        8 * (config.imagePixelHeight * config.imagePixelWidth * bytes) := by ring
    have hbytes : 0 ≤ config.imagePixelHeight * config.imagePixelWidth * bytes := by positivity
    rw [heq, Int.mul_tdiv_cancel_left _ (by decide)]
    refine toSizeT_of_nonneg hbytes ?_
    have : config.imagePixelHeight * config.imagePixelWidth * (8 * bytes) =
        8 * (config.imagePixelHeight * config.imagePixelWidth * bytes) := by ring
    omega
  cases hty : config.detectorType with
  | gigafrost =>
    rw [convertedImageNBytes, hty] at hC
    obtain rfl := Except.ok.inj hC
    obtain ⟨-, hlt⟩ := hdoubled hty
    rw [hgf hty]
    exact toSizeT_of_nonneg (by omega) (by omega)
  | eiger | pco | jungfrauRaw =>
    rw [convertedImageNBytes, hty] at hC
    obtain rfl := Except.ok.inj hC
    exact hdiv (by rw [hty]; decide) (by rw [hty]; decide)
  | jungfrauConverted =>
    rw [convertedImageNBytes, hty] at hC
    obtain rfl := Except.ok.inj hC
    rw [Int.mul_comm config.imagePixelWidth, hconverted hty, sizeTBound]
    have := toSizeT_of_nonneg hpos (by omega)
    omega
  | other name =>
    rw [convertedImageNBytes, hty] at hC
    cases hC

/-- The buffer writer goes by the depth. -/
theorem maxDataBytes_eq (hfit : config.ProductsFit)
    (hpos : 0 ≤ config.imagePixelHeight * config.imagePixelWidth) {bytes : ℕ}
    (hdepth : config.bitDepth = 8 * bytes) :
    (maxDataBytes config : ℤ) = config.imagePixelHeight * config.imagePixelWidth * bytes := by
  obtain ⟨-, hbits⟩ := hfit.bits
  rw [maxDataBytes, toUInt32]
  have heq : config.imagePixelWidth * config.imagePixelHeight * config.bitDepth =
      8 * (config.imagePixelHeight * config.imagePixelWidth * bytes) := by
    rw [hdepth]
    ring
  have hbytes : 0 ≤ config.imagePixelHeight * config.imagePixelWidth * bytes := by positivity
  rw [heq] at hbits ⊢
  omega

/-- And so does HDF5, which takes the height and the width as sizes. -/
theorem writeImageBytes_eq_ok (hfit : config.ProductsFit) {n : ℕ} :
    writeImageBytes config = .ok n ↔
      ∃ bytes : ℕ, config.bitDepth = 8 * bytes ∧ (bytes = 1 ∨ bytes = 2 ∨ bytes = 4) ∧
        toSizeT config.imagePixelHeight * toSizeT config.imagePixelWidth * bytes = n := by
  rw [writeImageBytes]
  constructor
  · intro h
    cases hbytes : getDatatype (toSizeT config.bitDepth) with
    | error e =>
      rw [hbytes] at h
      cases h
    | ok bytes =>
      rw [hbytes] at h
      obtain ⟨hdepth, hone⟩ := (getDatatype_eq_ok hfit.depth).mp hbytes
      exact ⟨bytes, hdepth, hone, Except.ok.inj h⟩
  · rintro ⟨bytes, hdepth, hone, rfl⟩
    rw [(getDatatype_eq_ok hfit.depth).mpr ⟨hdepth, hone⟩]
    rfl

/-- A negative height is a huge size. -/
theorem le_toSizeT_of_neg {x : ℤ} (hx : IsInt x) (hneg : x < 0) : 2 ^ 63 ≤ toSizeT x := by
  obtain ⟨hlo, -⟩ := hx
  rw [toSizeT]
  omega

/-- The number of pixels as HDF5 sees it is the number of pixels of an image with sizes. -/
theorem pixels_eq (hfit : config.ProductsFit) {n : ℕ} (hn : n < 2 ^ 63)
    (hne : config.imagePixelHeight * config.imagePixelWidth ≠ 0)
    (hpos : 0 ≤ config.imagePixelHeight * config.imagePixelWidth)
    (h : toSizeT config.imagePixelHeight * toSizeT config.imagePixelWidth ≤ n) :
    0 < config.imagePixelHeight ∧ 0 < config.imagePixelWidth := by
  have hh : config.imagePixelHeight ≠ 0 := left_ne_zero_of_mul hne
  have hw : config.imagePixelWidth ≠ 0 := right_ne_zero_of_mul hne
  rcases Int.lt_or_gt_of_ne hh with hneg | hheight
  · -- a negative height: as a size it is larger than any image
    have hlarge := le_toSizeT_of_neg hfit.height hneg
    have hone : 1 ≤ toSizeT config.imagePixelWidth := by
      rw [Nat.one_le_iff_ne_zero]
      intro h0
      exact hw ((toSizeT_eq_iff hfit.width (by decide)).mp h0)
    have := Nat.mul_le_mul hlarge hone
    omega
  · exact ⟨hheight, pos_of_mul_pos_right (lt_of_le_of_ne hpos hne.symm) hheight.le⟩

/-- An image without pixels has no bytes, if only HDF5 knows its depth. -/
theorem sameImageBytes_empty_iff (hfit : config.ProductsFit)
    (hC : convertedImageNBytes config = .ok C) (hdtype : getMetadataDtype config = .ok dtype)
    (h0 : config.imagePixelHeight * config.imagePixelWidth = 0) :
    SameImageBytes config C dtype ↔ (config.detectorType = .jungfrauConverted →
      config.bitDepth = 8 ∨ config.bitDepth = 16 ∨ config.bitDepth = 32) := by
  obtain ⟨bytes, hbytes, hone, hconverted, hdepth⟩ := bytes_of_getMetadataDtype hdtype
  constructor
  · rintro ⟨-, -, hhdf5⟩ -
    obtain ⟨stored, hstored, rfl | rfl | rfl, -⟩ := (writeImageBytes_eq_ok hfit).mp hhdf5
    · exact .inl hstored
    · exact .inr (.inl hstored)
    · exact .inr (.inr hstored)
  · intro hknown
    have hCzero : C = 0 := by
      by_cases hgf : config.detectorType = .gigafrost
      · have := convertedImageNBytes_eq hfit h0.ge hC 2 (fun _ => rfl)
          (fun hty => absurd (hgf.symm.trans hty) (by decide)) (fun hne => absurd hgf hne)
        rw [h0] at this
        omega
      · have := convertedImageNBytes_eq hfit h0.ge hC bytes (fun hty => absurd hty hgf) hconverted
          (fun _ => hdepth)
        rw [h0] at this
        omega
    subst hCzero
    obtain ⟨stored, hstored, hstoredone⟩ : ∃ stored : ℕ, config.bitDepth = 8 * stored ∧
        (stored = 1 ∨ stored = 2 ∨ stored = 4) := by
      by_cases hty : config.detectorType = .jungfrauConverted
      · rcases hknown hty with hd | hd | hd
        · exact ⟨1, hd, .inl rfl⟩
        · exact ⟨2, hd, .inr (.inl rfl)⟩
        · exact ⟨4, hd, .inr (.inr rfl)⟩
      · exact ⟨bytes, hdepth hty, hone⟩
    refine ⟨⟨bytes, hbytes, by rw [h0]; simp⟩, ?_, (writeImageBytes_eq_ok hfit).mpr ?_⟩
    · have := maxDataBytes_eq hfit h0.ge hstored
      rw [h0] at this
      omega
    · refine ⟨stored, hstored, hstoredone, ?_⟩
      rcases mul_eq_zero.mp h0 with hh | hw
      · rw [hh]
        simp [toSizeT]
      · rw [hw]
        simp [toSizeT]

/-- Where all services agree, they have the same depth in mind. -/
theorem depth_of_sameImageBytes (hfit : config.ProductsFit)
    (hC : convertedImageNBytes config = .ok C) (hdtype : getMetadataDtype config = .ok dtype)
    (hne : config.imagePixelHeight * config.imagePixelWidth ≠ 0)
    (h : SameImageBytes config C dtype) :
    0 < config.imagePixelHeight ∧ 0 < config.imagePixelWidth ∧
      (config.detectorType = .gigafrost → config.bitDepth = 16) ∧
      (config.detectorType = .jungfrauConverted → config.bitDepth = 32) := by
  obtain ⟨bytes, hbytes, hone, hconverted, hdepth⟩ := bytes_of_getMetadataDtype hdtype
  obtain ⟨⟨bytes', hbytes', hCeq⟩, -, hhdf5⟩ := h
  obtain rfl : bytes = bytes' := Except.ok.inj (hbytes.symm.trans hbytes')
  obtain ⟨stored, hstored, hstoredone, hsize⟩ := (writeImageBytes_eq_ok hfit).mp hhdf5
  obtain ⟨-, hpixels⟩ := hfit.pixels
  have hpos : 0 ≤ config.imagePixelHeight * config.imagePixelWidth := by
    have hbytespos : (0 : ℤ) < bytes := by omega
    exact nonneg_of_mul_nonneg_left (hCeq ▸ Int.natCast_nonneg C) hbytespos
  have hClt : C < 2 ^ 63 := by
    generalize config.imagePixelHeight * config.imagePixelWidth = n at *
    rcases hone with rfl | rfl | rfl <;> omega
  have hle : toSizeT config.imagePixelHeight * toSizeT config.imagePixelWidth ≤ C := by
    rw [← hsize]
    exact Nat.le_mul_of_pos_right _ (by omega)
  obtain ⟨hh, hw⟩ := pixels_eq hfit hClt hne hpos hle
  -- HDF5 and the metadata have the same bytes for a pixel
  have hsame : stored = bytes := by
    have hheight := toSizeT_of_nonneg hh.le (hfit.height.2.trans (by decide))
    have hwidth := toSizeT_of_nonneg hw.le (hfit.width.2.trans (by decide))
    have heq : config.imagePixelHeight * config.imagePixelWidth * (stored : ℤ) =
        config.imagePixelHeight * config.imagePixelWidth * bytes := by
      rw [← hCeq, ← hsize]
      push_cast
      rw [hheight, hwidth]
    exact_mod_cast mul_left_cancel₀ hne heq
  refine ⟨hh, hw, fun hgf => ?_, fun hty => ?_⟩
  · have htwo := convertedImageNBytes_eq hfit hpos hC 2 (fun _ => rfl)
      (fun hty => absurd (hgf.symm.trans hty) (by decide)) (fun hne' => absurd hgf hne')
    have heq : (bytes : ℤ) = 2 := mul_left_cancel₀ hne (hCeq.symm.trans htwo)
    omega
  · have := hconverted hty
    omega

/-- **When all services agree on the bytes of an image.** For every configuration whose sizes are
defined: an image has a height and a width, the depth of a GigaFRoST image is 16 and that of a
converted Jungfrau image is 32. An image without pixels has no bytes anywhere, if only HDF5 knows
its depth. -/
theorem sameImageBytes_iff (hfit : config.ProductsFit) (hC : convertedImageNBytes config = .ok C)
    (hdtype : getMetadataDtype config = .ok dtype) :
    SameImageBytes config C dtype ↔
      if config.imagePixelHeight * config.imagePixelWidth = 0 then
        config.detectorType = .jungfrauConverted →
          config.bitDepth = 8 ∨ config.bitDepth = 16 ∨ config.bitDepth = 32
      else
        0 < config.imagePixelHeight ∧ 0 < config.imagePixelWidth ∧
          (config.detectorType = .gigafrost → config.bitDepth = 16) ∧
          (config.detectorType = .jungfrauConverted → config.bitDepth = 32) := by
  split
  · next h0 => exact sameImageBytes_empty_iff hfit hC hdtype h0
  · next hne =>
    refine ⟨depth_of_sameImageBytes hfit hC hdtype hne, fun ⟨hh, hw, hgf, hconv⟩ => ?_⟩
    obtain ⟨bytes, hbytes, hone, hconverted, hdepth⟩ := bytes_of_getMetadataDtype hdtype
    have hpos : 0 ≤ config.imagePixelHeight * config.imagePixelWidth := Int.mul_nonneg hh.le hw.le
    have hdepth' : config.bitDepth = 8 * bytes := by
      by_cases hty : config.detectorType = .jungfrauConverted
      · have := hconv hty
        have := hconverted hty
        omega
      · exact hdepth hty
    have hgf' : config.detectorType = .gigafrost → bytes = 2 := fun hty => by
      have := hgf hty
      omega
    have hCeq := convertedImageNBytes_eq hfit hpos hC bytes hgf' hconverted fun _ _ => hdepth'
    refine ⟨⟨bytes, hbytes, hCeq⟩, ?_, (writeImageBytes_eq_ok hfit).mpr ⟨bytes, hdepth', hone, ?_⟩⟩
    · have := maxDataBytes_eq hfit hpos hdepth'
      omega
    · have hheight := toSizeT_of_nonneg hh.le (hfit.height.2.trans (by decide))
      have hwidth := toSizeT_of_nonneg hw.le (hfit.width.2.trans (by decide))
      rw [← hheight, ← hwidth] at hCeq
      exact_mod_cast hCeq.symm

/-- The Eiger image of the test configurations. -/
theorem sameImageBytes_eiger :
    SameImageBytes
      { detectorType := .eiger, nModules := 72, bitDepth := 16, imagePixelHeight := 3106,
        imagePixelWidth := 3264 }
      20275968 .uint16 :=
  (sameImageBytes_iff ⟨by decide, by decide, by decide, by decide, by decide, by decide⟩ rfl
    rfl).mpr (by decide)

/-- The Jungfrau image of the test configurations: the slots of the buffer writer are half as large
as those of the other services. -/
theorem not_sameImageBytes_jungfrau :
    ¬ ∀ (config : DetectorConfig) (C : ℕ) (dtype : ImageMetadataDtype), config.ProductsFit →
      convertedImageNBytes config = .ok C → getMetadataDtype config = .ok dtype →
        SameImageBytes config C dtype := by
  intro h
  have hsame := h
    { detectorType := .jungfrauConverted, nModules := 4, bitDepth := 16,
      imagePixelHeight := 1024, imagePixelWidth := 2048 }
    8388608 .float32 ⟨by decide, by decide, by decide, by decide, by decide, by decide⟩ rfl rfl
  exact absurd hsame.bufferWriter (by decide)

end StdDaq
