import StdDaq.DetectorConfig
import StdDaq.Lib.Overlay

/-!
# The Jungfrau converter

The class `jf::sdc::Converter` of `std_data_convert_jf`. The converter of a module copies its rows
into the image, from the start corner to the right and downwards. With gains and pedestals it stores
a `float` for each pixel instead, and which gain and pedestal a pixel has is told by its two
uppermost bits.

Indices are `std::size_t` values. The arithmetic of `float` is a parameter of the model. A read or a
store outside of its array is undefined behaviour in the source; here the conversion then has no
value.

## Main definitions

* `Converter.create`, `Converter.createWithGains` — the constructors
* `Converter.copyRawData` — the conversion without gains
* `Converter.convertData` — the conversion with gains
* `Converter.writes` — what either of them writes, in bytes
-/

namespace StdDaq

namespace Jungfrau

/-- `MODULE_X_SIZE`. -/
def moduleXSize : ℕ := 1024

/-- `MODULE_Y_SIZE`. -/
def moduleYSize : ℕ := 512

/-- `parameters`: a list of numbers for each of the `N_GAINS` gains. -/
abbrev Parameters (F : Type) : Type := Fin 3 → List F

/-- The members of a converter. -/
structure Converter (F : Type) where
  gainsAndPedestals : Parameters (F × F)
  rowJump : ℕ
  startIndex : ℕ
  withGains : Bool

namespace Converter

variable {F : Type}

/-- `calculate_start_index`. The index is formed in `int`. -/
def calculateStartIndex (config : DetectorConfig) (moduleId : ℤ) : Except String ℕ := do
  let startPosition ← getModuleStartPosition config (toSizeT moduleId)
  return toSizeT (config.imagePixelWidth * startPosition.y + startPosition.x)

/-- `test_if_module_size_fits_jungfrau`. -/
def testIfModuleSizeFitsJungfrau (config : DetectorConfig) (moduleId : ℤ) :
    Except String Unit := do
  let moduleEnd ← getModuleEndPosition config (toSizeT moduleId)
  let moduleStart ← getModuleStartPosition config (toSizeT moduleId)
  let width := (moduleStart.x - moduleEnd.x).natAbs
  let maxX := moduleXSize - 1
  throwIf (width ≠ maxX)
    s!"Jungfrau module width cannot be different than {maxX} (set {width})!"
  let height := (moduleStart.y - moduleEnd.y).natAbs
  let maxY := moduleYSize - 1
  throwIf (height ≠ maxY)
    s!"Jungfrau module height cannot be different than {maxY} (set {height})!"

/-- The constructor without gains. -/
def create (config : DetectorConfig) (moduleId : ℤ) : Except String (Converter F) := do
  let startIndex ← calculateStartIndex config moduleId
  testIfModuleIsInsideImage config moduleId
  testIfModuleSizeFitsJungfrau config moduleId
  return {
    gainsAndPedestals := fun _ => []
    rowJump := toSizeT config.imagePixelWidth
    startIndex := startIndex
    withGains := false }

/-- `test_gains_and_pedestals_consistency`. Only the first gain is looked at. -/
def testGainsAndPedestalsConsistency (g p : Parameters F) : Except String Unit :=
  let gains := (g 0).length
  let pedestals := (p 0).length
  throwIf (gains ≠ pedestals) s!"Gains and pedestals have different size {gains} != {pedestals}!"

/-- The constructor with gains. `std::ranges::transform` stops at the end of the shorter list. -/
def createWithGains (g p : Parameters F) (config : DetectorConfig) (moduleId : ℤ) :
    Except String (Converter F) := do
  let c : Converter F ← create config moduleId
  testGainsAndPedestalsConsistency g p
  return { c with withGains := true, gainsAndPedestals := fun i => (g i).zip (p i) }

/-- The index of the image where a row begins. -/
def outputStart (c : Converter F) (row : ℕ) : ℕ :=
  (c.startIndex + row * c.rowJump % sizeTBound) % sizeTBound

/-- The copies of a conversion without gains. -/
def copies (c : Converter F) : List Copy :=
  (List.range moduleYSize).map fun row =>
    { src := row * moduleXSize, dst := c.outputStart row, len := moduleXSize }

/-- `copy_raw_data`. -/
def copyRawData (c : Converter F) (input output : List UInt16) : Option (List UInt16) :=
  Copy.runAll input c.copies output

/-- `test_data_size_consistency`. -/
def testDataSizeConsistency (c : Converter F) (data : List UInt16) : Except String Unit :=
  let expected := (c.gainsAndPedestals 0).length
  let size := data.length
  throwIf (size > expected)
    (s!"data size is greater than gains/pedestal arrays size - " ++
      s!"(expected {expected} != {size})")

/-- The gain of a pixel. -/
def gainGroup (pixel : UInt16) : Fin 3 := Fin.ofNat 3 (pixel.toNat >>> 14)

/-- The pixels of a module, in the order of the loops: each with its index in the input and its
index in the image. -/
def pixels (c : Converter F) : List (ℕ × ℕ) :=
  (List.range moduleYSize).flatMap fun i =>
    (List.range moduleXSize).map fun j =>
      (i * moduleXSize + j, (c.outputStart i + j) % sizeTBound)

/-- The body of the loops with gains. -/
def convertPixel [NatCast F] [Sub F] [Mul F] (c : Converter F) (input : List UInt16)
    (output : List F) (pixel : ℕ × ℕ) : Option (List F) := do
  let value ← input[pixel.1]?
  let (gain, pedestal) ← (c.gainsAndPedestals (gainGroup value))[pixel.1]?
  storeAt output pixel.2 (((value.toNat &&& 0x3FFF : ℕ) - pedestal) * gain)

/-- `convert_data`, on the image as an array of `float`. -/
def convertData [NatCast F] [Sub F] [Mul F] (c : Converter F) (input : List UInt16)
    (output : List F) : Except String (Option (List F)) := do
  c.testDataSizeConsistency input
  return c.pixels.foldlM (c.convertPixel input) output

/-- What `convert` writes: the first byte and the number of bytes, for each write. -/
def writes (c : Converter F) : List (ℕ × ℕ) :=
  if c.withGains then c.pixels.map fun pixel => (4 * pixel.2, 4)
  else c.copies.map fun copy => (2 * copy.dst, 2 * copy.len)

variable {config : DetectorConfig} {moduleId : ℤ} {moduleStart moduleEnd : Point}
  {c : Converter F}

/-! ### When a conversion is defined -/

/-- The conversion without gains needs all its copies inside of the input and of the image. -/
theorem isSome_copyRawData_iff {input output : List UInt16} :
    (c.copyRawData input output).isSome ↔ ∀ copy ∈ c.copies,
      copy.src + copy.len ≤ input.length ∧ copy.dst + copy.len ≤ output.length :=
  Copy.isSome_runAll_iff

/-- A pixel is converted from its value, a gain and a pedestal. -/
theorem isSome_convertPixel_iff [NatCast F] [Sub F] [Mul F] {input : List UInt16} {output : List F}
    {pixel : ℕ × ℕ} : (c.convertPixel input output pixel).isSome ↔
      pixel.1 < input.length ∧ (∀ value, input[pixel.1]? = some value →
        pixel.1 < (c.gainsAndPedestals (gainGroup value)).length) ∧ pixel.2 < output.length := by
  rw [convertPixel]
  cases hvalue : input[pixel.1]? with
  | none =>
    refine iff_of_false (by simp) fun h => ?_
    exact absurd h.1 (Nat.not_lt.mpr (List.getElem?_eq_none_iff.mp hvalue))
  | some value =>
    obtain ⟨hlt, -⟩ := List.getElem?_eq_some_iff.mp hvalue
    simp only [Option.some.injEq, forall_eq', hlt, true_and]
    cases hpair : (c.gainsAndPedestals (gainGroup value))[pixel.1]? with
    | none =>
      have hge := List.getElem?_eq_none_iff.mp hpair
      refine iff_of_false (by simp [hpair]) fun h => ?_
      exact absurd h.1 (Nat.not_lt.mpr hge)
    | some pair =>
      obtain ⟨hlt', -⟩ := List.getElem?_eq_some_iff.mp hpair
      simp only [hlt', true_and]
      rw [← isSome_storeAt_iff (v := ((value.toNat &&& 0x3FFF : ℕ) - pair.2) * pair.1)]
      simp [hpair]

theorem length_convertPixel [NatCast F] [Sub F] [Mul F] {input : List UInt16} {output out : List F}
    {pixel : ℕ × ℕ} (h : c.convertPixel input output pixel = some out) :
    out.length = output.length := by
  rw [convertPixel, Option.bind_eq_bind, Option.bind_eq_some_iff] at h
  obtain ⟨value, -, h⟩ := h
  rw [Option.bind_eq_bind, Option.bind_eq_some_iff] at h
  obtain ⟨pair, -, h⟩ := h
  exact length_storeAt h

/-- The conversion with gains needs all its pixels inside of the input and of the image, and a gain
and a pedestal for each of them. -/
theorem convertData_defined_iff [NatCast F] [Sub F] [Mul F] {input : List UInt16} {output : List F}
    (htest : c.testDataSizeConsistency input = .ok ()) :
    (∃ out, c.convertData input output = .ok (some out)) ↔ ∀ pixel ∈ c.pixels,
      pixel.1 < input.length ∧ (∀ value, input[pixel.1]? = some value →
        pixel.1 < (c.gainsAndPedestals (gainGroup value)).length) ∧ pixel.2 < output.length := by
  have hloop : (c.pixels.foldlM (c.convertPixel input) output).isSome ↔ ∀ pixel ∈ c.pixels,
      pixel.1 < input.length ∧ (∀ value, input[pixel.1]? = some value →
        pixel.1 < (c.gainsAndPedestals (gainGroup value)).length) ∧ pixel.2 < output.length :=
    isSome_foldlM_iff (c.convertPixel input)
      (fun n pixel => pixel.1 < input.length ∧ (∀ value, input[pixel.1]? = some value →
        pixel.1 < (c.gainsAndPedestals (gainGroup value)).length) ∧ pixel.2 < n)
      (fun _ _ => isSome_convertPixel_iff) fun _ _ _ => length_convertPixel
  rw [← hloop, convertData, htest, Option.isSome_iff_exists]
  exact ⟨fun ⟨out, h⟩ => ⟨out, Except.ok.inj h⟩, fun ⟨out, h⟩ => ⟨out, congrArg Except.ok h⟩⟩

/-! ### What the constructors let pass -/

/-- The converter of a module with this start corner. -/
def ofStart (config : DetectorConfig) (moduleStart : Point) : Converter F where
  gainsAndPedestals := fun _ => []
  rowJump := toSizeT config.imagePixelWidth
  startIndex := toSizeT (config.imagePixelWidth * moduleStart.y + moduleStart.x)
  withGains := false

/-- The constructor tests the corners and nothing else. -/
theorem create_eq_ok (h : config.moduleAt (toSizeT moduleId) = .ok (moduleStart, moduleEnd)) :
    create config moduleId = .ok c ↔
      ((moduleStart.x ≤ config.imagePixelWidth ∧ moduleStart.y ≤ config.imagePixelHeight) ∧
        moduleEnd.x ≤ config.imagePixelWidth ∧ moduleEnd.y ≤ config.imagePixelHeight) ∧
      ((moduleStart.x - moduleEnd.x).natAbs = 1023 ∧ (moduleStart.y - moduleEnd.y).natAbs = 511) ∧
      ofStart config moduleStart = c := by
  have hsize : testIfModuleSizeFitsJungfrau config moduleId = .ok () ↔
      (moduleStart.x - moduleEnd.x).natAbs = 1023 ∧
        (moduleStart.y - moduleEnd.y).natAbs = 511 := by
    simp only [testIfModuleSizeFitsJungfrau, getModuleStartPosition_eq h,
      getModuleEndPosition_eq h, Except.bind_eq_ok_iff, Except.ok.injEq, exists_eq_left',
      throwIf_eq_ok, ne_eq, not_not, exists_const]
    rw [moduleXSize, moduleYSize]
  simp only [create, calculateStartIndex, getModuleStartPosition_eq h, Except.bind_eq_ok_iff,
    Except.ok.injEq, exists_eq_left', pure, Except.pure]
  rw [← testIfModuleIsInsideImage_eq_ok h, ← hsize]
  constructor
  · rintro ⟨_, hinside, _, hfits, hc⟩
    exact ⟨hinside, hfits, hc⟩
  · rintro ⟨hinside, hfits, hc⟩
    exact ⟨(), hinside, (), hfits, hc⟩

/-- And that there are corners. -/
theorem exists_corners (h : create config moduleId = .ok c) :
    ∃ moduleStart moduleEnd, config.moduleAt (toSizeT moduleId) = .ok (moduleStart, moduleEnd) := by
  rw [create, Except.bind_eq_ok_iff] at h
  obtain ⟨startIndex, hindex, -⟩ := h
  rw [calculateStartIndex, Except.bind_eq_ok_iff] at hindex
  obtain ⟨startPosition, hstart, -⟩ := hindex
  exact exists_corners_of_start hstart

/-- The constructor with gains tests the size of the first gain too. -/
theorem createWithGains_eq_ok {g p : Parameters F} :
    createWithGains g p config moduleId = .ok c ↔
      ∃ raw : Converter F, create config moduleId = .ok raw ∧ (g 0).length = (p 0).length ∧
        { raw with withGains := true, gainsAndPedestals := fun i => (g i).zip (p i) } = c := by
  simp only [createWithGains, testGainsAndPedestalsConsistency, Except.bind_eq_ok_iff,
    throwIf_eq_ok, ne_eq, not_not, exists_const, pure, Except.pure, Except.ok.injEq]

end Converter

end Jungfrau

end StdDaq
