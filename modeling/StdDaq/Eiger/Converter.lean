import StdDaq.DetectorConfig
import StdDaq.Lib.Overlay

/-!
# The Eiger converter

The class `eg::sdc::Converter` of `std_data_convert_eg`. A module has two chips side by side. The
converter of a module copies its rows into the image, with a gap of two pixels between the chips:
from the start corner to the right, and downwards or upwards depending on where the end corner is.

The index of a row is formed from an `int` and the product of an `unsigned int` and an `int`, so
that it is an `unsigned int`: `toUInt32`. A copy outside of its arrays is undefined behaviour in the
source; here the conversion then has no value.

## Main definitions

* `Converter.create` — the constructor, with the tests of the configuration
* `Converter.copies` — the calls of `std::memcpy` of one conversion
-/

namespace StdDaq

namespace Eiger

/-- `MODULE_X_SIZE`. -/
def moduleXSize : ℕ := 512

/-- `MODULE_Y_SIZE`. -/
def moduleYSize : ℕ := 256

/-- The members of a converter. -/
structure Converter where
  inputRowSizePerChip : ℕ
  gapSize : ℕ
  rowJump : ℤ
  startIndex : ℤ
  deriving DecidableEq, Repr

namespace Converter

/-- The bytes of a row of one chip. The product is an `unsigned int`. -/
def rowSizePerChip (bitDepth : ℤ) : ℕ := moduleXSize * toUInt32 bitDepth % 2 ^ 32 / 16

/-- The bytes of the gap. The product is an `int`. -/
def gapBytes (bitDepth : ℤ) : ℕ := toSizeT ((2 * bitDepth).tdiv 8)

/-- `calculate_row_jump`. -/
def calculateRowJump (imageWidth bitDepth : ℕ) : ℕ := imageWidth * bitDepth % sizeTBound / 8

/-- `calculate_start_index`. The coordinate `x` is multiplied in `int`, the rest is `size_t`. -/
def calculateStartIndex (config : DetectorConfig) (moduleId : ℤ) : Except String ℤ := do
  let startPosition ← getModuleStartPosition config (toSizeT moduleId)
  let rowJump := calculateRowJump (toSizeT config.imagePixelWidth) (toSizeT config.bitDepth)
  let column := toSizeT ((startPosition.x * config.bitDepth).tdiv 8)
  return toInt ((toSizeT startPosition.y * rowJump + column) % sizeTBound)

/-- `calculate_row_jump_direction`. -/
def calculateRowJumpDirection (config : DetectorConfig) (moduleId : ℤ) : Except String ℤ := do
  let startPosition ← getModuleStartPosition config (toSizeT moduleId)
  let endPosition ← getModuleEndPosition config (toSizeT moduleId)
  return if endPosition.y < startPosition.y then -1 else 1

/-- `test_if_module_size_fits_eiger`. -/
def testIfModuleSizeFitsEiger (config : DetectorConfig) (moduleId : ℤ) : Except String Unit := do
  let moduleEnd ← getModuleEndPosition config (toSizeT moduleId)
  let moduleStart ← getModuleStartPosition config (toSizeT moduleId)
  let width := (moduleStart.x - moduleEnd.x).natAbs
  throwIf (width ≠ moduleXSize + 1)
    s!"Eiger module width cannot be different than {moduleXSize} (set {width})!"
  let height := (moduleStart.y - moduleEnd.y).natAbs
  throwIf (height ≠ moduleYSize - 1)
    s!"Eiger module height cannot be different than {moduleYSize} (set {height})!"

/-- The constructor. The members are initialised before the configuration is tested. -/
def create (config : DetectorConfig) (moduleId : ℤ) : Except String Converter := do
  let rowJump := calculateRowJump (toSizeT config.imagePixelWidth) (toSizeT config.bitDepth)
  let direction ← calculateRowJumpDirection config moduleId
  let startIndex ← calculateStartIndex config moduleId
  testIfModuleIsInsideImage config moduleId
  testIfModuleSizeFitsEiger config moduleId
  return {
    inputRowSizePerChip := rowSizePerChip config.bitDepth
    gapSize := gapBytes config.bitDepth
    rowJump := toInt rowJump * direction
    startIndex := startIndex }

/-- The byte of the image where a row begins. -/
def outputStart (c : Converter) (row : ℕ) : ℕ := toUInt32 (c.startIndex + row * c.rowJump)

/-- The two copies of a row. -/
def rowCopies (c : Converter) (row : ℕ) : List Copy :=
  let inputStart := row * c.inputRowSizePerChip * 2
  let outputSecondChipPos := (c.inputRowSizePerChip + c.gapSize) % sizeTBound
  [ { src := inputStart, dst := c.outputStart row, len := c.inputRowSizePerChip },
    { src := inputStart + c.inputRowSizePerChip, dst := c.outputStart row + outputSecondChipPos,
      len := c.inputRowSizePerChip } ]

/-- All copies of a conversion, in the order of the loop. -/
def copies (c : Converter) : List Copy := (List.range moduleYSize).flatMap c.rowCopies

/-- `convert`. -/
def convert (c : Converter) (input output : List UInt8) : Option (List UInt8) :=
  Copy.runAll input c.copies output

/-- A conversion is defined if all its copies lie inside of the input and of the image. -/
theorem isSome_convert_iff {c : Converter} {input output : List UInt8} :
    (c.convert input output).isSome ↔ ∀ copy ∈ c.copies,
      copy.src + copy.len ≤ input.length ∧ copy.dst + copy.len ≤ output.length :=
  Copy.isSome_runAll_iff

/-! ### What the constructor lets pass -/

variable {config : DetectorConfig} {moduleId : ℤ} {moduleStart moduleEnd : Point}

/-- The converter of a module with these corners. -/
def ofCorners (config : DetectorConfig) (moduleStart moduleEnd : Point) : Converter :=
  let rowJump := calculateRowJump (toSizeT config.imagePixelWidth) (toSizeT config.bitDepth)
  { inputRowSizePerChip := rowSizePerChip config.bitDepth
    gapSize := gapBytes config.bitDepth
    rowJump := toInt rowJump * if moduleEnd.y < moduleStart.y then -1 else 1
    startIndex := toInt ((toSizeT moduleStart.y * rowJump +
      toSizeT ((moduleStart.x * config.bitDepth).tdiv 8)) % sizeTBound) }

/-- The constructor tests the corners and nothing else. -/
theorem create_eq_ok (h : config.moduleAt (toSizeT moduleId) = .ok (moduleStart, moduleEnd))
    {c : Converter} :
    create config moduleId = .ok c ↔
      ((moduleStart.x ≤ config.imagePixelWidth ∧ moduleStart.y ≤ config.imagePixelHeight) ∧
        moduleEnd.x ≤ config.imagePixelWidth ∧ moduleEnd.y ≤ config.imagePixelHeight) ∧
      ((moduleStart.x - moduleEnd.x).natAbs = 513 ∧ (moduleStart.y - moduleEnd.y).natAbs = 255) ∧
      ofCorners config moduleStart moduleEnd = c := by
  have hsize : testIfModuleSizeFitsEiger config moduleId = .ok () ↔
      (moduleStart.x - moduleEnd.x).natAbs = 513 ∧
        (moduleStart.y - moduleEnd.y).natAbs = 255 := by
    simp only [testIfModuleSizeFitsEiger, getModuleStartPosition_eq h, getModuleEndPosition_eq h,
      Except.bind_eq_ok_iff, Except.ok.injEq, exists_eq_left', throwIf_eq_ok, ne_eq, not_not,
      exists_const]
    rw [moduleXSize, moduleYSize]
  simp only [create, calculateRowJumpDirection, calculateStartIndex, getModuleStartPosition_eq h,
    getModuleEndPosition_eq h, Except.bind_eq_ok_iff, Except.ok.injEq, exists_eq_left', pure,
    Except.pure]
  rw [← testIfModuleIsInsideImage_eq_ok h, ← hsize]
  constructor
  · rintro ⟨_, hinside, _, hfits, hc⟩
    exact ⟨hinside, hfits, hc⟩
  · rintro ⟨hinside, hfits, hc⟩
    exact ⟨(), hinside, (), hfits, hc⟩

/-- And that there are corners. -/
theorem exists_corners {c : Converter} (h : create config moduleId = .ok c) :
    ∃ moduleStart moduleEnd, config.moduleAt (toSizeT moduleId) = .ok (moduleStart, moduleEnd) := by
  rw [create, Except.bind_eq_ok_iff] at h
  obtain ⟨direction, hdirection, -⟩ := h
  rw [calculateRowJumpDirection, Except.bind_eq_ok_iff] at hdirection
  obtain ⟨startPosition, hstart, -⟩ := hdirection
  exact exists_corners_of_start hstart

theorem mem_copies {c : Converter} {copy : Copy} :
    copy ∈ c.copies ↔ ∃ row < moduleYSize, copy ∈ c.rowCopies row := by
  rw [copies, List.mem_flatMap]
  simp only [List.mem_range]

end Converter

end Eiger

end StdDaq
