import Mathlib
import StdDaq.Lib.Throws

/-!
# The detector configuration and the image sizes derived from it

The part of `utils/detector_config.hpp` and `utils/image_size_calc.cpp` that every service
reads. The configuration fields of type `int` are integers here, and a conversion to
`std::size_t` is `toSizeT`, which wraps modulo `2 ^ 64` as the language prescribes. Signed
overflow is undefined behaviour in the source; `DetectorConfig.ImageSizeDefined` says that the
image-size products stay in the range of `int`, and nothing is claimed outside it.

Functions that throw return in `Except`, with the text of the exception.
-/

namespace StdDaq

/-- Number of values of `std::size_t`. -/
def sizeTBound : ℕ := 2 ^ 64

/-- Conversion of a signed integer to `std::size_t`. -/
def toSizeT (x : ℤ) : ℕ := (x % 2 ^ 64).toNat

/-- The values of `int`. -/
def IsInt (x : ℤ) : Prop := -2 ^ 31 ≤ x ∧ x < 2 ^ 31

instance (x : ℤ) : Decidable (IsInt x) := inferInstanceAs (Decidable (_ ∧ _))

/-- Conversion of an `int` to `uint32_t`. -/
def toUInt32 (x : ℤ) : ℕ := (x % 2 ^ 32).toNat

/-- Conversion of a `std::size_t` to `int`. -/
def toInt (n : ℕ) : ℤ := Int.bmod n (2 ^ 32)

/-- Conversion of a `std::size_t` to `long`. -/
def toLong (n : ℕ) : ℤ := Int.bmod n (2 ^ 64)

/-- The values of `detector_type` that the code compares with; any other text is `other`. -/
inductive DetectorType where
  | gigafrost
  | eiger
  | pco
  | jungfrauRaw
  | jungfrauConverted
  | other (name : String)
  deriving DecidableEq, Repr

/-- `utils::Point`. -/
structure Point where
  x : ℤ
  y : ℤ
  deriving DecidableEq, Repr

/-- The fields of `utils::DetectorConfig` that the modelled services read, with the defaults
`read_config` gives to the optional ones. -/
structure DetectorConfig where
  detectorType : DetectorType
  nModules : ℤ
  bitDepth : ℤ
  imagePixelHeight : ℤ
  imagePixelWidth : ℤ
  maxNumberOfForwardersSpawned : ℤ := 8
  useAllForwarders : Bool := false
  senderSendsFullImages : Bool := false
  moduleSyncQueueSize : ℤ := 50
  ramBufferGb : ℕ := 0
  /-- The corners where a module starts and ends, by the identifier of the module. -/
  modules : List (ℕ × Point × Point) := []
  deriving DecidableEq, Repr

/-- The lookup `config.modules.at(id)`. -/
def DetectorConfig.moduleAt (config : DetectorConfig) (id : ℕ) : Except String (Point × Point) :=
  match config.modules.lookup id with
  | some corners => .ok corners
  | none => .error "unordered_map::at"

/-- `utils::get_module_start_position`. -/
def getModuleStartPosition (config : DetectorConfig) (id : ℕ) : Except String Point :=
  Prod.fst <$> config.moduleAt id

/-- `utils::get_module_end_position`. -/
def getModuleEndPosition (config : DetectorConfig) (id : ℕ) : Except String Point :=
  Prod.snd <$> config.moduleAt id

/-- The statement `if (p) throw std::runtime_error(e)`. -/
def throwIf (p : Prop) [Decidable p] (e : String) : Except String Unit :=
  if p then .error e else .ok ()

/-- `utils::test_if_module_is_inside_image`. Corners may have the coordinates of the image size
itself, and negative ones. The second text says `start` too. -/
def testIfModuleIsInsideImage (config : DetectorConfig) (moduleId : ℤ) : Except String Unit := do
  let ⟨endX, endY⟩ ← getModuleEndPosition config (toSizeT moduleId)
  let ⟨startX, startY⟩ ← getModuleStartPosition config (toSizeT moduleId)
  let width := config.imagePixelWidth
  let height := config.imagePixelHeight
  throwIf (startX > width ∨ startY > height)
    (s!"Start of module is out-of-bound! start({startX}, {startY}), " ++
      s!"image size({width}, {height})!")
  throwIf (endX > width ∨ endY > height)
    (s!"End of module is out-of-bound! start({endX}, {endY}), image size({width}, {height})!")

/-- The exception text of both size functions. -/
def unsupportedDetectorType : String := "Unsupported detector_type!\n"

/-- `utils::converted_image_n_bytes`. The products are formed in `int`; only the last factor of
the converted Jungfrau is a `size_t`. -/
def convertedImageNBytes (config : DetectorConfig) : Except String ℕ :=
  match config.detectorType with
  | .gigafrost => .ok (toSizeT (config.imagePixelHeight * config.imagePixelWidth * 2))
  | .eiger | .pco | .jungfrauRaw =>
    .ok (toSizeT ((config.imagePixelWidth * config.imagePixelHeight * config.bitDepth).tdiv 8))
  | .jungfrauConverted =>
    .ok (toSizeT (config.imagePixelWidth * config.imagePixelHeight) * 4 % sizeTBound)
  | .other _ => .error unsupportedDetectorType

/-- `utils::max_converted_image_byte_size`. It knows no `pco`. -/
def maxConvertedImageByteSize (config : DetectorConfig) : Except String ℕ :=
  match config.detectorType with
  | .gigafrost => .ok (2016 * 2016 * 2)
  | .eiger => .ok (3106 * 3264 * 4)
  | .jungfrauRaw => .ok (1024 * 512 * 32 * 2)
  | .jungfrauConverted => .ok (1024 * 512 * 32 * 4)
  | .pco | .other _ => .error unsupportedDetectorType

/-- `utils::slots_number`. An image of no bytes is a division by zero. -/
def slotsNumber (config : DetectorConfig) : Except String ℕ := do
  let bytes ← convertedImageNBytes config
  if bytes = 0 then .error "division by zero"
  else .ok (max (config.ramBufferGb * 1024 * 1024 * 1024 % sizeTBound / bytes) 1000)

/-- The `int` arithmetic of `converted_image_n_bytes` is defined: the dimensions are sizes, and
no product leaves the range of `int`. The forwarder count is an `int` too. -/
structure DetectorConfig.ImageSizeDefined (config : DetectorConfig) : Prop where
  /-- The image has a height. -/
  height : 0 ≤ config.imagePixelHeight
  /-- The image has a width. -/
  width : 0 ≤ config.imagePixelWidth
  /-- A pixel has a number of bits. -/
  depth : 0 ≤ config.bitDepth
  /-- The number of pixels is an `int`. -/
  pixels : config.imagePixelHeight * config.imagePixelWidth < 2 ^ 31
  /-- So is the number of bytes of a GigaFRoST image. -/
  doubled : config.detectorType = .gigafrost →
    config.imagePixelHeight * config.imagePixelWidth * 2 < 2 ^ 31
  /-- And the number of bits of an image. -/
  bits : config.imagePixelWidth * config.imagePixelHeight * config.bitDepth < 2 ^ 31
  /-- The number of forwarders is an `int`. -/
  forwarders : config.maxNumberOfForwardersSpawned < 2 ^ 31

theorem toSizeT_of_nonneg {x : ℤ} (h0 : 0 ≤ x) (h : x < 2 ^ 64) : (toSizeT x : ℤ) = x := by
  rw [toSizeT, Int.emod_eq_of_lt h0 h, Int.toNat_of_nonneg h0]

theorem cast_toSizeT (x : ℤ) : (toSizeT x : ℤ) = x % 2 ^ 64 :=
  Int.toNat_of_nonneg (Int.emod_nonneg x (by decide))

theorem toInt_emod (n : ℕ) : toInt n % 2 ^ 32 = n % 2 ^ 32 := by
  have h : toInt n % ((2 ^ 32 : ℕ) : ℤ) = n % ((2 ^ 32 : ℕ) : ℤ) := Int.bmod_emod
  rwa [Nat.cast_pow, Nat.cast_ofNat] at h

theorem isInt_toInt (n : ℕ) : IsInt (toInt n) := by
  have hlo : -(((2 ^ 32 : ℕ) : ℤ) / 2) ≤ toInt n := Int.le_bmod (Nat.two_pow_pos 32)
  have hhi : toInt n < (((2 ^ 32 : ℕ) : ℤ) + 1) / 2 := Int.bmod_lt (Nat.two_pow_pos 32)
  rw [Nat.cast_pow, Nat.cast_ofNat] at hlo hhi
  constructor
  · omega
  · omega

theorem toInt_of_lt {n : ℕ} (h : n < 2 ^ 31) : toInt n = n := by
  have hle : (n : ℤ) < ((2 ^ 32 : ℕ) + 1) / 2 := by omega
  exact Int.bmod_eq_of_le (by omega) hle

theorem toSizeT_natCast_of_lt {n : ℕ} (h : n < 2 ^ 64) : toSizeT n = n := by
  rw [toSizeT]
  omega

theorem toLong_of_lt {n : ℕ} (h : n < 2 ^ 63) : toLong n = n := by
  have hle : (n : ℤ) < ((2 ^ 64 : ℕ) + 1) / 2 := by omega
  exact Int.bmod_eq_of_le (by omega) hle

/-- A converted image has fewer than `2 ^ 33` bytes: four bytes for each of an `int` of
pixels. -/
theorem convertedImageNBytes_lt {config : DetectorConfig} (hdef : config.ImageSizeDefined)
    {C : ℕ} (hC : convertedImageNBytes config = .ok C) : C < 2 ^ 33 := by
  have hpix : 0 ≤ config.imagePixelHeight * config.imagePixelWidth :=
    Int.mul_nonneg hdef.height hdef.width
  have hpix' : 0 ≤ config.imagePixelWidth * config.imagePixelHeight :=
    Int.mul_nonneg hdef.width hdef.height
  have hbits : 0 ≤ config.imagePixelWidth * config.imagePixelHeight * config.bitDepth :=
    Int.mul_nonneg hpix' hdef.depth
  have hdiv : toSizeT ((config.imagePixelWidth * config.imagePixelHeight *
      config.bitDepth).tdiv 8) < 2 ^ 33 := by
    have := hdef.bits
    rw [Int.tdiv_eq_ediv_of_nonneg hbits]
    have := toSizeT_of_nonneg
      (x := config.imagePixelWidth * config.imagePixelHeight * config.bitDepth / 8)
      (by omega) (by omega)
    omega
  unfold convertedImageNBytes at hC
  split at hC
  · next hty =>
    obtain rfl := Except.ok.inj hC
    have := hdef.doubled hty
    have := toSizeT_of_nonneg
      (x := config.imagePixelHeight * config.imagePixelWidth * 2) (by omega) (by omega)
    omega
  · obtain rfl := Except.ok.inj hC
    exact hdiv
  · obtain rfl := Except.ok.inj hC
    exact hdiv
  · obtain rfl := Except.ok.inj hC
    exact hdiv
  · obtain rfl := Except.ok.inj hC
    have hlt := hdef.pixels
    rw [Int.mul_comm] at hlt
    have := toSizeT_of_nonneg hpix' (by omega)
    rw [sizeTBound]
    omega
  · cases hC

theorem maxConvertedImageByteSize_lt {config : DetectorConfig} {M : ℕ}
    (hM : maxConvertedImageByteSize config = .ok M) : M < 2 ^ 33 := by
  unfold maxConvertedImageByteSize at hM
  split at hM <;> cases hM <;> decide

section Modules

variable {config : DetectorConfig} {moduleId : ℤ} {moduleStart moduleEnd : Point}

theorem getModuleStartPosition_eq
    (h : config.moduleAt (toSizeT moduleId) = .ok (moduleStart, moduleEnd)) :
    getModuleStartPosition config (toSizeT moduleId) = .ok moduleStart := by
  rw [getModuleStartPosition, h]
  rfl

theorem getModuleEndPosition_eq
    (h : config.moduleAt (toSizeT moduleId) = .ok (moduleStart, moduleEnd)) :
    getModuleEndPosition config (toSizeT moduleId) = .ok moduleEnd := by
  rw [getModuleEndPosition, h]
  rfl

theorem exists_corners_of_start {id : ℕ} {startPosition : Point}
    (h : getModuleStartPosition config id = .ok startPosition) :
    ∃ moduleStart moduleEnd, config.moduleAt id = .ok (moduleStart, moduleEnd) := by
  rw [getModuleStartPosition] at h
  cases hat : config.moduleAt id with
  | error e =>
    rw [hat] at h
    cases h
  | ok corners => exact ⟨corners.1, corners.2, rfl⟩

theorem throwIf_eq_ok {p : Prop} [Decidable p] {e : String} {u : Unit} :
    throwIf p e = .ok u ↔ ¬ p := by
  rw [throwIf]
  split
  · next hp => exact ⟨fun h => (by cases h), fun h => absurd hp h⟩
  · next hp => exact ⟨fun _ => hp, fun _ => rfl⟩

/-- What the test of a module lets pass. -/
theorem testIfModuleIsInsideImage_eq_ok
    (h : config.moduleAt (toSizeT moduleId) = .ok (moduleStart, moduleEnd)) :
    testIfModuleIsInsideImage config moduleId = .ok () ↔
      (moduleStart.x ≤ config.imagePixelWidth ∧ moduleStart.y ≤ config.imagePixelHeight) ∧
        moduleEnd.x ≤ config.imagePixelWidth ∧ moduleEnd.y ≤ config.imagePixelHeight := by
  simp only [testIfModuleIsInsideImage, getModuleStartPosition_eq h, getModuleEndPosition_eq h,
    Except.bind_eq_ok_iff, Except.ok.injEq, exists_eq_left', throwIf_eq_ok, not_or, gt_iff_lt,
    not_lt, exists_const]

end Modules

/-- There are always `MIN_RAM_BUFFER_N_SLOTS`. -/
theorem le_slotsNumber {config : DetectorConfig} {slots : ℕ}
    (h : slotsNumber config = .ok slots) : 1000 ≤ slots := by
  rw [slotsNumber] at h
  cases hbytes : convertedImageNBytes config with
  | error e =>
    rw [hbytes] at h
    cases h
  | ok bytes =>
    rw [hbytes] at h
    change (if bytes = 0 then _ else _) = _ at h
    split at h
    · cases h
    · obtain rfl := Except.ok.inj h
      exact Nat.le_max_right _ _

end StdDaq
