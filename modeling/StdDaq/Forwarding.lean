import StdDaq.DetectorConfig
import StdDaq.Lib.FloorPartition
import StdDaq.Lib.Memory
import Mathlib.Data.List.Perm.Lattice

/-!
# Forwarding an image in parts

`std_stream_send` and `std_stream_receive` move an image from one server to another in up to
`max_number_of_forwarders_spawned` parts. Each pair of services works out, from the
configuration and its own part number alone, which bytes of the image it is responsible for:
`utils::calculate_image_offset` and `utils::calculate_image_bytes_sent`. A message carries only
the bytes, so both sides have to agree on the range, and the ranges of all parts together have
to make up the image.

The offset divides after multiplying and the length divides first. The general consequences of
that are in `FloorPartition`; here they are applied to the two modes of the code, which cut
either the image itself (`use_all_forwarders`) or the largest image of the detector.

## Main results

* `CutsInto.activeRange_eq` — what a forwarder of part `p` computes, as cuts of a `FloorPartition`
* `forwardsWhole_iff` — the parts make up the image exactly when the image ends before the
  first byte that rounding leaves out
* `numberOfSenders_eq_iff` — when the stream synchronizer waits for as many parts as are sent
-/

namespace StdDaq

namespace Forwarding

open FloorPartition

/-- `utils::calculate_image_offset`. The product is taken in `size_t`. -/
def calculateImageOffset (config : DetectorConfig) (imagePart : ℕ) : Except String ℕ :=
  if config.senderSendsFullImages then .ok 0
  else if config.useAllForwarders then do
    let bytes ← convertedImageNBytes config
    return imagePart * bytes % sizeTBound / toSizeT config.maxNumberOfForwardersSpawned
  else do
    let bytes ← maxConvertedImageByteSize config
    return imagePart * bytes % sizeTBound / toSizeT config.maxNumberOfForwardersSpawned

/-- `utils::max_single_sender_size`. -/
def maxSingleSenderSize (config : DetectorConfig) : Except String ℕ :=
  if config.senderSendsFullImages then convertedImageNBytes config
  else if config.useAllForwarders then do
    let bytes ← convertedImageNBytes config
    return bytes / toSizeT config.maxNumberOfForwardersSpawned
  else do
    let bytes ← maxConvertedImageByteSize config
    return bytes / toSizeT config.maxNumberOfForwardersSpawned

/-- `utils::calculate_image_bytes_sent`. The difference is taken in `size_t`. -/
def calculateImageBytesSent (config : DetectorConfig) (imagePart : ℕ) : Except String ℕ := do
  let convertedBytes ← convertedImageNBytes config
  let startIndex ← calculateImageOffset config imagePart
  let largest ← maxSingleSenderSize config
  return min ((convertedBytes + sizeTBound - startIndex) % sizeTBound) largest

/-- The start-up of `std_stream_send` and of `std_stream_receive` for one part: `none` when the
service exits because its part starts behind the image, else the offset and the number of bytes
of every message it sends, or expects. -/
def startUp (config : DetectorConfig) (imagePart : ℕ) : Except String (Option (ℕ × ℕ)) := do
  let convertedBytes ← convertedImageNBytes config
  let startIndex ← calculateImageOffset config imagePart
  if convertedBytes ≤ startIndex then return none
  let dataBytesSent ← calculateImageBytesSent config imagePart
  return some (startIndex, dataBytesSent)

/-- The range of a part that does not exit at start-up. -/
def activeRange (config : DetectorConfig) (imagePart : ℕ) : Option (ℕ × ℕ) :=
  (startUp config imagePart).toOption.join

/-- What a division by zero is here; the process dies of it. -/
def divisionByZero : String := "division by zero"

/-- `utils::number_of_senders`: the number of parts `std_data_sync_stream` waits for. -/
def numberOfSenders (config : DetectorConfig) : Except String ℕ :=
  if config.senderSendsFullImages then .ok 1
  else if config.useAllForwarders then .ok (toSizeT config.maxNumberOfForwardersSpawned)
  else do
    let convertedBytes ← convertedImageNBytes config
    let largest ← maxSingleSenderSize config
    if largest = 0 then .error divisionByZero
    else return (convertedBytes + largest - 1) % sizeTBound / largest

/-- The part numbers the deployment starts services for. -/
def parts (config : DetectorConfig) : List ℕ :=
  List.range (toSizeT config.maxNumberOfForwardersSpawned)

/-- The parts whose services do not exit at start-up. -/
def activeParts (config : DetectorConfig) : List ℕ :=
  (parts config).filter fun p => (activeRange config p).isSome

/-- The destination slot after the parts in `order` have been sent out of the slot `src` and
received into the slot `dst`. -/
def forward (config : DetectorConfig) (order : List ℕ) (src dst : ℕ → UInt8) : ℕ → UInt8 :=
  Memory.transfer src (order.filterMap (activeRange config)) dst

/-- **What forwarding is for.** The active parts share no byte, make up the bytes below `C`, and
once each of them has been moved, in whatever order, the destination shows the image. -/
structure ForwardsWhole (config : DetectorConfig) (C : ℕ) : Prop where
  /-- No byte is sent by two parts. -/
  disjoint : ∀ p ∈ parts config, ∀ q ∈ parts config, p ≠ q → ∀ r ∈ activeRange config p,
    ∀ s ∈ activeRange config q, ∀ b, ¬ ((r.1 ≤ b ∧ b < r.1 + r.2) ∧ s.1 ≤ b ∧ b < s.1 + s.2)
  /-- The bytes sent are the bytes of the image. -/
  union : ∀ b, (∃ p ∈ parts config, ∃ r ∈ activeRange config p, r.1 ≤ b ∧ b < r.1 + r.2) ↔ b < C
  /-- Moving every part moves the image. -/
  complete : ∀ order : List ℕ, order.Perm (parts config) → ∀ src dst : ℕ → UInt8,
    ∀ b < C, forward config order src dst b = src b

/-- The number of bytes that is cut into parts. -/
def cutBytes (config : DetectorConfig) : Except String ℕ :=
  if config.useAllForwarders then convertedImageNBytes config
  else maxConvertedImageByteSize config

/-- The number of leading image bytes that no rounding leaves out. With `B` the bytes that are
cut and `F` the forwarders it is `⌈F / (B mod F)⌉ * ⌊B / F⌋`, and `B` when `F` divides `B`. -/
def gapFreeBytes (config : DetectorConfig) : ℕ :=
  match cutBytes config with
  | .ok bytes => gapFree bytes (toSizeT config.maxNumberOfForwardersSpawned)
  | .error _ => 0

section Parts

variable {config : DetectorConfig} {B C p : ℕ}

/-- What the services of a deployment agree on: parts are sent, `B` bytes are cut, `C` of them
are the image, there is a forwarder, and the products fit in a `size_t`. -/
structure CutsInto (config : DetectorConfig) (B C : ℕ) : Prop where
  /-- Images are sent in parts. -/
  in_parts : config.senderSendsFullImages = false
  /-- `B` is what the mode cuts. -/
  cut_bytes : cutBytes config = .ok B
  /-- `C` is the size of the image. -/
  converted : convertedImageNBytes config = .ok C
  /-- At least one forwarder is deployed. -/
  some_forwarder : 0 < toSizeT config.maxNumberOfForwardersSpawned
  /-- No product of a part number wraps. -/
  no_wrap : toSizeT config.maxNumberOfForwardersSpawned * B < sizeTBound
  /-- The image is no larger than what is cut. -/
  image_le : C ≤ B

theorem CutsInto.offset (h : CutsInto config B C)
    (hp : p < toSizeT config.maxNumberOfForwardersSpawned) :
    calculateImageOffset config p
      = .ok (cut B (toSizeT config.maxNumberOfForwardersSpawned) p) := by
  have hlt : p * B < sizeTBound := (Nat.mul_le_mul_right B hp.le).trans_lt h.no_wrap
  have hB := h.cut_bytes
  rw [cutBytes] at hB
  rw [calculateImageOffset, h.in_parts, if_neg Bool.false_ne_true, cut,
    ← Nat.mod_eq_of_lt hlt]
  split at hB
  · next hall => rw [if_pos hall, hB]; rfl
  · next hall => rw [if_neg hall, hB]; rfl

theorem CutsInto.largest (h : CutsInto config B C) :
    maxSingleSenderSize config
      = .ok (width B (toSizeT config.maxNumberOfForwardersSpawned)) := by
  have hB := h.cut_bytes
  rw [cutBytes] at hB
  rw [maxSingleSenderSize, h.in_parts, if_neg Bool.false_ne_true]
  split at hB
  · next hall => rw [if_pos hall, hB]; rfl
  · next hall => rw [if_neg hall, hB]; rfl

/-- The subtraction of `calculate_image_bytes_sent` does not wrap for a part that starts inside
the image. -/
theorem CutsInto.bytesSent (h : CutsInto config B C)
    (hp : p < toSizeT config.maxNumberOfForwardersSpawned)
    (hin : cut B (toSizeT config.maxNumberOfForwardersSpawned) p < C) :
    calculateImageBytesSent config p
      = .ok (min (C - cut B (toSizeT config.maxNumberOfForwardersSpawned) p)
          (width B (toSizeT config.maxNumberOfForwardersSpawned))) := by
  have hB : B < sizeTBound :=
    (Nat.le_mul_of_pos_left B h.some_forwarder).trans_lt h.no_wrap
  have hdiff : (C + sizeTBound - cut B (toSizeT config.maxNumberOfForwardersSpawned) p)
      % sizeTBound = C - cut B (toSizeT config.maxNumberOfForwardersSpawned) p := by
    rw [Nat.sub_add_comm hin.le, Nat.add_mod_right,
      Nat.mod_eq_of_lt (by have := h.image_le; omega)]
  rw [calculateImageBytesSent, h.converted, h.offset hp, h.largest, ← hdiff]
  rfl

/-- **What a forwarder computes at start-up.** -/
theorem CutsInto.activeRange_eq (h : CutsInto config B C)
    (hp : p < toSizeT config.maxNumberOfForwardersSpawned) :
    activeRange config p =
      if cut B (toSizeT config.maxNumberOfForwardersSpawned) p < C then
        some (cut B (toSizeT config.maxNumberOfForwardersSpawned) p,
          min (C - cut B (toSizeT config.maxNumberOfForwardersSpawned) p)
            (width B (toSizeT config.maxNumberOfForwardersSpawned)))
      else none := by
  rw [activeRange, startUp, h.converted, h.offset hp]
  change (Except.toOption (if C ≤ _ then _ else _)).join = _
  by_cases hin : cut B (toSizeT config.maxNumberOfForwardersSpawned) p < C
  · rw [if_neg (Nat.not_le.mpr hin), if_pos hin, h.bytesSent hp hin]
    rfl
  · rw [if_pos (Nat.not_lt.mp hin), if_neg hin]
    rfl

/-- Membership in the range of a part, in terms of the cuts. -/
theorem CutsInto.mem_activeRange_iff (h : CutsInto config B C) {b : ℕ}
    (hp : p < toSizeT config.maxNumberOfForwardersSpawned) :
    (∃ r ∈ activeRange config p, r.1 ≤ b ∧ b < r.1 + r.2) ↔
      b < C ∧ cut B (toSizeT config.maxNumberOfForwardersSpawned) p ≤ b ∧
        b < cut B (toSizeT config.maxNumberOfForwardersSpawned) p
          + width B (toSizeT config.maxNumberOfForwardersSpawned) := by
  rw [h.activeRange_eq hp]
  split
  · next hin =>
    simp only [Option.mem_some_iff, exists_eq_left']
    omega
  · next hin =>
    simp only [Option.mem_def, reduceCtorEq, false_and, exists_false, false_iff]
    omega

/-- The active parts make up the image exactly when it ends before the first gap. -/
theorem CutsInto.union_iff (h : CutsInto config B C) :
    (∀ b, (∃ p ∈ parts config, ∃ r ∈ activeRange config p, r.1 ≤ b ∧ b < r.1 + r.2) ↔ b < C) ↔
      C ≤ gapFree B (toSizeT config.maxNumberOfForwardersSpawned) := by
  rw [← covers_iff h.some_forwarder h.image_le]
  constructor
  · intro hunion b hb
    obtain ⟨p, hp, hr⟩ := (hunion b).mpr hb
    have hp := List.mem_range.mp hp
    exact ⟨p, hp, ((h.mem_activeRange_iff hp).mp hr).2⟩
  · intro hcov b
    constructor
    · rintro ⟨p, hp, hr⟩
      exact ((h.mem_activeRange_iff (List.mem_range.mp hp)).mp hr).1
    · intro hb
      obtain ⟨p, hp, hr⟩ := hcov b hb
      exact ⟨p, List.mem_range.mpr hp, (h.mem_activeRange_iff hp).mpr ⟨hb, hr⟩⟩

/-- Two parts never share a byte, in either mode and for every remainder. -/
theorem CutsInto.disjoint (h : CutsInto config B C) : ∀ p ∈ parts config,
    ∀ q ∈ parts config, p ≠ q → ∀ r ∈ activeRange config p, ∀ s ∈ activeRange config q,
      ∀ b, ¬ ((r.1 ≤ b ∧ b < r.1 + r.2) ∧ s.1 ≤ b ∧ b < s.1 + s.2) := by
  rintro p hp q hq hne r hr s hs b ⟨hbr, hbs⟩
  have hp' := List.mem_range.mp hp
  have hq' := List.mem_range.mp hq
  obtain ⟨-, hpl, hpr⟩ := (h.mem_activeRange_iff hp').mp ⟨r, hr, hbr⟩
  obtain ⟨-, hql, hqr⟩ := (h.mem_activeRange_iff hq').mp ⟨s, hs, hbs⟩
  rcases Nat.lt_or_gt_of_ne hne with hlt | hlt
  · have := cut_add_width_le (B := B) h.some_forwarder hlt
    omega
  · have := cut_add_width_le (B := B) h.some_forwarder hlt
    omega

/-- What moving every part does, cell by cell. -/
theorem forward_apply {order : List ℕ} (horder : order.Perm (parts config))
    (src dst : ℕ → UInt8) (b : ℕ)
    (hb : ∃ p ∈ parts config, ∃ r ∈ activeRange config p, r.1 ≤ b ∧ b < r.1 + r.2) :
    forward config order src dst b = src b := by
  obtain ⟨p, hp, r, hr, hbr⟩ := hb
  have hmem : r ∈ order.filterMap (activeRange config) :=
    List.mem_filterMap.mpr ⟨p, horder.mem_iff.mpr hp, hr⟩
  rw [forward, Memory.transfer_apply, if_pos ⟨r, hmem, hbr⟩]

theorem CutsInto.whole_iff (h : CutsInto config B C) :
    ForwardsWhole config C ↔ C ≤ gapFree B (toSizeT config.maxNumberOfForwardersSpawned) := by
  rw [← h.union_iff]
  constructor
  · exact fun hw => hw.union
  · intro hunion
    exact ⟨h.disjoint, hunion, fun order horder src dst b hb =>
      forward_apply horder src dst b ((hunion b).mpr hb)⟩

theorem CutsInto.length_activeParts (h : CutsInto config B C) :
    (activeParts config).length
      = startedParts B (toSizeT config.maxNumberOfForwardersSpawned) C := by
  rw [activeParts, startedParts, parts]
  congr 1
  refine List.filter_congr fun p hp => ?_
  rw [h.activeRange_eq (List.mem_range.mp hp)]
  split
  · next hin => rw [Option.isSome_some, decide_eq_true hin]
  · next hin => rw [Option.isSome_none, decide_eq_false hin]

/-- With all forwarders, every part of a non-empty image is sent. -/
theorem CutsInto.length_activeParts_of_all (h : CutsInto config C C) (hpos : 0 < C) :
    (activeParts config).length = toSizeT config.maxNumberOfForwardersSpawned := by
  rw [h.length_activeParts]
  refine startedParts_eq h.some_forwarder le_rfl (fun p hp => ?_) (by rw [Nat.mul_comm])
  rw [Nat.mul_comm C]
  exact Nat.mul_lt_mul_of_pos_right hp hpos

/-- Otherwise the number of parts is found by dividing by the rounded size of a part. -/
theorem CutsInto.numberOfSenders_eq (h : CutsInto config B C) (hB : B < 2 ^ 33)
    (hall : config.useAllForwarders = false) :
    numberOfSenders config =
      if width B (toSizeT config.maxNumberOfForwardersSpawned) = 0 then .error divisionByZero
      else .ok ((C + width B (toSizeT config.maxNumberOfForwardersSpawned) - 1) /
        width B (toSizeT config.maxNumberOfForwardersSpawned)) := by
  rw [numberOfSenders, h.in_parts, if_neg Bool.false_ne_true, hall, if_neg Bool.false_ne_true,
    h.converted, h.largest]
  change (if width B _ = 0 then _ else _) = _
  have hC := h.image_le
  have hw : width B (toSizeT config.maxNumberOfForwardersSpawned) ≤ B := Nat.div_le_self _ _
  rw [Nat.mod_eq_of_lt (by rw [sizeTBound]; omega)]
  rfl

end Parts

/-- A configuration whose image size is defined is cut without wrapping: there are fewer than
`2 ^ 31` forwarders and fewer than `2 ^ 33` bytes. -/
theorem cutsInto_of_imageSizeDefined {config : DetectorConfig} {C : ℕ}
    (hdef : config.ImageSizeDefined) (hparts : config.senderSendsFullImages = false)
    (hF : 1 ≤ config.maxNumberOfForwardersSpawned) (hC : convertedImageNBytes config = .ok C)
    (hmax : config.useAllForwarders = false →
      ∃ M, maxConvertedImageByteSize config = .ok M ∧ C ≤ M) :
    ∃ B, CutsInto config B C := by
  have hF' := toSizeT_of_nonneg (x := config.maxNumberOfForwardersSpawned) (by omega)
    (by have := hdef.forwarders; omega)
  have hlt : toSizeT config.maxNumberOfForwardersSpawned < 2 ^ 31 := by
    have := hdef.forwarders
    omega
  have hwrap : ∀ B < 2 ^ 33, toSizeT config.maxNumberOfForwardersSpawned * B < sizeTBound := by
    intro B hB
    calc toSizeT config.maxNumberOfForwardersSpawned * B < 2 ^ 31 * 2 ^ 33 :=
          Nat.mul_lt_mul'' hlt hB
      _ = sizeTBound := rfl
  by_cases hall : config.useAllForwarders
  · exact ⟨C, hparts, by rw [cutBytes, if_pos hall, hC], hC, by omega,
      hwrap C (convertedImageNBytes_lt hdef hC), Nat.le_refl C⟩
  · obtain ⟨M, hM, hle⟩ := hmax (by simpa using hall)
    exact ⟨M, hparts, by rw [cutBytes, if_neg hall, hM], hC, by omega,
      hwrap M (maxConvertedImageByteSize_lt hM), hle⟩

/-- **Forwarding moves whole images exactly when no byte is rounded away.** In both modes, for
every number of forwarders and every image size. -/
theorem forwardsWhole_iff {config : DetectorConfig} {C : ℕ} (hdef : config.ImageSizeDefined)
    (hparts : config.senderSendsFullImages = false)
    (hF : 1 ≤ config.maxNumberOfForwardersSpawned) (hC : convertedImageNBytes config = .ok C)
    (hmax : config.useAllForwarders = false →
      ∃ M, maxConvertedImageByteSize config = .ok M ∧ C ≤ M) :
    ForwardsWhole config C ↔ C ≤ gapFreeBytes config := by
  obtain ⟨B, h⟩ := cutsInto_of_imageSizeDefined hdef hparts hF hC hmax
  rw [h.whole_iff, gapFreeBytes, h.cut_bytes]

/-- The 2016x2016 GigaFRoST image with the default eight forwarders: its size is a multiple of
eight. -/
theorem forwardsWhole_eight_forwarders :
    ForwardsWhole
      { detectorType := .gigafrost, nModules := 8, bitDepth := 16, imagePixelHeight := 2016,
        imagePixelWidth := 2016, useAllForwarders := true } 8128512 :=
  (forwardsWhole_iff ⟨by decide, by decide, by decide, by decide, by decide, by decide, by decide⟩
    rfl (by decide) (by decide) (fun h => absurd h (by decide))).mpr (by decide)

/-- The 2016x2016 GigaFRoST configuration of the documentation, with its ten forwarders: byte
4064255 lies between the fifth and the sixth part and is never sent. -/
theorem not_forwardsWhole_ten_forwarders :
    ¬ ForwardsWhole
      { detectorType := .gigafrost, nModules := 8, bitDepth := 16, imagePixelHeight := 2016,
        imagePixelWidth := 2016, maxNumberOfForwardersSpawned := 10, useAllForwarders := true,
        moduleSyncQueueSize := 4096 } 8128512 := by
  intro h
  obtain ⟨p, hp, hr⟩ := (h.union 4064255).mpr (by decide)
  revert p
  decide

/-- **The stream synchronizer waits for the parts that are sent**, for every configuration that
sends images in parts, exactly when there is no `n` such that the image ends behind `n` rounded
parts but not behind `n` exact parts. With all forwarders this does not matter. -/
theorem numberOfSenders_eq_iff {config : DetectorConfig} {C : ℕ} (hdef : config.ImageSizeDefined)
    (hparts : config.senderSendsFullImages = false)
    (hF : 1 ≤ config.maxNumberOfForwardersSpawned) (hC : convertedImageNBytes config = .ok C)
    (hpos : 0 < C)
    (hmax : config.useAllForwarders = false →
      ∃ M, maxConvertedImageByteSize config = .ok M ∧ C ≤ M) :
    numberOfSenders config = .ok (activeParts config).length ↔
      (config.useAllForwarders = false → ∀ M, maxConvertedImageByteSize config = .ok M →
        ∀ n, n * (M / toSizeT config.maxNumberOfForwardersSpawned) < C →
          n * M < C * toSizeT config.maxNumberOfForwardersSpawned) := by
  obtain ⟨B, h⟩ := cutsInto_of_imageSizeDefined hdef hparts hF hC hmax
  have hcut := h.cut_bytes
  cases hall : config.useAllForwarders with
  | true =>
    rw [cutBytes, if_pos hall, hC] at hcut
    obtain rfl := Except.ok.inj hcut
    refine iff_of_true ?_ (fun hne => absurd hne (by simp))
    rw [numberOfSenders, hparts, if_neg Bool.false_ne_true, if_pos hall,
      h.length_activeParts_of_all hpos]
  | false =>
    rw [cutBytes, hall, if_neg Bool.false_ne_true] at hcut
    rw [h.numberOfSenders_eq (maxConvertedImageByteSize_lt hcut) hall, h.length_activeParts]
    have hunfold : (false = false → ∀ M, maxConvertedImageByteSize config = .ok M →
        ∀ n, n * (M / toSizeT config.maxNumberOfForwardersSpawned) < C →
          n * M < C * toSizeT config.maxNumberOfForwardersSpawned) ↔
        ∀ n, n * width B (toSizeT config.maxNumberOfForwardersSpawned) < C →
          n * B < C * toSizeT config.maxNumberOfForwardersSpawned := by
      constructor
      · intro hround
        exact hround rfl B hcut
      · intro hround _ M hM
        obtain rfl : B = M := Except.ok.inj (hcut.symm.trans hM)
        exact hround
    rw [hunfold]
    by_cases hw : width B (toSizeT config.maxNumberOfForwardersSpawned) = 0
    · -- parts of no bytes: the size of a part is divided by
      rw [if_pos hw, hw]
      refine iff_of_false nofun fun hround => ?_
      have hlt := hround (toSizeT config.maxNumberOfForwardersSpawned) (by omega)
      have hle := Nat.mul_le_mul_right (toSizeT config.maxNumberOfForwardersSpawned) h.image_le
      rw [Nat.mul_comm] at hlt
      omega
    · rw [if_neg hw, Except.ok.injEq]
      exact ceil_width_eq_startedParts_iff h.some_forwarder h.image_le (Nat.pos_of_ne_zero hw)

/-- The 2016x2016 GigaFRoST image with the default eight forwarders. -/
theorem numberOfSenders_eq_eight_forwarders :
    let config : DetectorConfig :=
      { detectorType := .gigafrost, nModules := 8, bitDepth := 16, imagePixelHeight := 2016,
        imagePixelWidth := 2016 }
    numberOfSenders config = .ok (activeParts config).length :=
  (numberOfSenders_eq_iff (C := 8128512)
    ⟨by decide, by decide, by decide, by decide, by decide, by decide, by decide⟩ rfl (by decide)
    (by decide) (by decide) (fun _ => ⟨8128512, rfl, le_rfl⟩)).mpr fun _ M hM n hn => by
      have hdvd : toSizeT 8 ∣ M := (Except.ok.inj hM : 2016 * 2016 * 2 = M) ▸ by decide
      exact mul_lt_of_dvd (by decide) hdvd hn

/-- The 2016x1008 GigaFRoST image with ten forwarders: it takes up five exact parts, but five
rounded parts are one byte short, and the synchronizer waits for a sixth. -/
theorem numberOfSenders_ten_forwarders :
    let config : DetectorConfig :=
      { detectorType := .gigafrost, nModules := 8, bitDepth := 16, imagePixelHeight := 1008,
        imagePixelWidth := 2016, maxNumberOfForwardersSpawned := 10 }
    config.ImageSizeDefined ∧ convertedImageNBytes config = .ok 4064256 ∧
      numberOfSenders config = .ok 6 ∧ (activeParts config).length = 5 := by
  refine ⟨⟨by decide, by decide, by decide, by decide, by decide, by decide, by decide⟩, ?_, ?_, ?_⟩
  · decide
  · decide
  · decide

end Forwarding

end StdDaq
