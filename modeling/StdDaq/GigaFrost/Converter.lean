import Mathlib.Tactic.LinearCombination
import StdDaq.DetectorConfig
import StdDaq.Lib.Overlay

/-!
# The GigaFRoST converter

The class `gf::sdc::Converter` of `std_data_convert_gf`. A GigaFRoST image comes in eight frames,
two links for each of four quadrants. The rows of a quadrant alternate between its links, and they
are sent from the middle of the image outwards. A converter unpacks the 12-bit pixels of one frame
and stores them in the image.

Indices are formed from `std::size_t` and `int` values, and the conversions are explicit here:
`toSizeT`, `toInt` and `toLong`. A read or a store outside of its span is undefined behaviour in
the source; here the conversion then has no value.

## Main definitions

* `Converter.convert` — the conversion of one frame
* `pixelIndex` — where a pixel of a frame belongs, in terms of the quadrants and links

## Main results

* `convert_overlays` — a conversion stores the pixels of its frame at their places,
  and nothing else
-/

namespace StdDaq

namespace GigaFrost

/-- `gf::quadrant_id`, in the order of its values. -/
inductive QuadrantId where
  | sw
  | se
  | nw
  | ne
  deriving DecidableEq, Repr

namespace QuadrantId

/-- The quadrant is in the upper half of the image. -/
def isNorth : QuadrantId → Bool
  | sw | se => false
  | nw | ne => true

/-- The quadrant is in the right half of the image. -/
def isEast : QuadrantId → Bool
  | sw | nw => false
  | se | ne => true

end QuadrantId

/-- `conversion_handle`: three bytes that hold two pixels. Fields are allocated from the least
significant bit on. -/
structure ConversionHandle where
  p11 : ℕ
  p21 : ℕ
  p12 : ℕ
  p22 : ℕ

namespace ConversionHandle

/-- The fields of three consecutive bytes. -/
def ofBytes (b0 b1 b2 : UInt8) : ConversionHandle where
  p11 := b0.toNat
  p21 := b1.toNat % 16
  p12 := b1.toNat / 16
  p22 := b2.toNat

/-- The value stored at the even index. -/
def first (h : ConversionHandle) : UInt16 := UInt16.ofNat (h.p11 ||| h.p21 <<< 8)

/-- The value stored at the odd index. -/
def second (h : ConversionHandle) : UInt16 := UInt16.ofNat (h.p12 ||| h.p22 <<< 4)

end ConversionHandle

/-- `conversion[i]`, when the input has that many bytes. -/
def conversionAt (input : List UInt8) (i : ℕ) : Option ConversionHandle :=
  match input[3 * i]?, input[3 * i + 1]?, input[3 * i + 2]? with
  | some b0, some b1, some b2 => some (.ofBytes b0 b1 b2)
  | _, _, _ => none

/-- The members of a converter. -/
structure Converter where
  height : ℕ
  width : ℕ
  startIndex : ℕ
  rowJump : ℤ

namespace Converter

/-- `calculate_start_index`. -/
def calculateStartIndex (moduleId : ℤ) (quadrant : QuadrantId) (imageHeight imageWidth : ℕ) : ℕ :=
  let shift := if moduleId.tmod 2 ≠ 0 then imageWidth else 0
  match quadrant with
  | .sw => toSizeT ((imageHeight / 2 * imageWidth + shift : ℕ) : ℤ)
  | .se => toSizeT ((imageHeight / 2 * imageWidth + imageWidth / 2 + shift : ℕ) : ℤ)
  | .nw => toSizeT ((toSizeT (imageHeight - 1) / 2 * imageWidth : ℕ) - shift)
  | .ne => toSizeT ((toSizeT (imageHeight - 1) / 2 * imageWidth + imageWidth / 2 : ℕ) - shift)

/-- `calculate_row_jump`. -/
def calculateRowJump (quadrant : QuadrantId) (imageWidth : ℕ) : ℤ :=
  2 * toInt imageWidth * if quadrant = .nw ∨ quadrant = .ne then -1 else 1

/-- The constructor. -/
def create (imageHeight imageWidth : ℕ) (q : QuadrantId) (moduleId : ℤ) : Converter where
  height := imageHeight
  width := imageWidth
  startIndex := calculateStartIndex moduleId q imageHeight imageWidth
  rowJump := calculateRowJump q imageWidth

/-- The inner loop of `convert`, from index `j` on. -/
def convertRow (input : List UInt8) (endRow j : ℤ) (i : ℕ) (output : List UInt16) :
    Option (List UInt16 × ℕ) :=
  if j < endRow then do
    let handle ← conversionAt input i
    let output ← storeAt output j handle.first
    let output ← storeAt output (j + 1) handle.second
    convertRow input endRow (j + 2) (i + 1) output
  else some (output, i)
termination_by (endRow - j).toNat

/-- The first index of a row. -/
def startRow (c : Converter) (row : ℕ) : ℤ :=
  toLong (toSizeT (c.rowJump * toInt row + c.startIndex))

/-- The index behind the last one of a row. -/
def endRow (c : Converter) (row : ℕ) : ℤ := toLong (toSizeT (c.startRow row + (c.width / 2 : ℕ)))

/-- The body of the outer loop of `convert`, on the output and the index of the next handle. -/
def convertBody (c : Converter) (input : List UInt8) (state : List UInt16 × ℕ) (row : ℕ) :
    Option (List UInt16 × ℕ) :=
  convertRow input (c.endRow row) (c.startRow row) state.2 state.1

/-- `convert`. -/
def convert (c : Converter) (input : List UInt8) (output : List UInt16) : Option (List UInt16) :=
  ((List.range (c.height / 4)).foldlM (c.convertBody input) (output, 0)).map Prod.fst

end Converter

/-! ### Where pixels belong -/

/-- One of the eight modules: a quadrant and one of its two links. -/
structure DetectorModule where
  quadrant : QuadrantId
  link : Fin 2
  deriving DecidableEq, Repr

/-- The row of the image that holds row `r` of a frame. -/
def pixelRow (height : ℕ) (m : DetectorModule) (r : ℕ) : ℕ :=
  if m.quadrant.isNorth then height / 2 - 1 - m.link - 2 * r else height / 2 + 2 * r + m.link

/-- The column of the image that holds column `c` of a frame. -/
def pixelColumn (width : ℕ) (m : DetectorModule) (c : ℕ) : ℕ :=
  if m.quadrant.isEast then width / 2 + c else c

/-- The index in the image of a pixel of a frame. -/
def pixelIndex (height width : ℕ) (m : DetectorModule) (r c : ℕ) : ℕ :=
  pixelRow height m r * width + pixelColumn width m c

/-- The identifier of a module: `std_data_convert_gf` takes the quadrant of `module_id / 2`, and
the parity is the link. -/
def DetectorModule.moduleId (m : DetectorModule) : ℤ :=
  (match m.quadrant with
    | .sw => 0
    | .se => 2
    | .nw => 4
    | .ne => 6) + m.link

/-- The converter of a module. -/
def DetectorModule.converter (height width : ℕ) (m : DetectorModule) : Converter :=
  .create height width m.quadrant m.moduleId

/-- Pixel `n` of a packed frame. -/
def unpackedPixel (input : List UInt8) (n : ℕ) : Option UInt16 :=
  (conversionAt input (n / 2)).map fun handle =>
    if n % 2 = 0 then handle.first else handle.second

/-- The sizes of an image: positive multiples of four, for which the two products formed in `int`,
the row jump and its multiple for the last row, do not overflow. -/
structure RegularSize (height width : ℕ) : Prop where
  height_pos : 0 < height
  width_pos : 0 < width
  four_dvd_height : 4 ∣ height
  four_dvd_width : 4 ∣ width
  rowJump_lt : 2 * width < 2 ^ 31
  lastRow_lt : 2 * width * (height / 4 - 1) < 2 ^ 31

section Geometry

variable {height width : ℕ} {m : DetectorModule} {r c : ℕ}

theorem RegularSize.quarter_lt (h : RegularSize height width) : height / 4 - 1 < 2 ^ 31 :=
  (Nat.le_mul_of_pos_left _ (Nat.mul_pos (by omega) h.width_pos)).trans_lt h.lastRow_lt

/-- All indices are far from the limits of `std::size_t` and `long`. -/
theorem RegularSize.size_lt (h : RegularSize height width) : height * width < 2 ^ 34 := by
  obtain ⟨k, rfl⟩ := h.four_dvd_height
  have hk : 0 < k := by have := h.height_pos; omega
  have hlast := h.lastRow_lt
  have hjump := h.rowJump_lt
  rw [Nat.mul_div_cancel_left k (by omega)] at hlast
  have hsplit : 4 * k * width = 2 * (2 * width * (k - 1)) + 4 * width := by
    obtain ⟨k, rfl⟩ := Nat.exists_eq_add_of_lt hk
    simp only [Nat.zero_add, Nat.add_sub_cancel]
    ring
  omega

theorem RegularSize.half_pos (h : RegularSize height width) : 0 < width / 2 := by
  have := h.width_pos
  have := h.four_dvd_width
  omega

theorem pixelRow_lt (h : RegularSize height width) (hr : r < height / 4) :
    pixelRow height m r < height := by
  have := h.height_pos
  rw [pixelRow]
  split
  · omega
  · have := m.link.isLt
    omega

theorem pixelColumn_lt (hc : c < width / 2) :
    pixelColumn width m c < width := by
  rw [pixelColumn]
  split
  · omega
  · omega

theorem pixelIndex_lt (h : RegularSize height width) (hr : r < height / 4) (hc : c < width / 2) :
    pixelIndex height width m r c < height * width := by
  have hrow : pixelRow height m r + 1 ≤ height := pixelRow_lt h hr
  calc pixelIndex height width m r c
    _ < pixelRow height m r * width + width := Nat.add_lt_add_left (pixelColumn_lt hc) _
    _ = (pixelRow height m r + 1) * width := (Nat.succ_mul _ _).symm
    _ ≤ height * width := Nat.mul_le_mul_right width hrow

theorem pixelIndex_add (height width : ℕ) (m : DetectorModule) (r c : ℕ) :
    pixelIndex height width m r c = pixelIndex height width m r 0 + c := by
  rw [pixelIndex, pixelIndex, pixelColumn, pixelColumn]
  split
  · omega
  · omega

/-- The link of a module is the parity of its identifier. -/
theorem shift_eq (m : DetectorModule) (width : ℕ) :
    (if m.moduleId.tmod 2 ≠ 0 then width else 0) = m.link * width := by
  obtain ⟨q, l⟩ := m
  have hl : l = 0 ∨ l = 1 := by omega
  rcases hl with rfl | rfl <;> cases q <;> simp [DetectorModule.moduleId]

/-- The row of a pixel, as an integer. -/
theorem pixelRow_cast (h : RegularSize height width) (m : DetectorModule) (hr : r < height / 4) :
    (pixelRow height m r : ℤ) =
      if m.quadrant.isNorth then (height / 2 : ℕ) - 1 - (m.link : ℕ) - 2 * (r : ℤ)
      else (height / 2 : ℕ) + 2 * (r : ℤ) + (m.link : ℕ) := by
  have := m.link.isLt
  have := h.four_dvd_height
  rw [pixelRow]
  split
  · omega
  · omega

/-- The start index is the place of the first pixel. -/
theorem calculateStartIndex_eq (h : RegularSize height width) (m : DetectorModule) :
    Converter.calculateStartIndex m.moduleId m.quadrant height width =
      pixelIndex height width m 0 0 := by
  have h4 : 0 < height / 4 := by
    have := h.height_pos; have := h.four_dvd_height; omega
  have hlt : pixelIndex height width m 0 0 < 2 ^ 64 :=
    (pixelIndex_lt h h4 h.half_pos).trans (h.size_lt.trans (by omega))
  have hnorth : ((toSizeT (height - 1) / 2 : ℕ) : ℤ) = (height / 2 : ℕ) - 1 := by
    have := h.height_pos
    have := h.quarter_lt
    have := h.four_dvd_height
    rw [toSizeT]
    omega
  have hrow := pixelRow_cast h m h4
  rw [← toSizeT_natCast_of_lt hlt, pixelIndex]
  simp only [Converter.calculateStartIndex, shift_eq]
  obtain ⟨q, l⟩ := m
  cases q with
  | sw =>
    refine congrArg toSizeT ?_
    simp only [QuadrantId.isNorth, Bool.false_eq_true, if_false] at hrow
    simp only [pixelColumn, QuadrantId.isEast, Bool.false_eq_true, if_false]
    push_cast [hrow]
    ring
  | se =>
    refine congrArg toSizeT ?_
    simp only [QuadrantId.isNorth, Bool.false_eq_true, if_false] at hrow
    simp only [pixelColumn, QuadrantId.isEast, if_true]
    push_cast [hrow]
    ring
  | nw =>
    refine congrArg toSizeT ?_
    simp only [QuadrantId.isNorth, if_true] at hrow
    simp only [pixelColumn, QuadrantId.isEast, Bool.false_eq_true, if_false]
    rw [Nat.cast_mul, hnorth]
    push_cast [hrow]
    ring
  | ne =>
    refine congrArg toSizeT ?_
    simp only [QuadrantId.isNorth, if_true] at hrow
    simp only [pixelColumn, QuadrantId.isEast, if_true]
    rw [Nat.cast_add, Nat.cast_mul, hnorth]
    push_cast [hrow]
    ring

/-- The row jump leads from the first pixel of a frame to the first pixel of each row. -/
theorem rowJump_mul_add (h : RegularSize height width) (m : DetectorModule) (hr : r < height / 4) :
    Converter.calculateRowJump m.quadrant width * r + pixelIndex height width m 0 0 =
      (pixelIndex height width m r 0 : ℤ) := by
  have hrow := pixelRow_cast h m hr
  have hrow0 := pixelRow_cast h m (r := 0) (by omega)
  rw [Converter.calculateRowJump, toInt_of_lt (by have := h.rowJump_lt; omega), pixelIndex,
    pixelIndex]
  push_cast [hrow, hrow0]
  obtain ⟨q, l⟩ := m
  cases q <;> simp [QuadrantId.isNorth] <;> ring

theorem startRow_eq (h : RegularSize height width) (m : DetectorModule) (hr : r < height / 4) :
    (m.converter height width).startRow r = pixelIndex height width m r 0 := by
  have hwidth := h.half_pos
  have hlt := (pixelIndex_lt (m := m) h hr hwidth).trans h.size_lt
  have hrlt : r < 2 ^ 31 := (Nat.le_sub_one_of_lt hr).trans_lt h.quarter_lt
  change toLong (toSizeT (Converter.calculateRowJump m.quadrant width * toInt r +
    Converter.calculateStartIndex m.moduleId m.quadrant height width)) = _
  rw [calculateStartIndex_eq h m, toInt_of_lt hrlt, rowJump_mul_add h m hr,
    toSizeT_natCast_of_lt (by omega), toLong_of_lt (by omega)]

theorem endRow_eq (h : RegularSize height width) (m : DetectorModule) (hr : r < height / 4) :
    (m.converter height width).endRow r = pixelIndex height width m r 0 + (width / 2 : ℕ) := by
  have hwidth := h.half_pos
  have hlt := (pixelIndex_lt (m := m) h hr (by omega : width / 2 - 1 < width / 2)).trans h.size_lt
  rw [pixelIndex_add] at hlt
  change toLong (toSizeT ((m.converter height width).startRow r + (width / 2 : ℕ))) = _
  rw [startRow_eq h m hr, ← Nat.cast_add, toSizeT_natCast_of_lt (by omega),
    toLong_of_lt (by omega)]

end Geometry

/-! ### What a conversion stores -/

theorem conversionAt_of_unpackedPixel {input : List UInt8} {i : ℕ} {p : UInt16}
    (h : unpackedPixel input (2 * i) = some p) :
    ∃ handle, conversionAt input i = some handle ∧ handle.first = p := by
  rw [unpackedPixel, Nat.mul_div_cancel_left i (by omega), Option.map_eq_some_iff] at h
  obtain ⟨handle, hat, hval⟩ := h
  exact ⟨handle, hat, by rwa [if_pos (Nat.mul_mod_right 2 i)] at hval⟩

theorem second_eq_of_unpackedPixel {input : List UInt8} {i : ℕ} {p : UInt16}
    {handle : ConversionHandle} (hat : conversionAt input i = some handle)
    (h : unpackedPixel input (2 * i + 1) = some p) : handle.second = p := by
  have hdiv : (2 * i + 1) / 2 = i := by omega
  have hmod : (2 * i + 1) % 2 ≠ 0 := by omega
  rw [unpackedPixel, hdiv, hat, Option.map_some, if_neg hmod] at h
  exact Option.some.inj h

/-- One row: `n` handles are unpacked to `2 * n` neighbouring cells. -/
theorem convertRow_overlays (f : ℕ → UInt16) (input : List UInt8) (n : ℕ) :
    ∀ (b i : ℕ) (out : List UInt16),
      (∀ c < 2 * n, unpackedPixel input (2 * i + c) = some (f (b + c))) →
      b + 2 * n ≤ out.length →
      ∃ out', Converter.convertRow input (b + 2 * n : ℕ) b i out = some (out', i + n) ∧
        Overlays f {k | b ≤ k ∧ k < b + 2 * n} out out' := by
  induction n with
  | zero =>
    intro b i out _ _
    refine ⟨out, ?_, (Overlays.refl f out).congr fun k => ?_⟩
    · rw [Converter.convertRow, if_neg (by omega)]
      rfl
    · simp only [Set.mem_empty_iff_false, Set.mem_ofPred_eq, false_iff]
      omega
  | succ n ih =>
    intro b i out hin hlen
    obtain ⟨handle, hat, hfirst⟩ := conversionAt_of_unpackedPixel (hin 0 (by omega))
    have hsecond := second_eq_of_unpackedPixel hat (hin 1 (by omega))
    obtain ⟨out₁, hstore₁, hover₁⟩ := Overlays.store (f := f) (a := out) (k := b) (by omega)
    have hlen₁ := hover₁.length_eq
    obtain ⟨out₂, hstore₂, hover₂⟩ :=
      Overlays.store (f := f) (a := out₁) (k := b + 1) (by omega)
    have hlen₂ := hover₂.length_eq
    obtain ⟨out', hrest, hover⟩ := ih (b + 2) (i + 1) out₂
      (fun c hc => by
        have := hin (c + 2) (by omega)
        rwa [show 2 * i + (c + 2) = 2 * (i + 1) + c by omega,
          show b + (c + 2) = b + 2 + c by omega] at this) (by omega)
    refine ⟨out', ?_, ((hover₁.trans hover₂).trans hover).congr fun k => ?_⟩
    · rw [Converter.convertRow, if_pos (by omega), hat]
      simp only [Option.bind_eq_bind, Option.bind_some, hfirst, hsecond, Nat.add_zero, hstore₁]
      rw [show (b : ℤ) + 1 = (b + 1 : ℕ) by omega, hstore₂, Option.bind_some,
        show (b : ℤ) + 2 = (b + 2 : ℕ) by omega,
        show b + 2 * (n + 1) = b + 2 + 2 * n by omega, hrest,
        show i + 1 + n = i + (n + 1) by omega]
    · simp only [Set.mem_union, Set.mem_singleton_iff, Set.mem_ofPred_eq]
      omega

/-- The indices at which the pixels of a frame belong. -/
def frameIndices (height width : ℕ) (m : DetectorModule) : Set ℕ :=
  {k | ∃ r < height / 4, ∃ c < width / 2, k = pixelIndex height width m r c}

/-- One row of a frame. -/
theorem convertBody_overlays {height width : ℕ} (h : RegularSize height width)
    (m : DetectorModule) {f : ℕ → UInt16} {input : List UInt8} {out : List UInt16}
    (hout : out.length = height * width) {r : ℕ} (hr : r < height / 4)
    (hin : ∀ c < width / 2,
      unpackedPixel input (r * (width / 2) + c) = some (f (pixelIndex height width m r c))) :
    ∃ out', (m.converter height width).convertBody input (out, r * (width / 4)) r =
        some (out', (r + 1) * (width / 4)) ∧
      Overlays f {k | ∃ c < width / 2, k = pixelIndex height width m r c} out out' := by
  have hwidth : width / 2 = 2 * (width / 4) := by have := h.four_dvd_width; omega
  have hpos := h.half_pos
  have hlast : pixelIndex height width m r (width / 2 - 1) < height * width :=
    pixelIndex_lt h hr (by omega)
  rw [pixelIndex_add] at hlast
  obtain ⟨out', hrow, hover⟩ := convertRow_overlays f input (width / 4)
    (pixelIndex height width m r 0) (r * (width / 4)) out
    (fun c hc => by
      have := hin c (by omega)
      rwa [pixelIndex_add, hwidth, show r * (2 * (width / 4)) = 2 * (r * (width / 4)) by ring]
        at this)
    (by omega)
  refine ⟨out', ?_, hover.congr fun k => ?_⟩
  · rw [Converter.convertBody, startRow_eq h m hr, endRow_eq h m hr, ← Nat.cast_add, hwidth, hrow,
      Nat.succ_mul]
  · simp only [Set.mem_ofPred_eq]
    constructor
    · rintro ⟨hle, hlt⟩
      refine ⟨k - pixelIndex height width m r 0, by omega, ?_⟩
      rw [pixelIndex_add]
      omega
    · rintro ⟨c, hc, rfl⟩
      rw [pixelIndex_add height width m r c]
      omega

/-- The rows of a frame, one after the other. -/
theorem convertRows_overlays {height width : ℕ} (h : RegularSize height width)
    (m : DetectorModule) {f : ℕ → UInt16} {input : List UInt8} {out : List UInt16}
    (hout : out.length = height * width)
    (hin : ∀ r < height / 4, ∀ c < width / 2,
      unpackedPixel input (r * (width / 2) + c) = some (f (pixelIndex height width m r c)))
    (n : ℕ) (hn : n ≤ height / 4) :
    ∃ out', (List.range n).foldlM ((m.converter height width).convertBody input) (out, 0) =
        some (out', n * (width / 4)) ∧
      Overlays f {k | ∃ r < n, ∃ c < width / 2, k = pixelIndex height width m r c} out out' := by
  induction n with
  | zero =>
    refine ⟨out, by simp, (Overlays.refl f out).congr fun k => ?_⟩
    simp
  | succ n ih =>
    obtain ⟨out₁, hrows, hover₁⟩ := ih (by omega)
    obtain ⟨out', hrow, hover⟩ :=
      convertBody_overlays h m (hover₁.length_eq.trans hout) hn (hin n hn)
    refine ⟨out', ?_, (hover₁.trans hover).congr fun k => ?_⟩
    · rw [foldlM_range_succ, hrows, Option.bind_some, hrow]
    · simp only [Set.mem_union, Set.mem_ofPred_eq]
      constructor
      · rintro (⟨r, hr, hc⟩ | hc)
        · exact ⟨r, by omega, hc⟩
        · exact ⟨n, by omega, hc⟩
      · rintro ⟨r, hr, hc⟩
        rcases Nat.lt_succ_iff_lt_or_eq.mp hr with hr | rfl
        · exact .inl ⟨r, hr, hc⟩
        · exact .inr hc

/-- **What a conversion does.** It stores the pixels of its frame at the indices where they belong
and leaves the rest of the image alone. -/
theorem convert_overlays {height width : ℕ} (h : RegularSize height width) (m : DetectorModule)
    {f : ℕ → UInt16} {input : List UInt8} {out : List UInt16} (hout : out.length = height * width)
    (hin : ∀ r < height / 4, ∀ c < width / 2,
      unpackedPixel input (r * (width / 2) + c) = some (f (pixelIndex height width m r c))) :
    ∃ out', (m.converter height width).convert input out = some out' ∧
      Overlays f (frameIndices height width m) out out' := by
  obtain ⟨out', hrows, hover⟩ := convertRows_overlays h m hout hin (height / 4) le_rfl
  refine ⟨out', ?_, hover⟩
  change Option.map Prod.fst ((List.range (height / 4)).foldlM _ (out, 0)) = some out'
  rw [hrows]
  rfl

end GigaFrost

end StdDaq
