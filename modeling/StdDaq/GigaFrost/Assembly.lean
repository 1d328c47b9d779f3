import Mathlib.Data.Nat.Digits.Defs
import StdDaq.GigaFrost.Converter

/-!
# GigaFRoST assembly inverts the layout of the detector

The detector cuts an image into eight frames and sends each of them as a stream of 12-bit pixels;
the converters put the image together again. Both directions are written down here: `cutFrame`
and `packFrame` are the detector's side, as the simulator of the repository produces it, and the
converters are the service's. Whatever the order of the eight conversions and whatever the image
buffer held before, the buffer then holds the image.

Three facts make up the result. The eight frames partition the image (`pixelIndex_unique`,
`exists_pixelIndex`); unpacking three bytes gives back the two pixels packed into them
(`unpackedPixel_packFrame`); and a conversion stores its frame's pixels at their places
(`convert_overlays`).
-/

namespace StdDaq

namespace GigaFrost

/-! ### The frames partition the image -/

section Partition

variable {height width : ℕ}

theorem exists_quadrant (north east : Bool) :
    ∃ q : QuadrantId, q.isNorth = north ∧ q.isEast = east := by
  cases north <;> cases east
  · exact ⟨.sw, rfl, rfl⟩
  · exact ⟨.se, rfl, rfl⟩
  · exact ⟨.nw, rfl, rfl⟩
  · exact ⟨.ne, rfl, rfl⟩

theorem quadrant_ext {q q' : QuadrantId} (hnorth : q.isNorth = q'.isNorth)
    (heast : q.isEast = q'.isEast) : q = q' := by
  cases q <;> cases q' <;> simp_all [QuadrantId.isNorth, QuadrantId.isEast]

/-- Every row of the image is a row of one of the links of its half: counted outwards from the
middle, rows alternate between the links. -/
theorem exists_pixelRow (h4 : 4 ∣ height) {row : ℕ} (hrow : row < height) :
    ∃ (l : Fin 2) (r : ℕ), r < height / 4 ∧
      ∀ q : QuadrantId, q.isNorth = decide (row < height / 2) → pixelRow height ⟨q, l⟩ r = row := by
  rcases Nat.lt_or_ge row (height / 2) with hlt | hge
  · refine ⟨⟨(height / 2 - 1 - row) % 2, Nat.mod_lt _ (by omega)⟩, (height / 2 - 1 - row) / 2,
      by omega, fun q hq => ?_⟩
    rw [pixelRow, hq, if_pos (decide_eq_true hlt)]
    change height / 2 - 1 - (height / 2 - 1 - row) % 2 - 2 * ((height / 2 - 1 - row) / 2) = row
    omega
  · refine ⟨⟨(row - height / 2) % 2, Nat.mod_lt _ (by omega)⟩, (row - height / 2) / 2,
      by omega, fun q hq => ?_⟩
    rw [pixelRow, hq, if_neg (by simpa using hge)]
    change height / 2 + 2 * ((row - height / 2) / 2) + (row - height / 2) % 2 = row
    omega

theorem exists_pixelColumn (h2 : 2 ∣ width) {col : ℕ} (hcol : col < width) :
    ∃ c < width / 2, ∀ (q : QuadrantId) (l : Fin 2), q.isEast = decide (width / 2 ≤ col) →
      pixelColumn width ⟨q, l⟩ c = col := by
  rcases Nat.lt_or_ge col (width / 2) with hlt | hge
  · refine ⟨col, hlt, fun q l hq => ?_⟩
    rw [pixelColumn, hq, if_neg (by simpa using hlt)]
  · refine ⟨col - width / 2, by omega, fun q l hq => ?_⟩
    rw [pixelColumn, hq, if_pos (decide_eq_true hge)]
    omega

/-- Every index of the image belongs to a pixel of some frame. -/
theorem exists_pixelIndex (h : RegularSize height width) {k : ℕ} (hk : k < height * width) :
    ∃ m, k ∈ frameIndices height width m := by
  obtain ⟨l, r, hr, hrow⟩ := exists_pixelRow h.four_dvd_height
    ((Nat.div_lt_iff_lt_mul h.width_pos).mpr hk)
  obtain ⟨c, hc, hcol⟩ := exists_pixelColumn (dvd_trans (by decide) h.four_dvd_width)
    (Nat.mod_lt k h.width_pos)
  obtain ⟨q, hnorth, heast⟩ := exists_quadrant (decide (k / width < height / 2))
    (decide (width / 2 ≤ k % width))
  refine ⟨⟨q, l⟩, r, hr, c, hc, ?_⟩
  rw [pixelIndex, hrow q hnorth, hcol q l heast]
  exact (Nat.div_add_mod' k width).symm

/-- A row belongs to one half, one link and one row of the frames only. -/
theorem pixelRow_inj (h4 : 4 ∣ height) {m m' : DetectorModule} {r r' : ℕ} (hr : r < height / 4)
    (hr' : r' < height / 4) (h : pixelRow height m r = pixelRow height m' r') :
    m.quadrant.isNorth = m'.quadrant.isNorth ∧ m.link = m'.link ∧ r = r' := by
  have hl := m.link.isLt
  have hl' := m'.link.isLt
  rw [pixelRow, pixelRow] at h
  cases hn : m.quadrant.isNorth <;> cases hn' : m'.quadrant.isNorth <;>
    simp only [hn, hn', if_true, if_false, Bool.false_eq_true] at h
  · exact ⟨rfl, Fin.ext (by omega), by omega⟩
  · omega
  · omega
  · exact ⟨rfl, Fin.ext (by omega), by omega⟩

theorem pixelColumn_inj {m m' : DetectorModule} {c c' : ℕ} (hc : c < width / 2)
    (hc' : c' < width / 2) (h : pixelColumn width m c = pixelColumn width m' c') :
    m.quadrant.isEast = m'.quadrant.isEast ∧ c = c' := by
  rw [pixelColumn, pixelColumn] at h
  cases he : m.quadrant.isEast <;> cases he' : m'.quadrant.isEast <;>
    simp only [he, he', if_true, if_false, Bool.false_eq_true] at h
  · exact ⟨rfl, h⟩
  · omega
  · omega
  · exact ⟨rfl, by omega⟩

/-- No index belongs to two pixels. -/
theorem pixelIndex_unique (h : RegularSize height width) {m m' : DetectorModule} {r r' c c' : ℕ}
    (hr : r < height / 4) (hr' : r' < height / 4) (hc : c < width / 2) (hc' : c' < width / 2)
    (heq : pixelIndex height width m r c = pixelIndex height width m' r' c') :
    m = m' ∧ r = r' ∧ c = c' := by
  have hcol := pixelColumn_lt (m := m) hc
  have hcol' := pixelColumn_lt (m := m') hc'
  rw [pixelIndex, pixelIndex] at heq
  have hrow : pixelRow height m r = pixelRow height m' r' := by
    have := congrArg (· / width) heq
    simpa [Nat.add_comm, Nat.add_mul_div_right _ _ h.width_pos, Nat.div_eq_of_lt hcol,
      Nat.div_eq_of_lt hcol'] using this
  have hcolumn : pixelColumn width m c = pixelColumn width m' c' := by
    rw [hrow] at heq
    exact Nat.add_left_cancel heq
  obtain ⟨hnorth, hlink, rfl⟩ := pixelRow_inj h.four_dvd_height hr hr' hrow
  obtain ⟨heast, rfl⟩ := pixelColumn_inj hc hc' hcolumn
  refine ⟨?_, rfl, rfl⟩
  obtain ⟨q, l⟩ := m
  obtain ⟨q', l'⟩ := m'
  obtain rfl : q = q' := quadrant_ext hnorth heast
  obtain rfl : l = l' := hlink
  rfl

theorem frameIndices_lt (h : RegularSize height width) {m : DetectorModule} {k : ℕ}
    (hk : k ∈ frameIndices height width m) : k < height * width := by
  obtain ⟨r, hr, c, hc, rfl⟩ := hk
  exact pixelIndex_lt h hr hc

theorem frameIndices_disjoint (h : RegularSize height width) {m m' : DetectorModule}
    (hne : m ≠ m') : Disjoint (frameIndices height width m) (frameIndices height width m') := by
  refine Set.disjoint_left.mpr fun k hk hk' => ?_
  obtain ⟨r, hr, c, hc, rfl⟩ := hk
  obtain ⟨r', hr', c', hc', heq⟩ := hk'
  exact hne (pixelIndex_unique h hr hr' hc hc' heq).1

end Partition

/-! ### Packing -/

section Packing

/-- The loop of the simulator that collects 12-bit pixels in one large integer. -/
def packPixels (pixels : List ℕ) : ℕ :=
  (pixels.foldl (fun (s : ℕ × ℕ) pixel => (s.1 ||| pixel <<< (s.2 * 12), s.2 + 1)) (0, 0)).1

/-- `int.to_bytes(n, 'little')`. -/
def toBytesLittle (n value : ℕ) : List UInt8 :=
  (List.range n).map fun k => UInt8.ofNat (value >>> (8 * k))

/-- A frame as the detector sends it: twelve bits for each pixel, without gaps. -/
def packFrame (pixels : List UInt16) : List UInt8 :=
  toBytesLittle (pixels.length * 12 / 8) (packPixels (pixels.map UInt16.toNat))

/-- Packing is writing the pixels as the digits of a number in base `4096`. -/
theorem packPixels_eq_ofDigits {pixels : List ℕ} (h : ∀ p ∈ pixels, p < 4096) :
    packPixels pixels = Nat.ofDigits 4096 pixels := by
  suffices hloop : ∀ (acc i : ℕ), acc < 4096 ^ i →
      (pixels.foldl (fun (s : ℕ × ℕ) pixel => (s.1 ||| pixel <<< (s.2 * 12), s.2 + 1)) (acc, i)).1 =
        acc + 4096 ^ i * Nat.ofDigits 4096 pixels by
    rw [packPixels, hloop 0 0 (by omega), Nat.pow_zero, Nat.zero_add, Nat.one_mul]
  induction pixels with
  | nil => intro acc i _; simp
  | cons p pixels ih =>
    intro acc i hacc
    have hp : p < 4096 := h p List.mem_cons_self
    have hpow : (4096 : ℕ) ^ i = 2 ^ (i * 12) := by rw [Nat.mul_comm, Nat.pow_mul]
    have hor : acc ||| p <<< (i * 12) = acc + 4096 ^ i * p := by
      rw [Nat.or_comm, ← Nat.shiftLeft_add_eq_or_of_lt (hpow ▸ hacc), Nat.shiftLeft_eq, hpow]
      ring
    have hnext : acc + 4096 ^ i * p < 4096 ^ (i + 1) := by
      calc acc + 4096 ^ i * p
        _ < 4096 ^ i + 4096 ^ i * p := Nat.add_lt_add_right hacc _
        _ = 4096 ^ i * (p + 1) := by ring
        _ ≤ 4096 ^ i * 4096 := Nat.mul_le_mul_left _ hp
        _ = 4096 ^ (i + 1) := (Nat.pow_succ ..).symm
    rw [List.foldl_cons]
    simp only [hor]
    rw [ih (fun q hq => h q (List.mem_cons_of_mem _ hq)) _ _ hnext, Nat.ofDigits_cons, Nat.pow_succ]
    ring

/-- Pixel `n` is the digit at place `n`. -/
theorem ofDigits_div_mod {b : ℕ} {l : List ℕ} (hl : ∀ x ∈ l, x < b) {n : ℕ} (hn : n < l.length) :
    Nat.ofDigits b l / b ^ n % b = l[n] := by
  have hlt := hl _ (List.getElem_mem hn)
  rw [Nat.ofDigits_div_pow_eq_ofDigits_drop n (by omega) l hl, List.drop_eq_getElem_cons hn,
    Nat.ofDigits_cons]
  rw [Nat.add_mul_mod_self_left, Nat.mod_eq_of_lt hlt]

theorem toBytesLittle_getElem? {n value k : ℕ} (hk : k < n) :
    (toBytesLittle n value)[k]? = some (UInt8.ofNat (value / 2 ^ (8 * k))) := by
  rw [toBytesLittle, List.getElem?_map, List.getElem?_range hk, Option.map_some,
    Nat.shiftRight_eq_div_pow]

/-- The two values of a handle are the two 12-bit digits of its three bytes. -/
theorem handle_values (value : ℕ) :
    (ConversionHandle.ofBytes (UInt8.ofNat value) (UInt8.ofNat (value / 256))
        (UInt8.ofNat (value / 65536))).first = UInt16.ofNat (value % 4096) ∧
      (ConversionHandle.ofBytes (UInt8.ofNat value) (UInt8.ofNat (value / 256))
        (UInt8.ofNat (value / 65536))).second = UInt16.ofNat (value / 4096 % 4096) := by
  constructor
  · refine congrArg UInt16.ofNat ?_
    change (UInt8.ofNat value).toNat ||| ((UInt8.ofNat (value / 256)).toNat % 16) <<< 8 = _
    rw [Nat.or_comm, ← Nat.shiftLeft_add_eq_or_of_lt (UInt8.toNat_lt _), Nat.shiftLeft_eq,
      UInt8.toNat_ofNat', UInt8.toNat_ofNat']
    omega
  · refine congrArg UInt16.ofNat ?_
    change (UInt8.ofNat (value / 256)).toNat / 16 ||| (UInt8.ofNat (value / 65536)).toNat <<< 4 = _
    have hlow : (UInt8.ofNat (value / 256)).toNat / 16 < 2 ^ 4 := by
      have := UInt8.toNat_lt (UInt8.ofNat (value / 256))
      omega
    rw [Nat.or_comm, ← Nat.shiftLeft_add_eq_or_of_lt hlow, Nat.shiftLeft_eq,
      UInt8.toNat_ofNat', UInt8.toNat_ofNat']
    omega

/-- The handles of a frame. -/
theorem conversionAt_toBytesLittle {n value i : ℕ} (hi : 3 * i + 2 < n) :
    conversionAt (toBytesLittle n value) i =
      some (.ofBytes (UInt8.ofNat (value / 4096 ^ (2 * i)))
        (UInt8.ofNat (value / 4096 ^ (2 * i) / 256))
        (UInt8.ofNat (value / 4096 ^ (2 * i) / 65536))) := by
  have hpow : (4096 : ℕ) ^ (2 * i) = 2 ^ (24 * i) := by
    rw [Nat.pow_mul, Nat.pow_mul]
  have h0 : 2 ^ (8 * (3 * i)) = 2 ^ (24 * i) := congrArg _ (by omega)
  have h1 : 2 ^ (8 * (3 * i + 1)) = 2 ^ (24 * i) * 256 := by
    rw [show 8 * (3 * i + 1) = 24 * i + 8 by omega, Nat.pow_add]
  have h2 : 2 ^ (8 * (3 * i + 2)) = 2 ^ (24 * i) * 65536 := by
    rw [show 8 * (3 * i + 2) = 24 * i + 16 by omega, Nat.pow_add]
  rw [conversionAt, toBytesLittle_getElem? (by omega), toBytesLittle_getElem? (by omega),
    toBytesLittle_getElem? hi, hpow, h0, h1, h2, ← Nat.div_div_eq_div_mul,
    ← Nat.div_div_eq_div_mul]

/-- **Unpacking inverts packing.** -/
theorem unpackedPixel_packFrame {pixels : List UInt16} (heven : 2 ∣ pixels.length)
    (hpixels : ∀ p ∈ pixels, p.toNat < 4096) {n : ℕ} (hn : n < pixels.length) :
    unpackedPixel (packFrame pixels) n = some pixels[n] := by
  have hdigits : ∀ p ∈ pixels.map UInt16.toNat, p < 4096 := by
    intro p hp
    obtain ⟨q, hq, rfl⟩ := List.mem_map.mp hp
    exact hpixels q hq
  have hdigit := ofDigits_div_mod hdigits (n := n) (by rwa [List.length_map])
  rw [List.getElem_map] at hdigit
  rw [unpackedPixel, packFrame, packPixels_eq_ofDigits hdigits,
    conversionAt_toBytesLittle (by omega), Option.map_some]
  obtain ⟨hfirst, hsecond⟩ := handle_values
    (Nat.ofDigits 4096 (pixels.map UInt16.toNat) / 4096 ^ (2 * (n / 2)))
  refine congrArg some ?_
  split
  · next hmod =>
    rw [hfirst, show 2 * (n / 2) = n by omega, hdigit, UInt16.ofNat_toNat]
  · next hmod =>
    have hpow : (4096 : ℕ) ^ n = 4096 ^ (2 * (n / 2)) * 4096 := by
      rw [← Nat.pow_succ]
      exact congrArg _ (by omega)
    rw [hpow] at hdigit
    rw [hsecond, Nat.div_div_eq_div_mul, hdigit, UInt16.ofNat_toNat]

end Packing

/-! ### Assembly -/

/-- The eight modules. -/
def modules : List DetectorModule :=
  [⟨.sw, 0⟩, ⟨.sw, 1⟩, ⟨.se, 0⟩, ⟨.se, 1⟩, ⟨.nw, 0⟩, ⟨.nw, 1⟩, ⟨.ne, 0⟩, ⟨.ne, 1⟩]

/-- The frame of a module: its part of the image, row by row. -/
def cutFrame (height width : ℕ) (image : List UInt16) (m : DetectorModule) : List UInt16 :=
  (List.range (height / 4 * (width / 2))).map fun n =>
    image.getD (pixelIndex height width m (n / (width / 2)) (n % (width / 2))) 0

/-- Convert the frames of an image, in the given order of the modules. -/
def convertAll (height width : ℕ) (image : List UInt16) (order : List DetectorModule)
    (buffer : List UInt16) : Option (List UInt16) :=
  order.foldlM (fun out m =>
    (m.converter height width).convert (packFrame (cutFrame height width image m)) out) buffer

section Assembly

variable {height width : ℕ} {image : List UInt16}

theorem mem_modules (m : DetectorModule) : m ∈ modules := by
  obtain ⟨q, l⟩ := m
  have hl : l = 0 ∨ l = 1 := by omega
  rcases hl with rfl | rfl <;> cases q <;> decide

@[simp] theorem length_cutFrame (m : DetectorModule) :
    (cutFrame height width image m).length = height / 4 * (width / 2) := by
  simp [cutFrame]

theorem cutFrame_lt (hpixels : ∀ p ∈ image, p.toNat < 4096) (m : DetectorModule) :
    ∀ p ∈ cutFrame height width image m, p.toNat < 4096 := by
  intro p hp
  obtain ⟨n, -, rfl⟩ := List.mem_map.mp hp
  rw [List.getD_eq_getElem?_getD]
  cases hget : image[pixelIndex height width m (n / (width / 2)) (n % (width / 2))]? with
  | none => simp
  | some q => exact hpixels q (List.mem_of_getElem? hget)

theorem pixel_count_lt {r c : ℕ} (hr : r < height / 4) (hc : c < width / 2) :
    r * (width / 2) + c < height / 4 * (width / 2) :=
  calc r * (width / 2) + c
    _ < (r + 1) * (width / 2) := by rw [Nat.succ_mul]; omega
    _ ≤ height / 4 * (width / 2) := Nat.mul_le_mul_right _ hr

/-- What the converter of a module finds in its frame. -/
theorem unpackedPixel_cutFrame (h : RegularSize height width)
    (hpixels : ∀ p ∈ image, p.toNat < 4096) (m : DetectorModule) {r c : ℕ} (hr : r < height / 4)
    (hc : c < width / 2) :
    unpackedPixel (packFrame (cutFrame height width image m)) (r * (width / 2) + c) =
      some (image.getD (pixelIndex height width m r c) 0) := by
  have hlt := pixel_count_lt hr hc
  have heven : 2 ∣ (cutFrame height width image m).length := by
    rw [length_cutFrame]
    exact dvd_mul_of_dvd_right (by have := h.four_dvd_width; omega) _
  rw [unpackedPixel_packFrame heven (cutFrame_lt hpixels m) (by rwa [length_cutFrame])]
  simp only [cutFrame, List.getElem_map, List.getElem_range]
  rw [Nat.add_comm, Nat.add_mul_div_right _ _ h.half_pos, Nat.add_mul_mod_self_right,
    Nat.div_eq_of_lt hc, Nat.mod_eq_of_lt hc, Nat.zero_add]

/-- The frames converted so far are in place, and nothing else has changed. -/
theorem convertAll_overlays (h : RegularSize height width)
    (hpixels : ∀ p ∈ image, p.toNat < 4096) (order : List DetectorModule) {buffer : List UInt16}
    (hlen : buffer.length = height * width) :
    ∃ out, convertAll height width image order buffer = some out ∧
      Overlays (fun k => image.getD k 0) {k | ∃ m ∈ order, k ∈ frameIndices height width m}
        buffer out := by
  induction order generalizing buffer with
  | nil =>
    refine ⟨buffer, rfl, (Overlays.refl _ buffer).congr fun k => ?_⟩
    simp
  | cons m order ih =>
    obtain ⟨out₁, hconvert, hover₁⟩ := convert_overlays (f := fun k => image.getD k 0) h m hlen
      fun r hr c hc => unpackedPixel_cutFrame h hpixels m hr hc
    obtain ⟨out, hrest, hover⟩ := ih (hover₁.length_eq.trans hlen)
    refine ⟨out, ?_, (hover₁.trans hover).congr fun k => ?_⟩
    · rw [convertAll, List.foldlM_cons, hconvert]
      exact hrest
    · simp

/-- A conversion of any input that is long enough. -/
theorem convert_any_input (h : RegularSize height width) (m : DetectorModule)
    {input : List UInt8} {buffer : List UInt16} (hlen : buffer.length = height * width)
    (hinput : height / 4 * (width / 2) * 12 / 8 ≤ input.length) :
    ∃ out, (m.converter height width).convert input buffer = some out ∧
      (∀ k ∉ frameIndices height width m, out[k]? = buffer[k]?) ∧
      ∀ r < height / 4, ∀ c < width / 2,
        out[pixelIndex height width m r c]? = unpackedPixel input (r * (width / 2) + c) := by
  have heven : 2 ∣ height / 4 * (width / 2) :=
    dvd_mul_of_dvd_right (by have := h.four_dvd_width; omega) _
  have hpixel : ∀ n < height / 4 * (width / 2), ∃ p, unpackedPixel input n = some p := by
    intro n hn
    have h2 : 3 * (n / 2) + 2 < input.length := by omega
    rw [unpackedPixel, conversionAt, List.getElem?_eq_getElem (by omega),
      List.getElem?_eq_getElem (by omega), List.getElem?_eq_getElem h2]
    exact ⟨_, rfl⟩
  -- the picture that is stored exists because no index belongs to two pixels
  have hpicture : ∀ k, ∃ p, ∀ r < height / 4, ∀ c < width / 2, k = pixelIndex height width m r c →
      unpackedPixel input (r * (width / 2) + c) = some p := by
    intro k
    by_cases hk : k ∈ frameIndices height width m
    · obtain ⟨r, hr, c, hc, rfl⟩ := hk
      obtain ⟨p, hp⟩ := hpixel _ (pixel_count_lt hr hc)
      refine ⟨p, fun r' hr' c' hc' heq => ?_⟩
      obtain ⟨-, rfl, rfl⟩ := pixelIndex_unique h hr hr' hc hc' heq
      exact hp
    · exact ⟨0, fun r hr c hc heq => absurd ⟨r, hr, c, hc, heq⟩ hk⟩
  choose f hf using hpicture
  obtain ⟨out, hconvert, hover⟩ := convert_overlays h m hlen
    fun r hr c hc => hf _ r hr c hc rfl
  refine ⟨out, hconvert, hover.outside, fun r hr c hc => ?_⟩
  rw [hover.inside _ ⟨r, hr, c, hc, rfl⟩, hf _ r hr c hc rfl]

end Assembly

/-- The converters invert the layout of the detector. -/
structure InvertsLayout (height width : ℕ) : Prop where
  /-- The eight conversions give the image, in any order and on any buffer. -/
  assembles : ∀ image : List UInt16, image.length = height * width →
    (∀ p ∈ image, p.toNat < 4096) → ∀ order, order.Perm modules →
      ∀ buffer : List UInt16, buffer.length = height * width →
        convertAll height width image order buffer = some image
  /-- No two modules share an index. -/
  disjoint : ∀ m m' : DetectorModule, m ≠ m' →
    Disjoint (frameIndices height width m) (frameIndices height width m')
  /-- Together the modules have all indices of the image. -/
  covers : ∀ k, (∃ m, k ∈ frameIndices height width m) ↔ k < height * width
  /-- A converter stores the pixels of its input at the indices of its module, each at its place,
  and leaves every other pixel untouched. -/
  stores : ∀ (m : DetectorModule) (input : List UInt8) (buffer : List UInt16),
    buffer.length = height * width → height / 4 * (width / 2) * 12 / 8 ≤ input.length →
      ∃ out, (m.converter height width).convert input buffer = some out ∧
        (∀ k ∉ frameIndices height width m, out[k]? = buffer[k]?) ∧
        ∀ r < height / 4, ∀ c < width / 2,
          out[pixelIndex height width m r c]? = unpackedPixel input (r * (width / 2) + c)
  /-- Unpacking gives back what was packed. -/
  unpacks : ∀ pixels : List UInt16, 2 ∣ pixels.length → (∀ p ∈ pixels, p.toNat < 4096) →
    ∀ n, (hn : n < pixels.length) → unpackedPixel (packFrame pixels) n = some pixels[n]

/-- **Assembly inverts the layout**, for every image size the detector has. -/
theorem assembly_inverts_layout {height width : ℕ} (h : RegularSize height width) :
    InvertsLayout height width where
  assembles image hlen hpixels order horder buffer hbuffer := by
    obtain ⟨out, hconvert, hover⟩ := convertAll_overlays h hpixels order hbuffer
    rw [hconvert]
    refine congrArg some (hover.eq_of_covered (hlen.trans hbuffer.symm) (fun k hk => ?_)
      fun k hk => ?_)
    · rw [List.getD_eq_getElem?_getD, List.getElem?_eq_getElem hk, Option.getD_some]
    · obtain ⟨m, hm⟩ := exists_pixelIndex h (hbuffer ▸ hk)
      exact ⟨m, horder.mem_iff.mpr (mem_modules m), hm⟩
  disjoint m m' hne := frameIndices_disjoint h hne
  covers k := ⟨fun ⟨_, hm⟩ => frameIndices_lt h hm, exists_pixelIndex h⟩
  stores m input buffer hlen hinput := convert_any_input h m hlen hinput
  unpacks pixels heven hpixels n hn := unpackedPixel_packFrame heven hpixels hn

theorem assembly_inverts_layout_2016 : InvertsLayout 2016 2016 :=
  assembly_inverts_layout ⟨by decide, by decide, by decide, by decide, by decide, by decide⟩

end GigaFrost

end StdDaq
