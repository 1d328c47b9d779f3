import Mathlib.Data.List.Pairwise
import Mathlib.Order.Disjoint
import StdDaq.Lib.Raster
import StdDaq.Placement.Range

/-!
# Modules are placed exactly, in any order

Each module of an Eiger or a Jungfrau has a converter of its own, and the converters of an image
run in an order that nobody controls. If the modules lie inside of the image and do not overlap,
the order does not matter: the pixels of every module are where they belong, and all other pixels,
among them those in the gap between the chips of an Eiger module, are as they were.

Both converters cut a module into strips and copy these: the Eiger one two for each row, the
Jungfrau one a row at a time. `Raster.foldlM_perm` does the rest.

## Main definitions

* `Assembles` — what the conversions of an image come to

## Main results

* `modules_placed` — modules inside of the image that do not overlap are assembled
-/

namespace StdDaq

open Raster

/-- The pixels between two corners, as rows and columns. -/
def rectangle (corners : Point × Point) : Set (ℤ × ℤ) :=
  {pixel | min corners.1.y corners.2.y ≤ pixel.1 ∧ pixel.1 ≤ max corners.1.y corners.2.y ∧
    min corners.1.x corners.2.x ≤ pixel.2 ∧ pixel.2 ≤ max corners.1.x corners.2.x}

/-- The point is a pixel of the image. -/
structure Point.InImage (config : DetectorConfig) (point : Point) : Prop where
  x_nonneg : 0 ≤ point.x
  x_lt : point.x < config.imagePixelWidth
  y_nonneg : 0 ≤ point.y
  y_lt : point.y < config.imagePixelHeight

/-- The conversions of the modules `ids` turn `image` into `image'` in any order. The pixel of a
module in row `r` and column `c`, of `tileHeight` rows and `tileWidth` columns, is at the place
`place id r c`, and the pixels at no such place are those of `image`. -/
structure Assembles {α : Type} (config : DetectorConfig) (tileHeight tileWidth depth : ℕ)
    (ids : List ℤ) (place : ℤ → ℕ → ℕ → ℤ × ℤ) (inputs : ℤ → List α)
    (convert : List α → ℤ → Option (List α)) (image image' : List α) : Prop where
  order : ∀ order : List ℤ, order.Perm ids → order.foldlM convert image = some image'
  placed : ∀ id ∈ ids, ∀ r < tileHeight, ∀ c < tileWidth, ∃ row col : ℕ,
    place id r c = (↑row, ↑col) ∧ row < config.imagePixelHeight ∧ col < config.imagePixelWidth ∧
      ∀ b < depth, image'[cellIndex config.imagePixelWidth.toNat depth row col b]? =
        (inputs id)[cellIndex tileWidth depth r c b]?
  kept : ∀ row col : ℕ, row < config.imagePixelHeight → col < config.imagePixelWidth →
    (∀ id ∈ ids, ∀ r < tileHeight, ∀ c < tileWidth, place id r c ≠ (↑row, ↑col)) →
      ∀ b < depth, image'[cellIndex config.imagePixelWidth.toNat depth row col b]? =
        image[cellIndex config.imagePixelWidth.toNat depth row col b]?

/-- A pixel between two pixels of the image. -/
theorem exists_row_col {config : DetectorConfig} {corners : Point × Point} {pixel : ℤ × ℤ}
    (hstart : corners.1.InImage config) (hfinish : corners.2.InImage config)
    (h : pixel ∈ rectangle corners) : ∃ row col : ℕ, pixel = (↑row, ↑col) := by
  obtain ⟨hx, -, hy, -⟩ := hstart
  obtain ⟨hx', -, hy', -⟩ := hfinish
  obtain ⟨hrow, -, hcol, -⟩ := h
  refine ⟨pixel.1.toNat, pixel.2.toNat, Prod.ext ?_ ?_⟩
  · simp only
    omega
  · simp only
    omega

section Tiles

variable {α : Type} {config : DetectorConfig} {tileHeight tileWidth depth : ℕ} {ids : List ℤ}
  {corners : ℤ → Point × Point} {place : ℤ → ℕ → ℕ → ℤ × ℤ} {inputs : ℤ → List α}
  {convert : List α → ℤ → Option (List α)} {image : List α}

/-- Conversions that copy the strips of tiles, each in a rectangle of its own, assemble the
image. -/
theorem assembles_of_tiles [Inhabited α] (tile : ℤ → Tile α)
    (hcells : ∀ id ∈ ids, (tile id).cells = inputs id)
    (hconvert : ∀ id ∈ ids, ∀ image, convert image id = Copy.runAll (tile id).cells
      ((tile id).strips.map (Strip.copy tileWidth config.imagePixelWidth.toNat depth)) image)
    (hfits : ∀ id ∈ ids, (tile id).Fits tileHeight tileWidth config.imagePixelHeight.toNat
      config.imagePixelWidth.toNat depth)
    (hbrings : ∀ id ∈ ids, ∀ {r c row col : ℕ}, (tile id).Brings r c row col ↔
      r < tileHeight ∧ c < tileWidth ∧ place id r c = (↑row, ↑col))
    (hinj : ∀ id ∈ ids, ∀ {r c r' c' : ℕ}, place id r c = place id r' c' → r = r' ∧ c = c')
    (hmem : ∀ id ∈ ids, ∀ r < tileHeight, ∀ c < tileWidth, place id r c ∈ rectangle (corners id))
    (hcorners : ∀ id ∈ ids, (corners id).1.InImage config ∧ (corners id).2.InImage config)
    (hdisjoint : ids.Pairwise fun id id' =>
      Disjoint (rectangle (corners id)) (rectangle (corners id')))
    (himage : image.length =
      config.imagePixelHeight.toNat * config.imagePixelWidth.toNat * depth) :
    ∃ image',
      Assembles config tileHeight tileWidth depth ids place inputs convert image image' := by
  have hone : Unambiguous (ids.map tile) := by
    intro t ht t' ht' r c r' c' row col hbring hbring'
    obtain ⟨id, hid, rfl⟩ := List.mem_map.mp ht
    obtain ⟨id', hid', rfl⟩ := List.mem_map.mp ht'
    obtain ⟨hr, hc, hplace⟩ := (hbrings id hid).mp hbring
    obtain ⟨hr', hc', hplace'⟩ := (hbrings id' hid').mp hbring'
    by_cases heq : id = id'
    · subst heq
      exact ⟨rfl, hinj id hid (hplace.trans hplace'.symm)⟩
    · -- a pixel in the rectangles of two modules
      have hsymm : Std.Symm fun id id' =>
          Disjoint (rectangle (corners id)) (rectangle (corners id')) := ⟨fun _ _ h => h.symm⟩
      have hin := hmem id hid r hr c hc
      have hin' := hmem id' hid' r' hr' c' hc'
      rw [hplace] at hin
      rw [hplace'] at hin'
      exact absurd hin' (Set.disjoint_left.mp (hdisjoint.forall hid hid' heq) hin)
  obtain ⟨image', -, horder, hplaced, hkept⟩ := foldlM_perm tile hconvert hfits hone himage
  refine ⟨image', horder, fun id hid r hr c hc => ?_, fun row col hrow hcol hnot => ?_⟩
  · obtain ⟨row, col, hplace⟩ :=
      exists_row_col (hcorners id hid).1 (hcorners id hid).2 (hmem id hid r hr c hc)
    have hbring := (hbrings id hid).mpr ⟨hr, hc, hplace⟩
    obtain ⟨-, -, hrow, hcol⟩ := (hfits id hid).lt_of_brings hbring
    refine ⟨row, col, hplace, by omega, by omega, fun b hb => ?_⟩
    rw [hplaced id hid r c row col hbring b hb, hcells id hid]
  · refine hkept row col (by omega) fun id hid r c hbring => ?_
    obtain ⟨hr, hc, hplace⟩ := (hbrings id hid).mp hbring
    exact hnot id hid r hr c hc hplace

/-- Without modules nothing changes. -/
theorem assembles_nil :
    Assembles config tileHeight tileWidth depth [] place inputs convert image image where
  order order hperm := by rw [hperm.eq_nil]; rfl
  placed id hid := absurd hid List.not_mem_nil
  kept _ _ _ _ _ _ _ := rfl

end Tiles

/-! ### Eiger -/

namespace Eiger

/-- The place of a pixel of a module: its rows go up if the end corner is above the start corner,
and the second chip is two columns further. -/
def pixelPlace (corners : Point × Point) (r c : ℕ) : ℤ × ℤ :=
  (if corners.2.y < corners.1.y then corners.1.y - r else corners.1.y + r,
    corners.1.x + c + if 256 ≤ c then 2 else 0)

/-- A module of the size that the constructor requires, inside of the image. -/
structure ModuleInside (config : DetectorConfig) (corners : Point × Point) : Prop where
  start : corners.1.InImage config
  finish : corners.2.InImage config
  left : corners.1.x < corners.2.x
  width : (corners.1.x - corners.2.x).natAbs = 513
  height : (corners.1.y - corners.2.y).natAbs = 255

/-- The converter of a module is created and converts the module. -/
def convertModule (config : DetectorConfig) (inputs : ℤ → List UInt8) (image : List UInt8)
    (moduleId : ℤ) : Option (List UInt8) :=
  match Converter.create config moduleId with
  | .ok c => c.convert (inputs moduleId) image
  | .error _ => none

/-- The two strips of a row. -/
def rowStrips (corners : Point × Point) (r : ℕ) : List Strip :=
  let row := (pixelPlace corners r 0).1.toNat
  let col := corners.1.x.toNat
  [ { row := r, col := 0, toRow := row, toCol := col, len := 256 },
    { row := r, col := 256, toRow := row, toCol := col + 258, len := 256 } ]

/-- A module as a tile. -/
def tile (corners : Point × Point) (input : List UInt8) : Tile UInt8 where
  cells := input
  strips := (List.range 256).flatMap (rowStrips corners)

variable {config : DetectorConfig} {corners : Point × Point} {input : List UInt8} {p : ℕ}

theorem mem_strips {s : Strip} :
    s ∈ (tile corners input).strips ↔ ∃ r < 256, s ∈ rowStrips corners r := by
  rw [tile, List.mem_flatMap]
  simp only [List.mem_range]

/-- The rows of a module are rows of the image. -/
theorem ModuleInside.row_bounds (h : ModuleInside config corners) {r : ℕ} (hr : r < 256) :
    0 ≤ (pixelPlace corners r 0).1 ∧ (pixelPlace corners r 0).1 < config.imagePixelHeight := by
  obtain ⟨⟨-, -, hy, hy'⟩, ⟨-, -, hey, hey'⟩, -, -, hheight⟩ := h
  simp only [pixelPlace]
  split
  · omega
  · omega

/-- The strips bring the pixels to their places. -/
theorem brings_iff (h : ModuleInside config corners) {r c row col : ℕ} :
    (tile corners input).Brings r c row col ↔
      r < 256 ∧ c < 512 ∧ pixelPlace corners r c = (↑row, ↑col) := by
  have hx := h.start.x_nonneg
  have hfst (c : ℕ) : (pixelPlace corners r c).1 = (pixelPlace corners r 0).1 := rfl
  constructor
  · rintro ⟨s, hs, i, hi, rfl, rfl, rfl, rfl⟩
    obtain ⟨r, hr, hmem⟩ := mem_strips.mp hs
    obtain ⟨hrow, -⟩ := h.row_bounds hr
    simp only [rowStrips, List.mem_cons, List.not_mem_nil, or_false] at hmem
    rcases hmem with rfl | rfl
    · have hlen : i < 256 := hi
      have hc : ¬ 256 ≤ 0 + i := by omega
      refine ⟨hr, by simp only; omega, Prod.ext ?_ ?_⟩
      · exact (Int.toNat_of_nonneg hrow).symm
      · simp only [pixelPlace, if_neg hc]
        omega
    · have hlen : i < 256 := hi
      have hc : 256 ≤ 256 + i := by omega
      refine ⟨hr, by simp only; omega, Prod.ext ?_ ?_⟩
      · exact (Int.toNat_of_nonneg hrow).symm
      · simp only [pixelPlace, if_pos hc]
        omega
  · rintro ⟨hr, hc, hplace⟩
    obtain ⟨hrow, hcol⟩ := Prod.ext_iff.mp hplace
    rw [hfst] at hrow
    have htoRow : row = (pixelPlace corners r 0).1.toNat := by
      rw [hrow]
      rfl
    rcases Nat.lt_or_ge c 256 with hlt | hge
    · simp only [pixelPlace, if_neg (Nat.not_le.mpr hlt)] at hcol
      exact ⟨_, mem_strips.mpr ⟨r, hr, List.mem_cons_self⟩, c, hlt, rfl, by simp, htoRow,
        by simp only; omega⟩
    · simp only [pixelPlace, if_pos hge] at hcol
      exact ⟨_, mem_strips.mpr ⟨r, hr, List.mem_cons_of_mem _ List.mem_cons_self⟩, c - 256,
        by simp only; omega, rfl, by simp only; omega, htoRow, by simp only; omega⟩

/-- The places of a module are inside of its rectangle. -/
theorem ModuleInside.place_mem (h : ModuleInside config corners) {r c : ℕ} (hr : r < 256)
    (hc : c < 512) : pixelPlace corners r c ∈ rectangle corners := by
  obtain ⟨-, -, hleft, hwidth, hheight⟩ := h
  simp only [rectangle, pixelPlace, Set.mem_ofPred_eq]
  split <;> split <;> omega

/-- No two pixels of a module have the same place. -/
theorem pixelPlace_inj {r c r' c' : ℕ} (h : pixelPlace corners r c = pixelPlace corners r' c') :
    r = r' ∧ c = c' := by
  obtain ⟨hrow, hcol⟩ := Prod.ext_iff.mp h
  simp only [pixelPlace] at hrow hcol
  constructor
  · split at hrow <;> omega
  · split at hcol <;> split at hcol <;> omega

theorem tile_fits (h : ModuleInside config corners) (hinput : input.length = 131072 * p) :
    (tile corners input).Fits 256 512 config.imagePixelHeight.toNat config.imagePixelWidth.toNat
      p := by
  refine ⟨hinput, fun s hs => ?_⟩
  obtain ⟨r, hr, hmem⟩ := mem_strips.mp hs
  obtain ⟨hrow, hrow'⟩ := h.row_bounds hr
  obtain ⟨⟨hx, -, -, -⟩, ⟨-, hex, -, -⟩, hleft, hwidth, -⟩ := h
  simp only [rowStrips, List.mem_cons, List.not_mem_nil, or_false] at hmem
  rcases hmem with rfl | rfl
  · refine ⟨hr, ?_, ?_, ?_⟩ <;> simp only <;> omega
  · refine ⟨hr, ?_, ?_, ?_⟩ <;> simp only <;> omega

/-- The index where a row begins is the byte of its first place. -/
theorem outputStart_eq (hfit : config.ProductsFit) (hp : config.bitDepth = 8 * p) (hp0 : 0 < p)
    (h : ModuleInside config corners) {r : ℕ} (hr : r < 256) :
    ((Converter.ofCorners config corners.1 corners.2).outputStart r : ℤ) =
      ((pixelPlace corners r 0).1 * config.imagePixelWidth + corners.1.x) * p := by
  obtain ⟨hrow, hrow'⟩ := h.row_bounds hr
  obtain ⟨hx, hx', hy, hy'⟩ := h.start
  have hpos : (0 : ℤ) < p := by exact_mod_cast hp0
  -- the bytes of the image, of which a row is a part
  obtain ⟨-, hbits⟩ := hfit.bits
  have hbytes : config.imagePixelWidth * config.imagePixelHeight * p < 2 ^ 28 := by
    rw [hp, Int.mul_left_comm] at hbits
    omega
  have hjump : config.imagePixelWidth * p ≤
      config.imagePixelWidth * config.imagePixelHeight * p :=
    Int.mul_le_mul_of_nonneg_right
      (le_mul_of_one_le_right (by omega) (by omega)) hpos.le
  have hjump0 : 0 ≤ config.imagePixelWidth * p := Int.mul_nonneg (by omega) hpos.le
  have hindex : ((pixelPlace corners r 0).1 * config.imagePixelWidth + corners.1.x) * p <
      config.imagePixelWidth * config.imagePixelHeight * p := by
    refine Int.mul_lt_mul_of_pos_right ?_ hpos
    calc (pixelPlace corners r 0).1 * config.imagePixelWidth + corners.1.x
      _ < (pixelPlace corners r 0).1 * config.imagePixelWidth + config.imagePixelWidth := by omega
      _ = config.imagePixelWidth * ((pixelPlace corners r 0).1 + 1) := by ring
      _ ≤ config.imagePixelWidth * config.imagePixelHeight :=
        Int.mul_le_mul_of_nonneg_left hrow' (by omega)
  have hindex0 : 0 ≤ ((pixelPlace corners r 0).1 * config.imagePixelWidth + corners.1.x) * p :=
    Int.mul_nonneg (Int.add_nonneg (Int.mul_nonneg hrow (by omega)) hx) hpos.le
  have hsum : (corners.1.y * config.imagePixelWidth + corners.1.x) * p +
      r * (config.imagePixelWidth * p * if corners.2.y < corners.1.y then -1 else 1) =
        ((pixelPlace corners r 0).1 * config.imagePixelWidth + corners.1.x) * p := by
    simp only [pixelPlace]
    split <;> ring
  rw [Converter.cast_outputStart, ← Int.emod_add_emod,
    Converter.startIndex_emod corners.1 corners.2 hp,
    Converter.rowJump_eq corners.1 corners.2 hp ⟨by omega, by omega⟩, Int.emod_add_emod, hsum,
    Int.emod_eq_of_lt hindex0 (by omega)]

/-- The copies of a conversion are those of the strips. -/
theorem copies_eq (hfit : config.ProductsFit) (hp : config.bitDepth = 8 * p) (hp0 : 0 < p)
    (hp4 : p ≤ 4) (h : ModuleInside config corners) :
    (Converter.ofCorners config corners.1 corners.2).copies =
      (tile corners input).strips.map (Strip.copy 512 config.imagePixelWidth.toNat p) := by
  have hchip : Converter.rowSizePerChip config.bitDepth = 256 * p := by
    rw [hp, Converter.rowSizePerChip, moduleXSize, toUInt32]
    omega
  have hgap : Converter.gapBytes config.bitDepth = 2 * p := by
    rw [hp, Converter.gapBytes, Int.mul_left_comm, Int.mul_tdiv_cancel_left _ (by decide), toSizeT]
    omega
  rw [Converter.copies, tile, List.map_flatMap]
  refine List.flatMap_congr fun r hr => ?_
  have hr' : r < 256 := List.mem_range.mp hr
  have hstart : (Converter.ofCorners config corners.1 corners.2).outputStart r =
      cellIndex config.imagePixelWidth.toNat p (pixelPlace corners r 0).1.toNat
        corners.1.x.toNat 0 := by
    have hcast := outputStart_eq hfit hp hp0 h hr'
    obtain ⟨hrow, -⟩ := h.row_bounds hr'
    obtain ⟨hx, hx', -, -⟩ := h.start
    zify [cellIndex]
    rw [hcast, Int.toNat_of_nonneg hrow, Int.toNat_of_nonneg hx, Int.toNat_of_nonneg (by omega)]
    ring
  have hmod : (256 * p + 2 * p) % sizeTBound = 258 * p := by
    rw [sizeTBound]
    omega
  simp only [Converter.rowCopies, rowStrips, Strip.copy, List.map_cons, List.map_nil, hstart,
    show (Converter.ofCorners config corners.1 corners.2).inputRowSizePerChip = 256 * p from hchip,
    show (Converter.ofCorners config corners.1 corners.2).gapSize = 2 * p from hgap, hmod,
    cellIndex, List.cons.injEq, Copy.mk.injEq, and_true]
  exact ⟨by ring, by ring, by ring⟩

theorem convertModule_eq {inputs : ℤ → List UInt8} {image : List UInt8} {moduleId : ℤ}
    (hat : config.moduleAt (toSizeT moduleId) = .ok corners) (h : ModuleInside config corners) :
    convertModule config inputs image moduleId =
      Copy.runAll (inputs moduleId) (Converter.ofCorners config corners.1 corners.2).copies
        image := by
  have hcreate : Converter.create config moduleId =
      .ok (Converter.ofCorners config corners.1 corners.2) :=
    (Converter.create_eq_ok hat).mpr
      ⟨⟨⟨h.start.x_lt.le, h.start.y_lt.le⟩, h.finish.x_lt.le, h.finish.y_lt.le⟩,
        ⟨h.width, h.height⟩, rfl⟩
  rw [convertModule, hcreate]
  rfl

/-- **Eiger modules are assembled.** -/
theorem assembles (hfit : config.ProductsFit) (hp : config.bitDepth = 8 * p) (hp0 : 0 < p)
    (hp4 : p ≤ 4) {ids : List ℤ} {corners : ℤ → Point × Point} {inputs : ℤ → List UInt8}
    {image : List UInt8} (hat : ∀ id ∈ ids, config.moduleAt (toSizeT id) = .ok (corners id))
    (hinside : ∀ id ∈ ids, ModuleInside config (corners id))
    (hinputs : ∀ id ∈ ids, (inputs id).length = 131072 * p)
    (hdisjoint : ids.Pairwise fun id id' =>
      Disjoint (rectangle (corners id)) (rectangle (corners id')))
    (himage : image.length = config.imagePixelHeight.toNat * config.imagePixelWidth.toNat * p) :
    ∃ image', Assembles config 256 512 p ids (fun id => pixelPlace (corners id)) inputs
      (convertModule config inputs) image image' :=
  assembles_of_tiles (fun id => tile (corners id) (inputs id)) (fun _ _ => rfl)
    (fun id hid image => by
      rw [convertModule_eq (hat id hid) (hinside id hid),
        copies_eq hfit hp hp0 hp4 (hinside id hid)]
      rfl)
    (fun id hid => tile_fits (hinside id hid) (hinputs id hid))
    (fun id hid => brings_iff (hinside id hid)) (fun _ _ => pixelPlace_inj)
    (fun id hid r hr c hc => (hinside id hid).place_mem hr hc)
    (fun id hid => ⟨(hinside id hid).start, (hinside id hid).finish⟩) hdisjoint himage

end Eiger

/-! ### Jungfrau -/

namespace Jungfrau

/-- The place of a pixel of a module. -/
def pixelPlace (corners : Point × Point) (r c : ℕ) : ℤ × ℤ := (corners.1.y + r, corners.1.x + c)

/-- A module of the size that the constructor requires, inside of the image. -/
structure ModuleInside (config : DetectorConfig) (corners : Point × Point) : Prop where
  start : corners.1.InImage config
  finish : corners.2.InImage config
  left : corners.1.x < corners.2.x
  above : corners.1.y < corners.2.y
  width : (corners.1.x - corners.2.x).natAbs = 1023
  height : (corners.1.y - corners.2.y).natAbs = 511

/-- The converter of a module is created, without gains, and converts the module. -/
def convertModule (F : Type) (config : DetectorConfig) (inputs : ℤ → List UInt16)
    (image : List UInt16) (moduleId : ℤ) : Option (List UInt16) :=
  match (Converter.create config moduleId : Except String (Converter F)) with
  | .ok c => c.copyRawData (inputs moduleId) image
  | .error _ => none

/-- The strip of a row. -/
def rowStrip (corners : Point × Point) (r : ℕ) : Strip where
  row := r
  col := 0
  toRow := (corners.1.y + r).toNat
  toCol := corners.1.x.toNat
  len := 1024

/-- A module as a tile. -/
def tile (corners : Point × Point) (input : List UInt16) : Tile UInt16 where
  cells := input
  strips := (List.range 512).map (rowStrip corners)

variable {F : Type} {config : DetectorConfig} {corners : Point × Point} {input : List UInt16}

theorem mem_strips {s : Strip} :
    s ∈ (tile corners input).strips ↔ ∃ r < 512, rowStrip corners r = s := by
  rw [tile, List.mem_map]
  simp only [List.mem_range]

/-- The strips bring the pixels to their places. -/
theorem brings_iff (h : ModuleInside config corners) {r c row col : ℕ} :
    (tile corners input).Brings r c row col ↔
      r < 512 ∧ c < 1024 ∧ pixelPlace corners r c = (↑row, ↑col) := by
  have hx := h.start.x_nonneg
  have hy := h.start.y_nonneg
  constructor
  · rintro ⟨s, hs, i, hi, rfl, rfl, rfl, rfl⟩
    obtain ⟨r, hr, rfl⟩ := mem_strips.mp hs
    have hlen : i < 1024 := hi
    refine ⟨hr, ?_, Prod.ext ?_ ?_⟩
    · simp only [rowStrip]
      omega
    · simp only [pixelPlace, rowStrip]
      omega
    · simp only [pixelPlace, rowStrip]
      omega
  · rintro ⟨hr, hc, hplace⟩
    obtain ⟨hrow, hcol⟩ := Prod.ext_iff.mp hplace
    simp only [pixelPlace] at hrow hcol
    refine ⟨rowStrip corners r, mem_strips.mpr ⟨r, hr, rfl⟩, c, hc, rfl, ?_, ?_, ?_⟩
    · simp only [rowStrip]
      omega
    · simp only [rowStrip]
      omega
    · simp only [rowStrip]
      omega

/-- The places of a module are inside of its rectangle. -/
theorem ModuleInside.place_mem (h : ModuleInside config corners) {r c : ℕ} (hr : r < 512)
    (hc : c < 1024) : pixelPlace corners r c ∈ rectangle corners := by
  obtain ⟨-, -, hleft, habove, hwidth, hheight⟩ := h
  simp only [rectangle, pixelPlace, Set.mem_ofPred_eq]
  omega

/-- No two pixels of a module have the same place. -/
theorem pixelPlace_inj {r c r' c' : ℕ} (h : pixelPlace corners r c = pixelPlace corners r' c') :
    r = r' ∧ c = c' := by
  obtain ⟨hrow, hcol⟩ := Prod.ext_iff.mp h
  simp only [pixelPlace] at hrow hcol
  omega

theorem tile_fits (h : ModuleInside config corners) (hinput : input.length = 524288) :
    (tile corners input).Fits 512 1024 config.imagePixelHeight.toNat config.imagePixelWidth.toNat
      1 := by
  refine ⟨hinput, fun s hs => ?_⟩
  obtain ⟨r, hr, rfl⟩ := mem_strips.mp hs
  obtain ⟨⟨hx, -, hy, -⟩, ⟨-, hex, -, hey⟩, hleft, habove, hwidth, hheight⟩ := h
  refine ⟨hr, ?_, ?_, ?_⟩ <;> simp only [rowStrip] <;> omega

/-- The copies of a conversion are those of the strips. -/
theorem copies_eq (hfit : config.ProductsFit) (h : ModuleInside config corners) :
    (Converter.ofStart config corners.1 : Converter F).copies =
      (tile corners input).strips.map (Strip.copy 1024 config.imagePixelWidth.toNat 1) := by
  rw [Converter.copies, tile, List.map_map]
  refine List.map_congr_left fun r hr => ?_
  have hr' : r < 512 := List.mem_range.mp hr
  obtain ⟨⟨hx, hx', hy, hy'⟩, ⟨-, hex, -, hey⟩, -, habove, -, hheight⟩ := h
  obtain ⟨-, hpixels⟩ := hfit.pixels
  have hstart : (Converter.ofStart config corners.1 : Converter F).outputStart r =
      cellIndex config.imagePixelWidth.toNat 1 (corners.1.y + r).toNat corners.1.x.toNat 0 := by
    have hcast : ((Converter.ofStart config corners.1 : Converter F).outputStart r : ℤ) =
        (config.imagePixelWidth * corners.1.y + corners.1.x + r * config.imagePixelWidth) %
          2 ^ 64 :=
      Converter.cast_outputStart rfl rfl r
    have hsum : config.imagePixelWidth * corners.1.y + corners.1.x + r * config.imagePixelWidth =
        (corners.1.y + r) * config.imagePixelWidth + corners.1.x := by ring
    have hlt : (corners.1.y + r) * config.imagePixelWidth + corners.1.x < 2 ^ 31 := by
      calc (corners.1.y + r) * config.imagePixelWidth + corners.1.x
        _ < (corners.1.y + r) * config.imagePixelWidth + config.imagePixelWidth := by omega
        _ = (corners.1.y + r + 1) * config.imagePixelWidth := by ring
        _ ≤ config.imagePixelHeight * config.imagePixelWidth :=
          Int.mul_le_mul_of_nonneg_right (by omega) (by omega)
        _ < 2 ^ 31 := hpixels
    have hnonneg : 0 ≤ (corners.1.y + r) * config.imagePixelWidth + corners.1.x :=
      Int.add_nonneg (Int.mul_nonneg (by omega) (by omega)) hx
    rw [hsum, Int.emod_eq_of_lt hnonneg (by omega)] at hcast
    zify [cellIndex]
    rw [hcast, Int.toNat_of_nonneg hx, Int.toNat_of_nonneg (a := corners.1.y + r) (by omega),
      Int.toNat_of_nonneg (a := config.imagePixelWidth) (by omega)]
    ring
  simp only [Function.comp_apply, rowStrip, Strip.copy, hstart, moduleXSize, cellIndex,
    Nat.mul_one, Nat.add_zero]

theorem convertModule_eq {inputs : ℤ → List UInt16} {image : List UInt16} {moduleId : ℤ}
    (hat : config.moduleAt (toSizeT moduleId) = .ok corners) (h : ModuleInside config corners) :
    convertModule F config inputs image moduleId =
      Copy.runAll (inputs moduleId) (Converter.ofStart config corners.1 : Converter F).copies
        image := by
  have hcreate : (Converter.create config moduleId : Except String (Converter F)) =
      .ok (Converter.ofStart config corners.1) :=
    (Converter.create_eq_ok hat).mpr
      ⟨⟨⟨h.start.x_lt.le, h.start.y_lt.le⟩, h.finish.x_lt.le, h.finish.y_lt.le⟩,
        ⟨h.width, h.height⟩, rfl⟩
  rw [convertModule, hcreate]
  rfl

/-- **Jungfrau modules are assembled.** -/
theorem assembles (hfit : config.ProductsFit) {ids : List ℤ} {corners : ℤ → Point × Point}
    {inputs : ℤ → List UInt16} {image : List UInt16}
    (hat : ∀ id ∈ ids, config.moduleAt (toSizeT id) = .ok (corners id))
    (hinside : ∀ id ∈ ids, ModuleInside config (corners id))
    (hinputs : ∀ id ∈ ids, (inputs id).length = 524288)
    (hdisjoint : ids.Pairwise fun id id' =>
      Disjoint (rectangle (corners id)) (rectangle (corners id')))
    (himage : image.length = config.imagePixelHeight.toNat * config.imagePixelWidth.toNat) :
    ∃ image', Assembles config 512 1024 1 ids (fun id => pixelPlace (corners id)) inputs
      (convertModule F config inputs) image image' :=
  assembles_of_tiles (fun id => tile (corners id) (inputs id)) (fun _ _ => rfl)
    (fun id hid image => by
      rw [convertModule_eq (hat id hid) (hinside id hid), copies_eq hfit (hinside id hid)]
      rfl)
    (fun id hid => tile_fits (hinside id hid) (hinputs id hid))
    (fun id hid => brings_iff (hinside id hid)) (fun _ _ => pixelPlace_inj)
    (fun id hid r hr c hc => (hinside id hid).place_mem hr hc)
    (fun id hid => ⟨(hinside id hid).start, (hinside id hid).finish⟩) hdisjoint
    (himage.trans (Nat.mul_one _).symm)

end Jungfrau

/-- **Modules are placed exactly, in any order.** For every configuration whose image size is
defined, every set of modules inside of the image that do not overlap, any frames of these modules
and any image before: the conversions give the same image in every order. The pixels of each module
are at their places and all other pixels are as before. -/
theorem modules_placed {config : DetectorConfig} (hfit : config.ProductsFit) (F : Type) :
    (config.detectorType = .eiger →
      config.bitDepth = 8 ∨ config.bitDepth = 16 ∨ config.bitDepth = 32 →
      ∀ (ids : List ℤ) (corners : ℤ → Point × Point) (inputs : ℤ → List UInt8)
        (image : List UInt8),
        (∀ id ∈ ids, config.moduleAt (toSizeT id) = .ok (corners id)) →
        (∀ id ∈ ids, Eiger.ModuleInside config (corners id)) →
        (∀ id ∈ ids, ((inputs id).length : ℤ) = 131072 * (config.bitDepth / 8)) →
        (ids.Pairwise fun id id' => Disjoint (rectangle (corners id)) (rectangle (corners id'))) →
        convertedImageNBytes config = .ok image.length →
          ∃ image', Assembles config 256 512 (config.bitDepth / 8).toNat ids
            (fun id => Eiger.pixelPlace (corners id)) inputs (Eiger.convertModule config inputs)
            image image') ∧
    (config.detectorType = .jungfrauRaw →
      ∀ (ids : List ℤ) (corners : ℤ → Point × Point) (inputs : ℤ → List UInt16)
        (image : List UInt16),
        (∀ id ∈ ids, config.moduleAt (toSizeT id) = .ok (corners id)) →
        (∀ id ∈ ids, Jungfrau.ModuleInside config (corners id)) →
        (∀ id ∈ ids, (inputs id).length = 524288) →
        (ids.Pairwise fun id id' => Disjoint (rectangle (corners id)) (rectangle (corners id'))) →
        (image.length : ℤ) = config.imagePixelHeight * config.imagePixelWidth →
          ∃ image', Assembles config 512 1024 1 ids (fun id => Jungfrau.pixelPlace (corners id))
            inputs (Jungfrau.convertModule F config inputs) image image') := by
  constructor
  · intro hty hdepth ids corners inputs image hat hinside hinputs hdisjoint himage
    cases ids with
    | nil => exact ⟨image, assembles_nil⟩
    | cons id ids =>
      obtain ⟨p, hp, hp0, hp4⟩ : ∃ p : ℕ, config.bitDepth = 8 * p ∧ 0 < p ∧ p ≤ 4 :=
        ⟨(config.bitDepth / 8).toNat, by omega, by omega, by omega⟩
      have hdiv : config.bitDepth / 8 = p := by omega
      have hstart := (hinside id List.mem_cons_self).start
      have hheight : 0 ≤ config.imagePixelHeight := hstart.y_nonneg.trans hstart.y_lt.le
      have hwidth : 0 ≤ config.imagePixelWidth := hstart.x_nonneg.trans hstart.x_lt.le
      have hbytes := convertedImageNBytes_eq hfit (Int.mul_nonneg hheight hwidth) himage p
        (fun h => by rw [hty] at h; cases h) (fun h => by rw [hty] at h; cases h) fun _ _ => hp
      rw [hdiv, Int.toNat_natCast]
      refine Eiger.assembles hfit hp hp0 hp4 hat hinside (fun id hid => ?_) hdisjoint ?_
      · have hlength := hinputs id hid
        rw [hdiv] at hlength
        exact_mod_cast hlength
      · zify
        rw [hbytes, Int.toNat_of_nonneg hheight, Int.toNat_of_nonneg hwidth]
  · intro _ ids corners inputs image hat hinside hinputs hdisjoint himage
    cases ids with
    | nil => exact ⟨image, assembles_nil⟩
    | cons id ids =>
      have hstart := (hinside id List.mem_cons_self).start
      refine Jungfrau.assembles hfit hat hinside hinputs hdisjoint ?_
      zify
      rw [himage, Int.toNat_of_nonneg (hstart.y_nonneg.trans hstart.y_lt.le),
        Int.toNat_of_nonneg (hstart.x_nonneg.trans hstart.x_lt.le)]

/-- An Eiger image with two modules, one above the other. The rows of the lower one go upwards. -/
def twoEigerModules : DetectorConfig where
  detectorType := .eiger
  nModules := 2
  bitDepth := 16
  imagePixelHeight := 512
  imagePixelWidth := 514
  modules := [(0, ⟨0, 0⟩, ⟨513, 255⟩), (1, ⟨0, 511⟩, ⟨513, 256⟩)]

/-- The corners of these modules. -/
def twoEigerCorners (id : ℤ) : Point × Point :=
  if id = 0 then (⟨0, 0⟩, ⟨513, 255⟩) else (⟨0, 511⟩, ⟨513, 256⟩)

/-- The two modules are assembled on an image that is white before. -/
theorem modules_placed_twoEigerModules :
    ∃ image', Assembles twoEigerModules 256 512 2 [0, 1]
      (fun id => Eiger.pixelPlace (twoEigerCorners id))
      (fun id => List.replicate 262144 (UInt8.ofNat id.toNat))
      (Eiger.convertModule twoEigerModules fun id => List.replicate 262144 (UInt8.ofNat id.toNat))
      (List.replicate 526336 255) image' := by
  have hinside : ∀ id ∈ ([0, 1] : List ℤ),
      Eiger.ModuleInside twoEigerModules (twoEigerCorners id) := by
    simp only [List.forall_mem_cons]
    refine ⟨⟨⟨?_, ?_, ?_, ?_⟩, ⟨?_, ?_, ?_, ?_⟩, ?_, ?_, ?_⟩,
      ⟨⟨?_, ?_, ?_, ?_⟩, ⟨?_, ?_, ?_, ?_⟩, ?_, ?_, ?_⟩, by simp⟩ <;> decide
  have hdisjoint : ([0, 1] : List ℤ).Pairwise fun id id' =>
      Disjoint (rectangle (twoEigerCorners id)) (rectangle (twoEigerCorners id')) := by
    refine List.pairwise_pair.mpr (Set.disjoint_left.mpr ?_)
    rintro ⟨row, col⟩ ⟨-, hle, -⟩ ⟨hge, -, -⟩
    change row ≤ 255 at hle
    change 256 ≤ row at hge
    omega
  refine (modules_placed ⟨by decide, by decide, by decide, by decide, by decide, by decide⟩ Empty).1
    rfl (.inr (.inl rfl)) [0, 1] twoEigerCorners _ _ (by decide) hinside (fun id _ => ?_)
    hdisjoint ?_
  · rw [List.length_replicate]
    decide
  · rw [List.length_replicate]
    rfl

end StdDaq
