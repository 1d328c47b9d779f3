import Mathlib.Data.List.Perm.Basic
import Mathlib.Tactic.Ring
import StdDaq.Lib.Overlay

/-!
# Tiles of a raster

A raster is an array of pixels, row by row, with a number of cells for each pixel. A tile is a
raster of its own whose rows go into a larger one in strips: `Strip` says where a part of a row
comes from and where it goes, and copying it is one `Copy`.

Tiles that do not bring two pixels to the same place can be placed in any order.

## Main results

* `place_perm` — the outcome of placing tiles, pixel by pixel and for every order
-/

namespace Raster

variable {α : Type*}

/-- Cell `b` of the pixel in row `row` and column `col`. -/
def cellIndex (width depth row col b : ℕ) : ℕ := (row * width + col) * depth + b

section CellIndex

variable {height width depth row col b row' col' b' : ℕ}

theorem cellIndex_lt (hrow : row < height) (hcol : col < width) (hb : b < depth) :
    cellIndex width depth row col b < height * width * depth := by
  have hpixel : row * width + col + 1 ≤ height * width :=
    calc row * width + col + 1
      _ ≤ row * width + width := Nat.add_le_add_left hcol _
      _ = (row + 1) * width := (Nat.succ_mul _ _).symm
      _ ≤ height * width := Nat.mul_le_mul_right width hrow
  calc cellIndex width depth row col b
    _ < (row * width + col) * depth + depth := Nat.add_lt_add_left hb _
    _ = (row * width + col + 1) * depth := (Nat.succ_mul _ _).symm
    _ ≤ height * width * depth := Nat.mul_le_mul_right depth hpixel

/-- The strip from a column on, in cells. -/
theorem cellIndex_add (i : ℕ) :
    cellIndex width depth row col 0 + (i * depth + b) =
      cellIndex width depth row (col + i) b := by
  simp only [cellIndex]
  ring

theorem cellIndex_inj (hcol : col < width) (hcol' : col' < width) (hb : b < depth)
    (hb' : b' < depth)
    (h : cellIndex width depth row col b = cellIndex width depth row' col' b') :
    row = row' ∧ col = col' ∧ b = b' := by
  have hdepth : 0 < depth := Nat.zero_lt_of_lt hb
  have hwidth : 0 < width := Nat.zero_lt_of_lt hcol
  simp only [cellIndex] at h
  have hpixel : row * width + col = row' * width + col' := by
    have := congrArg (· / depth) h
    simpa [Nat.add_comm, Nat.add_mul_div_right _ _ hdepth, Nat.div_eq_of_lt hb,
      Nat.div_eq_of_lt hb'] using this
  have hrow : row = row' := by
    have := congrArg (· / width) hpixel
    simpa [Nat.add_comm, Nat.add_mul_div_right _ _ hwidth, Nat.div_eq_of_lt hcol,
      Nat.div_eq_of_lt hcol'] using this
  subst hrow
  obtain rfl : col = col' := Nat.add_left_cancel hpixel
  exact ⟨rfl, rfl, Nat.add_left_cancel h⟩

end CellIndex

/-- A part of a row of a tile: `len` pixels of row `row`, from column `col` on, that go to row
`toRow`, from column `toCol` on. -/
structure Strip where
  row : ℕ
  col : ℕ
  toRow : ℕ
  toCol : ℕ
  len : ℕ

/-- The copy of a strip, from a tile with `tileWidth` pixels a row. -/
def Strip.copy (tileWidth width depth : ℕ) (s : Strip) : Copy where
  src := cellIndex tileWidth depth s.row s.col 0
  dst := cellIndex width depth s.toRow s.toCol 0
  len := s.len * depth

/-- A raster that is cut into strips. -/
structure Tile (α : Type*) where
  cells : List α
  strips : List Strip

/-- The tile brings its pixel in row `r` and column `c` to row `row` and column `col`. -/
def Tile.Brings (t : Tile α) (r c row col : ℕ) : Prop :=
  ∃ s ∈ t.strips, ∃ i < s.len, r = s.row ∧ c = s.col + i ∧ row = s.toRow ∧ col = s.toCol + i

/-- A strip comes from a tile of `tileHeight` rows with `tileWidth` pixels each, and goes into a
raster of `height` rows with `width` pixels each. -/
structure Strip.Fits (tileHeight tileWidth height width : ℕ) (s : Strip) : Prop where
  row : s.row < tileHeight
  col : s.col + s.len ≤ tileWidth
  toRow : s.toRow < height
  toCol : s.toCol + s.len ≤ width

/-- A tile with all its cells fits if its strips do. -/
structure Tile.Fits (tileHeight tileWidth height width depth : ℕ) (t : Tile α) : Prop where
  length : t.cells.length = tileHeight * tileWidth * depth
  strips : ∀ s ∈ t.strips, s.Fits tileHeight tileWidth height width

/-- Copy the strips of tiles, one tile after the other. -/
def place (tileWidth width depth : ℕ) (tiles : List (Tile α)) (out : List α) : Option (List α) :=
  tiles.foldlM (fun out t =>
    Copy.runAll t.cells (t.strips.map (Strip.copy tileWidth width depth)) out) out

/-- No two pixels come to the same place. -/
def Unambiguous (tiles : List (Tile α)) : Prop :=
  ∀ t ∈ tiles, ∀ t' ∈ tiles, ∀ {r c r' c' row col : ℕ}, t.Brings r c row col →
    t'.Brings r' c' row col → t.cells = t'.cells ∧ r = r' ∧ c = c'

section Place

variable {tileHeight tileWidth height width depth : ℕ} {tiles : List (Tile α)} {out : List α}

/-- The cells of a strip are those of its pixels. -/
theorem mem_cells_copy {s : Strip} {k : ℕ} :
    k ∈ (s.copy tileWidth width depth).cells ↔
      ∃ i < s.len, ∃ b < depth, k = cellIndex width depth s.toRow (s.toCol + i) b := by
  constructor
  · rintro ⟨hle, hlt⟩
    obtain ⟨n, rfl⟩ := Nat.exists_eq_add_of_le hle
    have hn : n < s.len * depth := Nat.lt_of_add_lt_add_left hlt
    have hdepth : 0 < depth := Nat.pos_of_lt_mul_left hn
    refine ⟨n / depth, (Nat.div_lt_iff_lt_mul hdepth).mpr hn, n % depth, Nat.mod_lt _ hdepth, ?_⟩
    rw [← cellIndex_add, Nat.div_add_mod']
    rfl
  · rintro ⟨i, hi, b, hb, rfl⟩
    rw [← cellIndex_add]
    refine ⟨Nat.le_add_right _ _, Nat.add_lt_add_left ?_ _⟩
    calc i * depth + b
      _ < (i + 1) * depth := by rw [Nat.succ_mul]; omega
      _ ≤ s.len * depth := Nat.mul_le_mul_right depth hi

/-- The cells of a tile. -/
def Tile.places (width depth : ℕ) (t : Tile α) : Set ℕ :=
  {k | ∃ r c row col, t.Brings r c row col ∧ ∃ b < depth, k = cellIndex width depth row col b}

/-- The picture has the pixels of the tile at the places where they go. -/
def Tile.Shows (tileWidth width depth : ℕ) (f : ℕ → α) (t : Tile α) : Prop :=
  ∀ r c row col, t.Brings r c row col → ∀ b < depth,
    t.cells[cellIndex tileWidth depth r c b]? = some (f (cellIndex width depth row col b))

variable {f : ℕ → α} {t : Tile α}

theorem Tile.Fits.src_le (h : t.Fits tileHeight tileWidth height width depth) {s : Strip}
    (hs : s ∈ t.strips) :
    (s.copy tileWidth width depth).src + (s.copy tileWidth width depth).len ≤ t.cells.length := by
  obtain ⟨hrow, hcol, -, -⟩ := h.strips s hs
  rw [h.length]
  calc cellIndex tileWidth depth s.row s.col 0 + s.len * depth
    _ = (s.row * tileWidth + (s.col + s.len)) * depth := by rw [cellIndex]; ring
    _ ≤ (s.row * tileWidth + tileWidth) * depth :=
      Nat.mul_le_mul_right depth (Nat.add_le_add_left hcol _)
    _ = (s.row + 1) * tileWidth * depth := by ring
    _ ≤ tileHeight * tileWidth * depth :=
      Nat.mul_le_mul_right depth (Nat.mul_le_mul_right tileWidth hrow)

theorem Tile.Fits.dst_le (h : t.Fits tileHeight tileWidth height width depth) {s : Strip}
    (hs : s ∈ t.strips) :
    (s.copy tileWidth width depth).dst + (s.copy tileWidth width depth).len ≤
      height * width * depth := by
  obtain ⟨-, -, hrow, hcol⟩ := h.strips s hs
  calc cellIndex width depth s.toRow s.toCol 0 + s.len * depth
    _ = (s.toRow * width + (s.toCol + s.len)) * depth := by rw [cellIndex]; ring
    _ ≤ (s.toRow * width + width) * depth :=
      Nat.mul_le_mul_right depth (Nat.add_le_add_left hcol _)
    _ = (s.toRow + 1) * width * depth := by ring
    _ ≤ height * width * depth := Nat.mul_le_mul_right depth (Nat.mul_le_mul_right width hrow)

/-- The copies of a tile overlay its pixels. -/
theorem Tile.runAll_overlays (h : t.Fits tileHeight tileWidth height width depth)
    (hf : t.Shows tileWidth width depth f) (hout : out.length = height * width * depth) :
    ∃ out', Copy.runAll t.cells (t.strips.map (Strip.copy tileWidth width depth)) out = some out' ∧
      Overlays f (t.places width depth) out out' := by
  have hshows : ∀ s ∈ t.strips, (s.copy tileWidth width depth).Shows f t.cells := by
    intro s hs n hn
    have hdepth : 0 < depth := Nat.pos_of_lt_mul_left hn
    have hi : n / depth < s.len := (Nat.div_lt_iff_lt_mul hdepth).mpr hn
    have hpixel := hf s.row (s.col + n / depth) s.toRow (s.toCol + n / depth)
      ⟨s, hs, _, hi, rfl, rfl, rfl, rfl⟩ (n % depth) (Nat.mod_lt _ hdepth)
    rwa [← cellIndex_add, ← cellIndex_add, Nat.div_add_mod'] at hpixel
  obtain ⟨out', hrun, hover⟩ := Copy.runAll_overlays
    (List.forall_mem_map.mpr fun s hs => h.src_le hs)
    (List.forall_mem_map.mpr fun s hs => (h.dst_le hs).trans_eq hout.symm)
    (List.forall_mem_map.mpr hshows)
  refine ⟨out', hrun, hover.congr fun k => ?_⟩
  simp only [Set.mem_ofPred_eq, List.mem_map, exists_exists_and_eq_and, mem_cells_copy,
    Tile.places, Tile.Brings]
  constructor
  · rintro ⟨s, hs, i, hi, b, hb, rfl⟩
    exact ⟨_, _, _, _, ⟨s, hs, i, hi, rfl, rfl, rfl, rfl⟩, b, hb, rfl⟩
  · rintro ⟨_, _, _, _, ⟨s, hs, i, hi, rfl, rfl, rfl, rfl⟩, b, hb, rfl⟩
    exact ⟨s, hs, i, hi, b, hb, rfl⟩

/-- And so do the copies of many. -/
theorem place_overlays (hfits : ∀ t ∈ tiles, t.Fits tileHeight tileWidth height width depth)
    (hf : ∀ t ∈ tiles, t.Shows tileWidth width depth f)
    (hout : out.length = height * width * depth) :
    ∃ out', place tileWidth width depth tiles out = some out' ∧
      Overlays f {k | ∃ t ∈ tiles, k ∈ t.places width depth} out out' := by
  induction tiles generalizing out with
  | nil =>
    refine ⟨out, rfl, (Overlays.refl f out).congr fun k => ?_⟩
    simp
  | cons t tiles ih =>
    simp only [List.forall_mem_cons] at hfits hf
    obtain ⟨out₁, hrun, hover₁⟩ := Tile.runAll_overlays hfits.1 hf.1 hout
    obtain ⟨out', hrest, hover⟩ := ih hfits.2 hf.2 (hover₁.length_eq.trans hout)
    refine ⟨out', ?_, (hover₁.trans hover).congr fun k => ?_⟩
    · rw [place, List.foldlM_cons, hrun]
      exact hrest
    · simp

theorem Tile.Fits.lt_of_brings (h : t.Fits tileHeight tileWidth height width depth)
    {r c row col : ℕ} (hb : t.Brings r c row col) :
    r < tileHeight ∧ c < tileWidth ∧ row < height ∧ col < width := by
  obtain ⟨s, hs, i, hi, rfl, rfl, rfl, rfl⟩ := hb
  obtain ⟨hrow, hcol, htoRow, htoCol⟩ := h.strips s hs
  exact ⟨hrow, by omega, htoRow, by omega⟩

/-- There is a picture that shows all tiles, because no two pixels come to the same place. -/
theorem exists_shows [Inhabited α]
    (hfits : ∀ t ∈ tiles, t.Fits tileHeight tileWidth height width depth)
    (hone : Unambiguous tiles) :
    ∃ f : ℕ → α, ∀ t ∈ tiles, t.Shows tileWidth width depth f := by
  have hcell : ∀ k, ∃ v, ∀ t ∈ tiles, ∀ r c row col, t.Brings r c row col → ∀ b < depth,
      k = cellIndex width depth row col b →
        t.cells[cellIndex tileWidth depth r c b]? = some v := by
    intro k
    by_cases hk : ∃ t ∈ tiles, k ∈ t.places width depth
    · obtain ⟨t, ht, r, c, row, col, hbrings, b, hb, rfl⟩ := hk
      obtain ⟨hr, hc, -, hcol⟩ := (hfits t ht).lt_of_brings hbrings
      have hlt := cellIndex_lt hr hc hb
      rw [← (hfits t ht).length] at hlt
      refine ⟨t.cells.get ⟨_, hlt⟩, fun t' ht' r' c' row' col' hbrings' b' hb' heq => ?_⟩
      obtain ⟨-, -, -, hcol'⟩ := (hfits t' ht').lt_of_brings hbrings'
      obtain ⟨rfl, rfl, rfl⟩ := cellIndex_inj hcol hcol' hb hb' heq
      obtain ⟨hcells, rfl, rfl⟩ := hone t ht t' ht' hbrings hbrings'
      rw [← hcells]
      exact List.getElem?_eq_getElem hlt
    · exact ⟨default, fun t ht r c row col hbrings b hb heq =>
        absurd ⟨t, ht, r, c, row, col, hbrings, b, hb, heq⟩ hk⟩
  choose f hf using hcell
  exact ⟨f, fun t ht r c row col hbrings b hb => hf _ t ht r c row col hbrings b hb rfl⟩

/-- **The outcome of placing tiles.** Whatever the order, every pixel of a tile is at its place
and every place to which no pixel comes has what it had before. -/
theorem place_perm [Inhabited α]
    (hfits : ∀ t ∈ tiles, t.Fits tileHeight tileWidth height width depth)
    (hone : Unambiguous tiles) (hout : out.length = height * width * depth) :
    ∃ out' : List α, out'.length = out.length ∧
      (∀ order : List (Tile α), order.Perm tiles →
        place tileWidth width depth order out = some out') ∧
      (∀ t ∈ tiles, ∀ r c row col, t.Brings r c row col → ∀ b < depth,
        out'[cellIndex width depth row col b]? = t.cells[cellIndex tileWidth depth r c b]?) ∧
      ∀ row, ∀ col < width, (∀ t ∈ tiles, ∀ r c, ¬ t.Brings r c row col) → ∀ b < depth,
        out'[cellIndex width depth row col b]? = out[cellIndex width depth row col b]? := by
  obtain ⟨f, hf⟩ := exists_shows hfits hone
  obtain ⟨out', hplace, hover⟩ := place_overlays hfits hf hout
  refine ⟨out', hover.length_eq, fun order hperm => ?_, fun t ht r c row col hbrings b hb => ?_,
    fun row col hcol hnot b hb => hover.outside _ ?_⟩
  · obtain ⟨out'', hplace', hover'⟩ := place_overlays
      (fun t ht => hfits t (hperm.mem_iff.mp ht)) (fun t ht => hf t (hperm.mem_iff.mp ht)) hout
    have hcells := hover'.congr (t := {k | ∃ t ∈ tiles, k ∈ t.places width depth}) fun k => by
      simp only [Set.mem_ofPred_eq, hperm.mem_iff]
    rw [hplace', hcells.eq hover]
  · rw [hover.inside _ ⟨t, ht, r, c, row, col, hbrings, b, hb, rfl⟩,
      hf t ht r c row col hbrings b hb]
  · rintro ⟨t, ht, r, c, row', col', hbrings, b', hb', heq⟩
    obtain ⟨-, -, -, hcol'⟩ := (hfits t ht).lt_of_brings hbrings
    obtain ⟨rfl, rfl, rfl⟩ := cellIndex_inj hcol hcol' hb hb' heq
    exact hnot t ht r c hbrings

/-- The same for any family of steps, each of which copies the strips of a tile. -/
theorem foldlM_perm [Inhabited α] {ι : Type*} {ids : List ι} (tile : ι → Tile α)
    {step : List α → ι → Option (List α)}
    (hstep : ∀ id ∈ ids, ∀ out, step out id =
      Copy.runAll (tile id).cells ((tile id).strips.map (Strip.copy tileWidth width depth)) out)
    (hfits : ∀ id ∈ ids, (tile id).Fits tileHeight tileWidth height width depth)
    (hone : Unambiguous (ids.map tile)) (hout : out.length = height * width * depth) :
    ∃ out' : List α, out'.length = out.length ∧
      (∀ order : List ι, order.Perm ids → order.foldlM step out = some out') ∧
      (∀ id ∈ ids, ∀ r c row col, (tile id).Brings r c row col → ∀ b < depth,
        out'[cellIndex width depth row col b]? =
          (tile id).cells[cellIndex tileWidth depth r c b]?) ∧
      ∀ row, ∀ col < width, (∀ id ∈ ids, ∀ r c, ¬ (tile id).Brings r c row col) → ∀ b < depth,
        out'[cellIndex width depth row col b]? = out[cellIndex width depth row col b]? := by
  obtain ⟨out', hlength, horder, hplaced, hkept⟩ :=
    place_perm (List.forall_mem_map.mpr hfits) hone hout
  refine ⟨out', hlength, fun order hperm => ?_, List.forall_mem_map.mp hplaced,
    fun row col hcol hnot => hkept row col hcol (List.forall_mem_map.mpr hnot)⟩
  rw [← horder _ (hperm.map tile), place, List.foldlM_map]
  exact foldlM_congr (fun id hid => hstep id (hperm.mem_iff.mp hid)) out

end Place

end Raster
