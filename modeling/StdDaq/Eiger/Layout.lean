import StdDaq.Eiger.ConfigGen
import StdDaq.Eiger.Converter
import StdDaq.Placement.Exact

/-!
# The layouts of the configuration generator

For a detector of `Y` times `X` the generator makes an image of `b` pairs of rows of modules and `a`
columns of two modules each, where `X = 512 * b` and `Y = 1024 * a`: the image is rotated. Its loop
fills a column from below and starts the next one when it has counted down its rows. But the count
it is given is that of the detector, which are the columns of the image: every column gets `2 * a`
pairs, whatever `b` is.

With nine megapixels `b` is `2 * a`, and everything fits. With more pairs the columns are too short
and the last ones are to the right of the image; with fewer they are too long, and their last
modules have negative coordinates. No two modules overlap in any case. A detector of a single module
has one pair only, and the loop never comes to the second.

The image sizes of the services are of type `int`; here they are integers.

## Main definitions

* `position` — where the loop puts a module
* `generateLayout` — the sizes and positions of a generated file
* `UsableLayout` — what the converters need

## Main results

* `getModuleXyPosition_eq` — the loop in closed form
* `generateLayout_usable_iff` — which layouts are usable
-/

namespace StdDaq

namespace Eiger

namespace ConfigGen

/-! ### Where the loop puts the modules -/

/-- The module `q` of the pair `p` of the column `c`. A pair has two rows of two modules and ends at
the row `bottom` of the image. The upper two modules are upside down. -/
def place (totalSizeY : ℤ) (c p q : ℕ) : Point × Point :=
  let x : ℤ := 1038 * c + 516 * (q % 2 : ℕ)
  let bottom := totalSizeY - 1 - 550 * p
  if q < 2 then (⟨x, bottom - 255⟩, ⟨x + 513, bottom⟩)
  else (⟨x, bottom - 258⟩, ⟨x + 513, bottom - 513⟩)

/-- The position of a module. -/
def position (rows : ℕ) (totalSizeY : ℤ) (i : ℕ) : Point × Point :=
  place totalSizeY (i / 4 / rows) (i / 4 % rows) (i % 4)

theorem position_eq {rows c p q : ℕ} (totalSizeY : ℤ) (hp : p < rows) (hq : q < 4) :
    position rows totalSizeY (4 * (rows * c + p) + q) = place totalSizeY c p q := by
  have hquad : (4 * (rows * c + p) + q) / 4 = rows * c + p := by omega
  have hmod : (4 * (rows * c + p) + q) % 4 = q := by omega
  rw [position, hquad, hmod, Nat.mul_add_div (by omega), Nat.div_eq_of_lt hp, Nat.add_zero,
    Nat.mul_add_mod, Nat.mod_eq_of_lt hp]

/-- The variables of the loop before the module `q` of the pair `p` of the column `c`. -/
def cursorAt (rows : ℕ) (totalSizeY : ℤ) (c p q : ℕ) (right : Option (ℤ × ℤ)) : Cursor :=
  let bottom := totalSizeY - 1 - 550 * p
  { increaseColumn := if q = 3 ∧ p + 1 = rows then 1 else 0
    results := (List.range (4 * (rows * c + p) + q)).map fun i => (i, position rows totalSizeY i)
    x1 := 1038 * c
    x2 := 1038 * c + 513
    y1 := if q = 0 then (if p = 0 then bottom else bottom + 37)
      else if q = 3 then bottom - 513 else bottom
    y2 := if q = 0 then (if p = 0 then bottom - 255 else bottom + 292)
      else if q = 3 then bottom - 258 else bottom - 255
    right := right
    row := if q = 3 then rows - p - 1 else rows - p
    rawAdd := if q = 0 ∧ p = 0 then 1 else 0
    yBigCounter := if q = 3 ∨ (q = 0 ∧ p ≠ 0) then 1 else 0 }

section Loop

variable {rows c p q : ℕ} {totalSizeY : ℤ} {right : Option (ℤ × ℤ)}

theorem results_succ (totalSizeY : ℤ) (c : ℕ) (hp : p < rows) (hq : q < 4) :
    (List.range (4 * (rows * c + p) + q + 1)).map (fun i => (i, position rows totalSizeY i)) =
      (List.range (4 * (rows * c + p) + q)).map (fun i => (i, position rows totalSizeY i)) ++
        [(4 * (rows * c + p) + q, place totalSizeY c p q)] := by
  rw [List.range_succ, List.map_append, ← position_eq totalSizeY hp hq]
  rfl

/-- The first module of a column. -/
theorem turn_column (hp : 0 < rows) :
    (cursorAt rows totalSizeY c 0 0 right).turn totalSizeY rows (4 * (rows * c + 0) + 0) =
      .ok (cursorAt rows totalSizeY c 0 1 right) := by
  have hresults := results_succ totalSizeY c hp (q := 0) (by decide)
  rw [Cursor.turn, if_neg (by simp [cursorAt])]
  simp only [cursorAt, Cursor.place, pure, Except.pure, Except.ok.injEq, Cursor.mk.injEq]
  rw [hresults]
  simp [place]

/-- The module on the right of it. -/
theorem turn_right (hp : p < rows) :
    (cursorAt rows totalSizeY c p 1 right).turn totalSizeY rows (4 * (rows * c + p) + 1) =
      .ok (cursorAt rows totalSizeY c p 2
        (some (1038 * c + 1029, totalSizeY - 1 - 550 * p))) := by
  have hresults := results_succ totalSizeY c hp (q := 1) (by decide)
  have hodd : (4 * (rows * c + p) + 1) % 2 ≠ 0 := by omega
  have hrow : (cursorAt rows totalSizeY c p 1 right).row ≠ 0 := by
    change (rows : ℤ) - p ≠ 0
    omega
  rw [Cursor.turn, if_pos (by simp [cursorAt]), if_neg hodd]
  change (if (cursorAt rows totalSizeY c p 1 right).row = 0 then _ else _) = _
  rw [if_neg hrow]
  simp only [cursorAt, Cursor.rightModule, Cursor.place, pure, Except.pure, Except.ok.injEq,
    Cursor.mk.injEq]
  rw [hresults]
  simp [place, placedSizeX, xSmallGap]
  omega

/-- The first module of another pair, after the gap. -/
theorem turn_pair (hp : p + 1 < rows) (x : ℤ) :
    (cursorAt rows totalSizeY c (p + 1) 0
      (some (x, totalSizeY - 1 - 550 * (p + 1 : ℕ) + 37))).turn totalSizeY rows
        (4 * (rows * c + (p + 1)) + 0) =
      .ok (cursorAt rows totalSizeY c (p + 1) 1
        (some (x, totalSizeY - 1 - 550 * (p + 1 : ℕ) + 37))) := by
  have hresults := results_succ totalSizeY c hp (q := 0) (by decide)
  have heven : (4 * (rows * c + (p + 1)) + 0) % 2 = 0 := by omega
  have hrow : (rows : ℤ) - (p + 1 : ℕ) ≠ 0 := by omega
  rw [Cursor.turn, if_pos (by simp [cursorAt]), if_pos heven, Cursor.evenModule,
    if_pos ⟨hrow, rfl⟩]
  change (if (rows : ℤ) - (p + 1 : ℕ) = 0 then _ else _) = _
  rw [if_neg hrow]
  simp only [cursorAt, Cursor.place, pure, Except.pure, Except.ok.injEq, Cursor.mk.injEq]
  rw [hresults]
  simp [place, placedSizeY, yBigGap]
  omega

/-- The upper module of a pair, after the small gap. The last one counts the rows down to zero. -/
theorem turn_upper (hp : p < rows) :
    (cursorAt rows totalSizeY c p 2 right).turn totalSizeY rows (4 * (rows * c + p) + 2) =
      .ok (cursorAt rows totalSizeY c p 3 right) := by
  have hresults := results_succ totalSizeY c hp (q := 2) (by decide)
  have heven : (4 * (rows * c + p) + 2) % 2 = 0 := by omega
  rw [Cursor.turn, if_pos (by simp [cursorAt]), if_pos heven, Cursor.evenModule,
    if_neg (by simp [cursorAt])]
  change (if (rows : ℤ) - p - 1 = 0 then _ else _) = _
  by_cases hlast : p + 1 = rows
  · rw [if_pos (by omega), Cursor.lastRow, if_neg (by simp [cursorAt, Cursor.place])]
    simp only [cursorAt, Cursor.place, pure, Except.pure, Except.ok.injEq, Cursor.mk.injEq]
    rw [hresults]
    simp [place, placedSizeY, ySmallGap, hlast]
    omega
  · rw [if_neg (by omega)]
    simp only [cursorAt, Cursor.place, pure, Except.pure, Except.ok.injEq, Cursor.mk.injEq]
    rw [hresults]
    simp [place, placedSizeY, ySmallGap, hlast]
    omega

/-- The module on the right of it, when there is another pair. -/
theorem turn_upper_right (hp : p + 1 < rows) :
    (cursorAt rows totalSizeY c p 3 right).turn totalSizeY rows (4 * (rows * c + p) + 3) =
      .ok (cursorAt rows totalSizeY c (p + 1) 0
        (some (1038 * c + 1029, totalSizeY - 1 - 550 * (p + 1 : ℕ) + 37))) := by
  have hresults := results_succ totalSizeY c (Nat.lt_of_succ_lt hp) (q := 3) (by decide)
  have hodd : (4 * (rows * c + p) + 3) % 2 ≠ 0 := by omega
  rw [Cursor.turn, if_pos (by simp [cursorAt]), if_neg hodd]
  change (if (rows : ℤ) - p - 1 = 0 then _ else _) = _
  rw [if_neg (by omega)]
  simp only [cursorAt, Cursor.rightModule, Cursor.place, pure, Except.pure, Except.ok.injEq,
    Cursor.mk.injEq]
  rw [show 4 * (rows * c + (p + 1)) + 0 = 4 * (rows * c + p) + 3 + 1 by ring, hresults]
  simp [place, placedSizeX, xSmallGap, Nat.ne_of_lt hp]
  omega

/-- And when there is none: the loop starts over, in the next column. -/
theorem turn_last_right (hp : p + 1 = rows) :
    (cursorAt rows totalSizeY c p 3 right).turn totalSizeY rows (4 * (rows * c + p) + 3) =
      .ok (cursorAt rows totalSizeY (c + 1) 0 0
        (some (1038 * c + 1029, totalSizeY - 1 - 550 * p - 513))) := by
  have hresults := results_succ totalSizeY c (show p < rows by omega) (q := 3) (by decide)
  have hodd : (4 * (rows * c + p) + 3) % 2 ≠ 0 := by omega
  rw [Cursor.turn, if_pos (by simp [cursorAt]), if_neg hodd]
  change (if (rows : ℤ) - p - 1 = 0 then _ else _) = _
  rw [if_pos (by omega), Cursor.lastRow, if_pos (by simp [cursorAt, Cursor.rightModule,
    Cursor.place, hp])]
  change Except.ok _ = _
  simp only [cursorAt, Cursor.rightModule, Cursor.place, Except.ok.injEq, Cursor.mk.injEq]
  rw [show 4 * (rows * (c + 1) + 0) + 0 = 4 * (rows * c + p) + 3 + 1 by rw [← hp]; ring, hresults]
  simp [place, placedSizeX, placedSizeY, xSmallGap, xBigGap]
  omega

/-- A place in the loop: before the module `q` of the pair `p` of the column `c`. -/
def AtModule (rows : ℕ) (totalSizeY : ℤ) (i : ℕ) (s : Cursor) : Prop :=
  ∃ c p q right, i = 4 * (rows * c + p) + q ∧ p < rows ∧ q < 4 ∧
    (q = 0 → p ≠ 0 → ∃ x, right = some (x, totalSizeY - 1 - 550 * p + 37)) ∧
    s = cursorAt rows totalSizeY c p q right

/-- One turn of the loop. -/
theorem atModule_succ {i : ℕ} {s : Cursor} (h : AtModule rows totalSizeY i s) :
    ∃ s', s.turn totalSizeY rows i = .ok s' ∧ AtModule rows totalSizeY (i + 1) s' := by
  obtain ⟨c, p, q, right, rfl, hp, hq, hright, rfl⟩ := h
  match q, hq with
  | 0, _ =>
    rcases Nat.eq_zero_or_pos p with rfl | hpos
    · exact ⟨_, turn_column hp, c, 0, 1, _, rfl, hp, by decide, nofun, rfl⟩
    · obtain ⟨p, rfl⟩ := Nat.exists_eq_add_of_le' hpos
      obtain ⟨x, rfl⟩ := hright rfl (Nat.succ_ne_zero p)
      exact ⟨_, turn_pair hp x, c, p + 1, 1, _, rfl, hp, by decide, nofun, rfl⟩
  | 1, _ => exact ⟨_, turn_right hp, c, p, 2, _, rfl, hp, by decide, nofun, rfl⟩
  | 2, _ => exact ⟨_, turn_upper hp, c, p, 3, _, rfl, hp, by decide, nofun, rfl⟩
  | 3, _ =>
    rcases Nat.lt_or_ge (p + 1) rows with hlt | hge
    · exact ⟨_, turn_upper_right hlt, c, p + 1, 0, _, by ring, hlt, by decide,
        fun _ _ => ⟨_, rfl⟩, rfl⟩
    · have hlast : p + 1 = rows := by omega
      exact ⟨_, turn_last_right hlast, c + 1, 0, 0, _, by rw [← hlast]; ring, by omega, by decide,
        fun _ h0 => absurd rfl h0, rfl⟩

/-- **Where the loop puts the modules.** It never fails, and it fills a column of `rows` pairs after
the other, from the left. -/
theorem getModuleXyPosition_eq (hrows : 0 < rows) (n : ℕ) (totalSizeX totalColumns : ℤ) :
    getModuleXyPosition n totalSizeX totalSizeY rows totalColumns =
      .ok ((List.range n).map fun i => (i, position rows totalSizeY i)) := by
  have hstart : AtModule rows totalSizeY 0 (Cursor.start totalSizeY rows) := by
    refine ⟨0, 0, 0, none, rfl, hrows, by decide, fun _ h0 => absurd rfl h0, ?_⟩
    simp [Cursor.start, cursorAt, placedSizeX, placedSizeY, xSmallGap]
    omega
  obtain ⟨s, hrun, c, p, q, right, rfl, -, -, -, rfl⟩ := Except.foldlM_range_eq_ok
    (AtModule rows totalSizeY) hstart (fun i s => atModule_succ) n
  rw [getModuleXyPosition]
  exact Except.bind_eq_ok_iff.mpr ⟨_, hrun, rfl⟩

end Loop

/-! ### Rows, columns and sizes -/

section Sizes

variable {Y X : ℕ} {hostnames : List String}

/-- The submodules of `n` hosts, with the index of the host. -/
def submodules (n : ℕ) : List (ℕ × ℕ) :=
  (List.range n).flatMap fun i => (List.range' (i * 2) 2).map fun index => (i, index)

theorem length_submodules (n : ℕ) : (submodules n).length = 2 * n := by
  induction n with
  | zero => rfl
  | succ n ih =>
    rw [submodules, List.range_succ, List.flatMap_append, List.length_append, ← submodules, ih]
    rfl

/-- Every host has two. -/
theorem mem_submodules {n : ℕ} {s : ℕ × ℕ} :
    s ∈ submodules n ↔ s.1 < n ∧ (s.2 = s.1 * 2 ∨ s.2 = s.1 * 2 + 1) := by
  obtain ⟨i, index⟩ := s
  have hrange (j : ℕ) : List.range' (j * 2) 2 = [j * 2, j * 2 + 1] := rfl
  simp only [submodules, List.mem_flatMap, List.mem_range, hrange, List.map_cons, List.map_nil,
    List.mem_cons, List.not_mem_nil, or_false, Prod.mk.injEq]
  constructor
  · rintro ⟨j, hj, ⟨rfl, rfl⟩ | ⟨rfl, rfl⟩⟩
    · exact ⟨hj, .inl rfl⟩
    · exact ⟨hj, .inr rfl⟩
  · rintro ⟨hi, rfl | rfl⟩
    · exact ⟨i, hi, .inl ⟨rfl, rfl⟩⟩
    · exact ⟨i, hi, .inr ⟨rfl, rfl⟩⟩

/-- The rows and columns of the submodules. -/
theorem calculateSubmoduleIndex_eq (hX : 256 ≤ X) :
    calculateSubmoduleIndex (Y, X) hostnames = .ok ((submodules hostnames.length).map fun s =>
      (s.1 * 256 / X * 2 + s.2 % 2, s.1 % (X / 256))) := by
  have hcolumns : X / 256 ≠ 0 := by omega
  refine Except.mapM_eq_ok fun s _ => ?_
  rw [getSubmoduleRowCol, throwIf, if_neg hcolumns]
  rfl

section Grid

variable {a b : ℕ}

/-- The largest row is the lower half of the last module. -/
theorem max_row (ha : 0 < a) (hb : 0 < b) :
    ((submodules (2 * b * a)).map fun s => s.1 / (2 * b) * 2 + s.2 % 2).max?
      = some (2 * a - 1) := by
  rw [List.max?_eq_some_iff, List.mem_map]
  constructor
  · refine ⟨(2 * b * (a - 1), 2 * b * (a - 1) * 2 + 1), mem_submodules.mpr ⟨?_, .inr rfl⟩, ?_⟩
    · exact Nat.mul_lt_mul_of_pos_left (by omega) (by omega)
    · simp only [Nat.mul_div_cancel_left (a - 1) (show 0 < 2 * b by omega)]
      omega
  · intro row hrow
    obtain ⟨s, hs, rfl⟩ := List.mem_map.mp hrow
    have hlt : s.1 / (2 * b) < a := Nat.div_lt_of_lt_mul (mem_submodules.mp hs).1
    omega

theorem max_column (ha : 0 < a) (hb : 0 < b) :
    ((submodules (2 * b * a)).map fun s => s.1 % (2 * b)).max? = some (2 * b - 1) := by
  rw [List.max?_eq_some_iff, List.mem_map]
  constructor
  · refine ⟨(2 * b - 1, (2 * b - 1) * 2), mem_submodules.mpr ⟨?_, .inl rfl⟩, ?_⟩
    · have hle := Nat.le_mul_of_pos_right (2 * b) ha
      simp only
      omega
    · exact Nat.mod_eq_of_lt (by omega)
  · intro column hcolumn
    obtain ⟨s, -, rfl⟩ := List.mem_map.mp hcolumn
    have hlt := Nat.mod_lt s.1 (show 0 < 2 * b by omega)
    omega

/-- A detector of `2 * b * a` hosts has `2 * a` rows and `2 * b` columns of submodules. -/
theorem getRowColumn_eq (ha : 0 < a) (hb : 0 < b) :
    getRowColumn ((submodules (2 * b * a)).map fun s =>
      (s.1 * 256 / (512 * b) * 2 + s.2 % 2, s.1 % (512 * b / 256))) = .ok (2 * b, 2 * a) := by
  have hcols : 512 * b / 256 = 2 * b := by omega
  have hdiv (i : ℕ) : i * 256 / (512 * b) = i / (2 * b) := by
    rw [show 512 * b = 2 * b * 256 by ring, Nat.mul_div_mul_right _ _ (by decide)]
  rw [getRowColumn, List.map_map, List.map_map]
  simp only [Function.comp_def, hcols, hdiv, max_row ha hb, max_column ha hb]
  rw [Nat.sub_add_cancel (by omega), Nat.sub_add_cancel (by omega)]

/-- A loop over pairs of items. -/
theorem foldl_range_two_succ (body : ℕ → ℕ → ℕ) (init m : ℕ) :
    (List.range (2 * (m + 1))).foldl body init =
      body (body ((List.range (2 * m)).foldl body init) (2 * m)) (2 * m + 1) := by
  rw [Nat.mul_succ, List.range_succ, List.range_succ, List.foldl_append, List.foldl_append]
  rfl

/-- The pairs of items that all add the same. -/
theorem foldl_pairs {body : ℕ → ℕ → ℕ} (init gain : ℕ) {n : ℕ}
    (hpair : ∀ m < n, ∀ total, body (body total (2 * m)) (2 * m + 1) = total + gain) :
    (List.range (2 * n)).foldl body init = init + gain * n := by
  induction n with
  | zero => rfl
  | succ n ih =>
    rw [foldl_range_two_succ, ih fun m hm => hpair m (Nat.lt_succ_of_lt hm),
      hpair n (Nat.lt_succ_self n), Nat.mul_succ, Nat.add_assoc]

/-- A small gap in every pair of columns, and a big one behind all but the last. -/
theorem getColumnsTotalSize_eq (b initialSize : ℕ) :
    getColumnsTotalSize (2 * (b + 1)) initialSize = initialSize + 38 * b + 2 := by
  rw [getColumnsTotalSize, foldl_range_two_succ, foldl_pairs initialSize 38]
  · rw [if_neg (by omega), if_neg (by omega), if_neg (by omega), if_pos (by omega)]
  · intro m hm total
    rw [if_pos (by omega), if_neg (by omega), if_pos (by omega)]

/-- Three small gaps in every pair of rows, and a big one behind all but the last. -/
theorem getRowsTotalSize_eq (a initialSize : ℕ) :
    getRowsTotalSize (2 * (a + 1)) initialSize = initialSize + 14 * a + 6 := by
  rw [getRowsTotalSize, foldl_range_two_succ, foldl_pairs initialSize 14]
  · rw [if_neg (by omega), if_neg (by omega), if_neg (by omega), if_pos (by omega)]
  · intro m hm total
    rw [if_pos (by omega), if_neg (by omega), if_pos (by omega)]

end Grid

end Sizes

/-! ### Layouts -/

/-- The part of the generated file that the converters are placed by. -/
structure Layout where
  imagePixelHeight : ℤ
  imagePixelWidth : ℤ
  modulePositions : List (ℕ × Point × Point)
  deriving DecidableEq, Repr

/-- What `main` and `generate_output_file` call for it. The two sizes are exchanged. -/
def generateLayout (detsize : ℕ × ℕ) (hostnames : List String) : Except String Layout := do
  let indexes ← calculateSubmoduleIndex detsize hostnames
  let (columns, rows) ← getRowColumn indexes
  let (imagePixelHeight, imagePixelWidth) := calculateTotalImageSize detsize columns rows
  let positions ← getModuleXyPosition indexes.length imagePixelHeight imagePixelWidth rows columns
  return {
    imagePixelHeight := imagePixelWidth
    imagePixelWidth := imagePixelHeight
    modulePositions := positions }

namespace OutputData

/-- The layout of a generated file. -/
def layout (out : OutputData) : Layout where
  imagePixelHeight := out.imagePixelHeight
  imagePixelWidth := out.imagePixelWidth
  modulePositions := out.modulePositions

end OutputData

/-- A file that is generated without deactivated modules has the layout. -/
theorem generateLayout_of_main {config : DetectorFile} {out : OutputData} {detsize : ℕ × ℕ}
    {hostnames : List String} (hdetsize : config.detsize = some detsize)
    (hhosts : config.hostnames = some hostnames) (hactive : config.deactivate = [])
    (h : main config = .ok out) : generateLayout detsize hostnames = .ok out.layout := by
  rw [main, hdetsize, hhosts] at h
  obtain ⟨indexes, hindexes, h⟩ := Except.bind_eq_ok_iff.mp h
  obtain ⟨⟨columns, rows⟩, hcolumns, h⟩ := Except.bind_eq_ok_iff.mp h
  simp only [generateOutputFile, hactive, List.flatMap_nil] at h
  obtain ⟨positions, hpositions, h⟩ := Except.bind_eq_ok_iff.mp h
  obtain ⟨kept, hkept, h⟩ := Except.bind_eq_ok_iff.mp h
  obtain ⟨info, -, h⟩ := Except.bind_eq_ok_iff.mp h
  cases hkept
  cases h
  rw [generateLayout]
  exact Except.bind_eq_ok_iff.mpr ⟨indexes, hindexes, Except.bind_eq_ok_iff.mpr
    ⟨(columns, rows), hcolumns, Except.bind_eq_ok_iff.mpr ⟨positions, hpositions, rfl⟩⟩⟩

/-- The layout of a detector of `2 * b` times `a` modules. -/
theorem generateLayout_eq {a b : ℕ} {hostnames : List String}
    (hhosts : hostnames.length = 2 * (b + 1) * (a + 1)) :
    generateLayout (1024 * (a + 1), 512 * (b + 1)) hostnames = .ok {
      imagePixelHeight := 550 * b + 514
      imagePixelWidth := 1038 * a + 1030
      modulePositions := (List.range (4 * (b + 1) * (a + 1))).map fun i =>
        (i, position (2 * (a + 1)) (550 * b + 514) i) } := by
  have hcolumns := getRowColumn_eq (a := a + 1) (b := b + 1) (by omega) (by omega)
  have hheight : ((getColumnsTotalSize (2 * (b + 1)) (512 * (b + 1)) : ℕ) : ℤ)
      = 550 * b + 514 := by
    rw [getColumnsTotalSize_eq]
    omega
  have hwidth : ((getRowsTotalSize (2 * (a + 1)) (1024 * (a + 1)) : ℕ) : ℤ)
      = 1038 * a + 1030 := by
    rw [getRowsTotalSize_eq]
    omega
  rw [← hhosts] at hcolumns
  rw [generateLayout, calculateSubmoduleIndex_eq (by omega)]
  refine Except.bind_eq_ok_iff.mpr ⟨_, rfl, Except.bind_eq_ok_iff.mpr ⟨_, hcolumns, ?_⟩⟩
  simp only [calculateTotalImageSize]
  rw [hheight, hwidth, getModuleXyPosition_eq (by omega), List.length_map, length_submodules,
    hhosts, show 2 * (2 * (b + 1) * (a + 1)) = 4 * (b + 1) * (a + 1) by ring]
  rfl

/-- The configuration of the services with this layout. -/
def Layout.detectorConfig (layout : Layout) (nModules bitDepth : ℤ) : DetectorConfig where
  detectorType := .eiger
  nModules := nModules
  bitDepth := bitDepth
  imagePixelHeight := layout.imagePixelHeight
  imagePixelWidth := layout.imagePixelWidth
  modules := layout.modulePositions

/-- The converters of all modules can work side by side. -/
structure UsableLayout (config : DetectorConfig) : Prop where
  /-- The modules lie inside of the image. -/
  inside : ∀ m ∈ config.modules, m.2.1.InImage config ∧ m.2.2.InImage config
  /-- They do not overlap. -/
  disjoint : config.modules.Pairwise fun m m' => Disjoint (rectangle m.2) (rectangle m'.2)
  /-- Their converters can be created. -/
  accepted : ∀ m ∈ config.modules, ∃ c, Converter.create config m.1 = .ok c

section Places

variable {totalSizeY : ℤ} {c p q c' p' q' : ℕ}

/-- The pixels of a module. -/
theorem mem_rectangle_place {pixel : ℤ × ℤ} (hq : q < 4) :
    pixel ∈ rectangle (place totalSizeY c p q) ↔
      (totalSizeY - 256 - 550 * p - 258 * (q / 2 : ℕ) ≤ pixel.1 ∧
        pixel.1 ≤ totalSizeY - 1 - 550 * p - 258 * (q / 2 : ℕ)) ∧
      1038 * (c : ℤ) + 516 * (q % 2 : ℕ) ≤ pixel.2 ∧
        pixel.2 ≤ 1038 * (c : ℤ) + 516 * (q % 2 : ℕ) + 513 := by
  rw [rectangle, Set.mem_ofPred_eq, place]
  by_cases hlow : q < 2
  · rw [if_pos hlow]
    simp only
    omega
  · rw [if_neg hlow]
    simp only
    omega

/-- Two modules that share a pixel are one. -/
theorem eq_of_mem_rectangle_place {pixel : ℤ × ℤ} (hq : q < 4) (hq' : q' < 4)
    (h : pixel ∈ rectangle (place totalSizeY c p q))
    (h' : pixel ∈ rectangle (place totalSizeY c' p' q')) : c = c' ∧ p = p' ∧ q = q' := by
  rw [mem_rectangle_place hq] at h
  rw [mem_rectangle_place hq'] at h'
  have hcolumn : c = c' ∧ q % 2 = q' % 2 := by
    obtain ⟨-, h⟩ := h
    obtain ⟨-, h'⟩ := h'
    rcases Nat.mod_two_eq_zero_or_one q with hleft | hright
    · rcases Nat.mod_two_eq_zero_or_one q' with hleft' | hright' <;> omega
    · rcases Nat.mod_two_eq_zero_or_one q' with hleft' | hright' <;> omega
  have hrow : p = p' ∧ q / 2 = q' / 2 := by
    obtain ⟨h, -⟩ := h
    obtain ⟨h', -⟩ := h'
    have hlow : q / 2 = 0 ∨ q / 2 = 1 := by omega
    have hlow' : q' / 2 = 0 ∨ q' / 2 = 1 := by omega
    rcases hlow with hlow | hlow
    · rcases hlow' with hlow' | hlow' <;> rw [hlow] at h ⊢ <;> rw [hlow'] at h' ⊢ <;> omega
    · rcases hlow' with hlow' | hlow' <;> rw [hlow] at h ⊢ <;> rw [hlow'] at h' ⊢ <;> omega
  omega

/-- The modules have the size that the converter asks for. -/
theorem place_size : ((place totalSizeY c p q).1.x - (place totalSizeY c p q).2.x).natAbs = 513 ∧
    ((place totalSizeY c p q).1.y - (place totalSizeY c p q).2.y).natAbs = 255 := by
  rw [place]
  split
  · simp only
    omega
  · simp only
    omega

/-- A module in the columns and the rows of the image. -/
theorem place_inImage {config : DetectorConfig} {a b : ℕ}
    (hheight : config.imagePixelHeight = 550 * b + 514)
    (hwidth : config.imagePixelWidth = 1038 * a + 1030) (hc : c ≤ a) (hp : p ≤ b) :
    (place (550 * b + 514) c p q).1.InImage config ∧
      (place (550 * b + 514) c p q).2.InImage config := by
  rw [place]
  split
  · constructor <;> constructor <;> simp only <;> omega
  · constructor <;> constructor <;> simp only <;> omega

end Places

section Usable

variable {a b : ℕ} (nModules bitDepth : ℤ)

/-- The generated layout of a detector of `2 * (b + 1)` times `a + 1` modules. -/
def gridLayout (a b : ℕ) : Layout where
  imagePixelHeight := 550 * b + 514
  imagePixelWidth := 1038 * a + 1030
  modulePositions := (List.range (4 * (b + 1) * (a + 1))).map fun i =>
    (i, position (2 * (a + 1)) (550 * b + 514) i)

/-- The position of a module is found under its index. -/
theorem lookup_positions {f : ℕ → Point × Point} {n k : ℕ} (hk : k < n) :
    ((List.range n).map fun i => (i, f i)).lookup k = some (f k) := by
  induction n with
  | zero => exact absurd hk (Nat.not_lt_zero k)
  | succ n ih =>
    rw [List.range_succ, List.map_append, List.lookup_append]
    rcases Nat.lt_succ_iff_lt_or_eq.mp hk with hlt | rfl
    · rw [ih hlt]
      rfl
    · have hnone : ((List.range k).map fun i => (i, f i)).lookup k = none := by
        rw [List.lookup_eq_none_iff]
        intro m hm
        obtain ⟨i, hi, rfl⟩ := List.mem_map.mp hm
        exact bne_iff_ne.mpr (Nat.ne_of_gt (List.mem_range.mp hi))
      rw [hnone]
      simp

/-- Modules in the columns and the rows of the image are usable. -/
theorem usable_of_fits (hfits : ∀ i < 4 * (b + 1) * (a + 1),
    i / 4 / (2 * (a + 1)) ≤ a ∧ i / 4 % (2 * (a + 1)) ≤ b) :
    UsableLayout ((gridLayout a b).detectorConfig nModules bitDepth) := by
  have hinside (i : ℕ) (hi : i < 4 * (b + 1) * (a + 1)) :
      (position (2 * (a + 1)) (550 * b + 514) i).1.InImage
          ((gridLayout a b).detectorConfig nModules bitDepth) ∧
        (position (2 * (a + 1)) (550 * b + 514) i).2.InImage
          ((gridLayout a b).detectorConfig nModules bitDepth) :=
    place_inImage rfl rfl (hfits i hi).1 (hfits i hi).2
  refine ⟨fun m hm => ?_, ?_, fun m hm => ?_⟩
  · obtain ⟨i, hi, rfl⟩ := List.mem_map.mp hm
    exact hinside i (List.mem_range.mp hi)
  · refine List.pairwise_map.mpr (List.Pairwise.imp ?_ List.pairwise_lt_range)
    intro i j hlt
    refine Set.disjoint_left.mpr fun pixel hpixel hpixel' => ?_
    obtain ⟨hcolumn, hpair, hmodule⟩ := eq_of_mem_rectangle_place (Nat.mod_lt i (by decide))
      (Nat.mod_lt j (by decide)) hpixel hpixel'
    have hquad : i / 4 = j / 4 := by
      rw [← Nat.div_add_mod (i / 4) (2 * (a + 1)), ← Nat.div_add_mod (j / 4) (2 * (a + 1)),
        hcolumn, hpair]
    omega
  · obtain ⟨i, hi, rfl⟩ := List.mem_map.mp hm
    -- the index of a module is found modulo `2 ^ 64`, and so is the module there
    have hi : toSizeT (i : ℤ) < 4 * (b + 1) * (a + 1) := by
      have hmod : toSizeT (i : ℤ) ≤ i := by
        rw [toSizeT]
        omega
      exact hmod.trans_lt (List.mem_range.mp hi)
    have hat : ((gridLayout a b).detectorConfig nModules bitDepth).moduleAt (toSizeT (i : ℤ))
        = .ok (position (2 * (a + 1)) (550 * b + 514) (toSizeT (i : ℤ))) := by
      have hlookup : ((gridLayout a b).detectorConfig nModules bitDepth).modules.lookup
          (toSizeT (i : ℤ)) = some (position (2 * (a + 1)) (550 * b + 514) (toSizeT (i : ℤ))) :=
        lookup_positions hi
      rw [DetectorConfig.moduleAt, hlookup]
    obtain ⟨⟨-, hx, -, hy⟩, -, hx', -, hy'⟩ := hinside _ hi
    exact ⟨_, (Converter.create_eq_ok hat).mpr ⟨⟨⟨hx.le, hy.le⟩, hx'.le, hy'.le⟩, place_size, rfl⟩⟩

/-- A module behind the last column of the image. -/
theorem not_usable_of_long (hlong : 2 * (a + 1) < b + 1) :
    ¬ UsableLayout ((gridLayout a b).detectorConfig nModules bitDepth) := by
  intro h
  -- the first module of the column `a + 1`
  have hlt : 4 * (2 * (a + 1) * (a + 1) + 0) + 0 < 4 * (b + 1) * (a + 1) := by
    have hmul : 2 * (a + 1) * (a + 1) < (b + 1) * (a + 1) :=
      Nat.mul_lt_mul_of_pos_right hlong (Nat.succ_pos a)
    rw [Nat.mul_assoc 4]
    omega
  obtain ⟨⟨-, hx, -, -⟩, -⟩ := h.inside _
    (List.mem_map.mpr ⟨_, List.mem_range.mpr hlt, rfl⟩)
  rw [position_eq _ (by omega) (by decide)] at hx
  change (1038 * ((a + 1 : ℕ) : ℤ) + 516 * ((0 % 2 : ℕ) : ℤ) : ℤ) < 1038 * a + 1030 at hx
  omega

/-- A module above the first row of the image. -/
theorem not_usable_of_short (hshort : b + 1 < 2 * (a + 1)) (ha : 0 < a) :
    ¬ UsableLayout ((gridLayout a b).detectorConfig nModules bitDepth) := by
  intro h
  -- the first module of the pair `b + 1`
  have hlt : 4 * (2 * (a + 1) * 0 + (b + 1)) + 0 < 4 * (b + 1) * (a + 1) := by
    have hmul : (b + 1) * 1 < (b + 1) * (a + 1) :=
      Nat.mul_lt_mul_of_pos_left (by omega) (Nat.succ_pos b)
    rw [Nat.mul_assoc 4]
    omega
  obtain ⟨⟨-, -, hy, -⟩, -⟩ := h.inside _
    (List.mem_map.mpr ⟨_, List.mem_range.mpr hlt, rfl⟩)
  rw [position_eq _ hshort (by decide)] at hy
  change 0 ≤ (550 * (b : ℤ) + 514 - 1 - 550 * ((b + 1 : ℕ) : ℤ) - 255 : ℤ) at hy
  omega

/-- The loop counts the rows of the detector and walks along its columns: the modules fit if there
are as many pairs of them, or if there is only one. -/
theorem usable_gridLayout_iff :
    UsableLayout ((gridLayout a b).detectorConfig nModules bitDepth) ↔
      b + 1 = 2 * (a + 1) ∨ (a = 0 ∧ b = 0) := by
  constructor
  · intro h
    by_contra hne
    rcases Nat.lt_trichotomy (2 * (a + 1)) (b + 1) with hlong | heq | hshort
    · exact not_usable_of_long nModules bitDepth hlong h
    · exact hne (.inl heq.symm)
    · exact not_usable_of_short nModules bitDepth hshort (by omega) h
  · rintro (hsquare | ⟨rfl, rfl⟩)
    · refine usable_of_fits nModules bitDepth fun i hi => ⟨?_, ?_⟩
      · have hquad : i / 4 < 2 * (a + 1) * (a + 1) := by
          rw [← hsquare]
          exact Nat.div_lt_of_lt_mul (by rwa [← Nat.mul_assoc])
        exact Nat.lt_succ_iff.mp (Nat.div_lt_of_lt_mul hquad)
      · have hpair := Nat.mod_lt (i / 4) (show 0 < 2 * (a + 1) by omega)
        omega
    · refine usable_of_fits nModules bitDepth fun i hi => ?_
      have hquad : i / 4 = 0 := by omega
      rw [hquad]
      exact ⟨by decide, by decide⟩

end Usable

/-- **The generated layout is usable exactly for a square detector**, or for a single module of the
smallest size. The size of the detector is `Y` times `X`, and it has a host for every module of 256
columns and 1024 rows. -/
theorem generateLayout_usable_iff {Y X : ℕ} (hY : 1024 ∣ Y) (hY0 : 0 < Y) (hX : 512 ∣ X)
    (hX0 : 0 < X) {hostnames : List String}
    (hhosts : hostnames.length = X / 256 * (Y / 1024)) (nModules bitDepth : ℤ) :
    (∃ layout, generateLayout (Y, X) hostnames = .ok layout ∧
      UsableLayout (layout.detectorConfig nModules bitDepth)) ↔
        Y = X ∨ (Y = 1024 ∧ X = 512) := by
  obtain ⟨k, rfl⟩ := hY
  obtain ⟨m, rfl⟩ := hX
  obtain ⟨a, rfl⟩ := Nat.exists_eq_add_of_le' (Nat.pos_of_mul_pos_left hY0)
  obtain ⟨b, rfl⟩ := Nat.exists_eq_add_of_le' (Nat.pos_of_mul_pos_left hX0)
  have hlength : hostnames.length = 2 * (b + 1) * (a + 1) := by
    rw [hhosts, Nat.mul_div_cancel_left _ (by decide)]
    congr 1
    omega
  have hlayout : generateLayout (1024 * (a + 1), 512 * (b + 1)) hostnames
      = .ok (gridLayout a b) := generateLayout_eq hlength
  rw [hlayout]
  have hcond : 1024 * (a + 1) = 512 * (b + 1) ∨ (1024 * (a + 1) = 1024 ∧ 512 * (b + 1) = 512) ↔
      b + 1 = 2 * (a + 1) ∨ (a = 0 ∧ b = 0) := by omega
  rw [hcond, ← usable_gridLayout_iff nModules bitDepth]
  constructor
  · rintro ⟨layout, heq, h⟩
    cases heq
    exact h
  · intro h
    exact ⟨_, rfl, h⟩

/-- The names of the hosts in the tests of the generator. -/
def testHosts (n : ℕ) : List String := (List.range n).map fun i => s!"beb{i}"

/-- The detector of nine megapixels. -/
theorem generateLayout_usable_9M :
    ∃ layout, generateLayout (3072, 3072) (testHosts 36) = .ok layout ∧
      UsableLayout (layout.detectorConfig 72 16) :=
  (generateLayout_usable_iff (by decide) (by decide) (by decide) (by decide)
    (by rw [testHosts, List.length_map, List.length_range]) 72 16).mpr (.inl rfl)

/-- The test detector of six megapixels has two rows of modules, and its modules are placed in
columns of four pairs, where the image has room for six, and in three columns, where it has room for
two. -/
theorem not_generateLayout_usable_6M :
    ¬ ∃ layout, generateLayout (2048, 3072) (testHosts 24) = .ok layout ∧
      UsableLayout (layout.detectorConfig 48 16) := by
  have hlayout : generateLayout (2048, 3072) (testHosts 24) = .ok (gridLayout 1 5) :=
    generateLayout_eq (a := 1) (b := 5) (by rw [testHosts, List.length_map, List.length_range])
  rintro ⟨layout, heq, h⟩
  rw [hlayout] at heq
  cases heq
  exact not_usable_of_long 48 16 (by decide) h

end ConfigGen

end Eiger

end StdDaq
