import StdDaq.Driver.H5File
import StdDaq.Lib.Run

/-!
# The extents of the datasets

What `H5File` says about the rows of a file, seen from HDF5: a file is made, images are written to
it, and it is destroyed. A hyperslab has to lie within the extent of its dataset, and in the end
the extent should be the number of images.

The three rules by which a dataset grows all leave room for the row that is written next, whatever
the size of a chunk. The destructor is another matter: it trims the datasets when `index > 0`, so a
file with a single image keeps the rows of a chunk.

## Main results

* `extentsMatch_iff` — when the extents are right
-/

namespace StdDaq

namespace Driver

open Dataset

section Extents

variable {D : Type → Type} [Dataset D] {P : Type} {config : H5Config} {getData : ℕ → P}
  {kind : WriterKind} {ms : List ImageMetadata}

/-- `sizeof(h5_metadata)` of a service. -/
def WriterKind.recordBytes : WriterKind → ℕ
  | .image => 16
  | .metadata => 40

namespace H5File

/-- The extents of the datasets of a file. -/
def extents : H5File D P → List ℕ
  | .data file => [extent file.metadata, extent file.image]
  | .gf file => [extent file.metadata]

/-- The index at which the next image is written. -/
def nextIndex : H5File D P → ℕ
  | .data file => (file.index + 1).toNat
  | .gf file => (file.index + 1).toNat

/-- The extents of the datasets at the moment at which the next image is written. -/
def extentsAtWrite (config : H5Config) : H5File D P → List ℕ
  | .data file =>
    let index := (file.index + 1).toNat
    [extent (enlarged file.metadata (extendTo config.recordsPerChunk index) index),
      extent (enlarged file.image (index + config.imagesPerChunk) index)]
  | .gf file =>
    let index := (file.index + 1).toNat
    [extent (enlarged file.metadata (extendTo config.gfRecordsPerChunk index) index)]

/-- A new file to which these images are written, one after the other. -/
def writes (D : Type → Type) [Dataset D] (config : H5Config) (getData : ℕ → P) (kind : WriterKind)
    (ms : List ImageMetadata) : Option (H5File D P) :=
  (create config kind).bind fun file => exec (write config getData) file ms

end H5File

/-- Writing these images to a new file keeps every hyperslab within its dataset, and leaves datasets
with as many rows as there are images. -/
structure ExtentsMatch (D : Type → Type) [Dataset D] (config : H5Config) (getData : ℕ → P)
    (kind : WriterKind) (ms : List ImageMetadata) : Prop where
  room : ∀ before m, before ++ [m] <+: ms → ∃ file : H5File D P,
    H5File.writes D config getData kind before = some file ∧
      ∀ n ∈ file.extentsAtWrite config, file.nextIndex < n
  closed : ∃ file : H5File D P, H5File.writes D config getData kind ms = some file ∧
    ∀ n ∈ file.close.extents, n = ms.length

/-! ### One file -/

theorem H5Config.creates_of_le (himage : 0 < config.imageSize)
    (hblock : config.imageSize ≤ config.gpfsBlockSize)
    (hrecord : kind.recordBytes ≤ config.gpfsBlockSize) : config.Creates kind := by
  cases kind with
  | image => exact ⟨himage, Nat.div_pos hrecord (by decide), Nat.div_pos hblock himage⟩
  | metadata => exact Nat.div_pos hrecord (by decide)

namespace H5File

variable {file : H5File D P}

variable [LawfulDataset D]

/-- Every dataset has room for the image that is written next. -/
theorem nextIndex_lt (hcreates : config.Creates kind) (h : file.Wrote getData kind ms) {n : ℕ}
    (hn : n ∈ file.extentsAtWrite config) : file.nextIndex < n := by
  match kind, file with
  | .image, .data file =>
    obtain ⟨-, hrecords, himages⟩ := hcreates
    rcases List.mem_pair.mp hn with rfl | rfl
    · exact lt_extent_enlarged _ (Nat.lt_of_succ_lt (lt_extendTo hrecords _))
    · exact lt_extent_enlarged _ (Nat.lt_add_of_pos_right himages)
  | .metadata, .gf file =>
    obtain rfl := List.mem_singleton.mp hn
    exact lt_extent_enlarged _ (Nat.lt_of_succ_lt (lt_extendTo hcreates _))
  | .image, .gf _ => cases h
  | .metadata, .data _ => cases h

omit [LawfulDataset D] in
/-- A file with one image is not trimmed, and its first dataset has more than one row. -/
theorem Wrote.one_lt_extents_close (h : file.Wrote getData kind ms) (hlen : ms.length = 1) :
    ∃ n ∈ file.close.extents, 1 < n := by
  match kind, file with
  | .image, .data file =>
    have h : file.Wrote getData ms := h
    have hindex : ¬ 0 < file.index := by
      rw [h.index_eq, hlen]
      decide
    refine ⟨_, List.mem_cons_self, ?_⟩
    rw [DataFile.close, trim, if_neg hindex]
    exact h.one hlen
  | .metadata, .gf file =>
    have h : file.Wrote ms := h
    have hindex : ¬ 0 < file.index := by
      rw [h.index_eq, hlen]
      decide
    refine ⟨_, List.mem_cons_self, ?_⟩
    rw [MetaFile.close, trim, if_neg hindex]
    exact h.one hlen
  | .image, .gf _ => cases h
  | .metadata, .data _ => cases h

theorem Wrote.extents_close (h : file.Wrote getData kind ms) (hlen : ms.length ≠ 1) {n : ℕ}
    (hn : n ∈ file.close.extents) : n = ms.length := by
  have hexact := h.close_iff.mpr hlen
  match kind, file with
  | .image, .data file =>
    have hexact : file.close.Exact getData ms := hexact
    rcases List.mem_pair.mp hn with rfl | rfl
    · exact hexact.metadata.extent_eq.trans (List.length_map _)
    · exact hexact.image.extent_eq.trans (List.length_map _)
  | .metadata, .gf file =>
    have hexact : file.close.Exact ms := hexact
    obtain rfl := List.mem_singleton.mp hn
    exact hexact.metadata.extent_eq.trans (List.length_map _)
  | .image, .gf _ => cases h
  | .metadata, .data _ => cases h

/-! ### Writing images -/

variable (D getData) in
theorem exists_writes (hcreates : config.Creates kind) (hlt : ms.length < 2 ^ 31) :
    ∃ file : H5File D P, writes D config getData kind ms = some file ∧
      file.Wrote getData kind ms := by
  obtain ⟨file₀, hcreate, hwrote₀⟩ := exists_create (D := D) getData hcreates
  rw [writes, hcreate, Option.bind_some]
  induction ms using List.reverseRecOn with
  | nil => exact ⟨file₀, rfl, hwrote₀⟩
  | append_singleton ms m ih =>
    rw [List.length_append, List.length_singleton] at hlt
    obtain ⟨file, hfile, hwrote⟩ := ih (Nat.lt_of_succ_lt hlt)
    obtain ⟨file', hwrite, hwrote'⟩ := hwrote.write hcreates hlt (m := m)
    refine ⟨file', ?_, hwrote'⟩
    rw [exec_append, hfile, Option.bind_some, exec, hwrite]
    rfl

/-- `index` overflows. -/
theorem writes_eq_none (hcreates : config.Creates kind) (hge : 2 ^ 31 ≤ ms.length) :
    writes D config getData kind ms = none := by
  -- the write that fails is the one of image `2 ^ 31 - 1`
  have hlen : (ms.take (2 ^ 31 - 1)).length = 2 ^ 31 - 1 := by
    rw [List.length_take]
    omega
  obtain ⟨file, hfile, hwrote⟩ :=
    exists_writes D getData hcreates (show (ms.take (2 ^ 31 - 1)).length < 2 ^ 31 by omega)
  obtain ⟨m, rest, hrest⟩ : ∃ m rest, ms.drop (2 ^ 31 - 1) = m :: rest := by
    cases hdrop : ms.drop (2 ^ 31 - 1) with
    | nil =>
      have := List.drop_eq_nil_iff.mp hdrop
      omega
    | cons m rest => exact ⟨m, rest, rfl⟩
  have hnone : file.write config getData m = none := hwrote.write_eq_none (by omega)
  rw [writes] at hfile ⊢
  obtain ⟨file₀, hcreate, -⟩ := exists_create (D := D) getData hcreates
  rw [hcreate, Option.bind_some] at hfile ⊢
  rw [← List.take_append_drop (2 ^ 31 - 1) ms, exec_append, hfile, hrest, Option.bind_some, exec,
    hnone]
  rfl

end H5File

variable [LawfulDataset D]

/-- **When the extents are right.** For both services, whatever the size of a block, as long as an
image and a record fit into it: unless a single image is written, or more than an `int` can count.
HDF5 is any `Dataset` that does what it should. -/
theorem extentsMatch_iff (himage : 0 < config.imageSize)
    (hblock : config.imageSize ≤ config.gpfsBlockSize)
    (hrecord : kind.recordBytes ≤ config.gpfsBlockSize) :
    ExtentsMatch D config getData kind ms ↔ ms.length ≠ 1 ∧ ms.length < 2 ^ 31 := by
  have hcreates : config.Creates kind := H5Config.creates_of_le himage hblock hrecord
  constructor
  · rintro ⟨-, file, hfile, hextents⟩
    have hlt : ms.length < 2 ^ 31 := by
      by_contra hge
      rw [H5File.writes_eq_none hcreates (Nat.le_of_not_lt hge)] at hfile
      cases hfile
    refine ⟨fun hlen => ?_, hlt⟩
    obtain ⟨file', hfile', hwrote⟩ :=
      H5File.exists_writes D getData hcreates hlt
    obtain rfl : file = file' := Option.some.inj (hfile.symm.trans hfile')
    obtain ⟨n, hn, hlt⟩ := hwrote.one_lt_extents_close hlen
    rw [hextents n hn, hlen] at hlt
    exact absurd hlt (Nat.lt_irrefl 1)
  · rintro ⟨hlen, hlt⟩
    refine ⟨fun before m hbefore => ?_, ?_⟩
    · have hle := hbefore.length_le
      rw [List.length_append, List.length_singleton] at hle
      obtain ⟨file, hfile, hwrote⟩ :=
        H5File.exists_writes D getData hcreates (show before.length < 2 ^ 31 by omega)
      exact ⟨file, hfile, fun n hn => H5File.nextIndex_lt hcreates hwrote hn⟩
    · obtain ⟨file, hfile, hwrote⟩ :=
        H5File.exists_writes D getData hcreates hlt
      exact ⟨file, hfile, fun n hn => hwrote.extents_close hlen hn⟩

/-- Two images in blocks of eight. -/
theorem extentsMatch_two_images :
    ExtentsMatch Rows ⟨32, 4⟩ (fun id => id) .image [{ imageId := 0 }, { imageId := 1 }] :=
  (extentsMatch_iff (by decide) (by decide) (by decide)).mpr (by decide)

/-- The datasets of a single image keep the rows of a chunk. -/
theorem not_extentsMatch_one_image :
    ¬ ∀ (config : H5Config) (kind : WriterKind) (ms : List ImageMetadata),
      0 < config.imageSize → config.imageSize ≤ config.gpfsBlockSize →
        kind.recordBytes ≤ config.gpfsBlockSize →
          ExtentsMatch Rows config (fun id => id) kind ms := by
  intro h
  obtain ⟨file, hfile, hextents⟩ :=
    (h ⟨32, 4⟩ .image [{}] (by decide) (by decide) (by decide)).closed
  obtain rfl := Option.some.inj hfile
  exact absurd (hextents _ List.mem_cons_self) (by decide)

end Extents

end Driver

end StdDaq
