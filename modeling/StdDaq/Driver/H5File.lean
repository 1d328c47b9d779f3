import StdDaq.ImageMetadata
import StdDaq.Driver.WriterDriver
import StdDaq.Lib.Dataset

/-!
# The files of the writers

`HDF5File` of `std_det_writer` and of `std_det_meta_writer_gf`. A file knows nothing about the
recording it is part of: it counts in `index` the images it is given and puts each into the next
row.

What the files need of HDF5 is a `Dataset`. The datasets are enlarged by a chunk at a time, and the
destructor sets the extent to what was written, but only when `index` is positive. A file with one
image has `index = 0`. It keeps the rows it was enlarged by.

## Main definitions

* `DataFile`, `MetaFile` — the two classes `HDF5File`
* `H5File` — a file of either class

## Main results

* `DataFile.Wrote.close_iff`, `MetaFile.Wrote.close_iff` — what is in a file after it was closed
-/

namespace StdDaq

namespace Driver

open Dataset

/-- `h5_metadata` of `std_det_writer`. -/
structure H5Metadata where
  imageId : ℕ
  status : ImageMetadataStatus
  deriving DecidableEq, Repr

/-- `h5_metadata` of `std_det_meta_writer_gf`. -/
structure H5GFMetadata where
  imageId : ℕ
  scanId : ℕ
  scanTime : ℕ
  syncTime : ℕ
  frameTimestamp : ℕ
  exposureTime : ℕ
  deriving DecidableEq, Repr

/-- What `std_det_writer` stores of a metadata. -/
def h5Metadata (m : ImageMetadata) : H5Metadata := ⟨m.imageId, m.status⟩

/-- What `std_det_meta_writer_gf` stores of a metadata; `gf()` of a message of another detector
is a message with all fields zero. -/
def h5GFMetadata (m : ImageMetadata) : H5GFMetadata :=
  match m.detector with
  | .gf scanId scanTime syncTime frameTimestamp exposureTime _ =>
    ⟨m.imageId, scanId, scanTime, syncTime, frameTimestamp, exposureTime⟩
  | _ => ⟨m.imageId, 0, 0, 0, 0, 0⟩

/-- The members of a file that come from the configuration. -/
structure H5Config where
  gpfsBlockSize : ℕ
  imageSize : ℕ

namespace H5Config

/-- `images_per_chunk`. -/
def imagesPerChunk (config : H5Config) : ℕ := config.gpfsBlockSize / config.imageSize

/-- `records_per_chunk` of `std_det_writer`, whose records have 16 bytes. -/
def recordsPerChunk (config : H5Config) : ℕ := config.gpfsBlockSize / 16

/-- `records_per_chunk` of `std_det_meta_writer_gf`, whose records have 40 bytes. -/
def gfRecordsPerChunk (config : H5Config) : ℕ := config.gpfsBlockSize / 40

end H5Config

section Datasets

variable {D : Type → Type} [Dataset D] {R : Type}

/-- `extend_to`. -/
def extendTo (recordsPerChunk index : ℕ) : ℕ :=
  ((index + 1) / recordsPerChunk + 1) * recordsPerChunk

/-- What the destructors do with each of their datasets. -/
def trim (index : ℤ) (ds : D R) : D R :=
  if 0 < index then setExtent ds (index + 1).toNat else ds

theorem lt_extendTo {recordsPerChunk : ℕ} (h : 0 < recordsPerChunk) (index : ℕ) :
    index + 1 < extendTo recordsPerChunk index := by
  rw [extendTo, Nat.mul_comm]
  exact Nat.lt_mul_div_succ _ h

variable [LawfulDataset D] {ds : D R} {rows : List R}

theorem exactly_trim (h : Holds ds rows) (hempty : rows = [] → extent ds = 0)
    (hone : rows.length ≠ 1) : Exactly (trim (rows.length - 1) ds) rows := by
  rw [trim]
  split
  · have hlen : ((rows.length : ℤ) - 1 + 1).toNat = rows.length := by omega
    rw [hlen]
    exact h.trim
  · have hnil : rows = [] := List.length_eq_zero_iff.mp (by omega)
    refine ⟨h, ?_⟩
    rw [hempty hnil, hnil, List.length_nil]

end Datasets

/-- The class `HDF5File` of `std_det_writer`. -/
structure DataFile (D : Type → Type) (P : Type) where
  index : ℤ
  metadata : D H5Metadata
  image : D P

/-- The class `HDF5File` of `std_det_meta_writer_gf`. -/
structure MetaFile (D : Type → Type) where
  index : ℤ
  metadata : D H5GFMetadata

section Files

variable {D : Type → Type} [Dataset D] {P : Type} (config : H5Config) (getData : ℕ → P)

namespace DataFile

/-- A new file. HDF5 refuses chunks without rows. -/
def create : Option (DataFile D P) :=
  if 0 < config.imageSize ∧ 0 < config.recordsPerChunk ∧ 0 < config.imagesPerChunk then
    some ⟨-1, Dataset.create, Dataset.create⟩
  else none

/-- `HDF5File::write`. `index` is an `int`, and so is the `index + 1` of `write_meta`: there is no
value when it does not fit. The pixels are those `get_data` finds in the RAM buffer. -/
def write (file : DataFile D P) (m : ImageMetadata) : Option (DataFile D P) :=
  let index := file.index + 1
  if index + 1 < 2 ^ 31 then
    some {
      index
      metadata := append file.metadata (extendTo config.recordsPerChunk index.toNat) index.toNat
        (h5Metadata m)
      image := append file.image (index.toNat + config.imagesPerChunk) index.toNat
        (getData m.imageId) }
  else none

/-- `~HDF5File`. -/
def close (file : DataFile D P) : DataFile D P :=
  { file with metadata := trim file.index file.metadata, image := trim file.index file.image }

end DataFile

namespace MetaFile

/-- A new file. HDF5 refuses chunks without rows. -/
def create : Option (MetaFile D) :=
  if 0 < config.gfRecordsPerChunk then some ⟨-1, Dataset.create⟩ else none

/-- `HDF5File::write`. -/
def write (file : MetaFile D) (m : ImageMetadata) : Option (MetaFile D) :=
  let index := file.index + 1
  if index + 1 < 2 ^ 31 then
    some {
      index
      metadata := append file.metadata (extendTo config.gfRecordsPerChunk index.toNat) index.toNat
        (h5GFMetadata m) }
  else none

/-- `~HDF5File`. -/
def close (file : MetaFile D) : MetaFile D :=
  { file with metadata := trim file.index file.metadata }

end MetaFile

/-- A file of either class. -/
inductive H5File (D : Type → Type) (P : Type) where
  | data (file : DataFile D P)
  | gf (file : MetaFile D)

/-- Which of the two services a writer is. -/
inductive WriterKind where
  | image
  | metadata
  deriving DecidableEq, Repr

namespace H5File

/-- The constructor of the file of a service. -/
def create : WriterKind → Option (H5File D P)
  | .image => (DataFile.create config).map .data
  | .metadata => (MetaFile.create config).map .gf

/-- `write`. -/
def write : H5File D P → ImageMetadata → Option (H5File D P)
  | .data file, m => (file.write config getData m).map .data
  | .gf file, m => (file.write config m).map .gf

/-- The destructor. -/
def close : H5File D P → H5File D P
  | .data file => .data file.close
  | .gf file => .gf file.close

end H5File

end Files

/-! ### What has been written -/

section Wrote

variable {D : Type → Type} [Dataset D] {P : Type} {config : H5Config} {getData : ℕ → P}
  {ms : List ImageMetadata} {m : ImageMetadata}

/-- These images, and no others, have been written to the file. -/
structure DataFile.Wrote (getData : ℕ → P) (file : DataFile D P) (ms : List ImageMetadata) :
    Prop where
  index_eq : file.index = ms.length - 1
  metadata : Holds file.metadata (ms.map h5Metadata)
  image : Holds file.image (ms.map fun m => getData m.imageId)
  /-- Room is made for the first image when it comes. -/
  empty : ms = [] → extent file.metadata = 0 ∧ extent file.image = 0
  /-- Then it is room for more than this image. -/
  one : ms.length = 1 → 1 < extent file.metadata

/-- These images, and no others, have been written to the file. -/
structure MetaFile.Wrote (file : MetaFile D) (ms : List ImageMetadata) : Prop where
  index_eq : file.index = ms.length - 1
  metadata : Holds file.metadata (ms.map h5GFMetadata)
  empty : ms = [] → extent file.metadata = 0
  one : ms.length = 1 → 1 < extent file.metadata

/-- The file consists of these images. -/
structure DataFile.Exact (getData : ℕ → P) (file : DataFile D P) (ms : List ImageMetadata) :
    Prop where
  metadata : Exactly file.metadata (ms.map h5Metadata)
  image : Exactly file.image (ms.map fun m => getData m.imageId)

/-- The file consists of these images. -/
structure MetaFile.Exact (file : MetaFile D) (ms : List ImageMetadata) : Prop where
  metadata : Exactly file.metadata (ms.map h5GFMetadata)

namespace H5Config

/-- HDF5 can create the file of a service: no chunk is without rows. -/
def Creates (config : H5Config) : WriterKind → Prop
  | .image => 0 < config.imageSize ∧ 0 < config.recordsPerChunk ∧ 0 < config.imagesPerChunk
  | .metadata => 0 < config.gfRecordsPerChunk

end H5Config

namespace H5File

/-- These images, and no others, have been written to the file of a service. -/
def Wrote (getData : ℕ → P) (kind : WriterKind) (file : H5File D P) (ms : List ImageMetadata) :
    Prop :=
  match kind, file with
  | .image, .data file => file.Wrote getData ms
  | .metadata, .gf file => file.Wrote ms
  | _, _ => False

/-- It is the file of a service, and it consists of these images. -/
def Exact (getData : ℕ → P) (kind : WriterKind) (file : H5File D P) (ms : List ImageMetadata) :
    Prop :=
  match kind, file with
  | .image, .data file => file.Exact getData ms
  | .metadata, .gf file => file.Exact ms
  | _, _ => False

end H5File

theorem DataFile.Wrote.write_eq_none {file : DataFile D P} (h : file.Wrote getData ms)
    (hge : 2 ^ 31 ≤ ms.length + 1) : file.write config getData m = none := by
  rw [DataFile.write, h.index_eq, if_neg (by omega)]

theorem MetaFile.Wrote.write_eq_none {file : MetaFile D} (h : file.Wrote ms)
    (hge : 2 ^ 31 ≤ ms.length + 1) : file.write config m = none := by
  rw [MetaFile.write, h.index_eq, if_neg (by omega)]

theorem H5File.Wrote.write_eq_none {kind : WriterKind} {file : H5File D P}
    (h : file.Wrote getData kind ms) (hge : 2 ^ 31 ≤ ms.length + 1) :
    file.write config getData m = none := by
  match kind, file with
  | .image, .data file => rw [H5File.write, DataFile.Wrote.write_eq_none h hge]; rfl
  | .metadata, .gf file => rw [H5File.write, MetaFile.Wrote.write_eq_none h hge]; rfl
  | .image, .gf _ => cases h
  | .metadata, .data _ => cases h

/-- A dataset with one row in it keeps the room that was made for it. -/
theorem not_exactly_trim {R : Type} {ds : D R} {rows : List R} (hlen : rows.length = 1)
    (hextent : 1 < extent ds) : ¬ Exactly (trim (rows.length - 1) ds) rows := by
  intro h
  have heq := h.extent_eq
  rw [trim, if_neg (by omega)] at heq
  omega

variable [LawfulDataset D]

/-- Appending a row to a dataset of records, as both services do. -/
theorem holds_appendRecord {R : Type} {ds : D R} {rows : List R} {recordsPerChunk : ℕ}
    (hchunk : 0 < recordsPerChunk) (h : Holds ds rows) (r : R) :
    Holds (append ds (extendTo recordsPerChunk rows.length) rows.length r) (rows ++ [r]) :=
  h.append (Nat.lt_of_succ_lt (lt_extendTo hchunk _)) r

theorem one_lt_extent_appendRecord {R : Type} {ds : D R} {recordsPerChunk : ℕ}
    (hchunk : 0 < recordsPerChunk) (hempty : extent ds = 0) (r : R) :
    1 < extent (append ds (extendTo recordsPerChunk 0) 0 r) := by
  rw [extent_append, if_pos hempty.le]
  exact lt_extendTo hchunk 0

theorem DataFile.Wrote.write {file : DataFile D P} (h : file.Wrote getData ms)
    (hrecords : 0 < config.recordsPerChunk) (himages : 0 < config.imagesPerChunk)
    (hlt : ms.length + 1 < 2 ^ 31) :
    ∃ file', file.write config getData m = some file' ∧ file'.Wrote getData (ms ++ [m]) := by
  have hindex : file.index + 1 = (ms.length : ℤ) := by rw [h.index_eq]; omega
  have hmeta := holds_appendRecord hrecords h.metadata (h5Metadata m)
  have himage := h.image.append (r := getData m.imageId)
    (Nat.lt_add_of_pos_right himages)
  rw [List.length_map] at hmeta himage
  rw [DataFile.write, hindex, if_pos (by omega), Int.toNat_natCast]
  refine ⟨_, rfl, ?_, ?_, ?_, fun hnil => ?_, fun hlen => ?_⟩
  · rw [List.length_append, List.length_singleton]
    push_cast
    ring
  · rw [List.map_append]
    exact hmeta
  · rw [List.map_append]
    exact himage
  · exact absurd hnil (List.concat_ne_nil _ _)
  · obtain rfl : ms = [] := by simpa using hlen
    exact one_lt_extent_appendRecord hrecords (h.empty rfl).1 _

theorem MetaFile.Wrote.write {file : MetaFile D} (h : file.Wrote ms)
    (hrecords : 0 < config.gfRecordsPerChunk) (hlt : ms.length + 1 < 2 ^ 31) :
    ∃ file', file.write config m = some file' ∧ file'.Wrote (ms ++ [m]) := by
  have hindex : file.index + 1 = (ms.length : ℤ) := by rw [h.index_eq]; omega
  have hmeta := holds_appendRecord hrecords h.metadata (h5GFMetadata m)
  rw [List.length_map] at hmeta
  rw [MetaFile.write, hindex, if_pos (by omega), Int.toNat_natCast]
  refine ⟨_, rfl, ?_, ?_, fun hnil => ?_, fun hlen => ?_⟩
  · rw [List.length_append, List.length_singleton]
    push_cast
    ring
  · rw [List.map_append]
    exact hmeta
  · exact absurd hnil (List.concat_ne_nil _ _)
  · obtain rfl : ms = [] := by simpa using hlen
    exact one_lt_extent_appendRecord hrecords (h.empty rfl) _

/-- **A closed file consists of the images that were written to it, unless that is one image.** -/
theorem DataFile.Wrote.close_iff {file : DataFile D P} (h : file.Wrote getData ms) :
    file.close.Exact getData ms ↔ ms.length ≠ 1 := by
  have hmeta : file.index = ((ms.map h5Metadata).length : ℤ) - 1 := by
    rw [List.length_map, h.index_eq]
  have himage : file.index = ((ms.map fun m => getData m.imageId).length : ℤ) - 1 := by
    rw [List.length_map, h.index_eq]
  constructor
  · rintro hexact hlen
    have htrim := not_exactly_trim ((List.length_map h5Metadata).trans hlen) (h.one hlen)
    rw [← hmeta] at htrim
    exact htrim hexact.metadata
  · intro hlen
    constructor
    · show Exactly (trim file.index file.metadata) _
      rw [hmeta]
      exact exactly_trim h.metadata (fun hnil => (h.empty (List.map_eq_nil_iff.mp hnil)).1)
        (by rwa [List.length_map])
    · show Exactly (trim file.index file.image) _
      rw [himage]
      exact exactly_trim h.image (fun hnil => (h.empty (List.map_eq_nil_iff.mp hnil)).2)
        (by rwa [List.length_map])

/-- The same of the file of the metadata writer. -/
theorem MetaFile.Wrote.close_iff {file : MetaFile D} (h : file.Wrote ms) :
    file.close.Exact ms ↔ ms.length ≠ 1 := by
  have hmeta : file.index = ((ms.map h5GFMetadata).length : ℤ) - 1 := by
    rw [List.length_map, h.index_eq]
  constructor
  · rintro hexact hlen
    have htrim := not_exactly_trim ((List.length_map h5GFMetadata).trans hlen) (h.one hlen)
    rw [← hmeta] at htrim
    exact htrim hexact.metadata
  · intro hlen
    constructor
    show Exactly (trim file.index file.metadata) _
    rw [hmeta]
    exact exactly_trim h.metadata (fun hnil => h.empty (List.map_eq_nil_iff.mp hnil))
      (by rwa [List.length_map])

/-! ### Files of either class -/

namespace H5File

variable {kind : WriterKind} {file : H5File D P}

theorem exists_create (getData : ℕ → P) (h : config.Creates kind) :
    ∃ file : H5File D P, create config kind = some file ∧ file.Wrote getData kind [] := by
  cases kind with
  | image =>
    have hchunks : 0 < config.imageSize ∧ 0 < config.recordsPerChunk ∧
      0 < config.imagesPerChunk := h
    refine ⟨_, by rw [create, DataFile.create, if_pos hchunks, Option.map_some], ?_⟩
    exact ⟨rfl, holds_create, holds_create, fun _ => ⟨extent_create, extent_create⟩, nofun⟩
  | metadata =>
    have hchunks : 0 < config.gfRecordsPerChunk := h
    refine ⟨_, by rw [create, MetaFile.create, if_pos hchunks, Option.map_some], ?_⟩
    exact ⟨rfl, holds_create, fun _ => extent_create, nofun⟩

theorem Wrote.write (h : file.Wrote getData kind ms) (hcreates : config.Creates kind)
    (hlt : ms.length + 1 < 2 ^ 31) :
    ∃ file', file.write config getData m = some file' ∧ file'.Wrote getData kind (ms ++ [m]) := by
  match kind, file with
  | .image, .data file =>
    obtain ⟨file', hwrite, hwrote⟩ :=
      DataFile.Wrote.write (m := m) h hcreates.2.1 hcreates.2.2 hlt
    exact ⟨.data file', by rw [H5File.write, hwrite]; rfl, hwrote⟩
  | .metadata, .gf file =>
    obtain ⟨file', hwrite, hwrote⟩ := MetaFile.Wrote.write (m := m) h hcreates hlt
    exact ⟨.gf file', by rw [H5File.write, hwrite]; rfl, hwrote⟩
  | .image, .gf _ => cases h
  | .metadata, .data _ => cases h

theorem Wrote.close_iff (h : file.Wrote getData kind ms) :
    file.close.Exact getData kind ms ↔ ms.length ≠ 1 := by
  match kind, file with
  | .image, .data file => exact DataFile.Wrote.close_iff h
  | .metadata, .gf file => exact MetaFile.Wrote.close_iff h
  | .image, .gf _ => cases h
  | .metadata, .data _ => cases h

end H5File

end Wrote

end Driver

end StdDaq
