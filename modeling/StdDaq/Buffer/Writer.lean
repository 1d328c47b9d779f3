import StdDaq.Buffer.Redis
import StdDaq.Lib.Run

/-!
# The buffer writer

The main loop of `std_buffer_writer`: it stores the pixels of every image that is announced and
sends the metadata, with the place in the file, to Redis. An image whose type has no known size ends
the process; a process may be restarted at any time, and then loses what its stream holds back.

Whatever is written in whatever order, files and metadata stay together: the directory has the files
of exactly the ids in Redis, and under each id is the metadata of the last image that was written
with it.

## Main results

* `consistent_of_run` — files and metadata belong together, after every run
-/

namespace StdDaq

namespace Buffer

/-- `utils::get_bytes_from_metadata_dtype`. -/
def getBytesFromMetadataDtype : ImageMetadataDtype → Except String ℕ
  | .float32 => .ok 4
  | .uint8 => .ok 1
  | .uint16 => .ok 2
  | .uint32 => .ok 4
  | _ => .error "Unsupported bit_depth of the image"

/-- `calculate_size`, in 64 bits. -/
def calculateSize (metadata : ImageMetadata) : Except String ℕ :=
  (getBytesFromMetadataDtype metadata.dtype).map fun bytes =>
    metadata.height * metadata.width * bytes % 2 ^ 64

/-- What outlives a process. -/
structure Storage where
  disk : Disk := ∅
  redis : Redis := {}

/-- The writer, its storage, and the metadata of the images so far, the last one first. -/
structure BufferTrace where
  handler : FileHandler := {}
  storage : Storage := {}
  written : List ImageMetadata := []

/-- What happens to the writer. -/
inductive BufferEvent where
  /-- An image is announced; the bytes are those of its slot in shared memory. -/
  | image (metadata : ImageMetadata) (slot : List UInt8)
  /-- The stream hands over the next `n` bytes that it holds back. -/
  | writeOut (n : ℕ)
  /-- The process ends and a new one begins. -/
  | restart
  deriving DecidableEq, Repr

variable (blosc : Blosc)

/-- One turn of the main loop, for an image of `size` bytes. -/
def BufferTrace.store (t : BufferTrace) (metadata : ImageMetadata) (data : List UInt8) :
    BufferTrace :=
  let result := t.handler.write blosc t.storage.disk metadata.imageId data
  let message : BufferedMetadata :=
    { metadata := { metadata with compression := .blosc2, size := result.2.2.2 }
      offset := result.2.2.1 }
  { handler := result.1
    storage := { disk := result.2.1, redis := t.storage.redis.send message }
    written := metadata :: t.written }

/-- One step. No value means that the process ends. -/
def BufferTrace.step (t : BufferTrace) : BufferEvent → Option BufferTrace
  | .image metadata slot =>
    (calculateSize metadata).toOption.map fun size => t.store blosc metadata (slot.take size)
  | .writeOut n =>
    let result := t.handler.writeOut t.storage.disk n
    some { t with handler := result.1, storage := { t.storage with disk := result.2 } }
  | .restart => some { t with handler := {} }

/-- Ids are 64 bits wide. -/
def IdFits : BufferEvent → Prop
  | .image metadata _ => metadata.imageId < 2 ^ 64
  | _ => True

instance (e : BufferEvent) : Decidable (IdFits e) :=
  match e with
  | .image metadata _ => inferInstanceAs (Decidable (metadata.imageId < 2 ^ 64))
  | .writeOut _ => isTrue trivial
  | .restart => isTrue trivial

/-- The last image that was written with an id. -/
def BufferTrace.lastWritten (t : BufferTrace) (i : ℕ) : Option ImageMetadata :=
  t.written.find? fun metadata => metadata.imageId = i

/-! ### What a write does to the directory -/

/-- The files that the instance remembers and has open are files of these ids. -/
structure FileHandler.Within (handler : FileHandler) (ids : Set ℕ) : Prop where
  name : ∀ path, handler.currentFilename = some path → ∃ i ∈ ids, getFilename i = path
  file : ∀ path, handler.currentFile.file = some (path, .append) → ∃ i ∈ ids, getFilename i = path

theorem FileHandler.within_start (ids : Set ℕ) : ({} : FileHandler).Within ids := ⟨nofun, nofun⟩

variable {blosc} {handler : FileHandler} {stream : FileStream} {disk : Disk} {ids : Set ℕ}

theorem FileHandler.Within.insert (h : handler.Within ids) (i : ℕ) :
    handler.Within (insert i ids) where
  name path hpath :=
    (h.name path hpath).imp fun _ hj => ⟨Set.mem_insert_of_mem i hj.1, hj.2⟩
  file path hpath :=
    (h.file path hpath).imp fun _ hj => ⟨Set.mem_insert_of_mem i hj.1, hj.2⟩

theorem FileStream.file_writeOut (disk : Disk) (n : ℕ) :
    (stream.writeOut disk n).1.file = stream.file := by
  rw [FileStream.writeOut]
  split <;> rfl

theorem FileHandler.Within.writeOut (h : handler.Within ids) (disk : Disk) (n : ℕ) :
    (handler.writeOut disk n).1.Within ids where
  name := h.name
  file path hpath := h.file path ((FileStream.file_writeOut disk n).symm.trans hpath)

theorem FileStream.file_flush (disk : Disk) : (stream.flush disk).1.file = stream.file := by
  rw [FileStream.flush]
  split
  · exact FileStream.file_writeOut disk _
  · rfl

theorem FileStream.file_write (bytes : List UInt8) : (stream.write bytes).file = stream.file := by
  rw [FileStream.write]
  split <;> rfl

/-- A stream that hands over bytes makes no file. -/
theorem Layout.writeOut (h : Layout disk ids)
    (hfile : ∀ path, stream.file = some (path, .append) → ∃ i ∈ ids, getFilename i = path) (n : ℕ) :
    Layout (stream.writeOut disk n).2 ids := by
  rw [FileStream.writeOut]
  split
  · next path hpath =>
    obtain ⟨i, hi, rfl⟩ := hfile path hpath
    have happend := h.append i (stream.held.take n)
    rwa [Set.insert_eq_of_mem hi] at happend
  · exact h

theorem Layout.openNewFile (h : Layout disk ids) (hin : handler.Within ids) (i : ℕ) :
    Layout (handler.openNewFile disk (getFilename i)).2 (insert i ids) := by
  have hflush : Layout (handler.currentFile.flush disk).2 ids := by
    rw [FileStream.flush]
    split
    · exact h.writeOut hin.file _
    · exact h
  have hfile := hin.file
  rw [← FileStream.file_flush disk] at hfile
  exact (hflush.writeOut hfile _).append i []

/-- **A write** makes the folder and the file of its image. -/
theorem Layout.write (blosc : Blosc) (h : Layout disk ids) (hin : handler.Within ids) (i : ℕ)
    (data : List UInt8) :
    Layout (handler.write blosc disk i data).2.1 (insert i ids) ∧
      (handler.write blosc disk i data).1.Within (insert i ids) := by
  have hself : ∃ j ∈ insert i ids, getFilename j = getFilename i :=
    ⟨i, Set.mem_insert i ids, rfl⟩
  rw [FileHandler.write]
  by_cases hopen : some (getFilename i) ≠ handler.currentFilename
  · simp only [if_pos hopen]
    refine ⟨h.openNewFile hin i, fun path hpath => ?_, fun path hpath => ?_⟩
    · obtain rfl := Option.some.inj hpath
      exact hself
    · obtain rfl := congrArg Prod.fst (Option.some.inj hpath)
      exact hself
  · simp only [if_neg hopen]
    have hname := (not_not.mp hopen).symm
    obtain ⟨j, hj, hsame⟩ := hin.name _ hname
    refine ⟨h.insert_of_filename_eq hj hsame, (hin.insert i).name, fun path hpath => ?_⟩
    exact (hin.insert i).file path ((FileStream.file_write _).symm.trans hpath)

/-! ### Files and metadata -/

/-- What ties the files and the metadata to the images that were written. -/
structure Consistent (t : BufferTrace) : Prop where
  within : t.handler.Within t.storage.redis.stored
  layout : Layout t.storage.disk t.storage.redis.stored
  redis : t.storage.redis.WellFormed
  fits : ∀ i ∈ t.storage.redis.stored, i < 2 ^ 64
  stored : ∀ i, i ∈ t.storage.redis.stored ↔ (t.lastWritten i).isSome
  /-- The metadata of an image, with what the writer changed. -/
  metadata : ∀ i message, t.storage.redis.getMetadata i = some message →
    ∃ metadata size, t.lastWritten i = some metadata ∧
      message.metadata = { metadata with compression := .blosc2, size := size } ∧
      (calculateSize metadata).toOption.isSome

theorem consistent_start : Consistent {} where
  within := FileHandler.within_start _
  layout := by
    have hnone : ({} : Redis).stored = ∅ := by
      ext i
      simp [Redis.stored, Redis.getMetadata]
    change Layout ∅ ({} : Redis).stored
    rw [hnone]
    exact layout_empty
  redis := Redis.wellFormed_empty
  fits i hi := by simp [Redis.stored, Redis.getMetadata] at hi
  stored i := by simp [Redis.stored, Redis.getMetadata, BufferTrace.lastWritten]
  metadata i message h := by simp [Redis.getMetadata] at h

theorem Consistent.restart {t : BufferTrace} (h : Consistent t) :
    Consistent { t with handler := {} } :=
  ⟨FileHandler.within_start _, h.layout, h.redis, h.fits, h.stored, h.metadata⟩

theorem Consistent.writeOut {t : BufferTrace} (h : Consistent t) (n : ℕ) :
    Consistent { t with
      handler := (t.handler.writeOut t.storage.disk n).1
      storage := { t.storage with disk := (t.handler.writeOut t.storage.disk n).2 } } :=
  ⟨h.within.writeOut t.storage.disk n, h.layout.writeOut h.within.file n, h.redis, h.fits, h.stored,
    h.metadata⟩

theorem lastWritten_store (t : BufferTrace) (metadata : ImageMetadata) (data : List UInt8) (i : ℕ) :
    (t.store blosc metadata data).lastWritten i =
      if i = metadata.imageId then some metadata else t.lastWritten i := by
  rw [BufferTrace.lastWritten, BufferTrace.store, List.find?_cons]
  by_cases hi : i = metadata.imageId
  · simp [hi]
  · simp only [decide_eq_false (Ne.symm hi), if_neg hi]
    rfl

theorem Consistent.store {t : BufferTrace} (h : Consistent t) {metadata : ImageMetadata}
    (hfits : metadata.imageId < 2 ^ 64) (hsize : (calculateSize metadata).toOption.isSome)
    (data : List UInt8) : Consistent (t.store blosc metadata data) := by
  obtain ⟨hlayout, hwithin⟩ := h.layout.write blosc h.within metadata.imageId data
  have hstored : ∀ i, i ∈ (t.store blosc metadata data).storage.redis.stored ↔
      i = metadata.imageId ∨ i ∈ t.storage.redis.stored := fun i => Redis.mem_stored_send
  have hset : (t.store blosc metadata data).storage.redis.stored =
      insert metadata.imageId t.storage.redis.stored := Set.ext hstored
  refine ⟨?_, ?_, h.redis.send, fun i hi => ?_, fun i => ?_, fun i message hmessage => ?_⟩
  · rw [hset]
    exact hwithin
  · rw [hset]
    exact hlayout
  · rcases (hstored i).mp hi with rfl | hi
    · exact hfits
    · exact h.fits i hi
  · rw [hstored, lastWritten_store, h.stored]
    split
    next heq => simp [heq]
    next hne => simp [hne]
  · rw [lastWritten_store]
    rw [BufferTrace.store, Redis.getMetadata_send] at hmessage
    split at hmessage
    next heq =>
      rw [if_pos heq, ← Option.some.inj hmessage]
      exact ⟨metadata, _, rfl, rfl, hsize⟩
    next hne =>
      rw [if_neg hne]
      exact h.metadata i message hmessage

theorem Consistent.step {t u : BufferTrace} {e : BufferEvent} (h : Consistent t) (hfits : IdFits e)
    (hstep : t.step blosc e = some u) : Consistent u := by
  cases e with
  | image metadata slot =>
    obtain ⟨size, hsize, rfl⟩ := Option.map_eq_some_iff.mp hstep
    exact h.store hfits (Option.isSome_iff_exists.mpr ⟨size, hsize⟩) _
  | writeOut n =>
    obtain rfl := Option.some.inj hstep
    exact h.writeOut n
  | restart =>
    obtain rfl := Option.some.inj hstep
    exact h.restart

/-- **Files and metadata belong together**, after every run of writers. -/
theorem consistent_of_run {es : List BufferEvent} {t : BufferTrace}
    (hrun : Run (Restrict (fun _ e => IdFits e) (Steps.guarded (BufferTrace.step blosc))) {} es t) :
    Consistent t :=
  hrun.invariant (fun _ _ _ h hstep => h.step hstep.1 hstep.2) consistent_start

end Buffer

end StdDaq
