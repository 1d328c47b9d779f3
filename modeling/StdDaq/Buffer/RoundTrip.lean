import StdDaq.Buffer.FileHandler
import StdDaq.Lib.Run

/-!
# Reading back what was written

`FileHandler::write` returns where it put an image, as an offset that it counts itself. The count
starts from zero whenever a file is opened, while the file is opened for appending: if the file has
something in it already, because its thousand ids are visited a second time or because the process
was restarted, the offset is not where the image is. An image that Blosc does not compress is stored
as it is, which `FileHandler::read` does not know. And what the stream holds back is not in the file
yet; if the process is killed, it never will be.

If files are opened only when nothing was written to them before and compression succeeds, every
image whose bytes are on the disk can be read back, in any order and by any reader that has not
spoiled its stream.

## Main results

* `Stored.step` — every image is in its place, counting what the stream holds back
* `read_back` — in such runs, every image on the disk is read back from where its write put it
* `revisited_file` — an image written on a second visit to a file is not, nor one that is held back
-/

namespace StdDaq

namespace Buffer

/-- A write, with the offset and the size it returned. -/
structure Written where
  imageId : ℕ
  data : List UInt8
  offset : ℕ
  size : ℕ
  deriving DecidableEq, Repr

/-- The disk, the `FileHandler` of the writer that runs now, and all writes so far. -/
structure WriterTrace where
  handler : FileHandler := {}
  disk : Disk := ∅
  written : List Written := []

/-- What a writer does, or what happens to it. -/
inductive WriterStep where
  | write (imageId : ℕ) (data : List UInt8)
  /-- The stream hands over the next `n` bytes that it holds back, because its buffer is full; all
  of them when it is flushed or closed. -/
  | writeOut (n : ℕ)
  /-- The process ends, and a new instance begins. What the stream still holds back is lost; a
  process that is not killed closes its stream before, which is a `writeOut` of everything. -/
  | restart
  deriving DecidableEq, Repr

variable (blosc : Blosc)

/-- One step. -/
def WriterTrace.step (t : WriterTrace) : WriterStep → WriterTrace
  | .write imageId data =>
    let result := t.handler.write blosc t.disk imageId data
    { handler := result.1
      disk := result.2.1
      written := t.written ++ [⟨imageId, data, result.2.2.1, result.2.2.2⟩] }
  | .writeOut n =>
    let result := t.handler.writeOut t.disk n
    { t with handler := result.1, disk := result.2 }
  | .restart => { t with handler := {} }

/-- A file that a write opens is empty or not there, and has never been written to; and the write
succeeds in compressing its image. -/
def OpensNew (t : WriterTrace) : WriterStep → Prop
  | .write imageId data => (blosc.compress data).isSome ∧
      (some (getFilename imageId) ≠ t.handler.currentFilename →
        (t.disk.content (getFilename imageId)).getD [] = [] ∧
          ∀ r ∈ t.written, getFilename r.imageId ≠ getFilename imageId)
  | _ => True

instance (t : WriterTrace) (e : WriterStep) : Decidable (OpensNew blosc t e) :=
  match e with
  | .write imageId data => inferInstanceAs (Decidable ((blosc.compress data).isSome ∧
      (some (getFilename imageId) ≠ t.handler.currentFilename →
        (t.disk.content (getFilename imageId)).getD [] = [] ∧
          ∀ r ∈ t.written, getFilename r.imageId ≠ getFilename imageId)))
  | .writeOut _ => isTrue trivial
  | .restart => isTrue trivial

/-- The bytes of the image have left the stream that wrote it. -/
def OnDisk (disk : Disk) (r : Written) : Prop :=
  r.offset + r.size ≤ ((disk.content (getFilename r.imageId)).getD []).length

instance (disk : Disk) (r : Written) : Decidable (OnDisk disk r) :=
  inferInstanceAs (Decidable (_ ≤ _))

/-- The instance can read the file: it has another file open or none, or this one for reading and
without an error. -/
def FileHandler.CanRead (reader : FileHandler) (path : Path) : Prop :=
  reader.currentFilename = some path → reader.currentFile = .reading path

/-- A reader that has not met an error: it has opened no file yet, or has the last one open. -/
def FileHandler.Clean (reader : FileHandler) : Prop :=
  reader = {} ∨
    ∃ path, reader.currentFilename = some path ∧ reader.currentFile = .reading path

/-! ### Where the bytes are -/

/-- The file has the bytes at the offset. -/
def HasAt (content : List UInt8) (offset : ℕ) (bytes : List UInt8) : Prop :=
  ∃ before after, content = before ++ bytes ++ after ∧ before.length = offset

variable {blosc} {content bytes : List UInt8} {offset : ℕ}

theorem HasAt.append (h : HasAt content offset bytes) (more : List UInt8) :
    HasAt (content ++ more) offset bytes := by
  obtain ⟨before, after, rfl, hlen⟩ := h
  exact ⟨before, after ++ more, by simp, hlen⟩

theorem hasAt_end (content bytes : List UInt8) :
    HasAt (content ++ bytes) content.length bytes :=
  ⟨content, [], by simp, rfl⟩

theorem HasAt.take_drop (h : HasAt content offset bytes) :
    (content.drop offset).take bytes.length = bytes := by
  obtain ⟨before, after, rfl, rfl⟩ := h
  rw [List.append_assoc, List.drop_left, List.take_left]

/-- What is in the file already is there without what comes behind. -/
theorem HasAt.of_append {more : List UInt8} (h : HasAt (content ++ more) offset bytes)
    (hle : offset + bytes.length ≤ content.length) : HasAt content offset bytes := by
  refine ⟨content.take offset, content.drop (offset + bytes.length), ?_, ?_⟩
  · have hbytes := h.take_drop
    rw [List.drop_append_of_le_length (by omega),
      List.take_append_of_le_length (by rw [List.length_drop]; omega)] at hbytes
    conv_lhs => rw [← List.take_append_drop offset content,
      ← List.take_append_drop bytes.length (content.drop offset), hbytes, List.drop_drop]
    rw [List.append_assoc]
  · rw [List.length_take]
    omega

/-! ### What the stream holds back -/

/-- What a file has in it once the stream has been flushed. -/
def FileStream.flushed (stream : FileStream) (disk : Disk) (path : Path) : List UInt8 :=
  (disk.content path).getD [] ++
    if stream.file = some (path, .append) then stream.held else []

variable {stream : FileStream} {handler : FileHandler} {disk : Disk} {path path' : Path}

theorem flushed_of_file_ne (h : stream.file ≠ some (path, .append)) :
    stream.flushed disk path = (disk.content path).getD [] := by
  rw [FileStream.flushed, if_neg h, List.append_nil]

theorem flushed_of_held_eq_nil (h : stream.held = []) :
    stream.flushed disk path = (disk.content path).getD [] := by
  rw [FileStream.flushed, h, ite_self, List.append_nil]

/-- Handing over bytes changes no file, as it is once the stream has been flushed. -/
theorem flushed_writeOut (n : ℕ) (path : Path) :
    (stream.writeOut disk n).1.flushed (stream.writeOut disk n).2 path =
      stream.flushed disk path := by
  obtain ⟨_ | ⟨file, _ | _⟩, held, good⟩ := stream
  · rfl
  · rfl
  · rw [FileStream.writeOut, FileStream.flushed, FileStream.flushed]
    dsimp only
    by_cases hpath : path = file
    · rw [hpath, Disk.content_append, if_pos rfl, if_pos rfl, Option.getD_some, List.append_assoc,
        List.take_append_drop]
    · have hne : some (file, OpenMode.append) ≠ some (path, .append) :=
        fun heq => hpath (congrArg Prod.fst (Option.some.inj heq)).symm
      rw [Disk.content_append_ne hpath, if_neg hne, if_neg hne]

theorem flushed_flush (path : Path) :
    (stream.flush disk).1.flushed (stream.flush disk).2 path = stream.flushed disk path := by
  rw [FileStream.flush]
  split
  · exact flushed_writeOut _ path
  · rfl

/-- A stream that is closed has handed over everything. -/
theorem content_close (path : Path) :
    ((stream.close disk).2.content path).getD [] = stream.flushed disk path := by
  rw [← flushed_writeOut stream.held.length path, FileStream.close]
  obtain ⟨_ | ⟨file, _ | _⟩, held, good⟩ := stream
  · exact (List.append_nil _).symm
  · have hne : some (file, OpenMode.read) ≠ some (path, .append) := by simp
    exact (flushed_of_file_ne hne).symm
  · exact (flushed_of_held_eq_nil List.drop_length).symm

/-- Opening a file for appending changes no file, as it is once the stream has been flushed. -/
theorem flushed_openNewFile (path path' : Path) :
    (handler.openNewFile disk path).1.currentFile.flushed (handler.openNewFile disk path).2 path' =
      handler.currentFile.flushed disk path' := by
  have hheld : (handler.openNewFile disk path).1.currentFile.held = [] := rfl
  rw [flushed_of_held_eq_nil hheld, ← flushed_flush path', ← content_close path',
    FileHandler.openNewFile]
  dsimp only [FileStream.openAppend]
  by_cases hpath : path' = path
  · rw [hpath, Disk.content_append, Option.getD_some, List.append_nil]
  · rw [Disk.content_append_ne hpath]

/-- What is written comes at the end of the file. -/
theorem flushed_write_self (held : List UInt8) :
    ((FileStream.appending path held).write bytes).flushed disk path =
      (FileStream.appending path held).flushed disk path ++ bytes := by
  rw [FileStream.flushed, FileStream.flushed, FileStream.write, if_pos rfl, if_pos rfl,
    List.append_assoc]

theorem flushed_write_ne (h : path' ≠ path) (held : List UInt8) :
    ((FileStream.appending path held).write bytes).flushed disk path' =
      (FileStream.appending path held).flushed disk path' := by
  have hne : some (path, OpenMode.append) ≠ some (path', .append) :=
    fun heq => h (congrArg Prod.fst (Option.some.inj heq)).symm
  rw [flushed_of_file_ne hne, flushed_of_file_ne hne]

/-- Files stay there. -/
theorem Disk.isSome_append (h : (disk.content path).isSome) (path' : Path) (bytes : List UInt8) :
    ((disk.append path' bytes).content path).isSome := by
  by_cases hpath : path = path'
  · rw [hpath, Disk.content_append]
    rfl
  · rwa [Disk.content_append_ne hpath]

theorem isSome_writeOut (h : (disk.content path).isSome) (n : ℕ) :
    ((stream.writeOut disk n).2.content path).isSome := by
  rw [FileStream.writeOut]
  split
  · exact Disk.isSome_append h _ _
  · exact h

theorem isSome_openNewFile (h : (disk.content path).isSome) (path' : Path) :
    ((handler.openNewFile disk path').2.content path).isSome := by
  refine Disk.isSome_append (isSome_writeOut ?_ _) _ _
  rw [FileStream.flush]
  split
  · exact isSome_writeOut h _
  · exact h

/-! ### What was written -/

/-- An image is in its place, once the stream has been flushed: if the file is that long at all, and
certainly if the file is still open. -/
structure Placed (blosc : Blosc) (handler : FileHandler) (disk : Disk) (r : Written) : Prop where
  there : (disk.content (getFilename r.imageId)).isSome
  compressed : ∃ compressed, blosc.compress r.data = some compressed ∧
    r.size = compressed.length ∧
    (r.offset + r.size ≤ (handler.currentFile.flushed disk (getFilename r.imageId)).length →
      HasAt (handler.currentFile.flushed disk (getFilename r.imageId)) r.offset compressed)
  complete : handler.currentFilename = some (getFilename r.imageId) →
    r.offset + r.size ≤ (handler.currentFile.flushed disk (getFilename r.imageId)).length

/-- The instance appends to the file that it remembers, and its offset is the end of the file. -/
structure AtEnd (handler : FileHandler) (disk : Disk) (path : Path) : Prop where
  name : handler.currentFilename = some path
  file : ∃ held, handler.currentFile = .appending path held
  there : (disk.content path).isSome
  offset : handler.currentOffset = (handler.currentFile.flushed disk path).length

/-- What ties the writer and the disk to the writes so far. -/
structure Stored (blosc : Blosc) (t : WriterTrace) : Prop where
  current : t.handler = {} ∨ ∃ path, AtEnd t.handler t.disk path
  written : ∀ r ∈ t.written, Placed blosc t.handler t.disk r

theorem stored_start : Stored blosc {} := ⟨.inl rfl, List.forall_mem_nil _⟩

variable {handler' : FileHandler} {disk' : Disk} {r : Written}

/-- An image stays in its place while its file stays the same. -/
theorem Placed.of_flushed_eq (h : Placed blosc handler disk r)
    (hthere : (disk'.content (getFilename r.imageId)).isSome)
    (hflushed : handler'.currentFile.flushed disk' (getFilename r.imageId) =
      handler.currentFile.flushed disk (getFilename r.imageId))
    (hname : handler'.currentFilename = some (getFilename r.imageId) →
      handler.currentFilename = some (getFilename r.imageId)) :
    Placed blosc handler' disk' r := by
  obtain ⟨-, ⟨compressed, hcompress, hsize, hat⟩, hcomplete⟩ := h
  refine ⟨hthere, ⟨compressed, hcompress, hsize, ?_⟩, fun hopen => ?_⟩
  · rwa [hflushed]
  · rw [hflushed]
    exact hcomplete (hname hopen)

/-- An image stays in its place when its file is open and becomes longer. -/
theorem Placed.of_flushed_append (h : Placed blosc handler disk r) {more : List UInt8}
    (hopen : handler.currentFilename = some (getFilename r.imageId))
    (hflushed : handler'.currentFile.flushed disk (getFilename r.imageId) =
      handler.currentFile.flushed disk (getFilename r.imageId) ++ more) :
    Placed blosc handler' disk r := by
  obtain ⟨hthere, ⟨compressed, hcompress, hsize, hat⟩, hcomplete⟩ := h
  have hle := hcomplete hopen
  refine ⟨hthere, ⟨compressed, hcompress, hsize, fun _ => ?_⟩, fun _ => ?_⟩
  · rw [hflushed]
    exact (hat hle).append more
  · rw [hflushed, List.length_append]
    exact Nat.le_trans hle (Nat.le_add_right _ _)

theorem Stored.writeOut {t : WriterTrace} (h : Stored blosc t) (n : ℕ) :
    Stored blosc (t.step blosc (.writeOut n)) := by
  refine ⟨?_, fun r hr => ?_⟩
  · rcases h.current with hnone | ⟨path, hname, ⟨held, hfile⟩, hthere, hoffset⟩
    · refine .inl ?_
      rw [WriterTrace.step, FileHandler.writeOut, hnone]
      rfl
    · refine .inr ⟨path, hname, ⟨held.drop n, ?_⟩, isSome_writeOut hthere n, ?_⟩
      · rw [WriterTrace.step, FileHandler.writeOut, hfile]
        rfl
      · rw [← flushed_writeOut n] at hoffset
        exact hoffset
  · have hplaced := h.written r hr
    exact hplaced.of_flushed_eq (isSome_writeOut hplaced.there n) (flushed_writeOut n _) id

/-- What was held back is lost, and nothing is opened. -/
theorem Stored.restart {t : WriterTrace} (h : Stored blosc t) :
    Stored blosc (t.step blosc .restart) := by
  refine ⟨.inl rfl, fun r hr => ?_⟩
  obtain ⟨hthere, ⟨compressed, hcompress, hsize, hat⟩, -⟩ := h.written r hr
  have hflushed : (WriterTrace.step blosc t .restart).handler.currentFile.flushed t.disk
      (getFilename r.imageId) = (t.disk.content (getFilename r.imageId)).getD [] :=
    flushed_of_held_eq_nil rfl
  refine ⟨hthere, ⟨compressed, hcompress, hsize, fun hle => ?_⟩, nofun⟩
  have hle' := hflushed ▸ hle
  rw [hsize] at hle'
  refine hflushed ▸ (hat ?_).of_append hle'
  rw [FileStream.flushed, List.length_append, hsize]
  exact Nat.le_trans hle' (Nat.le_add_right _ _)

/-- A write to the file that is open, at its end. -/
theorem Stored.append {t : WriterTrace} (h : Stored blosc t) {imageId : ℕ} {data : List UInt8}
    {compressed : List UInt8} (hcompress : blosc.compress data = some compressed)
    (hopen : AtEnd t.handler t.disk (getFilename imageId)) :
    Stored blosc { t with
      handler := (t.handler.writeDataAndUpdateOffset compressed).1
      written := t.written ++ [⟨imageId, data,
        (t.handler.writeDataAndUpdateOffset compressed).2.1,
        (t.handler.writeDataAndUpdateOffset compressed).2.2⟩] } := by
  obtain ⟨hname, ⟨held, hfile⟩, hthere, hoffset⟩ := hopen
  have hself : (t.handler.writeDataAndUpdateOffset compressed).1.currentFile.flushed t.disk
      (getFilename imageId) =
        t.handler.currentFile.flushed t.disk (getFilename imageId) ++ compressed := by
    rw [FileHandler.writeDataAndUpdateOffset, hfile, flushed_write_self]
  refine ⟨.inr ⟨getFilename imageId, hname, ⟨held ++ compressed, ?_⟩, hthere, ?_⟩, fun r hr => ?_⟩
  · rw [FileHandler.writeDataAndUpdateOffset, hfile]
    rfl
  · rw [hself, List.length_append, ← hoffset]
    rfl
  · rcases List.mem_append.mp hr with hr | hr
    · by_cases hsame : getFilename r.imageId = getFilename imageId
      · exact (h.written r hr).of_flushed_append (hsame ▸ hname) (hsame ▸ hself)
      · refine (h.written r hr).of_flushed_eq (h.written r hr).there ?_ id
        rw [FileHandler.writeDataAndUpdateOffset, hfile, flushed_write_ne hsame]
    · obtain rfl := List.mem_singleton.mp hr
      refine ⟨hthere, ⟨compressed, hcompress, rfl, fun _ => ?_⟩, fun _ => ?_⟩
      · rw [hself]
        change HasAt _ t.handler.currentOffset compressed
        rw [hoffset]
        exact hasAt_end _ _
      · rw [hself, List.length_append, ← hoffset]
        exact le_rfl

/-- Opening a file that is new keeps everything in place. -/
theorem Stored.openNewFile {t : WriterTrace} (h : Stored blosc t) {path : Path}
    (hne : some path ≠ t.handler.currentFilename) (hempty : (t.disk.content path).getD [] = [])
    (hnew : ∀ r ∈ t.written, getFilename r.imageId ≠ path) :
    Stored blosc { t with
        handler := (t.handler.openNewFile t.disk path).1
        disk := (t.handler.openNewFile t.disk path).2 } ∧
      AtEnd (t.handler.openNewFile t.disk path).1 (t.handler.openNewFile t.disk path).2 path := by
  have hfile : t.handler.currentFile.file ≠ some (path, .append) := by
    rcases h.current with hnone | ⟨path', hname, ⟨held, hfile⟩, -⟩
    · rw [hnone]
      nofun
    · rw [hfile]
      intro heq
      have hpath : path' = path := congrArg Prod.fst (Option.some.inj heq)
      exact hne (hname.trans (congrArg some hpath)).symm
  have hend : AtEnd (t.handler.openNewFile t.disk path).1 (t.handler.openNewFile t.disk path).2
      path := by
    refine ⟨rfl, ⟨[], rfl⟩, ?_, ?_⟩
    · exact Option.isSome_iff_exists.mpr ⟨_, Disk.content_append⟩
    rw [flushed_openNewFile, flushed_of_file_ne hfile, hempty]
    rfl
  refine ⟨⟨.inr ⟨path, hend⟩, fun r hr => ?_⟩, hend⟩
  exact (h.written r hr).of_flushed_eq (isSome_openNewFile (h.written r hr).there path)
    (flushed_openNewFile path _) fun hopen => absurd (Option.some.inj hopen).symm (hnew r hr)

theorem Stored.write {t : WriterTrace} (h : Stored blosc t) {imageId : ℕ} {data : List UInt8}
    (hok : OpensNew blosc t (.write imageId data)) :
    Stored blosc (t.step blosc (.write imageId data)) := by
  obtain ⟨hsome, hnew⟩ := hok
  obtain ⟨compressed, hcompress⟩ := Option.isSome_iff_exists.mp hsome
  have hbytes : FileHandler.compress blosc data = compressed := by
    rw [FileHandler.compress, hcompress, Option.getD_some]
  rw [WriterTrace.step, FileHandler.write, hbytes]
  by_cases hopen : some (getFilename imageId) ≠ t.handler.currentFilename
  · obtain ⟨hempty, hnew⟩ := hnew hopen
    obtain ⟨hopened, hend⟩ := h.openNewFile hopen hempty hnew
    simp only [if_pos hopen]
    exact hopened.append hcompress hend
  · simp only [if_neg hopen]
    have hname := (not_not.mp hopen).symm
    rcases h.current with hnone | ⟨path, hend⟩
    · rw [hnone] at hname
      cases hname
    · obtain rfl := Option.some.inj (hend.name.symm.trans hname)
      exact h.append hcompress hend

/-- **One step** keeps every image in its place. -/
theorem Stored.step {t : WriterTrace} (h : Stored blosc t) {e : WriterStep}
    (hok : OpensNew blosc t e) : Stored blosc (t.step blosc e) := by
  cases e with
  | write imageId data => exact h.write hok
  | writeOut n => exact h.writeOut n
  | restart => exact h.restart

/-! ### Reading -/

variable {reader : FileHandler}

/-- A file that is there at most becomes longer when a stream hands over its bytes. -/
theorem content_writeOut (hcontent : disk.content path = some content) (n : ℕ) :
    ∃ more, (stream.writeOut disk n).2.content path = some (content ++ more) := by
  rw [FileStream.writeOut]
  split
  · next file _ =>
    by_cases hpath : path = file
    · refine ⟨stream.held.take n, ?_⟩
      rw [← hpath, Disk.content_append, hcontent, Option.getD_some]
    · refine ⟨[], ?_⟩
      rw [Disk.content_append_ne hpath, hcontent, List.append_nil]
  · exact ⟨[], by rw [hcontent, List.append_nil]⟩

/-- An instance that can read a file that is there opens it. The file it had open, if it wrote to
it, may become longer. -/
theorem openReadFile_of_canRead {imageId : ℕ} (hcan : reader.CanRead (getFilename imageId))
    (hcontent : disk.content (getFilename imageId) = some content) :
    (reader.openReadFile disk imageId).1.currentFilename = some (getFilename imageId) ∧
      (reader.openReadFile disk imageId).1.currentFile = .reading (getFilename imageId) ∧
      ∃ more, (reader.openReadFile disk imageId).2.content (getFilename imageId) =
        some (content ++ more) := by
  rw [FileHandler.openReadFile]
  split
  · obtain ⟨more, hmore⟩ := content_writeOut hcontent reader.currentFile.held.length
    refine ⟨rfl, ?_, more, hmore⟩
    have hthere : ((reader.currentFile.close disk).2.content (getFilename imageId)).isSome :=
      Option.isSome_iff_exists.mpr ⟨_, hmore⟩
    simp only [FileStream.openRead, hthere, if_true]
  · next hsame =>
    have hname := (not_not.mp hsame).symm
    exact ⟨hname, hcan hname, [], by rw [hcontent, List.append_nil]⟩

/-- A read whose stream is open and good. -/
theorem read_of_open (blosc : Blosc) {imageId : ℕ} (size offset compressedSize : ℕ)
    (hopen : (reader.openReadFile disk imageId).1.currentFile = .reading (getFilename imageId)) :
    reader.read blosc disk imageId size offset compressedSize =
      ({ (reader.openReadFile disk imageId).1 with
          currentFile := ((FileStream.reading (getFilename imageId)).readAt
            (reader.openReadFile disk imageId).2 offset compressedSize).1 },
        (reader.openReadFile disk imageId).2,
        ((FileStream.reading (getFilename imageId)).readAt
          (reader.openReadFile disk imageId).2 offset compressedSize).2.bind
            fun bytes => blosc.decompress bytes size) := by
  rw [FileHandler.read]
  simp only [hopen, Option.isNone_some, Bool.false_eq_true, if_false]
  rfl

theorem read_of_hasAt {imageId : ℕ} {data compressed : List UInt8}
    (hcan : reader.CanRead (getFilename imageId))
    (hcontent : disk.content (getFilename imageId) = some content)
    (hcompress : blosc.compress data = some compressed) (hat : HasAt content offset compressed) :
    ∃ reader' disk', reader.read blosc disk imageId data.length offset compressed.length =
      (reader', disk', some data) ∧ reader'.Clean := by
  obtain ⟨hname, hfile, more, hmore⟩ := openReadFile_of_canRead hcan hcontent
  have hread : (FileStream.reading (getFilename imageId)).readAt
      (reader.openReadFile disk imageId).2 offset compressed.length =
        (.reading (getFilename imageId), some compressed) := by
    rw [FileStream.readAt]
    simp only [hmore, Option.getD_some, (hat.append more).take_drop, if_true]
  rw [read_of_open blosc _ _ _ hfile, hread]
  refine ⟨_, _, Prod.ext rfl (Prod.ext rfl ?_), .inr ⟨_, hname, rfl⟩⟩
  exact blosc.decompress_compress data compressed hcompress

/-- **Every image on the disk is read back**, in every run whose writes compress their images and
open only new files, and whatever is lost when a process is killed: an instance that can read the
file gets exactly the image's data from the offset and the size that its write returned, and has met
no error after that; the compressed bytes fit the buffer that the read makes for them. An image
whose file is open is on the disk as soon as nothing is held back. -/
theorem read_back {es : List WriterStep} {t : WriterTrace}
    (hrun : Run (Restrict (OpensNew blosc) (Steps.total (WriterTrace.step blosc))) {} es t) :
    (∀ r ∈ t.written, r.size ≤ r.data.length + maxOverhead ∧
      (OnDisk t.disk r → ∀ reader : FileHandler, reader.CanRead (getFilename r.imageId) →
        ∃ reader' disk', reader.read blosc t.disk r.imageId r.data.length r.offset r.size =
          (reader', disk', some r.data) ∧ reader'.Clean)) ∧
    ∀ r ∈ t.written, t.handler.currentFilename = some (getFilename r.imageId) →
      t.handler.currentFile.held = [] → OnDisk t.disk r := by
  have h := hrun.invariant (P := Stored blosc) (fun t e u hpre hstep => by
    obtain ⟨hok, rfl⟩ := hstep
    exact hpre.step hok) stored_start
  refine ⟨fun r hr => ?_, fun r hr hopen hheld => ?_⟩
  · obtain ⟨hthere, ⟨compressed, hcompress, hsize, hat⟩, -⟩ := h.written r hr
    refine ⟨hsize ▸ blosc.length_le r.data compressed hcompress, fun honDisk reader hcan => ?_⟩
    obtain ⟨content, hcontent⟩ := Option.isSome_iff_exists.mp hthere
    rw [OnDisk, hcontent, Option.getD_some] at honDisk
    rw [FileStream.flushed, hcontent, Option.getD_some, List.length_append] at hat
    have hat := hat (Nat.le_trans honDisk (Nat.le_add_right _ _))
    rw [hsize] at honDisk ⊢
    exact read_of_hasAt hcan hcontent hcompress (hat.of_append honDisk)
  · have hcomplete := (h.written r hr).complete hopen
    rwa [flushed_of_held_eq_nil hheld] at hcomplete

/-- Two images in one file, one that is lost, and one that is flushed. -/
def twoFiles : List WriterStep :=
  [.write 998 [1, 2], .write 999 [3], .write 1000 [4], .restart, .write 2000 [5], .writeOut 1]

theorem read_back_two_files :
    ∃ t, Run (Restrict (OpensNew plainBlosc) (Steps.total (WriterTrace.step plainBlosc))) {}
        twoFiles t ∧
      ⟨999, [3], 2, 1⟩ ∈ t.written ∧ ¬ OnDisk t.disk ⟨1000, [4], 0, 1⟩ ∧
      (({} : FileHandler).read plainBlosc t.disk 999 1 2 1).2.2 = some [3] ∧
      OnDisk t.disk ⟨2000, [5], 0, 1⟩ := by
  have hrun : Run (Restrict (OpensNew plainBlosc) (Steps.total (WriterTrace.step plainBlosc))) {}
      twoFiles _ :=
    .cons_total (by decide) (.cons_total (by decide) (.cons_total (by decide)
      (.cons_total (by decide) (.cons_total (by decide) (.cons_total (by decide) .nil)))))
  refine ⟨_, hrun, by decide, by decide, ?_, ?_⟩
  · obtain ⟨reader, disk, hread, -⟩ :=
      ((read_back hrun).1 ⟨999, [3], 2, 1⟩ (by decide)).2 (by decide) {} nofun
    exact congrArg (fun result => result.2.2) hread
  · exact (read_back hrun).2 ⟨2000, [5], 0, 1⟩ (by decide) (by decide) (by decide)

/-- The ids of the first file are visited twice: the third write says that its image is at the
beginning of the file, where the first image is. And an image that its write holds back is not
read. -/
theorem revisited_file :
    (∃ t, Run (Steps.total (WriterTrace.step plainBlosc)) {}
        [.write 0 [1], .write 1000 [2], .write 1 [3], .writeOut 1] t ∧
      ⟨1, [3], 0, 1⟩ ∈ t.written ∧
      (({} : FileHandler).read plainBlosc t.disk 1 1 0 1).2.2 = some [1]) ∧
    ∃ t, Run (Steps.total (WriterTrace.step plainBlosc)) {} [.write 0 [1]] t ∧
      ⟨0, [1], 0, 1⟩ ∈ t.written ∧
      (({} : FileHandler).read plainBlosc t.disk 0 1 0 1).2.2 = none :=
  ⟨⟨_, run_total_iff.mpr rfl, by decide, by decide⟩,
    ⟨_, run_total_iff.mpr rfl, by decide, by decide⟩⟩

end Buffer

end StdDaq
