import Mathlib.Data.List.AList

/-!
# The files of the image buffer

`sbc::FileHandler`, through which `std_buffer_writer` stores images and `std_buffer_reader` reads
them back. Images are compressed and appended to files of a thousand consecutive ids, and these lie
in folders of a million. A name is the decimal form of the quotient, followed by the zeros that were
divided off.

The disk is a directory of folders of files. Streams follow `std::fstream`: what is written is held
back until the stream is flushed or closed, or hands it over on its own; a failed operation makes a
stream bad, a bad stream does nothing, and opening a file successfully makes it good again.

Blosc is a parameter. What is assumed of it is what its documentation says: decompression inverts a
compression that succeeded, and a compression does not exceed the buffer it is given.

## Main definitions

* `FileHandler.write`, `FileHandler.read` — the operations
* `Disk.append`, `Disk.content` — the file system under them
-/

namespace StdDaq

namespace Buffer

/-- The name of a folder or of a file. -/
abbrev Name : Type := List Char

/-- The path of a file below the root directory. -/
structure Path where
  folder : Name
  file : Name
  deriving DecidableEq, Repr

/-- `std::to_string`. -/
def toText (n : ℕ) : Name := Nat.toDigits 10 n

/-- `get_folder_path`, without the root directory. -/
def folderName (imageId : ℕ) : Name := toText (imageId / 1000000) ++ "000000".toList

/-- The last part of `get_filename`. -/
def fileName (imageId : ℕ) : Name := toText (imageId / 1000) ++ "000.dat".toList

/-- `get_filename`. -/
def getFilename (imageId : ℕ) : Path := ⟨folderName imageId, fileName imageId⟩

/-- A folder: its files with their contents. -/
abbrev Folder : Type := AList fun _ : Name => List UInt8

/-- The root directory: its folders. -/
abbrev Disk : Type := AList fun _ : Name => Folder

namespace Disk

/-- The content of a file. -/
def content (disk : Disk) (path : Path) : Option (List UInt8) :=
  (disk.lookup path.folder).bind fun folder => folder.lookup path.file

/-- Append to a file, which is created if it is not there. -/
def append (disk : Disk) (path : Path) (bytes : List UInt8) : Disk :=
  let folder := (disk.lookup path.folder).getD ∅
  disk.insert path.folder
    (folder.insert path.file ((disk.content path).getD [] ++ bytes))

variable {disk : Disk} {path path' : Path} {bytes : List UInt8}

theorem content_append :
    (disk.append path bytes).content path = some ((disk.content path).getD [] ++ bytes) := by
  rw [append, content, AList.lookup_insert, Option.bind_some, AList.lookup_insert]

theorem content_append_ne (h : path' ≠ path) :
    (disk.append path bytes).content path' = disk.content path' := by
  rw [append, content]
  by_cases hfolder : path'.folder = path.folder
  · have hfile : path'.file ≠ path.file := fun hfile => h (by
      cases path; cases path'; simp_all)
    rw [hfolder, AList.lookup_insert, Option.bind_some, AList.lookup_insert_ne hfile]
    rw [content, hfolder]
    cases disk.lookup path.folder with
    | none => rfl
    | some folder => rfl
  · rw [AList.lookup_insert_ne hfolder]
    rfl

end Disk

/-- `BLOSC2_MAX_OVERHEAD`. -/
def maxOverhead : ℕ := 32

/-- The two functions of Blosc that are used, with what the code relies on. A result that is not
positive is no value. -/
structure Blosc where
  /-- `blosc2_compress_ctx`. -/
  compress : List UInt8 → Option (List UInt8)
  /-- `blosc2_decompress_ctx`, on the compressed bytes and the size of the destination. -/
  decompress : List UInt8 → ℕ → Option (List UInt8)
  /-- Decompression inverts compression. -/
  decompress_compress : ∀ data compressed, compress data = some compressed →
    decompress compressed data.length = some data
  /-- Compression keeps to the buffer it is given. -/
  length_le : ∀ data compressed, compress data = some compressed →
    compressed.length ≤ data.length + maxOverhead

/-- A compression that keeps the bytes, and fails only where there are none. -/
def plainBlosc : Blosc where
  compress data := if data = [] then none else some data
  decompress bytes size := if bytes.length = size then some bytes else none
  decompress_compress data compressed h := by
    split at h
    · cases h
    · obtain rfl := Option.some.inj h
      exact if_pos rfl
  length_le data compressed h := by
    split at h
    · cases h
    · obtain rfl := Option.some.inj h
      exact Nat.le_add_right _ _

/-- How a stream was opened. -/
inductive OpenMode where
  | read
  | append
  deriving DecidableEq, Repr

/-- The state of a `std::fstream`: the file it has open, what was written to it and is not on the
disk yet, and `good()`. -/
structure FileStream where
  file : Option (Path × OpenMode) := none
  held : List UInt8 := []
  good : Bool := true
  deriving DecidableEq, Repr

namespace FileStream

/-- A good stream that reads a file. -/
abbrev reading (path : Path) : FileStream := ⟨some (path, .read), [], true⟩

/-- A good stream that appends to a file and holds bytes back. -/
abbrev appending (path : Path) (held : List UInt8) : FileStream :=
  ⟨some (path, .append), held, true⟩

/-- The stream hands over the first `n` of the bytes that it holds back, as the library does when
the buffer of the stream is full. -/
def writeOut (stream : FileStream) (disk : Disk) (n : ℕ) : FileStream × Disk :=
  match stream.file with
  | some (path, .append) =>
    ({ stream with held := stream.held.drop n }, disk.append path (stream.held.take n))
  | _ => (stream, disk)

/-- `flush`, which a bad stream ignores. -/
def flush (stream : FileStream) (disk : Disk) : FileStream × Disk :=
  if stream.good then stream.writeOut disk stream.held.length else (stream, disk)

/-- `close`, which hands over what is left. Closing a stream without a file is an error. -/
def close (stream : FileStream) (disk : Disk) : FileStream × Disk :=
  ({ file := none, good := stream.good && stream.file.isSome },
    (stream.writeOut disk stream.held.length).2)

/-- `open` for appending, on a stream that has no file. The file is created. -/
def openAppend (_ : FileStream) (disk : Disk) (path : Path) : FileStream × Disk :=
  (appending path [], disk.append path [])

/-- `open` for reading, on a stream that has no file. -/
def openRead (_ : FileStream) (disk : Disk) (path : Path) : FileStream :=
  if (disk.content path).isSome then reading path else { file := none, good := false }

/-- `write`. -/
def write (stream : FileStream) (bytes : List UInt8) : FileStream :=
  match stream.file, stream.good with
  | some (_, .append), true => { stream with held := stream.held ++ bytes }
  | _, _ => { stream with good := false }

/-- `seekg` and `read`: the bytes, when the stream is good and has that many. -/
def readAt (stream : FileStream) (disk : Disk) (offset size : ℕ) :
    FileStream × Option (List UInt8) :=
  match stream.file, stream.good with
  | some (path, mode), true =>
    -- There is nothing to read in a file that was opened for appending.
    let bytes := match mode with
      | .read => (((disk.content path).getD []).drop offset).take size
      | .append => []
    if bytes.length = size then (stream, some bytes) else ({ stream with good := false }, none)
  | _, _ => ({ stream with good := false }, none)

end FileStream

/-- The members of `FileHandler` that change. -/
structure FileHandler where
  currentFilename : Option Path := none
  currentFile : FileStream := {}
  currentOffset : ℕ := 0
  deriving DecidableEq, Repr

namespace FileHandler

variable (blosc : Blosc)

/-- `compress`: the image itself when Blosc fails. -/
def compress (data : List UInt8) : List UInt8 := (blosc.compress data).getD data

/-- `open_new_file`. -/
def openNewFile (handler : FileHandler) (disk : Disk) (path : Path) : FileHandler × Disk :=
  let flushed := handler.currentFile.flush disk
  let closed := flushed.1.close flushed.2
  let opened := closed.1.openAppend closed.2 path
  ({ currentFilename := some path, currentFile := opened.1, currentOffset := 0 }, opened.2)

/-- `write_data_and_update_offset`: the stream appends to its file, whatever the offset is. -/
def writeDataAndUpdateOffset (handler : FileHandler) (data : List UInt8) :
    FileHandler × ℕ × ℕ :=
  ({ handler with
      currentFile := handler.currentFile.write data
      currentOffset := handler.currentOffset + data.length },
    handler.currentOffset, data.length)

/-- `write`: the offset and the size that are stored with the image. -/
def write (handler : FileHandler) (disk : Disk) (imageId : ℕ) (data : List UInt8) :
    FileHandler × Disk × ℕ × ℕ :=
  let opened := if some (getFilename imageId) ≠ handler.currentFilename then
      handler.openNewFile disk (getFilename imageId)
    else (handler, disk)
  let written := opened.1.writeDataAndUpdateOffset (compress blosc data)
  (written.1, opened.2, written.2)

/-- What the library does with the stream between two calls: it hands over some of the bytes. -/
def writeOut (handler : FileHandler) (disk : Disk) (n : ℕ) : FileHandler × Disk :=
  let result := handler.currentFile.writeOut disk n
  ({ handler with currentFile := result.1 }, result.2)

/-- `open_read_file`. -/
def openReadFile (handler : FileHandler) (disk : Disk) (imageId : ℕ) : FileHandler × Disk :=
  if some (getFilename imageId) ≠ handler.currentFilename then
    let closed := handler.currentFile.close disk
    ({ handler with
        currentFilename := some (getFilename imageId)
        currentFile := closed.1.openRead closed.2 (getFilename imageId) }, closed.2)
  else (handler, disk)

/-- `read`: what is left in the span of `size` bytes when the function returns `true`. The source
makes room for `size + maxOverhead` compressed bytes, and does not look whether they fit. -/
def read (handler : FileHandler) (disk : Disk) (imageId size offset compressedSize : ℕ) :
    FileHandler × Disk × Option (List UInt8) :=
  let opened := handler.openReadFile disk imageId
  if opened.1.currentFile.file.isNone then (opened.1, opened.2, none)
  else
    -- Seeking flushes a stream that was written to.
    let flushed := opened.1.currentFile.flush opened.2
    let result := flushed.1.readAt flushed.2 offset compressedSize
    ({ opened.1 with currentFile := result.1 }, flushed.2,
      result.2.bind fun bytes => blosc.decompress bytes size)

end FileHandler

end Buffer

end StdDaq
