import StdDaq.Buffer.RoundTrip

/-!
# Failed reads of the image buffer

A `FileHandler` that reads remembers the name of the file it turned to last, and keeps the stream
that it opened for it. A read may come too early: the file is not there yet, or its end is not yet
on the disk. `FileHandler::read` returns `false` then, but the name was stored before the file was
opened, and a stream that met the end of its file stays bad. As long as the file is the same nothing
is opened again, so that every later read of this file fails too, whatever is on the disk by then.
Turning to another file and back mends it.

## Main results

* `Tracks.step` — the stream is as good as the reads since the reader turned to its file
* `read_iff_allFound` — the reads that get an image that is on the disk
-/

namespace StdDaq

namespace Buffer

/-- The arguments of a call of `FileHandler::read`, with the size of the span for the image. The
compressed bytes fit the buffer that the function makes for them. -/
structure ReadCall where
  imageId : ℕ
  size : ℕ
  offset : ℕ
  compressedSize : ℕ
  fits : compressedSize ≤ size + maxOverhead

/-- A read, or a file that another process makes or makes longer. -/
inductive ReaderEvent where
  | read (call : ReadCall)
  | grow (path : Path) (bytes : List UInt8)

/-- The reader and its disk, and the reads so far, the last one first: the file, and whether it was
there with all of the bytes. -/
structure ReaderTrace where
  reader : FileHandler := {}
  disk : Disk
  reads : List (Path × Bool) := []

/-- The file is there, and it has this many bytes from the offset on. -/
def found (disk : Disk) (path : Path) (offset size : ℕ) : Bool :=
  match disk.content path with
  | none => false
  | some content => decide (size ≤ content.length - offset)

/-- One read, or one change of the disk. -/
def ReaderTrace.step (blosc : Blosc) (t : ReaderTrace) : ReaderEvent → ReaderTrace
  | .read call =>
    let result := t.reader.read blosc t.disk call.imageId call.size call.offset call.compressedSize
    { reader := result.1
      disk := result.2.1
      reads := (getFilename call.imageId,
        found t.disk (getFilename call.imageId) call.offset call.compressedSize) :: t.reads }
  | .grow path bytes => { t with disk := t.disk.append path bytes }

/-- Since the reader turned to the file, every read found its bytes. -/
def AllFound (reads : List (Path × Bool)) (path : Path) : Prop :=
  ∀ r ∈ reads.takeWhile (fun r => r.1 = path), r.2 = true

instance (reads : List (Path × Bool)) (path : Path) : Decidable (AllFound reads path) :=
  inferInstanceAs (Decidable (∀ r ∈ _, _))

/-- A stream that gives no bytes. -/
def FileStream.Stuck (stream : FileStream) : Prop := stream.file = none ∨ stream.good = false

/-- A stream that was not opened for appending. -/
def FileStream.ForReading (stream : FileStream) : Prop :=
  ∀ path, stream.file ≠ some (path, .append)

variable {blosc : Blosc} {disk : Disk} {path : Path} {reads : List (Path × Bool)}

theorem allFound_cons {b : Bool} :
    AllFound ((path, b) :: reads) path ↔ b = true ∧ AllFound reads path := by
  rw [AllFound, List.takeWhile_cons, if_pos (decide_eq_true rfl), List.forall_mem_cons]
  rfl

/-- A file the reader turns to has a clean slate. -/
theorem allFound_of_head_ne (h : reads.head?.map Prod.fst ≠ some path) : AllFound reads path := by
  cases reads with
  | nil => exact fun r hr => absurd hr List.not_mem_nil
  | cons r rest =>
    have hne : r.1 ≠ path := fun heq => h (congrArg some heq)
    rw [AllFound, List.takeWhile_cons, if_neg (mt of_decide_eq_true hne)]
    exact fun r hr => absurd hr List.not_mem_nil

/-! ### The stream -/

namespace FileStream

variable {stream : FileStream}

theorem ForReading.writeOut (h : stream.ForReading) (disk : Disk) (n : ℕ) :
    stream.writeOut disk n = (stream, disk) := by
  rw [FileStream.writeOut]
  split
  · next hfile => exact absurd hfile (h _)
  · rfl

theorem ForReading.flush (h : stream.ForReading) (disk : Disk) :
    stream.flush disk = (stream, disk) := by
  rw [FileStream.flush, h.writeOut, ite_self]

theorem forReading_reading (path : Path) : (reading path).ForReading := by
  intro path' h
  cases h

theorem forReading_openRead (stream : FileStream) (disk : Disk) (path : Path) :
    (stream.openRead disk path).ForReading := by
  rw [openRead]
  split
  · exact forReading_reading path
  · intro path' h
    cases h

theorem readAt_file (stream : FileStream) (disk : Disk) (offset size : ℕ) :
    (stream.readAt disk offset size).1.file = stream.file := by
  obtain ⟨_ | ⟨file, mode⟩, held, _ | _⟩ := stream
  · rfl
  · rfl
  · rfl
  · rw [FileStream.readAt]
    dsimp only
    rw [apply_ite Prod.fst, apply_ite FileStream.file, ite_self]

theorem Stuck.readAt (h : stream.Stuck) (disk : Disk) (offset size : ℕ) :
    (stream.readAt disk offset size).1.Stuck ∧ (stream.readAt disk offset size).2 = none := by
  rcases h with h | h <;> rw [FileStream.readAt, h]
  · exact ⟨.inr rfl, rfl⟩
  · split
    · next hgood => cases hgood
    · exact ⟨.inr rfl, rfl⟩

end FileStream

theorem FileHandler.Clean.forReading {reader : FileHandler} (h : reader.Clean) :
    reader.currentFile.ForReading := by
  rcases h with rfl | ⟨path, -, hfile⟩
  · nofun
  · rw [hfile]
    exact FileStream.forReading_reading path

theorem FileHandler.Clean.canRead {reader : FileHandler} (h : reader.Clean) (path : Path) :
    reader.CanRead path := by
  intro hname
  rcases h with rfl | ⟨path', hname', hfile⟩
  · cases hname
  · rw [hfile, Option.some.inj (hname'.symm.trans hname)]

/-- An instance that only reads leaves the disk as it is. -/
theorem openReadFile_disk {reader : FileHandler} (h : reader.currentFile.ForReading) (disk : Disk)
    (imageId : ℕ) :
    (reader.openReadFile disk imageId).2 = disk ∧
      (reader.openReadFile disk imageId).1.currentFile.ForReading := by
  rw [FileHandler.openReadFile]
  split
  · refine ⟨?_, FileStream.forReading_openRead (reader.currentFile.close disk).1 _ _⟩
    rw [FileStream.close, h.writeOut]
  · exact ⟨rfl, h⟩

theorem read_disk (blosc : Blosc) {reader : FileHandler} (h : reader.currentFile.ForReading)
    (disk : Disk) (imageId size offset compressedSize : ℕ) :
    (reader.read blosc disk imageId size offset compressedSize).2.1 = disk ∧
      (reader.read blosc disk imageId size offset compressedSize).1.currentFile.ForReading := by
  obtain ⟨hdisk, hopened⟩ := openReadFile_disk h disk imageId
  rw [FileHandler.read]
  dsimp only
  split
  · exact ⟨hdisk, hopened⟩
  · rw [hopened.flush]
    refine ⟨hdisk, fun path hpath => hopened path ?_⟩
    rwa [FileStream.readAt_file] at hpath

theorem readAt_found (offset size : ℕ) (hfound : found disk path offset size = true) :
    (FileStream.reading path).readAt disk offset size =
      (.reading path, some ((((disk.content path).getD []).drop offset).take size)) := by
  rw [found] at hfound
  split at hfound
  · cases hfound
  · next content hcontent =>
    rw [FileStream.readAt]
    simp only [hcontent, Option.getD_some, List.length_take, List.length_drop,
      Nat.min_eq_left (of_decide_eq_true hfound), if_true]

/-- A range that is not complete makes the stream bad. -/
theorem readAt_not_found (offset size : ℕ) (hfile : (disk.content path).isSome)
    (hfound : found disk path offset size = false) :
    ((FileStream.reading path).readAt disk offset size).1.Stuck := by
  obtain ⟨content, hcontent⟩ := Option.isSome_iff_exists.mp hfile
  rw [found, hcontent] at hfound
  have hshort : ¬ size ≤ content.length - offset := of_decide_eq_false hfound
  rw [FileStream.readAt]
  simp only [hcontent, Option.getD_some, List.length_take, List.length_drop]
  rw [if_neg (by omega)]
  exact .inr rfl

theorem isSome_of_found {offset size : ℕ} (h : found disk path offset size = true) :
    (disk.content path).isSome := by
  rw [found] at h
  split at h
  · cases h
  · next hcontent => rw [hcontent]; rfl

/-! ### The reader -/

/-- What ties the reader to its reads: it remembers the file of the last one, and its stream is open
and good if all reads of that file found their bytes, and gives nothing otherwise. -/
structure Tracks (t : ReaderTrace) : Prop where
  name : t.reader.currentFilename = t.reads.head?.map Prod.fst
  forReading : t.reader.currentFile.ForReading
  working : ∀ path, t.reader.currentFilename = some path → AllFound t.reads path →
    t.reader.currentFile = .reading path ∧ (t.disk.content path).isSome
  stuck : ∀ path, t.reader.currentFilename = some path → ¬ AllFound t.reads path →
    t.reader.currentFile.Stuck

theorem tracks_start (disk : Disk) : Tracks { disk := disk } := ⟨rfl, nofun, nofun, nofun⟩

/-- The stream a read works on. -/
theorem Tracks.openReadFile {t : ReaderTrace} (h : Tracks t) (imageId : ℕ) :
    (t.reader.openReadFile t.disk imageId).1.currentFilename = some (getFilename imageId) ∧
      if (t.disk.content (getFilename imageId)).isSome ∧ AllFound t.reads (getFilename imageId) then
        (t.reader.openReadFile t.disk imageId).1.currentFile = .reading (getFilename imageId)
      else (t.reader.openReadFile t.disk imageId).1.currentFile.Stuck := by
  rw [FileHandler.openReadFile]
  split
  · next hne =>
    have hall : AllFound t.reads (getFilename imageId) :=
      allFound_of_head_ne fun heq => hne (heq.symm.trans h.name.symm)
    have hdisk : (t.reader.currentFile.close t.disk).2 = t.disk := by
      rw [FileStream.close, h.forReading.writeOut]
    refine ⟨rfl, ?_⟩
    simp only [FileStream.openRead, hdisk]
    split
    · next hok => rw [if_pos hok.1]
    · next hmissing =>
      rw [if_neg fun hsome => hmissing ⟨hsome, hall⟩]
      exact .inl rfl
  · next hsame =>
    have hname := (not_not.mp hsame).symm
    refine ⟨hname, ?_⟩
    split
    · next hok => exact (h.working _ hname hok.2).1
    · next hmissing =>
      by_cases hall : AllFound t.reads (getFilename imageId)
      · exact absurd ⟨(h.working _ hname hall).2, hall⟩ hmissing
      · exact h.stuck _ hname hall

/-- A read whose stream gives no bytes. -/
theorem read_stuck (blosc : Blosc) {reader : FileHandler} {imageId : ℕ}
    (size offset compressedSize : ℕ) (hreads : reader.currentFile.ForReading)
    (hstuck : (reader.openReadFile disk imageId).1.currentFile.Stuck) :
    (reader.read blosc disk imageId size offset compressedSize).1.currentFile.Stuck ∧
      (reader.read blosc disk imageId size offset compressedSize).1.currentFilename =
        (reader.openReadFile disk imageId).1.currentFilename ∧
      (reader.read blosc disk imageId size offset compressedSize).2.2 = none := by
  rw [FileHandler.read]
  dsimp only
  split
  · exact ⟨hstuck, rfl, rfl⟩
  · rw [(openReadFile_disk hreads disk imageId).2.flush]
    obtain ⟨hstuck', hnone⟩ :=
      hstuck.readAt (reader.openReadFile disk imageId).2 offset compressedSize
    refine ⟨hstuck', rfl, ?_⟩
    rw [hnone]
    rfl

theorem Tracks.read {t : ReaderTrace} (h : Tracks t) (call : ReadCall) :
    Tracks (t.step blosc (.read call)) := by
  obtain ⟨hname, hstream⟩ := h.openReadFile call.imageId
  obtain ⟨hdisk, hreads'⟩ := read_disk blosc h.forReading t.disk call.imageId call.size call.offset
    call.compressedSize
  have hopened := (openReadFile_disk h.forReading t.disk call.imageId).1
  have hreads : AllFound (t.step blosc (.read call)).reads (getFilename call.imageId) ↔
      found t.disk (getFilename call.imageId) call.offset call.compressedSize = true ∧
        AllFound t.reads (getFilename call.imageId) := allFound_cons
  split at hstream
  · next hok =>
    have hread := read_of_open blosc call.size call.offset call.compressedSize hstream
    rw [hopened] at hread
    have hname' : (t.step blosc (.read call)).reader.currentFilename =
        some (getFilename call.imageId) := by
      rw [ReaderTrace.step, hread]
      exact hname
    refine ⟨hname', hreads', fun path hpath hall => ?_, fun path hpath hall => ?_⟩
    · obtain rfl := Option.some.inj (hname'.symm.trans hpath)
      rw [hreads] at hall
      refine ⟨?_, ?_⟩
      · rw [ReaderTrace.step, hread, readAt_found _ _ hall.1]
      · rw [ReaderTrace.step, hdisk]
        exact hok.1
    · obtain rfl := Option.some.inj (hname'.symm.trans hpath)
      rw [hreads] at hall
      have hnot : found t.disk (getFilename call.imageId) call.offset call.compressedSize = false :=
        Bool.eq_false_iff.mpr fun hfound => hall ⟨hfound, hok.2⟩
      rw [ReaderTrace.step, hread]
      exact readAt_not_found _ _ hok.1 hnot
  · next hmissing =>
    obtain ⟨hstuck, hsame, -⟩ :=
      read_stuck blosc call.size call.offset call.compressedSize h.forReading hstream
    have hname' : (t.step blosc (.read call)).reader.currentFilename =
        some (getFilename call.imageId) := hsame.trans hname
    refine ⟨hname', hreads', fun path hpath hall => ?_, fun path hpath _ => hstuck⟩
    obtain rfl := Option.some.inj (hname'.symm.trans hpath)
    rw [hreads] at hall
    exact absurd ⟨isSome_of_found hall.1, hall.2⟩ hmissing

theorem Tracks.grow {t : ReaderTrace} (h : Tracks t) (path : Path) (bytes : List UInt8) :
    Tracks (t.step blosc (.grow path bytes)) := by
  refine ⟨h.name, h.forReading, fun path' hpath hall => ?_, h.stuck⟩
  obtain ⟨hstream, hsome⟩ := h.working path' hpath hall
  exact ⟨hstream, Disk.isSome_append hsome path bytes⟩

/-- **One step** keeps the stream as good as the reads since the reader turned to its file. -/
theorem Tracks.step {t : ReaderTrace} (h : Tracks t) (e : ReaderEvent) :
    Tracks (t.step blosc e) := by
  cases e with
  | read call => exact h.read call
  | grow path bytes => exact h.grow path bytes

theorem tracks_of_run {es : List ReaderEvent} {t : ReaderTrace}
    (hrun : Run (Steps.total (ReaderTrace.step blosc)) { disk := disk } es t) : Tracks t := by
  refine hrun.invariant (fun t e u h hstep => ?_) (tracks_start disk)
  obtain rfl : t.step blosc e = u := hstep
  exact h.step e

/-- A reader that has made any sequence of reads, while files appeared and grew, gets an image that
is on the disk exactly when all reads found their bytes since it turned to the file of the image,
and what is stored of the image can be decompressed. -/
theorem read_iff_allFound {es : List ReaderEvent} {t : ReaderTrace}
    (hrun : Run (Steps.total (ReaderTrace.step blosc)) { disk := disk } es t) {imageId offset : ℕ}
    {data content : List UInt8} (hcontent : t.disk.content (getFilename imageId) = some content)
    (hat : HasAt content offset (FileHandler.compress blosc data)) :
    (t.reader.read blosc t.disk imageId data.length offset
        (FileHandler.compress blosc data).length).2.2 = some data ↔
      AllFound t.reads (getFilename imageId) ∧
        blosc.decompress (FileHandler.compress blosc data) data.length = some data := by
  have hsome : (t.disk.content (getFilename imageId)).isSome := by rw [hcontent]; rfl
  have htracks := tracks_of_run hrun
  obtain ⟨-, hstream⟩ := htracks.openReadFile imageId
  split at hstream
  · next hok =>
    have hfound : found t.disk (getFilename imageId) offset
        (FileHandler.compress blosc data).length = true := by
      obtain ⟨before, after, rfl, rfl⟩ := hat
      rw [found, hcontent]
      refine decide_eq_true ?_
      simp only [List.length_append]
      omega
    have hread := read_of_open blosc data.length offset (FileHandler.compress blosc data).length
      hstream
    rw [(openReadFile_disk htracks.forReading t.disk imageId).1, readAt_found _ _ hfound, hcontent,
      Option.getD_some, hat.take_drop] at hread
    rw [hread]
    exact (and_iff_right hok.2).symm
  · next hmissing =>
    obtain ⟨-, -, hnone⟩ := read_stuck blosc data.length offset
      (FileHandler.compress blosc data).length htracks.forReading hstream
    rw [hnone]
    exact iff_of_false nofun fun h => hmissing ⟨hsome, h.1⟩

end Buffer

end StdDaq
