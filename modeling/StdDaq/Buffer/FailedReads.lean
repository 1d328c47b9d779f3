import StdDaq.Buffer.Reading
import StdDaq.Buffer.Replay

/-!
# Images whose read failed

`read_single_image` does not look at what `FileHandler::read` returns. The metadata of an image
whose read failed is queued like any other, and `get_image` hands it out, although the slot of the
image has something else in it. This happens when the metadata is in Redis before the bytes are on
the disk, which the writer does not prevent: it sends the metadata while its stream still holds the
bytes back.

The record of a replay says next to each queued image whether its read succeeded. The storage may
change between any two steps.

## Main results

* `returned_read` — in a replay whose reads find their images, no image is returned without a
  successful read
* `failed_reads_contained` — what becomes of failed reads in both classes
-/

namespace StdDaq

namespace Buffer

/-- What `FileHandler::read` returns to `read_single_image`. -/
def BufferHandler.readSucceeds (blosc : Blosc) (storage : Storage) (handler : BufferHandler)
    (message : BufferedMetadata) : Bool :=
  match getUncompressedSize message.metadata with
  | .error _ => false
  | .ok size =>
    (handler.fileHandler.read blosc storage.disk message.metadata.imageId size message.offset
      message.metadata.size).2.2.isSome

/-- A replay, and what became of the reads. -/
structure LoadTrace where
  replay : Replay
  /-- The images that are queued, and whether their reads succeeded. -/
  queued : List (ImageMetadata × Bool) := []
  /-- The images that `get_image` returned, and whether their reads succeeded. -/
  returned : List (ImageMetadata × Bool) := []

namespace LoadTrace

/-- The requesting thread returns what it takes from the queue. -/
def take (t : LoadTrace) (replay : Replay) : LoadTrace :=
  let popped := t.replay.handler.metadatas.length - replay.handler.metadatas.length
  { replay := replay
    queued := t.queued.drop popped
    returned := t.returned ++ t.queued.take popped }

/-- The loader thread queues an image after it has read it. -/
def push (t : LoadTrace) (replay : Replay) (succeeded : Bool) : LoadTrace :=
  { t with
    replay := replay
    queued := t.queued ++
      (replay.handler.metadatas.drop t.queued.length).map fun image => (image, succeeded) }

/-- The loader thread leaves the queue as it is or empties it. -/
def cut (t : LoadTrace) (replay : Replay) : LoadTrace :=
  { t with replay := replay, queued := t.queued.take replay.handler.metadatas.length }

/-- One step of one of the threads, with the storage as it is then. -/
def step (blosc : Blosc) (nSlots endImageId : ℕ) (t : LoadTrace) (e : Thread × Storage) :
    Option LoadTrace :=
  (t.replay.step blosc nSlots endImageId e.2 e.1).map fun replay =>
    match e.1, t.replay.loader with
    | .requester, _ => t.take replay
    | .loader, .pushing (message :: _) =>
      t.push replay (t.replay.handler.readSucceeds blosc e.2 message)
    | .loader, _ => t.cut replay

end LoadTrace

variable {blosc : Blosc} {nSlots endImageId : ℕ} {s s' : Replay} {storage : Storage}

/-- What the metadata says is on the disk, and it is an image of this size. -/
structure Readable (blosc : Blosc) (disk : Disk) (message : BufferedMetadata) (size : ℕ) :
    Prop where
  fits : message.metadata.size ≤ size + maxOverhead
  found : found disk (getFilename message.metadata.imageId) message.offset
    message.metadata.size = true
  image : (blosc.decompress ((((disk.content (getFilename message.metadata.imageId)).getD []).drop
    message.offset).take message.metadata.size) size).isSome

/-- The image that the loader thread reads next. -/
def Loader.toRead : Loader → Option BufferedMetadata
  | .pushing (message :: _) => some message
  | _ => none

/-- If the step reads an image, the image can be read. -/
def FindsImage (blosc : Blosc) (t : LoadTrace) (e : Thread × Storage) : Prop :=
  e.1 = .loader → ∀ message ∈ t.replay.loader.toRead,
    ∀ size ∈ (getUncompressedSize message.metadata).toOption,
      Readable blosc e.2.disk message size

instance (disk : Disk) (message : BufferedMetadata) (size : ℕ) :
    Decidable (Readable blosc disk message size) :=
  decidable_of_iff (message.metadata.size ≤ size + maxOverhead ∧
      found disk (getFilename message.metadata.imageId) message.offset
        message.metadata.size = true ∧
      (blosc.decompress ((((disk.content (getFilename message.metadata.imageId)).getD []).drop
        message.offset).take message.metadata.size) size).isSome)
    ⟨fun h => ⟨h.1, h.2.1, h.2.2⟩, fun h => ⟨h.fits, h.found, h.image⟩⟩

instance (t : LoadTrace) (e : Thread × Storage) : Decidable (FindsImage blosc t e) :=
  inferInstanceAs (Decidable (_ → ∀ message ∈ _, ∀ size ∈ _, _))

/-- A reader that has met no error reads what can be read. -/
theorem Readable.read {disk : Disk} {message : BufferedMetadata} {size : ℕ}
    (h : Readable blosc disk message size) {reader : FileHandler} (hclean : reader.Clean) :
    (reader.read blosc disk message.metadata.imageId size message.offset
        message.metadata.size).2.2.isSome ∧
      (reader.read blosc disk message.metadata.imageId size message.offset
        message.metadata.size).1.Clean := by
  obtain ⟨content, hcontent⟩ := Option.isSome_iff_exists.mp (isSome_of_found h.found)
  obtain ⟨hname, hfile, -⟩ := openReadFile_of_canRead (hclean.canRead _) hcontent
  have hread := read_of_open blosc size message.offset message.metadata.size hfile
  rw [(openReadFile_disk hclean.forReading disk _).1, readAt_found _ _ h.found] at hread
  rw [hread]
  exact ⟨h.image, .inr ⟨_, hname, rfl⟩⟩

/-! ### What the threads do to the queue -/

/-- The step takes images from the front of the queue and returns them. -/
def Took (s s' : Replay) : Prop :=
  s'.handler.fileHandler = s.handler.fileHandler ∧
    ∃ popped, s.handler.metadatas = popped ++ s'.handler.metadatas ∧
      s'.answers.filterMap Prod.snd = s.answers.filterMap Prod.snd ++ popped

theorem took_answer (s : Replay) (imageId : ℕ) : Took s (s.answer imageId) := by
  rw [Replay.answer]
  split
  · next image handler hpop =>
    rw [BufferHandler.tryPopImage] at hpop
    split at hpop
    · cases hpop
    · next front rest hqueue =>
      split at hpop
      · obtain ⟨rfl, rfl⟩ := Prod.mk.inj (Option.some.inj hpop)
        exact ⟨rfl, [front], hqueue, by simp⟩
      · cases hpop
  · exact ⟨rfl, [], rfl, by simp⟩

theorem took_request (s : Replay) (imageId : ℕ) : Took s (s.request imageId) := by
  have hrequested : ∀ t : Replay, t.handler.fileHandler = s.handler.fileHandler →
      t.handler.metadatas = s.handler.metadatas → t.answers = s.answers →
      Took s (if t.handler.imageAvailable then t.answer imageId
        else { t with requester := .waiting imageId false }) := by
    intro t hfile hqueue hanswers
    split
    · obtain ⟨hfile', popped, hqueue', hanswers'⟩ := took_answer t imageId
      rw [hqueue] at hqueue'
      rw [hanswers] at hanswers'
      exact ⟨hfile'.trans hfile, popped, hqueue', hanswers'⟩
    · exact ⟨hfile, [], hqueue.symm, by simp [hanswers]⟩
  rw [Replay.request]
  by_cases hneeds : s.handler.needsLoader imageId = true
  · rw [if_pos hneeds]
    exact hrequested _ rfl rfl rfl
  · rw [if_neg hneeds]
    exact hrequested _ rfl rfl rfl

theorem took_of_requesterStep (h : s.requesterStep endImageId = some s') : Took s s' := by
  rw [Replay.requesterStep] at h
  split at h
  · split at h
    · obtain rfl := Option.some.inj h
      split
      · exact took_answer s _
      · exact took_request s _
    · cases h
  · obtain rfl := Option.some.inj h
    split
    · exact took_answer s _
    · exact ⟨rfl, [], rfl, by simp⟩
  · cases h
  · cases h

/-- The loader thread reads the next image and queues its metadata. -/
theorem loaderStep_pushing {message : BufferedMetadata} {rest : List BufferedMetadata}
    (hloader : s.loader = .pushing (message :: rest))
    (h : s.loaderStep blosc nSlots storage = some s') :
    ∃ size image, getUncompressedSize message.metadata = .ok size ∧ s'.answers = s.answers ∧
      s'.handler.metadatas = s.handler.metadatas ++ [image] ∧
      s'.handler.fileHandler = (s.handler.fileHandler.read blosc storage.disk
        message.metadata.imageId size message.offset message.metadata.size).1 := by
  rw [Replay.loaderStep, hloader] at h
  dsimp only at h
  rw [BufferHandler.readSingleImage] at h
  cases hsize : getUncompressedSize message.metadata with
  | error e =>
    rw [hsize] at h
    cases h
  | ok size =>
    rw [hsize] at h
    refine ⟨size, { message.metadata with size := size, compression := .none }, rfl, ?_⟩
    simp only [Except.map] at h
    split at h
    · obtain rfl := Option.some.inj h
      exact ⟨rfl, rfl, rfl⟩
    · obtain rfl := Option.some.inj h
      exact ⟨rfl, rfl, rfl⟩

/-- Elsewhere the loader thread at most empties the queue. -/
theorem loaderStep_not_pushing
    (hloader : ∀ message rest, s.loader ≠ .pushing (message :: rest))
    (h : s.loaderStep blosc nSlots storage = some s') :
    s'.answers = s.answers ∧ s'.handler.fileHandler = s.handler.fileHandler ∧
      (s'.handler.metadatas = s.handler.metadatas ∨ s'.handler.metadatas = []) := by
  rw [Replay.loaderStep] at h
  split at h
  · split at h
    · obtain rfl := Option.some.inj h
      exact ⟨rfl, rfl, .inr rfl⟩
    · obtain rfl := Option.some.inj h
      exact ⟨rfl, rfl, .inl rfl⟩
  · cases h
  · split at h
    · cases h
    · obtain rfl := Option.some.inj h
      exact ⟨rfl, rfl, .inl rfl⟩
    · obtain rfl := Option.some.inj h
      exact ⟨rfl, rfl, .inl rfl⟩
  · obtain rfl := Option.some.inj h
    exact ⟨rfl, rfl, .inl rfl⟩
  · next message rest hpushing => exact absurd hpushing (hloader message rest)
  · obtain rfl := Option.some.inj h
    exact ⟨rfl, rfl, .inl rfl⟩

/-! ### Runs -/

/-- The record keeps pace with the replay. -/
structure Recorded (t : LoadTrace) : Prop where
  queued : t.queued.map Prod.fst = t.replay.handler.metadatas
  returned : t.returned.map Prod.fst = t.replay.answers.filterMap Prod.snd

theorem Recorded.length_queued {t : LoadTrace} (h : Recorded t) :
    t.queued.length = t.replay.handler.metadatas.length := by
  rw [← h.queued, List.length_map]

/-- All reads behind the record succeeded, and the reader has met no error. -/
structure AllRead (t : LoadTrace) : Prop extends Recorded t where
  clean : t.replay.handler.fileHandler.Clean
  queued_read : ∀ r ∈ t.queued, r.2 = true
  returned_read : ∀ r ∈ t.returned, r.2 = true

theorem allRead_start (first : ℕ) : AllRead { replay := { requester := .idle first } } where
  queued := rfl
  returned := rfl
  clean := .inl rfl
  queued_read := List.forall_mem_nil _
  returned_read := List.forall_mem_nil _

theorem AllRead.take {t : LoadTrace} {replay : Replay} (h : AllRead t)
    (htook : Took t.replay replay) : AllRead (t.take replay) := by
  obtain ⟨hfile, popped, hqueue, hanswers⟩ := htook
  have hpopped : t.replay.handler.metadatas.length - replay.handler.metadatas.length =
      popped.length := by
    rw [hqueue, List.length_append, Nat.add_sub_cancel]
  rw [LoadTrace.take, hpopped]
  refine ⟨⟨?_, ?_⟩, hfile ▸ h.clean, fun r hr => h.queued_read r (List.mem_of_mem_drop hr),
    fun r hr => ?_⟩
  · rw [List.map_drop, h.queued, hqueue, List.drop_left]
  · rw [List.map_append, List.map_take, h.queued, h.returned, hqueue, List.take_left, hanswers]
  · rcases List.mem_append.mp hr with hr | hr
    · exact h.returned_read r hr
    · exact h.queued_read r (List.mem_of_mem_take hr)

theorem AllRead.push {t : LoadTrace} {replay : Replay} {image : ImageMetadata} (h : AllRead t)
    (hanswers : replay.answers = t.replay.answers)
    (hqueue : replay.handler.metadatas = t.replay.handler.metadatas ++ [image])
    (hclean : replay.handler.fileHandler.Clean) : AllRead (t.push replay true) := by
  rw [LoadTrace.push, hqueue, h.length_queued, List.drop_left, List.map_singleton]
  refine ⟨⟨?_, ?_⟩, hclean, fun r hr => ?_, h.returned_read⟩
  · rw [List.map_append, h.queued, hqueue]
    rfl
  · rw [h.returned, hanswers]
  · rcases List.mem_append.mp hr with hr | hr
    · exact h.queued_read r hr
    · rw [List.mem_singleton.mp hr]

theorem AllRead.cut {t : LoadTrace} {replay : Replay} (h : AllRead t)
    (hanswers : replay.answers = t.replay.answers)
    (hfile : replay.handler.fileHandler = t.replay.handler.fileHandler)
    (hqueue : replay.handler.metadatas = t.replay.handler.metadatas ∨
      replay.handler.metadatas = []) : AllRead (t.cut replay) := by
  rw [LoadTrace.cut]
  refine ⟨⟨?_, ?_⟩, hfile ▸ h.clean, fun r hr => h.queued_read r (List.mem_of_mem_take hr),
    h.returned_read⟩
  · rcases hqueue with hqueue | hqueue
    · dsimp only
      rw [hqueue, ← h.length_queued, List.take_length, h.queued]
    · dsimp only
      rw [hqueue]
      rfl
  · rw [h.returned, hanswers]

/-- **One step** whose read, if it has one, finds its image. -/
theorem AllRead.step {t u : LoadTrace} {e : Thread × Storage} (h : AllRead t)
    (hfinds : FindsImage blosc t e) (hstep : t.step blosc nSlots endImageId e = some u) :
    AllRead u := by
  obtain ⟨thread, storage⟩ := e
  obtain ⟨replay, hreplay, rfl⟩ := Option.map_eq_some_iff.mp hstep
  cases thread with
  | requester => exact h.take (took_of_requesterStep hreplay)
  | loader =>
    by_cases hpushing : ∃ message rest, t.replay.loader = .pushing (message :: rest)
    · obtain ⟨message, rest, hloader⟩ := hpushing
      obtain ⟨size, image, hsize, hanswers, hqueue, hfile⟩ := loaderStep_pushing hloader hreplay
      have hreadable : Readable blosc storage.disk message size :=
        hfinds rfl message (by rw [hloader]; rfl) size (by rw [hsize]; rfl)
      obtain ⟨hread, hclean⟩ := hreadable.read h.clean
      have hsucceeds : t.replay.handler.readSucceeds blosc storage message = true := by
        rw [BufferHandler.readSucceeds, hsize]
        exact hread
      rw [hloader]
      dsimp only
      rw [hsucceeds]
      exact h.push hanswers hqueue (hfile ▸ hclean)
    · have hloader : ∀ message rest, t.replay.loader ≠ .pushing (message :: rest) :=
        fun message rest heq => hpushing ⟨message, rest, heq⟩
      obtain ⟨hanswers, hfile, hqueue⟩ := loaderStep_not_pushing hloader hreplay
      split
      · next heq => cases heq
      · next message rest _ heq => exact absurd heq (hloader message rest)
      · exact h.cut hanswers hfile hqueue

/-- **In a replay whose reads find their images**, whatever the threads do when and whatever else
happens to the storage, every image that `get_image` returned was read successfully. -/
theorem returned_read {es : List (Thread × Storage)} {t : LoadTrace} {first : ℕ}
    (hrun : Run (Restrict (FindsImage blosc)
        (Steps.guarded (LoadTrace.step blosc nSlots endImageId)))
      { replay := { requester := .idle first } } es t) :
    t.returned.map Prod.fst = t.replay.answers.filterMap Prod.snd ∧
      ∀ r ∈ t.returned, r.2 = true := by
  have h : AllRead t := hrun.invariant (fun t e u h hstep => h.step hstep.1 hstep.2)
    (allRead_start first)
  exact ⟨h.returned, h.returned_read⟩

/-- **What becomes of failed reads.** After any sequence of reads, an image that is on the disk is
read exactly when all reads found their bytes since the reader turned to its file, and what is
stored of it can be decompressed. And in a replay whose reads all find their images, no image is
returned without a successful read. -/
theorem failed_reads_contained (blosc : Blosc) :
    (∀ (disk : Disk) (es : List ReaderEvent) (t : ReaderTrace),
      Run (Steps.total (ReaderTrace.step blosc)) { disk := disk } es t →
      ∀ (imageId offset : ℕ) (data content : List UInt8),
        t.disk.content (getFilename imageId) = some content →
        HasAt content offset (FileHandler.compress blosc data) →
        ((t.reader.read blosc t.disk imageId data.length offset
            (FileHandler.compress blosc data).length).2.2 = some data ↔
          AllFound t.reads (getFilename imageId) ∧
            blosc.decompress (FileHandler.compress blosc data) data.length = some data)) ∧
    ∀ (nSlots endImageId first : ℕ) (es : List (Thread × Storage)) (t : LoadTrace),
      Run (Restrict (FindsImage blosc) (Steps.guarded (LoadTrace.step blosc nSlots endImageId)))
        { replay := { requester := .idle first } } es t →
      t.returned.map Prod.fst = t.replay.answers.filterMap Prod.snd ∧
        ∀ r ∈ t.returned, r.2 = true :=
  ⟨fun _ _ _ hrun _ _ _ _ hcontent hat => read_iff_allFound hrun hcontent hat,
    fun _ _ _ _ _ hrun => returned_read hrun⟩

/-- The file of image 0 is not there yet when it is read, and a read of another file follows. -/
def mendedReads : List ReaderEvent :=
  [.read ⟨0, 1, 0, 1, by decide⟩, .grow (getFilename 0) [5], .grow (getFilename 1000) [6],
    .read ⟨1000, 1, 0, 1, by decide⟩]

/-- The turns of the two threads in which one image is loaded and returned. -/
def oneImage (storage : Storage) : List (Thread × Storage) :=
  [(.requester, storage), (.loader, storage), (.loader, storage), (.loader, storage),
    (.requester, storage)]

/-- The storage of image 0 after its stream has handed over `n` bytes. -/
def storageAfter (n : ℕ) : Storage :=
  { (onePixelBuffer [0]).storage with
    disk := ((onePixelBuffer [0]).handler.writeOut (onePixelBuffer [0]).storage.disk n).2 }

theorem failed_reads_contained_one_image :
    ((mendedReads.foldl (ReaderTrace.step plainBlosc) { disk := ∅ }).reader.read plainBlosc
        (mendedReads.foldl (ReaderTrace.step plainBlosc) { disk := ∅ }).disk 0 1 0 1).2.2 =
          some [5] ∧
      ∃ t, Run (Steps.guarded (LoadTrace.step plainBlosc 4 0))
          { replay := { requester := .idle 0 } } (oneImage (storageAfter 1)) t ∧
        t.returned.length = 1 ∧ ∀ r ∈ t.returned, r.2 = true := by
  constructor
  · exact ((failed_reads_contained plainBlosc).1 ∅ mendedReads _ (run_total_iff.mpr rfl) 0 0 [5] [5]
      (by decide) ⟨[], [], rfl, rfl⟩).mpr ⟨by decide, by decide⟩
  · have hreturned : ((exec (only (FindsImage plainBlosc) (LoadTrace.step plainBlosc 4 0))
        { replay := { requester := .idle 0 } } (oneImage (storageAfter 1))).map
        fun t => t.returned.length) = some 1 := by decide +kernel
    obtain ⟨t, ht, hlength⟩ := Option.map_eq_some_iff.mp hreturned
    have hrun := Run.of_exec_only ht
    exact ⟨t, hrun.mono fun _ _ _ hstep => hstep.2, hlength,
      ((failed_reads_contained plainBlosc).2 4 0 0 _ t hrun).2⟩

/-- A read that comes too early spoils the later ones, and `get_image` returns an image that was
not read. -/
theorem failed_reads_not_contained :
    (¬ ∀ (disk : Disk) (es : List ReaderEvent) (t : ReaderTrace),
      Run (Steps.total (ReaderTrace.step plainBlosc)) { disk := disk } es t →
      ∀ (imageId offset : ℕ) (data compressed content : List UInt8),
        plainBlosc.compress data = some compressed →
        t.disk.content (getFilename imageId) = some content → HasAt content offset compressed →
        (t.reader.read plainBlosc t.disk imageId data.length offset compressed.length).2.2 =
          some data) ∧
    ¬ ∀ (es : List (Thread × Storage)) (t : LoadTrace),
      Run (Steps.guarded (LoadTrace.step plainBlosc 4 0)) { replay := { requester := .idle 0 } } es
        t → ∀ r ∈ t.returned, r.2 = true := by
  constructor
  · intro h
    have hread := h ∅ [.read ⟨0, 1, 0, 1, by decide⟩, .grow (getFilename 0) [5]] _
      (run_total_iff.mpr rfl) 0 0 [5] [5] [5] rfl (by decide) ⟨[], [], rfl, rfl⟩
    exact absurd hread (by decide)
  · intro h
    have hreturned : ((exec (LoadTrace.step plainBlosc 4 0) { replay := { requester := .idle 0 } }
        (oneImage (storageAfter 0))).map fun t => t.returned.map Prod.snd) = some [false] := by
      decide +kernel
    obtain ⟨t, ht, hfalse⟩ := Option.map_eq_some_iff.mp hreturned
    obtain ⟨r, hr, hr'⟩ : ∃ r ∈ t.returned, r.2 = false :=
      List.mem_map.mp (hfalse ▸ List.mem_singleton.mpr rfl)
    rw [h _ t (Run.of_exec ht) r hr] at hr'
    cases hr'

end Buffer

end StdDaq
