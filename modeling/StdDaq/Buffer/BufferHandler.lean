import StdDaq.Buffer.Writer

/-!
# The buffer handler of the reader

`BufferHandler` of `std_buffer_reader`, with its two threads. The requesting thread asks for images
one after the other: the driver's `control_reader` begins with the first id of the replay and goes
on from the image it got. The loader thread loads the metadata of whole files and puts the images
into shared memory.

A step is what one thread does while it holds the mutex, or outside of it what it does on its own.
Waiting on the condition variable is explicit: a thread that found its condition false sleeps until
it is notified, and then looks again. Looking without a notification would change nothing.

One replay is modelled, with the handler that is made for it; stopping the loader is what ends it. A
failure of the standard library ends the process: then there is no next state.

## Main definitions

* `getImage` pieces: `tryPopImage`, `requestLoaderIfNeeded`, `imageAvailable`
* `loader_loop` pieces: `fetchNextMetadatas`, `readSingleImage`
* `Replay.step` — one step of one of the threads
-/

namespace StdDaq

namespace Buffer

/-- `BufferHandler::get_uncompressed_size`. -/
def getUncompressedSize (metadata : ImageMetadata) : Except String ℕ :=
  (getBytesFromMetadataDtype metadata.dtype).map fun bytes =>
    metadata.width * metadata.height * bytes % 2 ^ 64

/-- The members of `BufferHandler` that change, and the slots in shared memory that it fills. What a
failed read leaves in a slot is not known. -/
structure BufferHandler where
  metadatas : List ImageMetadata := []
  fileHandler : FileHandler := {}
  loaderActive : Bool := false
  noMoreData : Bool := false
  loaderImageId : ℕ := 0
  slots : ℕ → Option (List UInt8) := fun _ => none

namespace BufferHandler

/-- `try_pop_image`. -/
def tryPopImage (handler : BufferHandler) (imageId : ℕ) : Option (ImageMetadata × BufferHandler) :=
  match handler.metadatas with
  | [] => none
  | front :: rest =>
    if imageId ≤ front.imageId then some (front, { handler with metadatas := rest }) else none

/-- The condition under which `request_loader_if_needed` does something. -/
def needsLoader (handler : BufferHandler) (imageId : ℕ) : Bool :=
  !handler.loaderActive || handler.loaderImageId != imageId

/-- What `request_loader_if_needed` does then, before it notifies. -/
def requestLoader (handler : BufferHandler) (imageId : ℕ) : BufferHandler :=
  { handler with loaderActive := true, loaderImageId := imageId }

/-- What `get_image` waits for. -/
def imageAvailable (handler : BufferHandler) : Bool :=
  !handler.metadatas.isEmpty || handler.noMoreData

/-- The beginning of a turn of `loader_loop`. -/
def startLoading (handler : BufferHandler) : BufferHandler :=
  { handler with loaderActive := false, metadatas := [], noMoreData := false }

/-- `fetch_next_metadatas`. -/
def fetchNextMetadatas (storage : Storage) (imageId : ℕ) :
    Except Failure (Option (List BufferedMetadata)) :=
  (FileHandler.getFirstMatchingRootId storage.disk imageId).map fun found =>
    found.bind fun id =>
      let metadatas := storage.redis.getMetadatasInFileRange id
      if metadatas = [] then none else some metadatas

/-- `read_single_image`. Whether the read succeeded is not looked at. An instance that only reads
leaves the disk as it is. -/
def readSingleImage (blosc : Blosc) (nSlots : ℕ) (storage : Storage) (handler : BufferHandler)
    (message : BufferedMetadata) : Except String BufferHandler :=
  (getUncompressedSize message.metadata).map fun size =>
    let image := message.metadata.imageId
    let result := handler.fileHandler.read blosc storage.disk image size message.offset
      message.metadata.size
    { handler with
      fileHandler := result.1
      slots := Function.update handler.slots (image % nSlots) result.2.2
      metadatas := handler.metadatas ++
        [{ message.metadata with size := size, compression := .none }]
      loaderActive := !handler.metadatas.isEmpty && handler.loaderActive }

end BufferHandler

/-- Where the loader thread is. -/
inductive Loader where
  /-- At its `wait`; it looks at the condition if it is woken. -/
  | waiting (woken : Bool)
  | fetching
  /-- Before it says that there are no more images. -/
  | noData
  /-- In the loop over the metadata, with what is left. -/
  | pushing (rest : List BufferedMetadata)
  deriving DecidableEq, Repr

/-- Where the requesting thread is. -/
inductive Requester where
  /-- Between two requests, with the id that is asked for next. -/
  | idle (next : ℕ)
  /-- At the `wait` of `get_image`. -/
  | waiting (imageId : ℕ) (woken : Bool)
  /-- `get_image` returned no image, which ends `control_reader`. -/
  | finished
  deriving DecidableEq, Repr

/-- A replay: the handler, its threads, and what `get_image` was asked and has returned. -/
structure Replay where
  handler : BufferHandler := {}
  loader : Loader := .waiting true
  requester : Requester
  answers : List (ℕ × Option ImageMetadata) := []

/-- The two threads. -/
inductive Thread where
  | requester
  | loader
  deriving DecidableEq, Repr

namespace Replay

/-- `notify_all`. -/
def notifyAll (s : Replay) : Replay :=
  { s with
    loader := match s.loader with
      | .waiting _ => .waiting true
      | loader => loader
    requester := match s.requester with
      | .waiting imageId _ => .waiting imageId true
      | requester => requester }

/-- `get_image` returns what is in front, if it is late enough. `control_reader` goes on from there,
with an id of 64 bits. -/
def answer (s : Replay) (imageId : ℕ) : Replay :=
  match s.handler.tryPopImage imageId with
  | some (image, handler) =>
    { s with
      handler := handler
      requester := .idle ((image.imageId + 1) % 2 ^ 64)
      answers := s.answers ++ [(imageId, some image)] }
  | none =>
    { s with
      requester := .finished
      answers := s.answers ++ [(imageId, none)] }

/-- `get_image` from `request_loader_if_needed` to the first look at the condition. -/
def request (s : Replay) (imageId : ℕ) : Replay :=
  let s' := if s.handler.needsLoader imageId then
      { s with handler := s.handler.requestLoader imageId }.notifyAll
    else s
  if s'.handler.imageAvailable then s'.answer imageId
  else { s' with requester := .waiting imageId false }

/-- The requesting thread. -/
def requesterStep (endImageId : ℕ) (s : Replay) : Option Replay :=
  match s.requester with
  | .idle imageId =>
    if imageId ≤ endImageId then
      some (if (s.handler.tryPopImage imageId).isSome then s.answer imageId else s.request imageId)
    else none
  | .waiting imageId true =>
    some (if s.handler.imageAvailable then s.answer imageId
      else { s with requester := .waiting imageId false })
  | .waiting _ false => none
  | .finished => none

/-- The loader thread. -/
def loaderStep (blosc : Blosc) (nSlots : ℕ) (storage : Storage) (s : Replay) : Option Replay :=
  match s.loader with
  | .waiting true =>
    some (if s.handler.loaderActive then
        { s with handler := s.handler.startLoading, loader := .fetching }
      else { s with loader := .waiting false })
  | .waiting false => none
  | .fetching =>
    match BufferHandler.fetchNextMetadatas storage s.handler.loaderImageId with
    | .error _ => none
    | .ok none => some { s with loader := .noData }
    | .ok (some metadatas) => some { s with loader := .pushing metadatas }
  | .noData =>
    let s' := { s with handler := { s.handler with noMoreData := true }, loader := .waiting true }
    some s'.notifyAll
  | .pushing (message :: rest) =>
    match s.handler.readSingleImage blosc nSlots storage message with
    | .error _ => none
    | .ok handler =>
      let s' := { s with handler := handler, loader := .pushing rest }
      some (if s.handler.metadatas.isEmpty then s'.notifyAll else s')
  | .pushing [] => some { s with loader := .waiting true }.notifyAll

/-- One step of one of the threads. -/
def step (blosc : Blosc) (nSlots endImageId : ℕ) (storage : Storage) (s : Replay) :
    Thread → Option Replay
  | .requester => s.requesterStep endImageId
  | .loader => s.loaderStep blosc nSlots storage

end Replay

end Buffer

end StdDaq
