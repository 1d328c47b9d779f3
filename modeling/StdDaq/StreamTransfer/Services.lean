import StdDaq.Forwarding
import StdDaq.ImageMetadata
import StdDaq.Lib.Messages
import StdDaq.RamBuffer
import StdDaq.StreamSync.Accounting

/-!
# The services that move images between two servers

Three services bring an image from the RAM buffer of one server into the RAM buffer of another. A
`std_stream_send` for each part of the image hears that an image is in the buffer, reads its part
and publishes it; a `std_stream_receive` for each part writes it to the same place of the other
buffer and announces the image; and `std_data_sync_stream` passes an announcement on when all the
parts have come. All of them work on their own. The sockets keep the order of the messages, and the
`PUB` sockets drop whole messages when a queue is full or nobody is there.

The buffers are rings, and nobody asks whether a slot is free.

## Main definitions

* `Deployment` — what all services read from the configuration at start-up
* `Transfer` — the buffers, the queues and the state of the synchronizer
* `Transfer.step` — one thing that happens

## Main results

* `Deployment.getData_eq`, `Deployment.not_in_slot` — the slots are apart
-/

namespace StdDaq

namespace StreamTransfer

open Forwarding StreamSync

/-- A configuration that the services can work with, and what they get out of it. Images are sent in
parts: with whole images `std_data_sync_stream` returns at once. -/
structure Deployment where
  config : DetectorConfig
  /-- `converted_bytes`, the size of a slot in both buffers. -/
  imageBytes : ℕ
  /-- The number of slots in both buffers. -/
  slots : ℕ
  /-- What `std_data_sync_stream` waits for. -/
  nParts : ℕ
  defined : config.ImageSizeDefined
  in_parts : config.senderSendsFullImages = false
  forwarders : 1 ≤ config.maxNumberOfForwardersSpawned
  imageBytes_eq : convertedImageNBytes config = .ok imageBytes
  largest : config.useAllForwarders = false →
    ∃ M, maxConvertedImageByteSize config = .ok M ∧ imageBytes ≤ M
  slots_eq : slotsNumber config = .ok slots
  nParts_eq : numberOfSenders config = .ok nParts

namespace Deployment

variable (d : Deployment)

/-- The buffer that a service opens. -/
def buffer : RamBuffer := .create d.imageBytes d.slots fun _ => 0

/-- `get_data`, in either buffer. -/
def getData (id : ℕ) : ℕ := d.buffer.getData id

/-- The slot of an image. -/
def slotOf (id : ℕ) : ℕ := id % d.slots

/-- The bytes of the image that the services of a part move: the offset and the number. There are
none when the part has no services, or they return at start-up. -/
def range (part : ℕ) : Option (ℕ × ℕ) :=
  if part ∈ parts d.config then activeRange d.config part else none

/-- The synchronizer of `std_data_sync_stream`. -/
def synchronizer : StreamSynchronizer := service d.nParts

/-- The bytes of the slot of an image. -/
def slot (memory : ℕ → UInt8) (id : ℕ) : List UInt8 :=
  Memory.slice memory (d.getData id) d.imageBytes

end Deployment

/-- An image: its metadata, and the bytes in its slot. -/
structure Image where
  metadata : ImageMetadata
  bytes : List UInt8
  deriving DecidableEq, Repr

/-- The identifier of an image. -/
def Image.id (image : Image) : ℕ := image.metadata.imageId

/-- The two servers. The queues are those of the sockets, one for each part. -/
structure Transfer where
  /-- The RAM buffer of the sending server. -/
  source : ℕ → UInt8
  /-- The announcements that a `std_stream_send` has not read yet. -/
  requests : ℕ → List ImageMetadata
  /-- The messages to a `std_stream_receive`: the metadata and the part of the image. -/
  messages : ℕ → List (ImageMetadata × List UInt8)
  /-- The RAM buffer of the receiving server. -/
  destination : ℕ → UInt8
  /-- The announcements of a `std_stream_receive` to `std_data_sync_stream`. -/
  announcements : ℕ → List ImageMetadata
  /-- `std_data_sync_stream`, with what it has received so far. -/
  sync : StreamTrace
  /-- The images that were announced on the sending server, as they were then. -/
  sent : List Image
  /-- The images that `std_data_sync_stream` passed on, as they were then in the other buffer. -/
  published : List Image

inductive Event where
  /-- Somebody writes into the slot of an image on the sending server. -/
  | fill (id offset : ℕ) (data : List UInt8)
  /-- The image is announced there, to every `std_stream_send` that listens. -/
  | announce (metadata : ImageMetadata)
  /-- One turn of `std_stream_send`. -/
  | send (part : ℕ)
  /-- One turn of `std_stream_receive`. -/
  | receive (part : ℕ)
  /-- One turn of `std_data_sync_stream`, with an announcement of this part. -/
  | collect (part : ℕ)
  /-- An announcement does not reach the `std_stream_send` of this part. -/
  | loseRequest (part index : ℕ)
  /-- A message does not reach the `std_stream_receive` of this part. -/
  | loseMessage (part index : ℕ)
  deriving DecidableEq, Repr

/-- Whether the `std_stream_send` of a part is responsible for an image. -/
def sends (config : DetectorConfig) (part id : ℕ) : Bool :=
  !config.senderSendsFullImages || id % toSizeT config.maxNumberOfForwardersSpawned == part

/-- Whether the main loop of `std_data_sync_stream` passes the message on. -/
def passesOn (sync : StreamSynchronizer) (t : StreamTrace) (id : ℕ) : Bool :=
  match t.failure, sync.processImageMetadata t.state id with
  | none, .ok (_, result) => decide (result.imageId ≠ invalidImageId)
  | _, _ => false

namespace Transfer

/-- All services have started. The buffers may hold anything. -/
def start (source destination : ℕ → UInt8) : Transfer where
  source := source
  requests _ := []
  messages _ := []
  destination := destination
  announcements _ := []
  sync := .start
  sent := []
  published := []

variable (d : Deployment) (t : Transfer)

/-- The turn of `std_stream_send` for the range `r`, with its next announcement `m`. -/
def sendPart (part : ℕ) (r : ℕ × ℕ) (m : ImageMetadata) (rest : List ImageMetadata) : Transfer :=
  let t' := { t with requests := Function.update t.requests part rest }
  if sends d.config part m.imageId then
    { t' with messages := Function.update t.messages part (t.messages part ++
        [(m, Memory.slice t.source (d.getData m.imageId + r.1) r.2)]) }
  else t'

/-- The turn of `std_stream_receive` for the range `r`. A part without bytes counts as an error. -/
def receivePart (part : ℕ) (r : ℕ × ℕ) (m : ImageMetadata) (data : List UInt8)
    (rest : List (ImageMetadata × List UInt8)) : Transfer :=
  let t' := { t with
    messages := Function.update t.messages part rest
    destination := Memory.blit t.destination (d.getData m.imageId + r.1) (data.take r.2) }
  if data = [] then t'
  else { t' with
    announcements := Function.update t.announcements part (t.announcements part ++ [m]) }

/-- The turn of `std_data_sync_stream`. -/
def collectPart (part : ℕ) (m : ImageMetadata) (rest : List ImageMetadata) : Transfer :=
  { t with
    announcements := Function.update t.announcements part rest
    sync := t.sync.step d.synchronizer ⟨part, m.imageId⟩
    published :=
      if passesOn d.synchronizer t.sync m.imageId then
        t.published ++ [⟨m, d.slot t.destination m.imageId⟩]
      else t.published }

/-- What happens next. There is no next state when a service has nothing to read. -/
def step : Event → Option Transfer
  | .fill id offset data =>
    some { t with source := Memory.blit t.source (d.getData id + offset) data }
  | .announce m => some { t with
      requests := fun part =>
        if (d.range part).isSome then t.requests part ++ [m] else t.requests part
      sent := t.sent ++ [⟨m, d.slot t.source m.imageId⟩] }
  | .send part =>
    match d.range part, t.requests part with
    | some r, m :: rest => some (t.sendPart d part r m rest)
    | _, _ => none
  | .receive part =>
    match d.range part, t.messages part with
    | some r, (m, data) :: rest => some (t.receivePart d part r m data rest)
    | _, _ => none
  | .collect part =>
    match t.announcements part with
    | m :: rest => some (t.collectPart d part m rest)
    | [] => none
  | .loseRequest part index =>
    some { t with requests :=
      Function.update t.requests part ((t.requests part).eraseIdx index) }
  | .loseMessage part index =>
    some { t with messages :=
      Function.update t.messages part ((t.messages part).eraseIdx index) }

end Transfer

namespace Deployment

variable (d : Deployment) {id id' b : ℕ}

theorem nImagesBuffer_pos : 1 ≤ d.synchronizer.nImagesBuffer :=
  (by decide : 1 ≤ 1000)

theorem slots_pos : 1 ≤ d.slots := le_trans (by decide) (le_slotsNumber d.slots_eq)

/-- The slots of both buffers together, with the last page. -/
theorem size_lt : d.imageBytes * d.slots + RamBuffer.alignment < sizeTBound := by
  have hbytes := convertedImageNBytes_lt d.defined d.imageBytes_eq
  have hslots := d.slots_eq
  rw [slotsNumber, d.imageBytes_eq] at hslots
  change (if d.imageBytes = 0 then _ else _) = _ at hslots
  split at hslots
  · cases hslots
  · rw [← Except.ok.inj hslots, ← Nat.mul_max_mul_left, RamBuffer.alignment]
    -- the gigabytes are a multiple of the page size, and so is the bound
    have hgb : d.imageBytes *
        (d.config.ramBufferGb * 1024 * 1024 * 1024 % sizeTBound / d.imageBytes) ≤
          sizeTBound - 1024 * 1024 * 1024 := by
      refine (Nat.mul_div_le _ _).trans ?_
      rw [sizeTBound]
      omega
    generalize d.imageBytes *
      (d.config.ramBufferGb * 1024 * 1024 * 1024 % sizeTBound / d.imageBytes) = product at hgb ⊢
    rw [sizeTBound] at hgb ⊢
    omega

theorem getData_eq (id : ℕ) : d.getData id = d.slotOf id * d.imageBytes :=
  (RamBuffer.fits_create d.size_lt _).getData_eq d.slots_pos id

/-- Different slots share no byte. -/
theorem not_in_slot (h : d.slotOf id ≠ d.slotOf id') (hb : b < d.imageBytes) :
    ¬ (d.getData id' ≤ d.getData id + b ∧ d.getData id + b < d.getData id' + d.imageBytes) := by
  rw [getData_eq, getData_eq]
  exact RamBuffer.not_in_slot hb h

theorem length_slot (memory : ℕ → UInt8) : (d.slot memory id).length = d.imageBytes :=
  Memory.length_slice _ _ _

/-- A byte of a slot. -/
theorem getElem?_slot {memory : ℕ → UInt8} (hb : b < d.imageBytes) :
    (d.slot memory id)[b]? = some (memory (d.getData id + b)) :=
  Memory.getElem?_slice hb

/-- A message that is written into a slot leaves the other slots alone. -/
theorem blit_of_ne {memory : ℕ → UInt8} {offset : ℕ} {data : List UInt8}
    (h : d.slotOf id' ≠ d.slotOf id)
    (hdata : ∀ b, offset ≤ b → b < offset + data.length → b < d.imageBytes)
    (hb : b < d.imageBytes) :
    Memory.blit memory (d.getData id + offset) data (d.getData id' + b) =
      memory (d.getData id' + b) := by
  have hapart := d.not_in_slot h hb
  refine Memory.blit_of_not_mem fun hin => hapart ?_
  have := hdata (d.getData id' + b - d.getData id) (by omega) (by omega)
  omega

theorem mem_range_iff {part : ℕ} {r : ℕ × ℕ} :
    r ∈ d.range part ↔ part ∈ parts d.config ∧ r ∈ activeRange d.config part := by
  rw [range]
  split
  · next hp => exact (and_iff_right hp).symm
  · next hp => exact iff_of_false (by simp) fun h => hp h.1

/-- The parts lie in the image. -/
theorem lt_of_mem_range (hwhole : ForwardsWhole d.config d.imageBytes) {part : ℕ} {r : ℕ × ℕ}
    (hr : r ∈ d.range part) (hle : r.1 ≤ b) (hlt : b < r.1 + r.2) : b < d.imageBytes := by
  obtain ⟨hpart, hactive⟩ := d.mem_range_iff.mp hr
  exact (hwhole.union b).mp ⟨part, hpart, r, hactive, hle, hlt⟩

/-- Together they are the image. -/
theorem exists_mem_range (hwhole : ForwardsWhole d.config d.imageBytes) (hb : b < d.imageBytes) :
    ∃ part, ∃ r ∈ d.range part, r.1 ≤ b ∧ b < r.1 + r.2 := by
  obtain ⟨part, hpart, r, hactive, hin⟩ := (hwhole.union b).mpr hb
  exact ⟨part, r, d.mem_range_iff.mpr ⟨hpart, hactive⟩, hin⟩

theorem sends_eq (part id : ℕ) : sends d.config part id = true := by
  rw [sends, d.in_parts]
  rfl

/-- A part with services. -/
theorem range_isSome_iff {part : ℕ} :
    (d.range part).isSome ↔ part ∈ activeParts d.config := by
  rw [activeParts, List.mem_filter, range]
  split
  · next hp => exact (and_iff_right hp).symm
  · next hp => exact iff_of_false Bool.false_ne_true fun h => hp h.1

end Deployment

/-! ### A small deployment -/

/-- Images of four bytes in two parts. -/
def pairConfig : DetectorConfig :=
  { detectorType := .eiger, nModules := 1, bitDepth := 8, imagePixelHeight := 1,
    imagePixelWidth := 4, maxNumberOfForwardersSpawned := 2, useAllForwarders := true }

theorem pairConfig_defined : pairConfig.ImageSizeDefined :=
  ⟨by decide, by decide, by decide, by decide, by decide, by decide, by decide⟩

theorem pairConfig_forwarders : 1 ≤ pairConfig.maxNumberOfForwardersSpawned := by decide

theorem pairConfig_largest (h : pairConfig.useAllForwarders = false) :
    ∃ M, maxConvertedImageByteSize pairConfig = .ok M ∧ 4 ≤ M :=
  absurd h (by decide)

theorem pairConfig_slots : slotsNumber pairConfig = .ok 1000 := by decide +kernel

theorem pairConfig_senders : numberOfSenders pairConfig = .ok 2 := by decide

def pair : Deployment where
  config := pairConfig
  imageBytes := 4
  slots := 1000
  nParts := 2
  defined := pairConfig_defined
  in_parts := rfl
  forwarders := pairConfig_forwarders
  imageBytes_eq := rfl
  largest := pairConfig_largest
  slots_eq := pairConfig_slots
  nParts_eq := pairConfig_senders

theorem pair_whole : ForwardsWhole pair.config pair.imageBytes :=
  (CutsInto.whole_iff (B := 4) ⟨rfl, rfl, rfl, by decide, by decide, le_rfl⟩).mpr (by decide)

theorem pair_nParts : pair.nParts = (activeParts pair.config).length := by decide

end StreamTransfer

end StdDaq
