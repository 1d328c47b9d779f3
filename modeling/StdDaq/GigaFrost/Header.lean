import StdDaq.ModuleSync.Order
import StdDaq.ModuleSync.Status
import StdDaq.UdpRecv.Loops

/-!
# The header of a GigaFRoST packet

The camera packs what it has to say about a frame into the bits of four numbers of the packet
header. The receiver takes them apart when a frame begins (`init_frame_metadata`), the module
synchronizer passes one of them on to the metadata of the image, as `store_image`, and
`std_gf_filter` goes by it.

Six of the seven fields are recovered. The seventh is the flag that says that an image is not to be
stored, bit 15 of `image_status_flags`. In `image_status_flags & 0x8000 >> 15` the shift comes
first, so what is recovered is bit 0, and that is a debug bit.

An image is made from many packets, and its metadata come from one of them: the packet that began
the frame that opened the entry of the image in the synchronizer. Whether an image passes the filter
is decided by bit 0 of this packet.

## Main results

* `headerFollowed_iff` — when an image is filtered by its flag
-/

namespace StdDaq

namespace GigaFrost

open UdpRecv ModuleSync SyncTrace Synchronizer

/-- What the camera says in the header of a packet. The numbers have the widths of their fields, and
the number of rows of a quadrant is even. -/
structure HeaderFields where
  quadrantId : ℕ
  linkId : ℕ
  corrMode : ℕ
  quadrantHeight : ℕ
  swap : ℕ
  frameTimestamp : ℕ
  exposureTime : ℕ
  doNotStore : Bool
  /-- The other bits of `image_status_flags`. -/
  debug : ℕ
  quadrantId_lt : quadrantId < 4
  linkId_lt : linkId < 2
  corrMode_lt : corrMode < 8
  quadrantHeight_lt : quadrantHeight < 1024
  quadrantHeight_even : quadrantHeight % 2 = 0
  swap_lt : swap < 2
  frameTimestamp_lt : frameTimestamp < 2 ^ 40
  exposureTime_lt : exposureTime < 2 ^ 24
  debug_lt : debug < 2 ^ 15

namespace HeaderFields

/-- `status_flags`, as `adjust_packet_for_module` of the simulator packs it. -/
def statusFlags (f : HeaderFields) : ℕ :=
  f.quadrantId <<< 6 ||| f.linkId <<< 5 ||| f.corrMode <<< 2 ||| f.quadrantHeight >>> 8

/-- `quadrant_rows`, as `adjust_packet_for_module` packs it. -/
def quadrantRows (f : HeaderFields) : ℕ := (f.quadrantHeight &&& 0xFF) + f.swap

/-- `image_status_flags`, as `GFUdpPacket` describes it. -/
def imageStatusFlags (f : HeaderFields) : ℕ := f.doNotStore.toNat <<< 15 ||| f.debug

/-- `image_timing`, as `GFUdpPacket` describes it. -/
def imageTiming (f : HeaderFields) : ℕ := f.exposureTime <<< 40 ||| f.frameTimestamp

end HeaderFields

/-- The packet has these fields in its header. The frame index is a `uint32_t`. -/
structure Carries (f : HeaderFields) (p : GFUdpPacket) : Prop where
  statusFlags : p.statusFlags = f.statusFlags
  quadrantRows : p.quadrantRows = f.quadrantRows
  imageStatusFlags : p.imageStatusFlags = f.imageStatusFlags
  imageTiming : p.imageTiming = f.imageTiming
  frameIndex_lt : p.frameIndex < 2 ^ 32

/-- The frame header says what the packet header said. -/
structure Recovered (f : HeaderFields) (frame : GFFrame) : Prop where
  quadrantId : frame.quadrantId = f.quadrantId
  linkId : frame.linkId = f.linkId
  corrMode : frame.corrMode = f.corrMode
  swappedRows : frame.swappedRows = f.swap
  frameTimestamp : frame.frameTimestamp = f.frameTimestamp
  exposureTime : frame.exposureTime = f.exposureTime
  doNotStore : frame.doNotStore = f.doNotStore.toNat

/-- `gf().store_image()`: a message without this part has a default one. -/
def storeImage (m : ImageMetadata) : Bool :=
  match m.detector with
  | .gf _ _ _ _ _ store => store
  | _ => false

/-- The test of `std_gf_filter`: the message is sent on. -/
def forwards (alwaysForward : Bool) (m : ImageMetadata) : Bool := alwaysForward || storeImage m

/-! ### Bits -/

/-- A field of `k` bits at bit `i`. -/
theorem and_shiftRight_eq (x i k : ℕ) : (x &&& (2 ^ k - 1) <<< i) >>> i = x / 2 ^ i % 2 ^ k := by
  rw [Nat.shiftRight_and_distrib, Nat.shiftLeft_shiftRight, Nat.and_two_pow_sub_one_eq_mod,
    Nat.shiftRight_eq_div_pow]

variable {f : HeaderFields} {p : GFUdpPacket} {frame : GFFrame} {sizes : ReceiverSizes}

namespace HeaderFields

theorem statusFlags_eq (f : HeaderFields) :
    f.statusFlags
      = f.quadrantId * 64 + (f.linkId * 32 + (f.corrMode * 4 + f.quadrantHeight / 256)) := by
  have hlink := f.linkId_lt
  have hcorr := f.corrMode_lt
  have hheight := f.quadrantHeight_lt
  rw [statusFlags, Nat.or_assoc, Nat.or_assoc, Nat.shiftRight_eq_div_pow,
    ← Nat.shiftLeft_add_eq_or_of_lt (i := 2) (by omega), Nat.shiftLeft_eq f.corrMode,
    ← Nat.shiftLeft_add_eq_or_of_lt (i := 5) (by omega), Nat.shiftLeft_eq f.linkId,
    ← Nat.shiftLeft_add_eq_or_of_lt (i := 6) (by omega), Nat.shiftLeft_eq]

theorem imageStatusFlags_eq (f : HeaderFields) :
    f.imageStatusFlags = f.doNotStore.toNat * 2 ^ 15 + f.debug := by
  rw [imageStatusFlags, ← Nat.shiftLeft_add_eq_or_of_lt f.debug_lt, Nat.shiftLeft_eq]

theorem imageTiming_eq (f : HeaderFields) :
    f.imageTiming = f.exposureTime * 2 ^ 40 + f.frameTimestamp := by
  rw [imageTiming, ← Nat.shiftLeft_add_eq_or_of_lt f.frameTimestamp_lt, Nat.shiftLeft_eq]

/-- The low byte of an even number has room for the swap bit. -/
theorem quadrantRows_mod (f : HeaderFields) : f.quadrantRows % 2 = f.swap := by
  have hswap := f.swap_lt
  have heven := f.quadrantHeight_even
  have hbyte : f.quadrantHeight &&& 0xFF = f.quadrantHeight % 2 ^ 8 :=
    Nat.and_two_pow_sub_one_eq_mod _ 8
  rw [quadrantRows, hbyte]
  omega

end HeaderFields

/-! ### One header -/

/-- The frame began with this packet. What is counted afterwards, and that the frame has been sent,
is in the fields all frames have. -/
structure Begun (sizes : ReceiverSizes) (p : GFUdpPacket) (frame : GFFrame) : Prop where
  image : frame.common.imageId = p.frameIndex
  init : ∃ frame₀, frame = { gfInitFrameMetadata sizes p frame₀ with common := frame.common }

theorem Begun.count (h : Begun sizes p frame) :
    Begun sizes p { frame with common := CommonFrame.countPacket frame.common } := by
  obtain ⟨himage, frame₀, hframe⟩ := h
  refine ⟨himage, frame₀, ?_⟩
  rw [hframe]

/-- What is taken for the flag is the lowest debug bit. -/
theorem Begun.doNotStore_eq (h : Begun sizes p frame) (hp : Carries f p) :
    frame.doNotStore = f.debug % 2 := by
  obtain ⟨-, frame₀, hframe⟩ := h
  have hbit : frame.doNotStore = p.imageStatusFlags &&& (2 ^ 1 - 1) := by rw [hframe]; rfl
  rw [hbit, Nat.and_two_pow_sub_one_eq_mod, hp.imageStatusFlags, f.imageStatusFlags_eq]
  omega

/-- The other fields are recovered. -/
theorem Begun.recovered_iff (h : Begun sizes p frame) (hp : Carries f p) :
    Recovered f frame ↔ f.debug % 2 = f.doNotStore.toNat := by
  refine ⟨fun hrec => (h.doNotStore_eq hp).symm.trans hrec.doNotStore, fun hbit => ?_⟩
  have hquadrant := f.quadrantId_lt
  have hlink := f.linkId_lt
  have hcorr := f.corrMode_lt
  have hheight := f.quadrantHeight_lt
  have htime := f.frameTimestamp_lt
  have hexp := f.exposureTime_lt
  have hflag := h.doNotStore_eq hp
  obtain ⟨-, frame₀, hframe⟩ := h
  constructor
  · have : frame.quadrantId = (f.statusFlags &&& (2 ^ 2 - 1) <<< 6) >>> 6 := by
      rw [hframe, ← hp.statusFlags]
      rfl
    rw [this, and_shiftRight_eq, f.statusFlags_eq]
    omega
  · have : frame.linkId = (f.statusFlags &&& (2 ^ 1 - 1) <<< 5) >>> 5 := by
      rw [hframe, ← hp.statusFlags]
      rfl
    rw [this, and_shiftRight_eq, f.statusFlags_eq]
    omega
  · have : frame.corrMode = (f.statusFlags &&& (2 ^ 3 - 1) <<< 2) >>> 2 := by
      rw [hframe, ← hp.statusFlags]
      rfl
    rw [this, and_shiftRight_eq, f.statusFlags_eq]
    omega
  · have : frame.swappedRows = f.quadrantRows &&& (2 ^ 1 - 1) := by
      rw [hframe, ← hp.quadrantRows]
      rfl
    rw [this, Nat.and_two_pow_sub_one_eq_mod]
    exact f.quadrantRows_mod
  · have : frame.frameTimestamp = f.imageTiming &&& (2 ^ 40 - 1) := by
      rw [hframe, ← hp.imageTiming]
      rfl
    rw [this, Nat.and_two_pow_sub_one_eq_mod, f.imageTiming_eq]
    omega
  · have : frame.exposureTime = (f.imageTiming &&& (2 ^ 24 - 1) <<< 40) >>> 40 := by
      rw [hframe, ← hp.imageTiming]
      rfl
    rw [this, and_shiftRight_eq, f.imageTiming_eq]
    omega
  · rw [hflag, hbit]

/-- The filter goes by it. -/
theorem forwards_publish (header : ImageMetadata) (frame : GFFrame) :
    forwards false (publish header frame) = (frame.doNotStore == 0) := rfl

/-! ### The frames of a receiver -/

/-- The frame in the making, if there is one, and all that were sent began with a packet of the
stream. -/
structure Tracked (sizes : ReceiverSizes) (packets : Set GFUdpPacket) (s : LoopState GFFrame) :
    Prop where
  current : s.header.common.imageId ≠ UdpRecv.invalidImageId →
    ∃ p ∈ packets, Begun sizes p s.header
  sent : ∀ message ∈ s.sent, ∃ p ∈ packets, Begun sizes p message.header

variable {packets : Set GFUdpPacket} {s : LoopState GFFrame}

theorem Tracked.sendImageId (h : Tracked sizes packets s)
    (hheader : ∃ p ∈ packets, Begun sizes p s.header) :
    Tracked sizes packets (gfSendImageId sizes s) := by
  refine ⟨fun hne => absurd rfl hne, fun message hmessage => ?_⟩
  rcases List.mem_append.mp hmessage with hold | hnew
  · exact h.sent message hold
  · rw [List.mem_singleton.mp hnew]
    exact hheader

theorem Tracked.processPacket (h : Tracked sizes packets s)
    (hheader : ∃ p ∈ packets, Begun sizes p s.header) (q : GFUdpPacket) :
    Tracked sizes packets (gfProcessPacket sizes s q) := by
  obtain ⟨p, hp, hbegun⟩ := hheader
  rw [gfProcessPacket]
  split
  · exact ⟨fun _ => ⟨p, hp, hbegun.count⟩, h.sent⟩
  · exact Tracked.sendImageId ⟨fun _ => ⟨p, hp, hbegun.count⟩, h.sent⟩ ⟨p, hp, hbegun.count⟩

/-- A frame begins. -/
theorem Tracked.initFrame (h : Tracked sizes packets s) {q : GFUdpPacket} (hq : q ∈ packets) :
    Tracked sizes packets
      (gfProcessPacket sizes { s with header := gfInitFrameMetadata sizes q s.header } q) := by
  have hnew : ∃ p ∈ packets, Begun sizes p (gfInitFrameMetadata sizes q s.header) :=
    ⟨q, hq, rfl, s.header, rfl⟩
  have htracked : Tracked sizes packets
      { s with header := gfInitFrameMetadata sizes q s.header } := ⟨fun _ => hnew, h.sent⟩
  exact htracked.processPacket hnew q

theorem Tracked.step (h : Tracked sizes packets s) {q : GFUdpPacket} (hq : q ∈ packets)
    (hindex : q.frameIndex ≠ UdpRecv.invalidImageId) :
    Tracked sizes packets (gfStep sizes s q) := by
  rw [gfStep]
  split
  · next hcurrent => exact h.processPacket (h.current (hcurrent ▸ hindex)) q
  · refine Tracked.initFrame ?_ hq
    split
    · next hne => exact h.sendImageId (h.current hne)
    · exact h

/-- **Every frame that a receiver sends began with one of its packets.** -/
theorem begun_of_sent {moduleId : ℕ} {memory : ℕ → UInt8} {batches : List (List GFUdpPacket)}
    (hpackets : ∀ p ∈ batches.flatten, p ∈ packets)
    (hindex : ∀ p ∈ packets, p.frameIndex ≠ UdpRecv.invalidImageId) {message : Sent GFFrame}
    (hmessage : message ∈ ((gfReceiver sizes moduleId memory).run batches).sent) :
    ∃ p ∈ packets, Begun sizes p message.header := by
  have htracked : ∀ (ps : List GFUdpPacket) (s : LoopState GFFrame), (∀ p ∈ ps, p ∈ packets) →
      Tracked sizes packets s → Tracked sizes packets (ps.foldl (gfStep sizes) s) := by
    intro ps
    induction ps with
    | nil => exact fun s _ h => h
    | cons q ps ih =>
      intro s hps h
      have hq := hps q List.mem_cons_self
      exact ih _ (fun p hp => hps p (List.mem_cons_of_mem q hp)) (h.step hq (hindex q hq))
  have hstart : Tracked sizes packets (gfReceiver sizes moduleId memory).start :=
    ⟨fun hne => absurd rfl hne, fun message hmessage => absurd hmessage List.not_mem_nil⟩
  rw [Receiver.run, ← List.foldl_flatten] at hmessage
  exact (htracked _ _ hpackets hstart).sent message hmessage

/-! ### From the packets to the filter -/

/-- The frame was sent by a receiver to which only these packets came. -/
def FromPackets (sizes : ReceiverSizes) (packets : Set GFUdpPacket) (frame : GFFrame) : Prop :=
  ∃ (moduleId : ℕ) (memory : ℕ → UInt8) (batches : List (List GFUdpPacket)),
    (∀ p ∈ batches.flatten, p ∈ packets) ∧
      ∃ message ∈ ((gfReceiver sizes moduleId memory).run batches).sent, message.header = frame

/-- **When an image is filtered by its flag.** Take any packets whose headers are packed as
documented, with one flag for all packets of an image, any frames the receivers make of them, and
any run of the synchronizer on these frames. The metadata of an image that comes out are those of
one packet of the image. All fields of this packet are recovered, and the filter goes by the flag,
exactly when the lowest debug bit of the packet is equal to the flag. -/
theorem headerFollowed_iff {sync : Synchronizer} {es : List (SyncEvent GFFrame)}
    {t : SyncTrace GFFrame} (fields : GFUdpPacket → HeaderFields) (flag : ℕ → Bool)
    (hcarries : ∀ p ∈ packets, Carries (fields p) p ∧ (fields p).doNotStore = flag p.frameIndex)
    (hrun : Run (Steps.total (SyncTrace.step sync)) start es t)
    (hframes : ∀ f ∈ t.delivered, FromPackets sizes packets f)
    (hpop : (popNextFullImage t.cache).2 = some frame) (header : ImageMetadata) :
    ∃ p ∈ packets, Begun sizes p frame ∧
      (Recovered (fields p) frame ∧
          (forwards false (publish header frame) = true ↔ flag (imageId frame) = false) ↔
        (fields p).debug % 2 = (flag (imageId frame)).toNat) := by
  obtain ⟨hentry, -⟩ := (entriesOk_of_run hrun).popped hpop
  obtain ⟨rest, hrest, -⟩ := hentry.head
  have hdelivered : frame ∈ t.delivered :=
    delivered_of_run hrun (hrest ▸ List.mem_cons_self)
  obtain ⟨moduleId, memory, batches, hpackets, message, hmessage, rfl⟩ := hframes frame hdelivered
  have hindex : ∀ p ∈ packets, p.frameIndex ≠ UdpRecv.invalidImageId := fun p hp => by
    have := (hcarries p hp).1.frameIndex_lt
    rw [UdpRecv.invalidImageId]
    omega
  obtain ⟨p, hp, hbegun⟩ := begun_of_sent hpackets hindex hmessage
  obtain ⟨hcarried, hflag⟩ := hcarries p hp
  have himage : imageId message.header = p.frameIndex := hbegun.image
  rw [← himage] at hflag
  refine ⟨p, hp, hbegun, ?_⟩
  rw [hbegun.recovered_iff hcarried, ← hflag, forwards_publish, hbegun.doNotStore_eq hcarried]
  refine and_iff_left_of_imp fun hbit => ?_
  rw [hbit]
  cases (fields p).doNotStore <;> decide

/-- A header with the given flag and lowest debug bit. -/
def flaggedHeader (doNotStore lowest : Bool) : HeaderFields where
  quadrantId := 2
  linkId := 1
  corrMode := 5
  quadrantHeight := 2
  swap := 1
  frameTimestamp := 300000
  exposureTime := 7
  doNotStore := doNotStore
  debug := lowest.toNat
  quadrantId_lt := by decide
  linkId_lt := by decide
  corrMode_lt := by decide
  quadrantHeight_lt := by decide
  quadrantHeight_even := rfl
  swap_lt := by decide
  frameTimestamp_lt := by decide
  exposureTime_lt := by decide
  debug_lt := (Bool.toNat_lt lowest).trans (by decide)

/-- The only packet of frame 5, for modules of one row. -/
def flaggedPacket (f : HeaderFields) : GFUdpPacket where
  quadrantRows := f.quadrantRows
  statusFlags := f.statusFlags
  scanId := 0
  frameIndex := 5
  imageStatusFlags := f.imageStatusFlags
  packetStartingRow := 0
  imageTiming := f.imageTiming
  syncTime := 0
  scanTime := 0
  data := List.replicate packetNDataBytesMax 0
  packetStartingRow_lt := by decide
  data_length := length_zeros

/-- The frame that is sent when this packet arrives. -/
def flaggedFrame (f : HeaderFields) : GFFrame :=
  { gfInitFrameMetadata (receiverSizes 4 24) (flaggedPacket f) { common := ⟨0, 0, 0⟩ } with
    common := ⟨5, 0, 0⟩ }

theorem fromPackets_flaggedFrame (f : HeaderFields) :
    FromPackets (receiverSizes 4 24) {flaggedPacket f} (flaggedFrame f) :=
  ⟨0, fun _ => 0, [[flaggedPacket f]], fun _ hp => List.mem_singleton.mp hp, _,
    List.mem_cons_self, rfl⟩

/-- The frame is all of its image. -/
theorem run_flaggedFrame (lowest : Bool) :
    ∃ t, Run (Steps.total (SyncTrace.step oneSlot)) start
        [.process (flaggedFrame (flaggedHeader true lowest))] t ∧
      (∀ f ∈ t.delivered, FromPackets (receiverSizes 4 24)
        {flaggedPacket (flaggedHeader true lowest)} f) ∧
      (popNextFullImage t.cache).2 = some (flaggedFrame (flaggedHeader true lowest)) := by
  refine ⟨_, run_total_iff.mpr rfl, fun f hf => ?_, by cases lowest <;> decide⟩
  rw [List.mem_singleton.mp hf]
  exact fromPackets_flaggedFrame _

theorem carries_of_mem (f : HeaderFields) :
    ∀ p ∈ ({flaggedPacket f} : Set GFUdpPacket), Carries f p := by
  rintro p rfl
  exact ⟨rfl, rfl, rfl, rfl, show 5 < 2 ^ 32 by decide⟩

/-- The flag and the lowest debug bit are set: the image is held back. -/
theorem headerFollowed_iff_debug_bit :
    forwards false (publish {} (flaggedFrame (flaggedHeader true true))) = false ∧
      ∃ p, Begun (receiverSizes 4 24) p (flaggedFrame (flaggedHeader true true)) ∧
        Recovered (flaggedHeader true true) (flaggedFrame (flaggedHeader true true)) := by
  obtain ⟨t, hrun, hframes, hpop⟩ := run_flaggedFrame true
  obtain ⟨p, -, hbegun, hiff⟩ :=
    headerFollowed_iff (fun _ => flaggedHeader true true) (fun _ => true)
      (fun p hp => ⟨carries_of_mem _ p hp, rfl⟩) hrun hframes hpop {}
  obtain ⟨hrecovered, -⟩ := hiff.mpr rfl
  exact ⟨rfl, p, hbegun, hrecovered⟩

/-- The flag is set and the debug bits are clear: the image passes the filter. -/
theorem not_headerFollowed_flag :
    ¬ ∀ (sizes : ReceiverSizes) (packets : Set GFUdpPacket) (fields : GFUdpPacket → HeaderFields)
      (flag : ℕ → Bool) (sync : Synchronizer) (es : List (SyncEvent GFFrame))
      (t : SyncTrace GFFrame) (frame : GFFrame),
      (∀ p ∈ packets, Carries (fields p) p ∧ (fields p).doNotStore = flag p.frameIndex) →
      Run (Steps.total (SyncTrace.step sync)) start es t →
      (∀ f ∈ t.delivered, FromPackets sizes packets f) →
      (popNextFullImage t.cache).2 = some frame → ∀ header,
        (forwards false (publish header frame) = true ↔ flag (imageId frame) = false) := by
  intro h
  obtain ⟨t, hrun, hframes, hpop⟩ := run_flaggedFrame false
  have hforwards := h _ _ (fun _ => flaggedHeader true false) (fun _ => true) oneSlot _ t _
    (fun p hp => ⟨carries_of_mem _ p hp, rfl⟩) hrun hframes hpop {}
  exact absurd (hforwards.mp rfl) (by decide)

end GigaFrost

end StdDaq
