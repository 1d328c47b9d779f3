import StdDaq.GigaFrost.Sizes
import StdDaq.UdpRecv.Receiver

/-!
# The three receive loops

The loops of `std_udp_recv_gf`, `std_udp_recv_eg` and `std_udp_recv_jf`. Eiger and Jungfrau packets
have the same layout and their loops have the same text, up to the names of the fields; they are
one definition here, `SlsLoop.step`. The GigaFRoST loop handles the packet that begins a frame like
any other, so it is the only one that can send a frame on its first packet.

The Jungfrau receiver keeps track of frames by `framenum` and sends the bunch id as the image id.

Fields of packets that no receiver reads are left out, and so are the statistics.

## Main results

* `receivers_assemble_frames` — all three meet the specification
-/

namespace StdDaq

namespace UdpRecv

open Receiver

/-! ### Eiger and Jungfrau -/

/-- The names by which the Eiger and Jungfrau loops call the same things. -/
structure SlsLoop (P M : Type) where
  /-- `N_PACKETS_PER_FRAME`. -/
  nPacketsPerFrame : ℕ
  /-- `DATA_BYTES_PER_PACKET`. -/
  dataBytesPerPacket : ℕ
  /-- `FRAME_N_BYTES`. -/
  frameNBytes : ℕ
  /-- The frame of a packet. -/
  frameNum : P → ℕ
  /-- The index of a packet in its frame. -/
  packetNumber : P → ℕ
  /-- The data of a packet. -/
  data : P → List UInt8
  /-- The frame a header is for. -/
  currentFrame : M → ℕ
  /-- The header without a frame. -/
  invalidate : M → M
  /-- The header of a frame that begins with this packet. -/
  initFrameMetadata : M → P → M
  /-- `n_missing_packets -= 1`. -/
  countPacket : M → M

namespace SlsLoop

variable {P M : Type} [FrameType M] (l : SlsLoop P M)

/-- `memcpy` of the data of a packet into the frame buffer. The offset is a `uint32_t`. -/
def accumulate (frameBuffer : ℕ → UInt8) (packet : P) : ℕ → UInt8 :=
  Memory.blit frameBuffer (l.packetNumber packet * l.dataBytesPerPacket % 2 ^ 32) (l.data packet)

/-- `sender.send` of the current frame. -/
def sendFrame (s : LoopState M) : LoopState M :=
  { s with sent := s.sent ++ [send l.frameNBytes (imageId s.header) s.header s.buffer] }

/-- The body of the loop. -/
def step (s : LoopState M) (packet : P) : LoopState M :=
  if l.currentFrame s.header = l.frameNum packet then
    let s := { s with
      buffer := l.accumulate s.buffer packet
      header := l.countPacket s.header }
    if l.packetNumber packet = l.nPacketsPerFrame - 1 then
      let s := l.sendFrame s
      { s with header := l.invalidate s.header }
    else s
  else
    let s := if l.currentFrame s.header ≠ invalidImageId then l.sendFrame s else s
    { s with
      buffer := l.accumulate s.buffer packet
      header := l.countPacket (l.initFrameMetadata s.header packet) }

/-- The receiver with this loop. -/
def receiver (packetImageId : P → ℕ) (start : LoopState M) : Receiver P M where
  frameNPackets := l.nPacketsPerFrame
  frameNumber := l.frameNum
  packetImageId := packetImageId
  IsPacket i packet := l.packetNumber packet = i
  payload := l.data
  place packet := l.packetNumber packet * l.dataBytesPerPacket
  sendsOnFirst := false
  start := start
  step := l.step
  counted s packet :=
    if l.currentFrame s.header = l.frameNum packet then nMissingPackets s.header
    else l.nPacketsPerFrame

/-- The loop as an assembler. -/
def assembler : Assembler ℕ P M (ℕ → UInt8) (Sent M) where
  key := l.frameNum
  current := l.currentFrame
  idle := invalidImageId
  closes packet := l.packetNumber packet = l.nPacketsPerFrame - 1
  eager := false
  init := l.initFrameMetadata
  receive m _ := l.countPacket m
  close := l.invalidate
  copy := l.accumulate
  emit m b := send l.frameNBytes (imageId m) m b

/-- What the two instances have in common. -/
structure Regular (packetImageId : P → ℕ) : Prop where
  current_init : ∀ m p, l.currentFrame (l.initFrameMetadata m p) = l.frameNum p
  current_count : ∀ m, l.currentFrame (l.countPacket m) = l.currentFrame m
  current_invalidate : ∀ m, l.currentFrame (l.invalidate m) = invalidImageId
  /-- A new frame does not depend on the old one being invalidated. -/
  init_invalidate : ∀ m p, l.initFrameMetadata (l.invalidate m) p = l.initFrameMetadata m p
  image_init : ∀ m p, imageId (l.initFrameMetadata m p) = packetImageId p
  missing_init : ∀ m p, nMissingPackets (l.initFrameMetadata m p) = l.nPacketsPerFrame
  image_count : ∀ m, imageId (l.countPacket m) = imageId m
  missing_count : ∀ m, nMissingPackets (l.countPacket m) = predUInt64 (nMissingPackets m)
  data_length : ∀ p, (l.data p).length = l.dataBytesPerPacket
  frame_bytes : l.nPacketsPerFrame * l.dataBytesPerPacket ≤ l.frameNBytes
  frame_lt : l.frameNBytes < 2 ^ 32

variable {l} {packetImageId : P → ℕ} {start : LoopState M}

/-- The loop is the assembler: the test of the source that the frame is valid is the test of the
assembler the other way around. -/
theorem step_eq (h : l.Regular packetImageId) (s : LoopState M) (p : P) :
    l.step s p = l.assembler.step s p := by
  rw [step]
  by_cases hcurrent : l.currentFrame s.header = l.frameNum p
  · rw [if_pos hcurrent, Assembler.step_of_current (a := l.assembler) hcurrent, Assembler.accept]
    by_cases hlast : l.packetNumber p = l.nPacketsPerFrame - 1
    · have hcloses : l.assembler.closes p = true := decide_eq_true hlast
      rw [if_pos hlast, if_pos hcloses]
      rfl
    · have hcloses : ¬ l.assembler.closes p = true := mt of_decide_eq_true hlast
      rw [if_neg hlast, if_neg hcloses]
      rfl
  · rw [if_neg hcurrent, Assembler.step_of_ne (a := l.assembler) hcurrent]
    by_cases hidle : l.currentFrame s.header = invalidImageId
    · rw [if_neg (not_not.mpr hidle), Assembler.flushOld_of_idle (a := l.assembler) hidle]
      rfl
    · rw [if_pos hidle, Assembler.flushOld_of_ne (a := l.assembler) hidle]
      change _ = Assembler.State.mk (l.countPacket (l.initFrameMetadata (l.invalidate s.header) p))
        (l.accumulate s.buffer p) _
      rw [h.init_invalidate]
      rfl

theorem place_lt (h : l.Regular packetImageId) {i k : ℕ} {p : P} (hi : i < l.nPacketsPerFrame)
    (hp : l.packetNumber p = i) (hk : k < (l.data p).length) :
    l.packetNumber p * l.dataBytesPerPacket + k < l.frameNBytes := by
  rw [h.data_length] at hk
  have hle := Nat.mul_le_mul_right l.dataBytesPerPacket hi
  rw [Nat.succ_mul] at hle
  have := h.frame_bytes
  rw [hp]
  omega

theorem accumulate_eq (h : l.Regular packetImageId) {i : ℕ} {p : P} (hi : i < l.nPacketsPerFrame)
    (hp : l.packetNumber p = i) (b : ℕ → UInt8) :
    l.accumulate b p = Memory.blit b (i * l.dataBytesPerPacket) (l.data p) := by
  have hle := Nat.mul_le_mul_right l.dataBytesPerPacket hi.le
  have := h.frame_bytes
  have := h.frame_lt
  rw [accumulate, hp, Nat.mod_eq_of_lt (by omega)]

theorem implements (h : l.Regular packetImageId)
    (hstart : l.currentFrame start.header = invalidImageId) (hsent : start.sent = []) :
    (l.receiver packetImageId start).Implements l.assembler l.frameNBytes where
  lawful := ⟨h.current_init, fun m _ => h.current_count m, h.current_invalidate⟩
  start_idle := hstart
  start_sent := hsent
  step_eq := step_eq h
  counted_eq s p := by
    change (if l.currentFrame s.header = l.frameNum p then _ else _)
      = nMissingPackets (if l.currentFrame s.header = l.frameNum p then _ else _)
    split
    · rfl
    · exact (h.missing_init _ p).symm
  key_eq _ := rfl
  idle_eq := rfl
  closes_iff i p _ hp := by
    change decide (l.packetNumber p = _) = true ↔ _
    rw [decide_eq_true_iff, show l.packetNumber p = i from hp]
    rfl
  eager_eq := rfl
  emit_eq _ _ := rfl
  init m p := ⟨h.image_init m p, h.missing_init m p⟩
  receive m _ := ⟨h.image_count m, h.missing_count m⟩
  stored i p hi hp k byte hk := by
    refine ⟨place_lt h hi hp (List.getElem?_eq_some_iff.mp hk).1, fun b => ?_⟩
    change l.accumulate b p (l.packetNumber p * l.dataBytesPerPacket + k) = byte
    rw [accumulate_eq h hi hp, show l.packetNumber p = i from hp]
    exact Memory.blit_of_getElem? hk
  kept i j p q hij hj hp hq k hk b := by
    change l.accumulate b q (l.packetNumber p * l.dataBytesPerPacket + k)
      = b (l.packetNumber p * l.dataBytesPerPacket + k)
    have hk : k < l.dataBytesPerPacket := by rwa [← h.data_length p]
    have hle := Nat.mul_le_mul_right l.dataBytesPerPacket hij
    rw [Nat.succ_mul] at hle
    rw [accumulate_eq h hj hq, show l.packetNumber p = i from hp]
    exact Memory.blit_of_not_mem (by omega)

end SlsLoop

/-- `eg::EGUdpPacket`. -/
structure EGUdpPacket where
  frameNum : ℕ
  packetNumber : ℕ
  row : ℕ
  column : ℕ
  data : List UInt8
  data_length : data.length = 4096

/-- `jf::JFUdpPacket`. The bunch id is a `double`, and a finite one is a rational number. -/
structure JFUdpPacket where
  framenum : ℕ
  packetnum : ℕ
  bunchid : ℚ
  debug : ℕ
  data : List UInt8
  data_length : data.length = 8192

/-- `init_frame_metadata` of the Eiger receiver. The number of packets is passed as a `uint16_t`. -/
def egInitFrameMetadata (moduleId frameNPackets bitDepth : ℕ) (packet : EGUdpPacket)
    (frame : EGFrame) : EGFrame :=
  { frame with
    common.imageId := packet.frameNum
    common.moduleId := moduleId
    common.nMissingPackets := frameNPackets % 2 ^ 16
    bitDepth := bitDepth
    posX := packet.row
    posY := packet.column }

/-- The loop of `std_udp_recv_eg`. -/
def egLoop (bitDepth : ℤ) (moduleId : ℕ) : SlsLoop EGUdpPacket EGFrame where
  nPacketsPerFrame := toUInt32 (131072 * bitDepth) / 8 / 4096
  dataBytesPerPacket := 4096
  frameNBytes := toUInt32 (131072 * bitDepth) / 8
  frameNum := EGUdpPacket.frameNum
  packetNumber := EGUdpPacket.packetNumber
  data := EGUdpPacket.data
  currentFrame frame := frame.common.imageId
  invalidate frame := { frame with common.imageId := invalidImageId }
  initFrameMetadata frame packet :=
    egInitFrameMetadata moduleId (toUInt32 (131072 * bitDepth) / 8 / 4096)
      (toUInt32 bitDepth % 2 ^ 16) packet frame
  countPacket frame := { frame with common := CommonFrame.countPacket frame.common }

/-- `std_udp_recv_eg`. -/
def egReceiver (bitDepth : ℤ) (moduleId : ℕ) (memory : ℕ → UInt8) :
    Receiver EGUdpPacket EGFrame :=
  (egLoop bitDepth moduleId).receiver EGUdpPacket.frameNum
    ⟨{ common := ⟨invalidImageId, 0, moduleId⟩ }, memory, []⟩

/-- `static_cast<uint64_t>` of a bunch id. -/
def JFUdpPacket.imageId (packet : JFUdpPacket) : ℕ := packet.bunchid.floor.toNat % 2 ^ 64

/-- The loop of `std_udp_recv_jf`. -/
def jfLoop : SlsLoop JFUdpPacket JFFrame where
  nPacketsPerFrame := 128
  dataBytesPerPacket := 8192
  frameNBytes := 8192 * 128
  frameNum := JFUdpPacket.framenum
  packetNumber := JFUdpPacket.packetnum
  data := JFUdpPacket.data
  currentFrame frame := frame.frameIndex
  invalidate frame := { frame with frameIndex := invalidImageId }
  initFrameMetadata frame packet :=
    { frame with
      common.imageId := packet.imageId
      common.nMissingPackets := 128
      frameIndex := packet.framenum
      daqRec := packet.debug }
  countPacket frame := { frame with common := CommonFrame.countPacket frame.common }

/-- `std_udp_recv_jf`. -/
def jfReceiver (moduleId : ℕ) (memory : ℕ → UInt8) : Receiver JFUdpPacket JFFrame :=
  jfLoop.receiver JFUdpPacket.imageId
    ⟨{ common := ⟨0, 0, moduleId⟩, frameIndex := invalidImageId, moduleId := moduleId }, memory, []⟩

/-- The number of Eiger packets is counted right if it fits in the `uint16_t` it is passed as. -/
theorem egLoop_regular {bitDepth : ℤ} {moduleId : ℕ}
    (hfits : (egLoop bitDepth moduleId).nPacketsPerFrame < 2 ^ 16) :
    (egLoop bitDepth moduleId).Regular EGUdpPacket.frameNum := by
  have hbytes : toUInt32 (131072 * bitDepth) < 2 ^ 32 := by
    rw [toUInt32]
    omega
  exact {
    current_init _ _ := rfl
    current_count _ := rfl
    current_invalidate _ := rfl
    init_invalidate _ _ := rfl
    image_init _ _ := rfl
    missing_init _ _ := Nat.mod_eq_of_lt hfits
    image_count _ := rfl
    missing_count _ := rfl
    data_length p := p.data_length
    frame_bytes := Nat.div_mul_le_self _ _
    frame_lt := by
      change toUInt32 (131072 * bitDepth) / 8 < 2 ^ 32
      omega }

theorem jfLoop_regular : jfLoop.Regular JFUdpPacket.imageId where
  current_init _ _ := rfl
  current_count _ := rfl
  current_invalidate _ := rfl
  init_invalidate _ _ := rfl
  image_init _ _ := rfl
  missing_init _ _ := rfl
  image_count _ := rfl
  missing_count _ := rfl
  data_length p := p.data_length
  frame_bytes := by decide
  frame_lt := by decide

/-! ### GigaFRoST -/

open GigaFrost

/-- `gf::GFUdpPacket`. -/
structure GFUdpPacket where
  quadrantRows : ℕ
  statusFlags : ℕ
  scanId : ℕ
  frameIndex : ℕ
  imageStatusFlags : ℕ
  packetStartingRow : ℕ
  imageTiming : ℕ
  syncTime : ℕ
  scanTime : ℕ
  data : List UInt8
  /-- The starting row is a `uint16_t`. -/
  packetStartingRow_lt : packetStartingRow < 2 ^ 16
  data_length : data.length = packetNDataBytesMax

/-- Data of zeros has the length of a packet. -/
theorem length_zeros : (List.replicate packetNDataBytesMax (0 : UInt8)).length =
    packetNDataBytesMax :=
  List.length_replicate

/-- `init_frame_metadata` of the GigaFRoST receiver. In the last line the shift binds more tightly
than the mask. -/
def gfInitFrameMetadata (sizes : ReceiverSizes) (packet : GFUdpPacket) (frame : GFFrame) :
    GFFrame :=
  { frame with
    common.imageId := packet.frameIndex
    common.nMissingPackets := sizes.packetsInFrame
    scanId := packet.scanId
    sizeX := sizes.widthInPixels
    sizeY := sizes.heightInPixels
    scanTime := packet.scanTime
    syncTime := packet.syncTime
    frameTimestamp := packet.imageTiming &&& 0x000000FFFFFFFFFF
    exposureTime := (packet.imageTiming &&& 0xFFFFFF0000000000) >>> 40
    swappedRows := packet.quadrantRows &&& 0b1
    quadrantId := (packet.statusFlags &&& 0b11000000) >>> 6
    linkId := (packet.statusFlags &&& 0b00100000) >>> 5
    corrMode := (packet.statusFlags &&& 0b00011100) >>> 2
    doNotStore := packet.imageStatusFlags &&& (0x8000 >>> 15) }

/-- `send_image_id`. -/
def gfSendImageId (sizes : ReceiverSizes) (s : LoopState GFFrame) : LoopState GFFrame :=
  { s with
    sent := s.sent ++ [send sizes.bytesOfFrame s.header.common.imageId s.header s.buffer]
    header := { s.header with common.imageId := invalidImageId } }

/-- `process_packet`. -/
def gfProcessPacket (sizes : ReceiverSizes) (s : LoopState GFFrame) (packet : GFUdpPacket) :
    LoopState GFFrame :=
  let offset := sizes.frameBufferOffset packet.packetStartingRow
  let s := { s with header := { s.header with common := CommonFrame.countPacket s.header.common } }
  if packet.packetStartingRow ≠ sizes.startRowLastPacket then
    { s with buffer := Memory.blit s.buffer offset (packet.data.take sizes.bytesPerPacket) }
  else
    gfSendImageId sizes
      { s with buffer := Memory.blit s.buffer offset (packet.data.take sizes.bytesOfLastPacket) }

/-- The body of the loop of `std_udp_recv_gf`. -/
def gfStep (sizes : ReceiverSizes) (s : LoopState GFFrame) (packet : GFUdpPacket) :
    LoopState GFFrame :=
  if s.header.common.imageId = packet.frameIndex then gfProcessPacket sizes s packet
  else
    let s := if s.header.common.imageId ≠ invalidImageId then gfSendImageId sizes s else s
    gfProcessPacket sizes { s with header := gfInitFrameMetadata sizes packet s.header } packet

/-- The bytes of the rows of a packet. What a packet holds behind its rows is padding. -/
def rowBytes (sizes : ReceiverSizes) (packetStartingRow : ℕ) : ℕ :=
  sizes.widthInPixels * min sizes.rowsPerPacket (sizes.heightInPixels - packetStartingRow) * 3 / 2

/-- `std_udp_recv_gf`. -/
def gfReceiver (sizes : ReceiverSizes) (moduleId : ℕ) (memory : ℕ → UInt8) :
    Receiver GFUdpPacket GFFrame where
  frameNPackets := sizes.packetsInFrame
  frameNumber := GFUdpPacket.frameIndex
  packetImageId := GFUdpPacket.frameIndex
  IsPacket i packet := packet.packetStartingRow = i * sizes.rowsPerPacket
  payload packet := packet.data.take (rowBytes sizes packet.packetStartingRow)
  place packet := sizes.frameBufferOffset packet.packetStartingRow
  sendsOnFirst := true
  start := ⟨{ common := ⟨invalidImageId, 0, moduleId % 8⟩ }, memory, []⟩
  step := gfStep sizes
  counted s packet :=
    if s.header.common.imageId = packet.frameIndex then nMissingPackets s.header
    else sizes.packetsInFrame

/-- The loop as an assembler. -/
def gfAssembler (sizes : ReceiverSizes) : Assembler ℕ GFUdpPacket GFFrame (ℕ → UInt8) (Sent GFFrame)
    where
  key := GFUdpPacket.frameIndex
  current frame := frame.common.imageId
  idle := invalidImageId
  closes packet := packet.packetStartingRow = sizes.startRowLastPacket
  eager := true
  init frame packet := gfInitFrameMetadata sizes packet frame
  receive frame _ := { frame with common := CommonFrame.countPacket frame.common }
  close frame := { frame with common.imageId := invalidImageId }
  copy frameBuffer packet :=
    Memory.blit frameBuffer (sizes.frameBufferOffset packet.packetStartingRow)
      (packet.data.take (sizes.copiedBytes packet.packetStartingRow))
  emit frame frameBuffer := send sizes.bytesOfFrame frame.common.imageId frame frameBuffer

theorem gfProcessPacket_eq (sizes : ReceiverSizes) (s : LoopState GFFrame) (p : GFUdpPacket) :
    gfProcessPacket sizes s p
      = (gfAssembler sizes).accept s p ((gfAssembler sizes).closes p) := by
  rw [gfProcessPacket, Assembler.accept]
  by_cases hlast : p.packetStartingRow = sizes.startRowLastPacket
  · have hcloses : (gfAssembler sizes).closes p = true := decide_eq_true hlast
    have hcopied : sizes.copiedBytes p.packetStartingRow = sizes.bytesOfLastPacket :=
      if_neg (not_not.mpr hlast)
    rw [if_neg (not_not.mpr hlast), if_pos hcloses, ← hcopied]
    rfl
  · have hcloses : ¬ (gfAssembler sizes).closes p = true := mt of_decide_eq_true hlast
    have hcopied : sizes.copiedBytes p.packetStartingRow = sizes.bytesPerPacket := if_pos hlast
    rw [if_pos hlast, if_neg hcloses, ← hcopied]
    rfl

theorem gfStep_eq (sizes : ReceiverSizes) (s : LoopState GFFrame) (p : GFUdpPacket) :
    gfStep sizes s p = (gfAssembler sizes).step s p := by
  rw [gfStep]
  by_cases hcurrent : s.header.common.imageId = p.frameIndex
  · rw [if_pos hcurrent, Assembler.step_of_current (a := gfAssembler sizes) hcurrent,
      gfProcessPacket_eq]
  · rw [if_neg hcurrent, Assembler.step_of_ne (a := gfAssembler sizes) hcurrent,
      gfProcessPacket_eq]
    by_cases hidle : s.header.common.imageId = invalidImageId
    · rw [if_neg (not_not.mpr hidle), Assembler.flushOld_of_idle (a := gfAssembler sizes) hidle]
      rfl
    · rw [if_pos hidle, Assembler.flushOld_of_ne (a := gfAssembler sizes) hidle]
      rfl

section GigaFrostPlaces

variable {h w : ℤ} {i : ℕ} {p : GFUdpPacket}

/-- The starting row is small enough for the offset not to wrap. -/
theorem frameBufferOffset_eq (hw : IsInt w) (hr : 1 ≤ nRowsPerPacket h w)
    (hp : p.packetStartingRow = i * nRowsPerPacket h w) :
    (receiverSizes h w).frameBufferOffset p.packetStartingRow
      = moduleNXPixels w * (i * nRowsPerPacket h w) * 3 / 2 := by
  obtain ⟨-, hwidth, -⟩ := pixels_of_packet hw hr
  have hlt := p.packetStartingRow_lt
  have hmul : p.packetStartingRow * moduleNXPixels w ≤ 2 ^ 16 * 2471 :=
    Nat.mul_le_mul hlt.le hwidth
  change p.packetStartingRow * moduleNXPixels w % 2 ^ 32 * 3 / 2 = _
  rw [Nat.mod_eq_of_lt (by omega), hp, Nat.mul_comm (moduleNXPixels w)]

/-- A packet has the rows up to the next packet, or up to the end of the module. -/
theorem rows_of_packet (hr : 1 ≤ nRowsPerPacket h w) (hi : i < nPacketsPerFrame h w) :
    min (nRowsPerPacket h w) (moduleNYPixels h - i * nRowsPerPacket h w)
      = if i = nPacketsPerFrame h w - 1 then lastPacketNRows h w else nRowsPerPacket h w := by
  have hrows := rows_of_frame hr
  have hle := lastPacketNRows_le hr
  split
  · next hlast =>
    subst hlast
    omega
  · next hne =>
    have hlt : i + 1 ≤ nPacketsPerFrame h w - 1 := by omega
    have := Nat.mul_le_mul_right (nRowsPerPacket h w) hlt
    rw [Nat.succ_mul] at this
    omega

/-- The packet that starts at the last row is the last packet. -/
theorem startRowLastPacket_iff (hr : 1 ≤ nRowsPerPacket h w) :
    i * nRowsPerPacket h w = (receiverSizes h w).startRowLastPacket ↔
      i = nPacketsPerFrame h w - 1 := by
  have hrows := rows_of_frame hr
  have hstart : (receiverSizes h w).startRowLastPacket
      = (nPacketsPerFrame h w - 1) * nRowsPerPacket h w := by
    change moduleNYPixels h - lastPacketNRows h w = _
    omega
  rw [hstart]
  exact Nat.mul_left_inj (by omega)

/-- Every row of a packet is copied. -/
theorem rowBytes_le_copiedBytes (hw : IsInt w) (hr : 1 ≤ nRowsPerPacket h w)
    (hi : i < nPacketsPerFrame h w) :
    rowBytes (receiverSizes h w) (i * nRowsPerPacket h w)
      ≤ (receiverSizes h w).copiedBytes (i * nRowsPerPacket h w) := by
  obtain ⟨-, -, hpixels⟩ := pixels_of_packet hw hr
  change moduleNXPixels w * min (nRowsPerPacket h w) (moduleNYPixels h - _) * 3 / 2 ≤ _
  rw [rows_of_packet hr hi, ReceiverSizes.copiedBytes]
  split
  · next hlast =>
    rw [if_neg (not_not.mpr ((startRowLastPacket_iff hr).mpr hlast))]
    exact Nat.le_add_right _ _
  · next hne =>
    rw [if_pos (mt (startRowLastPacket_iff hr).mp hne)]
    change _ ≤ moduleNXPixels w * nRowsPerPacket h w % 2 ^ 32 * 3 / 2 + _
    rw [Nat.mod_eq_of_lt (by omega)]
    exact Nat.le_add_right _ _

/-- The rows of a packet end before those of the next one begin. -/
theorem offset_add_rowBytes_le :
    moduleNXPixels w * (i * nRowsPerPacket h w) * 3 / 2 +
        rowBytes (receiverSizes h w) (i * nRowsPerPacket h w)
      ≤ moduleNXPixels w * ((i + 1) * nRowsPerPacket h w) * 3 / 2 := by
  have hrows : min (nRowsPerPacket h w) (moduleNYPixels h - i * nRowsPerPacket h w)
      ≤ nRowsPerPacket h w := Nat.min_le_left _ _
  have hmul := Nat.mul_le_mul_left (moduleNXPixels w) hrows
  change _ + moduleNXPixels w * min (nRowsPerPacket h w) (moduleNYPixels h - _) * 3 / 2 ≤ _
  rw [Nat.succ_mul, Nat.mul_add]
  omega

/-- The bytes of a full packet are at least one and a half times its pixels: rounding down takes
effect for odd numbers only, and then there is padding. -/
theorem three_mul_pixels_le (hw : IsInt w) (hr : 1 ≤ nRowsPerPacket h w) :
    moduleNXPixels w * nRowsPerPacket h w * 3 ≤ 2 * nDataBytesPerPacket h w := by
  obtain ⟨-, -, hpixels⟩ := pixels_of_packet hw hr
  simp only [nDataBytesPerPacket, padding]
  rw [Nat.mod_eq_of_lt (by omega)]
  split
  · omega
  · next heven =>
    have : moduleNXPixels w * nRowsPerPacket h w % 2 = 0 := by
      rcases Nat.mod_two_eq_zero_or_one (nRowsPerPacket h w) with hrows | hrows
      · rw [Nat.mul_mod, hrows, Nat.mul_zero, Nat.zero_mod]
      · have hwidth : moduleNXPixels w % 2 = 0 := by
          have : moduleNXPixels w % 48 = 0 := by
            by_contra hne
            exact heven ⟨hrows, hne⟩
          omega
        rw [Nat.mul_mod, hwidth, Nat.zero_mul, Nat.zero_mod]
    omega

/-- The full packets of a slot have room for their rows. -/
theorem offset_le_fullPackets (hw : IsInt w) (hr : 1 ≤ nRowsPerPacket h w)
    (hi : i ≤ nPacketsPerFrame h w - 1) :
    moduleNXPixels w * (i * nRowsPerPacket h w) * 3 / 2
      ≤ nDataBytesPerPacket h w * (nPacketsPerFrame h w - 1) := by
  refine Nat.div_le_of_le_mul ?_
  calc moduleNXPixels w * (i * nRowsPerPacket h w) * 3
      = moduleNXPixels w * nRowsPerPacket h w * 3 * i := by ring
    _ ≤ 2 * nDataBytesPerPacket h w * (nPacketsPerFrame h w - 1) :=
        Nat.mul_le_mul (three_mul_pixels_le hw hr) hi
    _ = 2 * (nDataBytesPerPacket h w * (nPacketsPerFrame h w - 1)) := by ring

/-- The rows of every packet are inside a slot. -/
theorem offset_add_rowBytes_le_bytesOfFrame (hw : IsInt w) (hr : 1 ≤ nRowsPerPacket h w)
    (hi : i < nPacketsPerFrame h w) :
    moduleNXPixels w * (i * nRowsPerPacket h w) * 3 / 2 +
        rowBytes (receiverSizes h w) (i * nRowsPerPacket h w)
      ≤ (receiverSizes h w).bytesOfFrame := by
  change _ ≤ nDataBytesPerPacket h w * (nPacketsPerFrame h w - 1) +
    (receiverSizes h w).bytesOfLastPacket
  rcases Nat.lt_or_ge i (nPacketsPerFrame h w - 1) with hlt | hge
  · exact (offset_add_rowBytes_le.trans (offset_le_fullPackets hw hr hlt)).trans
      (Nat.le_add_right _ _)
  · have hlast : i = nPacketsPerFrame h w - 1 := by omega
    refine Nat.add_le_add (offset_le_fullPackets hw hr hlast.le) ?_
    refine (rowBytes_le_copiedBytes hw hr hi).trans (Nat.le_of_eq ?_)
    exact if_neg (not_not.mpr ((startRowLastPacket_iff hr).mpr hlast))

theorem gfReceiver_implements (hw : IsInt w) (hr : 1 ≤ nRowsPerPacket h w) (moduleId : ℕ)
    (memory : ℕ → UInt8) :
    (gfReceiver (receiverSizes h w) moduleId memory).Implements (gfAssembler (receiverSizes h w))
      (receiverSizes h w).bytesOfFrame where
  lawful := ⟨fun _ _ => rfl, fun _ _ => rfl, fun _ => rfl⟩
  start_idle := rfl
  start_sent := rfl
  step_eq := gfStep_eq _
  counted_eq s p := by
    change (if s.header.common.imageId = p.frameIndex then _ else _)
      = nMissingPackets (if s.header.common.imageId = p.frameIndex then _ else _)
    split <;> rfl
  key_eq _ := rfl
  idle_eq := rfl
  closes_iff i p _ hp := by
    change decide (p.packetStartingRow = _) = true ↔ _
    rw [decide_eq_true_iff, show p.packetStartingRow = i * nRowsPerPacket h w from hp]
    exact startRowLastPacket_iff hr
  eager_eq := rfl
  emit_eq _ _ := rfl
  init _ _ := ⟨rfl, rfl⟩
  receive _ _ := ⟨rfl, rfl⟩
  stored i p hi hp k byte hk := by
    have hp : p.packetStartingRow = i * nRowsPerPacket h w := hp
    have hoffset := frameBufferOffset_eq hw hr hp
    change (p.data.take (rowBytes _ p.packetStartingRow))[k]? = some byte at hk
    change (receiverSizes h w).frameBufferOffset p.packetStartingRow + k < _ ∧
      ∀ b, Memory.blit b ((receiverSizes h w).frameBufferOffset p.packetStartingRow)
        (p.data.take ((receiverSizes h w).copiedBytes p.packetStartingRow))
        ((receiverSizes h w).frameBufferOffset p.packetStartingRow + k) = byte
    rw [hp] at hk hoffset ⊢
    rw [List.getElem?_take] at hk
    have hlt : k < rowBytes (receiverSizes h w) (i * nRowsPerPacket h w) := by
      by_contra hge
      rw [if_neg hge] at hk
      cases hk
    refine ⟨?_, fun b => Memory.blit_of_getElem? ?_⟩
    · have := offset_add_rowBytes_le_bytesOfFrame hw hr hi
      omega
    · rw [List.getElem?_take, if_pos (hlt.trans_le (rowBytes_le_copiedBytes hw hr hi))]
      rwa [if_pos hlt] at hk
  kept i j p q hij hj hp hq k hk b := by
    have hp : p.packetStartingRow = i * nRowsPerPacket h w := hp
    have hq : q.packetStartingRow = j * nRowsPerPacket h w := hq
    change k < (p.data.take (rowBytes _ p.packetStartingRow)).length at hk
    change Memory.blit b ((receiverSizes h w).frameBufferOffset q.packetStartingRow) _
      ((receiverSizes h w).frameBufferOffset p.packetStartingRow + k) = b _
    rw [List.length_take, hp] at hk
    have hle := offset_add_rowBytes_le (h := h) (w := w) (i := i)
    have hmono := Nat.mul_le_mul_left (moduleNXPixels w)
      (Nat.mul_le_mul_right (nRowsPerPacket h w) hij)
    rw [frameBufferOffset_eq hw hr hq]
    refine Memory.blit_of_not_mem fun hmem => ?_
    rw [frameBufferOffset_eq hw hr hp] at hmem
    rw [Nat.succ_eq_add_one] at hmono
    omega

end GigaFrostPlaces

/-- **The three receivers assemble frames.** GigaFRoST for every image size whose packets have
rows (the service divides by their number before it does anything else), Eiger for every bit depth
whose number of packets fits in the `uint16_t` it is passed as, and Jungfrau. -/
theorem receivers_assemble_frames (moduleId : ℕ) (memory : ℕ → UInt8) :
    (∀ h w : ℤ, IsInt w → 1 ≤ nRowsPerPacket h w →
      (gfReceiver (receiverSizes h w) moduleId memory).AssemblesFrames) ∧
    (∀ bitDepth : ℤ, (egLoop bitDepth moduleId).nPacketsPerFrame < 2 ^ 16 →
      (egReceiver bitDepth moduleId memory).AssemblesFrames) ∧
    (jfReceiver moduleId memory).AssemblesFrames := by
  refine ⟨fun h w hw hr => ?_, fun bitDepth hfits => ?_, ?_⟩
  · exact (gfReceiver_implements hw hr moduleId memory).assemblesFrames
  · exact (SlsLoop.implements (egLoop_regular hfits) rfl rfl).assemblesFrames
  · exact (SlsLoop.implements jfLoop_regular rfl rfl).assemblesFrames

/-- A Jungfrau packet. -/
def jfPacket (framenum packetnum : ℕ) (bunchid : ℚ) : JFUdpPacket :=
  ⟨framenum, packetnum, bunchid, 0, List.replicate 8192 0, List.length_replicate⟩

/-- The first and the last packet of frame 7, and the last packet of frame 8. -/
def twoFrames : List (List JFUdpPacket) :=
  [[jfPacket 7 0 1007, jfPacket 7 127 1007], [jfPacket 8 127 1008]]

theorem lossyStream_twoFrames :
    (jfReceiver 0 fun _ => 0).LossyStream twoFrames where
  frames f hf := by
    simp only [twoFrames, List.mem_cons, List.not_mem_nil, or_false] at hf
    rcases hf with rfl | rfl
    · refine ⟨by simp, ⟨7, by decide, ?_⟩, [0, 127], by decide, by decide, ?_⟩
      · intro p hp
        simp only [List.mem_cons, List.not_mem_nil, or_false] at hp
        rcases hp with rfl | rfl <;> rfl
      · exact .cons rfl (.cons rfl .nil)
    · refine ⟨by simp, ⟨8, by decide, ?_⟩, [127], by decide, by decide, .cons rfl .nil⟩
      intro p hp
      rw [List.mem_singleton.mp hp]
      rfl
  neighbours := by
    refine .cons_cons (fun p hp q hq => ?_) (.singleton _)
    simp only [List.mem_cons, List.not_mem_nil, or_false] at hp hq
    rcases hp with rfl | rfl <;> rw [hq] <;> exact (by decide : (7 : ℕ) ≠ 8)

/-- The image sizes and bit depths of the test configurations, and two Jungfrau frames. -/
theorem receivers_assemble_frames_two_frames :
    (gfReceiver (receiverSizes 252 504) 0 fun _ => 0).AssemblesFrames ∧
    (egReceiver 16 0 fun _ => 0).AssemblesFrames ∧
    ∃ done rest, twoFrames = done ++ rest ∧
      List.Forall₂ (jfReceiver 0 fun _ => 0).EmittedFor done
        ((jfReceiver 0 fun _ => 0).run twoFrames).sent ∧
      (rest = [] ∨ ∃ f, rest = [f] ∧ (jfReceiver 0 fun _ => 0).MayBePending f) := by
  obtain ⟨hgf, heg, hjf⟩ := receivers_assemble_frames 0 fun _ => 0
  exact ⟨hgf 252 504 (by decide) (by decide), heg 16 (by decide),
    (hjf twoFrames twoFrames rfl lossyStream_twoFrames).1⟩

end UdpRecv

end StdDaq
