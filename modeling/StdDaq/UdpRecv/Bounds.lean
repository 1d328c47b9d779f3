import StdDaq.UdpRecv.Loops

/-!
# Where the receivers write

Each receiver computes an address behind `frame_buffer` from a field of the packet, and copies the
data of the packet there. The field comes from the network and nothing is compared with it before.

A receiver stays inside its frame buffer if it leaves everything behind the buffer as it was,
whatever that is. The Eiger and Jungfrau offsets are formed in 32 bits, so only the field modulo a
power of two matters. The GigaFRoST offset does not wrap: the starting row has 16 bits.

## Main results

* `receivers_stay_inside_iff` — the sequences of packets for which they stay inside
-/

namespace StdDaq

namespace UdpRecv

open Receiver

/-- Whatever the memory holds at the start, the addresses from `size` on still hold it at the
end. -/
def StaysInside {M : Type} (run : (ℕ → UInt8) → LoopState M) (size : ℕ) : Prop :=
  ∀ memory, ∀ a, size ≤ a → (run memory).buffer a = memory a

/-- A loop that writes one message for each packet stays inside exactly when all messages end before
the end of the buffer. -/
theorem staysInside_iff {P M : Type} {run : (ℕ → UInt8) → LoopState M} {packets : List P}
    {size : ℕ} (message : P → ℕ × List UInt8) (hne : ∀ p, (message p).2 ≠ [])
    (hrun : ∀ memory, (run memory).buffer = Memory.blits memory (packets.map message)) :
    StaysInside run size ↔ ∀ p ∈ packets, (message p).1 + (message p).2.length ≤ size := by
  have : Nontrivial UInt8 := ⟨0, 1, by decide⟩
  simp only [StaysInside, hrun]
  rw [Memory.blits_inside_iff, List.forall_mem_map]
  exact forall₂_congr fun p _ => ⟨fun h => h (hne p), fun h _ => h⟩

/-- The buffer after a run of an assembler. -/
theorem buffer_run {P M : Type} [FrameType M] {r : Receiver P M}
    {message : P → ℕ × List UInt8}
    (hstep : ∀ s p, (r.step s p).buffer = Memory.blit s.buffer (message p).1 (message p).2)
    (batches : List (List P)) :
    (r.run batches).buffer = Memory.blits r.start.buffer (batches.flatten.map message) := by
  have hfold : ∀ (packets : List P) (s : LoopState M),
      (packets.foldl r.step s).buffer = Memory.blits s.buffer (packets.map message) := by
    intro packets
    induction packets with
    | nil => intro s; rfl
    | cons p packets ih =>
      intro s
      rw [List.foldl_cons, ih, hstep, List.map_cons, Memory.blits_cons]
  rw [run, ← List.foldl_flatten, hfold]

/-! ### Eiger and Jungfrau -/

namespace SlsLoop

variable {P M : Type} [FrameType M] {l : SlsLoop P M} {packetImageId : P → ℕ}

/-- Every packet is copied once, whatever branch it takes. -/
theorem buffer_step (s : LoopState M) (p : P) :
    (l.step s p).buffer = Memory.blit s.buffer
      (l.packetNumber p * l.dataBytesPerPacket % 2 ^ 32) (l.data p) := by
  rw [step]
  split
  · simp only
    split <;> rfl
  · simp only
    split <;> rfl

theorem staysInside_iff {batches : List (List P)} {size : ℕ} (header : M) (k : ℕ)
    (hbytes : 2 ^ k * l.dataBytesPerPacket = 2 ^ 32)
    (hdata : ∀ p, (l.data p).length = l.dataBytesPerPacket) :
    StaysInside (fun memory => (l.receiver packetImageId ⟨header, memory, []⟩).run batches) size ↔
      ∀ p ∈ batches.flatten, l.packetNumber p % 2 ^ k < size / l.dataBytesPerPacket := by
  have hpos : 0 < l.dataBytesPerPacket := by
    rcases Nat.eq_zero_or_pos l.dataBytesPerPacket with hzero | hpos
    · rw [hzero, Nat.mul_zero] at hbytes
      cases hbytes
    · exact hpos
  rw [UdpRecv.staysInside_iff
    (fun p => (l.packetNumber p * l.dataBytesPerPacket % 2 ^ 32, l.data p))
    (fun p => List.length_pos_iff.mp (by rw [hdata]; exact hpos))
    fun memory => buffer_run buffer_step batches]
  refine forall₂_congr fun p _ => ?_
  -- the offset wraps together with the packet number
  rw [hdata, ← hbytes, Nat.mul_mod_mul_right, ← Nat.succ_mul, ← Nat.le_div_iff_mul_le hpos]
  exact Nat.succ_le_iff

end SlsLoop

/-- `MODULE_N_BYTES` of the Jungfrau detector, which is what its receiver allocates. -/
def jfModuleNBytes : ℕ := 2 * (512 * 1024)

theorem egStaysInside_iff (bitDepth : ℤ) (moduleId : ℕ) (batches : List (List EGUdpPacket)) :
    StaysInside (fun memory => (egReceiver bitDepth moduleId memory).run batches)
        (egLoop bitDepth moduleId).frameNBytes ↔
      ∀ p ∈ batches.flatten,
        p.packetNumber % 2 ^ 20 < (egLoop bitDepth moduleId).nPacketsPerFrame :=
  SlsLoop.staysInside_iff (l := egLoop bitDepth moduleId) _ 20 rfl EGUdpPacket.data_length

theorem jfStaysInside_iff (moduleId : ℕ) (batches : List (List JFUdpPacket)) :
    StaysInside (fun memory => (jfReceiver moduleId memory).run batches) jfModuleNBytes ↔
      ∀ p ∈ batches.flatten, p.packetnum % 2 ^ 19 < 128 :=
  SlsLoop.staysInside_iff (l := jfLoop) _ 19 rfl JFUdpPacket.data_length

/-! ### GigaFRoST -/

open GigaFrost

/-- The number of whole rows for which there is room in the frame buffer besides the bytes that are
copied. -/
def rowsLeft (sizes : ReceiverSizes) (packetStartingRow : ℕ) : ℕ :=
  (2 * (sizes.bytesPerModule - sizes.copiedBytes packetStartingRow) + 1) /
    (3 * sizes.widthInPixels)

/-- What is copied is not more than the frame buffer, and it begins early enough. -/
def StartsInside (sizes : ReceiverSizes) (packetStartingRow : ℕ) : Prop :=
  sizes.copiedBytes packetStartingRow ≤ sizes.bytesPerModule ∧
    packetStartingRow ≤ rowsLeft sizes packetStartingRow

instance (sizes : ReceiverSizes) (packetStartingRow : ℕ) :
    Decidable (StartsInside sizes packetStartingRow) :=
  inferInstanceAs (Decidable (_ ∧ _))

/-- The range a packet is copied to. -/
def gfMessage (sizes : ReceiverSizes) (p : GFUdpPacket) : ℕ × List UInt8 :=
  (sizes.frameBufferOffset p.packetStartingRow, p.data.take (sizes.copiedBytes p.packetStartingRow))

theorem buffer_gfStep (sizes : ReceiverSizes) (s : LoopState GFFrame) (p : GFUdpPacket) :
    (gfStep sizes s p).buffer =
      Memory.blit s.buffer (gfMessage sizes p).1 (gfMessage sizes p).2 := by
  have hprocess : ∀ s, (gfProcessPacket sizes s p).buffer =
      Memory.blit s.buffer (gfMessage sizes p).1 (gfMessage sizes p).2 := by
    intro s
    rw [gfProcessPacket, gfMessage, ReceiverSizes.copiedBytes]
    by_cases hlast : p.packetStartingRow ≠ sizes.startRowLastPacket
    · simp only [if_pos hlast]
    · simp only [if_neg hlast]
      rfl
  rw [gfStep]
  split
  · exact hprocess s
  · simp only
    rw [hprocess]
    split <;> rfl

section Sizes

variable {h w : ℤ}

/-- A packet is at most as long as the data of a `GFUdpPacket`, and not empty. -/
theorem copiedBytes_range (hw : IsInt w) (hr : 1 ≤ nRowsPerPacket h w) (row : ℕ) :
    1 ≤ (receiverSizes h w).copiedBytes row ∧
      (receiverSizes h w).copiedBytes row ≤ packetNDataBytesMax := by
  obtain ⟨hwidth, -, hpixels⟩ := pixels_of_packet hw hr
  -- the bytes of up to as many rows as a packet has
  have hrange : ∀ n, 1 ≤ n → n ≤ nRowsPerPacket h w →
      1 ≤ moduleNXPixels w * n * 3 / 2 + padding n (moduleNXPixels w) ∧
        moduleNXPixels w * n * 3 / 2 + padding n (moduleNXPixels w) ≤ 7400 := by
    intro n hn hle
    have hfew : moduleNXPixels w * n ≤ 4896 := (Nat.mul_le_mul_left _ hle).trans hpixels
    have hmany : 12 * 1 ≤ moduleNXPixels w * n := Nat.mul_le_mul hwidth hn
    have hpad : padding n (moduleNXPixels w) ≤ 36 := by
      rw [padding]
      split <;> omega
    omega
  rw [ReceiverSizes.copiedBytes]
  split
  · have hmod : moduleNXPixels w * nRowsPerPacket h w % 2 ^ 32 =
        moduleNXPixels w * nRowsPerPacket h w := Nat.mod_eq_of_lt (by omega)
    change 1 ≤ nDataBytesPerPacket h w ∧ nDataBytesPerPacket h w ≤ 7400
    rw [nDataBytesPerPacket, hmod]
    exact hrange _ hr le_rfl
  · refine hrange (lastPacketNRows h w) ?_ (lastPacketNRows_le hr)
    rw [lastPacketNRows]
    split <;> omega

theorem gfStaysInside_iff (hw : IsInt w) (hr : 1 ≤ nRowsPerPacket h w) (moduleId : ℕ)
    (batches : List (List GFUdpPacket)) :
    StaysInside (fun memory => (gfReceiver (receiverSizes h w) moduleId memory).run batches)
        (receiverSizes h w).bytesPerModule ↔
      ∀ p ∈ batches.flatten, StartsInside (receiverSizes h w) p.packetStartingRow := by
  have hlength : ∀ p : GFUdpPacket, (gfMessage (receiverSizes h w) p).2.length =
      (receiverSizes h w).copiedBytes p.packetStartingRow := by
    intro p
    rw [gfMessage, List.length_take, p.data_length]
    exact Nat.min_eq_left (copiedBytes_range hw hr _).2
  have hne : ∀ p : GFUdpPacket, (gfMessage (receiverSizes h w) p).2 ≠ [] := by
    intro p
    refine List.length_pos_iff.mp ?_
    rw [hlength]
    exact (copiedBytes_range hw hr _).1
  rw [staysInside_iff (gfMessage (receiverSizes h w)) hne fun memory =>
    buffer_run (buffer_gfStep _) batches]
  refine forall₂_congr fun p _ => ?_
  obtain ⟨hwidth, hwidth', -⟩ := pixels_of_packet hw hr
  have hoffset : (receiverSizes h w).frameBufferOffset p.packetStartingRow =
      p.packetStartingRow * moduleNXPixels w * 3 / 2 := by
    have hmul : p.packetStartingRow * moduleNXPixels w ≤ 2 ^ 16 * 2471 :=
      Nat.mul_le_mul p.packetStartingRow_lt.le hwidth'
    change p.packetStartingRow * moduleNXPixels w % 2 ^ 32 * 3 / 2 = _
    rw [Nat.mod_eq_of_lt (by omega)]
  rw [hlength, gfMessage, hoffset, StartsInside, rowsLeft]
  change _ ↔ _ ∧ _ ≤ _ / (3 * moduleNXPixels w)
  rw [Nat.le_div_iff_mul_le (by omega), Nat.mul_left_comm,
    Nat.mul_comm 3 (p.packetStartingRow * moduleNXPixels w)]
  omega

end Sizes

/-- **The packets for which the receivers stay inside their frame buffers.** Eiger and Jungfrau: the
packet number, modulo what the 32-bit offset keeps of it, is that of a packet of the frame.
GigaFRoST, for every image size whose packets have rows: the starting row leaves room for what is
copied, where what is copied depends on whether the row is the starting row of the last packet. -/
theorem receivers_stay_inside_iff (moduleId : ℕ) :
    (∀ (bitDepth : ℤ) (batches : List (List EGUdpPacket)),
      StaysInside (fun memory => (egReceiver bitDepth moduleId memory).run batches)
          (egLoop bitDepth moduleId).frameNBytes ↔
        ∀ p ∈ batches.flatten,
          p.packetNumber % 2 ^ 20 < (egLoop bitDepth moduleId).nPacketsPerFrame) ∧
    (∀ batches : List (List JFUdpPacket),
      StaysInside (fun memory => (jfReceiver moduleId memory).run batches) jfModuleNBytes ↔
        ∀ p ∈ batches.flatten, p.packetnum % 2 ^ 19 < 128) ∧
    (∀ h w : ℤ, IsInt w → 1 ≤ nRowsPerPacket h w → ∀ batches : List (List GFUdpPacket),
      StaysInside (fun memory => (gfReceiver (receiverSizes h w) moduleId memory).run batches)
          (receiverSizes h w).bytesPerModule ↔
        ∀ p ∈ batches.flatten, StartsInside (receiverSizes h w) p.packetStartingRow) :=
  ⟨fun bitDepth => egStaysInside_iff bitDepth moduleId, jfStaysInside_iff moduleId,
    fun _ _ hw hr => gfStaysInside_iff hw hr moduleId⟩

/-- A GigaFRoST packet. -/
def gfPacket (frameIndex packetStartingRow : ℕ) (hrow : packetStartingRow < 2 ^ 16) : GFUdpPacket :=
  { quadrantRows := 0
    statusFlags := 0
    scanId := 0
    frameIndex := frameIndex
    imageStatusFlags := 0
    packetStartingRow := packetStartingRow
    imageTiming := 0
    syncTime := 0
    scanTime := 0
    data := List.replicate packetNDataBytesMax 0
    packetStartingRow_lt := hrow
    data_length := length_zeros }

/-- The full detector has packets of four rows. The last of them starts at row 500. -/
theorem receivers_stay_inside_full_image :
    StaysInside (fun memory => (gfReceiver (receiverSizes 2016 2016) 0 memory).run
      [[gfPacket 7 0 (by decide), gfPacket 7 500 (by decide)]])
      (receiverSizes 2016 2016).bytesPerModule := by
  refine ((receivers_stay_inside_iff 0).2.2 2016 2016 (by decide) (by decide) _).mpr ?_
  intro p hp
  simp only [List.flatten_cons, List.flatten_nil, List.append_nil, List.mem_cons, List.not_mem_nil,
    or_false] at hp
  rcases hp with rfl | rfl
  · change StartsInside (receiverSizes 2016 2016) 0
    decide
  · change StartsInside (receiverSizes 2016 2016) 500
    decide

/-- An Eiger packet. -/
def egPacket (frameNum packetNumber : ℕ) : EGUdpPacket :=
  ⟨frameNum, packetNumber, 0, 0, List.replicate 4096 0, List.length_replicate⟩

/-- One packet is enough to write behind the frame buffer: packet 64 of an Eiger frame of 64
packets, packet 128 of a Jungfrau frame, and a GigaFRoST packet that starts below the last row. -/
theorem receivers_write_outside :
    ¬ StaysInside (fun memory => (egReceiver 16 0 memory).run [[egPacket 7 64]])
      (egLoop 16 0).frameNBytes ∧
    ¬ StaysInside (fun memory => (jfReceiver 0 memory).run [[jfPacket 7 128 1007]])
      jfModuleNBytes ∧
    ¬ StaysInside (fun memory => (gfReceiver (receiverSizes 2016 2016) 0 memory).run
      [[gfPacket 7 65535 (by decide)]]) (receiverSizes 2016 2016).bytesPerModule := by
  refine ⟨fun h => ?_, fun h => ?_, fun h => ?_⟩
  · have hinside := (egStaysInside_iff 16 0 _).mp h (egPacket 7 64) (by simp)
    change 64 % 2 ^ 20 < (egLoop 16 0).nPacketsPerFrame at hinside
    exact absurd hinside (by decide)
  · have hinside := (jfStaysInside_iff 0 _).mp h (jfPacket 7 128 1007) (by simp)
    change 128 % 2 ^ 19 < 128 at hinside
    exact absurd hinside (by decide)
  · have hinside := (gfStaysInside_iff (by decide) (by decide) 0 _).mp h
      (gfPacket 7 65535 (by decide)) (by simp)
    change StartsInside (receiverSizes 2016 2016) 65535 at hinside
    exact absurd hinside (by decide)

end UdpRecv

end StdDaq
