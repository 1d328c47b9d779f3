import StdDaq.DetectorConfig

/-!
# The sizes of a GigaFRoST module

A module of a GigaFRoST image arrives in packets of whole rows. How many rows go into a packet, how
many bytes the receiver stores for it and how large the shared slots are, all follow from the height
and the width of the image: `detectors/gigafrost.hpp`, the set-up of `std_udp_recv_gf` and the
set-up of `std_data_convert_gf`. The two services compute the size of the slots on their own.

A packet with an odd number of rows is padded by 36 bytes unless its rows are whole cache lines, and
the services do not agree on what that means for the last packet of a frame and for the memory the
frame is assembled in.

Sizes are formed in `uint32_t` up to the rows of a packet, and those products are taken modulo
`2 ^ 32`. Fewer than 12 columns, or no row in a packet, is a division by zero in the source; here
the number of rows per packet is then zero, and nothing is said about that case. A packet holds at
most 7344 bytes of rows, so the products in `size_t` cannot wrap. The factor `1.5` and the ceiling
are taken in `double`, exactly: the numbers have at most 32 bits.

## Main results

* `slots_agree_iff` — when both services use slots of the same size
* `receivesInBounds_iff` — when the receiver stays inside the memory it allocates
-/

namespace StdDaq

namespace GigaFrost

/-- `PACKET_N_DATA_BYTES_MAX`. -/
def packetNDataBytesMax : ℕ := 7400

/-- `module_n_x_pixels`. -/
def moduleNXPixels (imagePixelWidth : ℤ) : ℕ := toUInt32 (imagePixelWidth.tdiv 2)

/-- `module_n_y_pixels`. -/
def moduleNYPixels (imagePixelHeight : ℤ) : ℕ := toUInt32 ((imagePixelHeight.tdiv 2).tdiv 2)

/-- `module_n_data_bytes`. -/
def moduleNDataBytes (imagePixelHeight imagePixelWidth : ℤ) : ℕ :=
  moduleNXPixels imagePixelWidth * moduleNYPixels imagePixelHeight % 2 ^ 32 * 3 % 2 ^ 32 / 2

/-- `n_rows_per_packet`. -/
def nRowsPerPacket (imagePixelHeight imagePixelWidth : ℤ) : ℕ :=
  let moduleWidth := moduleNXPixels imagePixelWidth
  let moduleHeight := moduleNYPixels imagePixelHeight
  let n12PixelBlocks := moduleWidth / 12
  let nCacheLineBlocks :=
    packetNDataBytesMax / (36 * n12PixelBlocks % 2 ^ 32) * n12PixelBlocks % 2 ^ 32 / 2
  min (nCacheLineBlocks * 48 % 2 ^ 32 / moduleWidth) moduleHeight

/-- The padding of a packet with this many rows. -/
def padding (nRows moduleWidth : ℕ) : ℕ := if nRows % 2 = 1 ∧ moduleWidth % 48 ≠ 0 then 36 else 0

/-- `n_data_bytes_per_packet`. -/
def nDataBytesPerPacket (imagePixelHeight imagePixelWidth : ℤ) : ℕ :=
  let packetNRows := nRowsPerPacket imagePixelHeight imagePixelWidth
  let moduleNXPixel := moduleNXPixels imagePixelWidth
  moduleNXPixel * packetNRows % 2 ^ 32 * 3 / 2 + padding packetNRows moduleNXPixel

/-- `n_packets_per_frame`. -/
def nPacketsPerFrame (imagePixelHeight imagePixelWidth : ℤ) : ℕ :=
  let rows := nRowsPerPacket imagePixelHeight imagePixelWidth
  (moduleNYPixels imagePixelHeight + rows - 1) / rows

/-- The number of rows of the last packet, as `last_packet_n_bytes` and the receiver find it. -/
def lastPacketNRows (imagePixelHeight imagePixelWidth : ℤ) : ℕ :=
  let rows := nRowsPerPacket imagePixelHeight imagePixelWidth
  if moduleNYPixels imagePixelHeight % rows = 0 then rows
  else moduleNYPixels imagePixelHeight % rows

/-- `last_packet_n_bytes`. -/
def lastPacketNBytes (imagePixelHeight imagePixelWidth : ℤ) : ℕ :=
  lastPacketNRows imagePixelHeight imagePixelWidth * moduleNXPixels imagePixelWidth % 2 ^ 32 * 3
    % 2 ^ 32 / 2

/-- The sizes `std_udp_recv_gf` works out before its loop. -/
structure ReceiverSizes where
  widthInPixels : ℕ
  heightInPixels : ℕ
  /-- What is allocated for `frame_buffer`. -/
  bytesPerModule : ℕ
  rowsPerPacket : ℕ
  bytesPerPacket : ℕ
  packetsInFrame : ℕ
  bytesOfLastPacket : ℕ
  startRowLastPacket : ℕ
  /-- The size of a slot. -/
  bytesOfFrame : ℕ
  deriving DecidableEq, Repr

/-- The set-up of `std_udp_recv_gf`. -/
def receiverSizes (imagePixelHeight imagePixelWidth : ℤ) : ReceiverSizes :=
  let widthInPixels := moduleNXPixels imagePixelWidth
  let heightInPixels := moduleNYPixels imagePixelHeight
  let bytesPerPacket := nDataBytesPerPacket imagePixelHeight imagePixelWidth
  let packetsInFrame := nPacketsPerFrame imagePixelHeight imagePixelWidth
  let lastPacketNRows := lastPacketNRows imagePixelHeight imagePixelWidth
  let bytesOfLastPacket :=
    widthInPixels * lastPacketNRows * 3 / 2 + padding lastPacketNRows widthInPixels
  { widthInPixels := widthInPixels
    heightInPixels := heightInPixels
    bytesPerModule := moduleNDataBytes imagePixelHeight imagePixelWidth
    rowsPerPacket := nRowsPerPacket imagePixelHeight imagePixelWidth
    bytesPerPacket := bytesPerPacket
    packetsInFrame := packetsInFrame
    bytesOfLastPacket := bytesOfLastPacket
    startRowLastPacket := heightInPixels - lastPacketNRows
    bytesOfFrame := bytesPerPacket * (packetsInFrame - 1) + bytesOfLastPacket }

namespace ReceiverSizes

/-- `frame_buffer_offset` of a packet. -/
def frameBufferOffset (r : ReceiverSizes) (packetStartingRow : ℕ) : ℕ :=
  packetStartingRow * r.widthInPixels % 2 ^ 32 * 3 / 2

/-- The number of bytes `process_packet` copies. -/
def copiedBytes (r : ReceiverSizes) (packetStartingRow : ℕ) : ℕ :=
  if packetStartingRow ≠ r.startRowLastPacket then r.bytesPerPacket else r.bytesOfLastPacket

end ReceiverSizes

/-- `MODULE_DATA_IN_BYTES` of `std_data_convert_gf`: the size of a slot as the converter finds
it. -/
def moduleDataInBytes (imagePixelHeight imagePixelWidth : ℤ) : ℕ :=
  nDataBytesPerPacket imagePixelHeight imagePixelWidth *
    (nPacketsPerFrame imagePixelHeight imagePixelWidth - 1) +
    lastPacketNBytes imagePixelHeight imagePixelWidth

/-- `RECEIVER_RAM_BUFFER_N_SLOTS`. -/
def receiverRamBufferNSlots : ℕ := 1000

/-- `RamBuffer::get_data`, as an offset from the start of the buffer. -/
def slotOffset (dataBytes id : ℕ) : ℕ := id % receiverRamBufferNSlots * dataBytes

/-! ### Rows and packets -/

section Rows

variable {h w : ℤ}

theorem toUInt32_lt (x : ℤ) : toUInt32 x < 2 ^ 32 := by
  rw [toUInt32]
  omega

/-- Half an `int` is small, or it was negative. -/
theorem moduleNXPixels_range (hw : IsInt w) :
    moduleNXPixels w < 2 ^ 30 ∨ 2 ^ 32 - 2 ^ 30 ≤ moduleNXPixels w := by
  obtain ⟨hlo, hhi⟩ := hw
  rw [moduleNXPixels, toUInt32]
  have hdiv : w.tdiv 2 < 2 ^ 30 ∧ -2 ^ 30 ≤ w.tdiv 2 := by
    have hsign : Int.sign 2 = 1 := rfl
    rw [Int.tdiv_eq_ediv, hsign]
    split <;> omega
  generalize w.tdiv 2 = x at hdiv
  omega

/-- A packet holds two rows of 12-pixel blocks only if they are few: what a negative width makes
of the product stays far above the size of a packet. -/
theorem blocks_of_row {mw : ℕ} (hrange : mw < 2 ^ 30 ∨ 2 ^ 32 - 2 ^ 30 ≤ mw) (hlt : mw < 2 ^ 32)
    (hrows : 7400 / (36 * (mw / 12) % 2 ^ 32) ≠ 0) : 1 ≤ mw / 12 ∧ mw / 12 ≤ 205 := by
  obtain ⟨hpos, hle⟩ := Nat.div_ne_zero_iff.mp hrows
  have hb : mw / 12 < 2 ^ 30 := by omega
  generalize hblocks : mw / 12 = b at *
  rcases hrange with hsmall | hlarge
  · have hsmall' : 36 * b < 2 ^ 32 := by omega
    rw [Nat.mod_eq_of_lt hsmall'] at hpos hle
    omega
  · -- the product wraps twice
    have hlow : 2 * 2 ^ 32 + 7400 < 36 * b := by omega
    have hhigh : 36 * b < 3 * 2 ^ 32 := by omega
    have hmod : 36 * b % 2 ^ 32 = 36 * b - 2 ^ 32 - 2 ^ 32 := by
      rw [Nat.mod_eq_sub_mod (by omega), Nat.mod_eq_sub_mod (by omega),
        Nat.mod_eq_of_lt (by omega)]
    rw [hmod] at hle
    omega

/-- The rows of a packet have no more blocks than a packet. -/
theorem blocks_of_packet {b : ℕ} (hb : b ≤ 205) : 7400 / (36 * b % 2 ^ 32) * b ≤ 205 := by
  rw [Nat.mod_eq_of_lt (by omega)]
  have hle := Nat.div_mul_le_self 7400 (36 * b)
  rw [Nat.mul_left_comm] at hle
  omega

/-- A packet of at least one row has rows of 12 to 2471 pixels, and at most 4896 pixels. -/
theorem pixels_of_packet (hw : IsInt w) (hr : 1 ≤ nRowsPerPacket h w) :
    12 ≤ moduleNXPixels w ∧ moduleNXPixels w ≤ 2471 ∧
      moduleNXPixels w * nRowsPerPacket h w ≤ 4896 := by
  have hrange := moduleNXPixels_range hw
  have hlt : moduleNXPixels w < 2 ^ 32 := toUInt32_lt _
  simp only [nRowsPerPacket, packetNDataBytesMax] at hr ⊢
  generalize moduleNXPixels w = mw at *
  generalize moduleNYPixels h = mh at *
  have hrows : 7400 / (36 * (mw / 12) % 2 ^ 32) ≠ 0 := by
    intro h0
    rw [h0] at hr
    simp at hr
  obtain ⟨hone, hmany⟩ := blocks_of_row hrange hlt hrows
  have hmul := blocks_of_packet hmany
  generalize 7400 / (36 * (mw / 12) % 2 ^ 32) * (mw / 12) = blocks at *
  refine ⟨by omega, by omega, ?_⟩
  have hcache : blocks % 2 ^ 32 / 2 * 48 ≤ 4896 := by omega
  calc mw * min (blocks % 2 ^ 32 / 2 * 48 % 2 ^ 32 / mw) mh
      ≤ mw * (blocks % 2 ^ 32 / 2 * 48 % 2 ^ 32 / mw) :=
        Nat.mul_le_mul_left _ (Nat.min_le_left _ _)
    _ ≤ blocks % 2 ^ 32 / 2 * 48 % 2 ^ 32 := Nat.mul_div_le _ _
    _ ≤ 4896 := (Nat.mod_le _ _).trans hcache

/-- Cutting `m` rows into packets of `r` rows: all but the last are full. -/
theorem rows_of_packets {m r : ℕ} (hr : 1 ≤ r) (hm : 1 ≤ m) :
    ((m + r - 1) / r - 1) * r + (if m % r = 0 then r else m % r) = m := by
  have hm' := Nat.div_add_mod m r
  rw [Nat.mul_comm] at hm'
  split
  · next h0 =>
    have hq : 1 ≤ m / r := by
      rcases Nat.eq_zero_or_pos (m / r) with hz | hz
      · rw [hz] at hm'
        omega
      · exact hz
    have hceil : (m + r - 1) / r = m / r := by
      refine Nat.div_eq_of_lt_le (by omega) ?_
      rw [Nat.add_mul, Nat.one_mul]
      omega
    rw [hceil, Nat.sub_mul, Nat.one_mul]
    have := Nat.mul_le_mul_right r hq
    omega
  · next h0 =>
    have hlt := Nat.mod_lt m hr
    have hceil : (m + r - 1) / r = m / r + 1 := by
      refine Nat.div_eq_of_lt_le ?_ ?_ <;> simp only [Nat.add_mul, Nat.one_mul] <;> omega
    rw [hceil, Nat.add_sub_cancel]
    omega

theorem nRowsPerPacket_le : nRowsPerPacket h w ≤ moduleNYPixels h := Nat.min_le_right _ _

/-- The rows of a frame: all packets but the last are full. -/
theorem rows_of_frame (hr : 1 ≤ nRowsPerPacket h w) :
    (nPacketsPerFrame h w - 1) * nRowsPerPacket h w + lastPacketNRows h w = moduleNYPixels h :=
  rows_of_packets hr (hr.trans nRowsPerPacket_le)

theorem lastPacketNRows_le (hr : 1 ≤ nRowsPerPacket h w) :
    lastPacketNRows h w ≤ nRowsPerPacket h w := by
  rw [lastPacketNRows]
  split
  · exact Nat.le_refl _
  · exact (Nat.mod_lt _ hr).le

theorem padding_eq_zero_iff {nRows moduleWidth : ℕ} :
    padding nRows moduleWidth = 0 ↔ moduleWidth % 48 = 0 ∨ nRows % 2 = 0 := by
  rw [padding]
  split <;> omega

end Rows

/-! ### The size of the slots -/

/-- Both services find the slot of every image at the same place. -/
structure SlotsAgree (h w : ℤ) : Prop where
  size : (receiverSizes h w).bytesOfFrame = moduleDataInBytes h w
  start : ∀ id,
    slotOffset (receiverSizes h w).bytesOfFrame id = slotOffset (moduleDataInBytes h w) id

/-- **The slots of receiver and converter agree unless the last packet is padded.** The receiver
counts the padding of the last packet and the converter does not. -/
theorem slots_agree_iff {h w : ℤ} (hw : IsInt w) (hr : 1 ≤ nRowsPerPacket h w) :
    SlotsAgree h w ↔ moduleNXPixels w % 48 = 0 ∨ lastPacketNRows h w % 2 = 0 := by
  obtain ⟨-, -, hpixels⟩ := pixels_of_packet hw hr
  have hlast : moduleNXPixels w * lastPacketNRows h w ≤ 4896 :=
    (Nat.mul_le_mul_left _ (lastPacketNRows_le hr)).trans hpixels
  have hbytes : lastPacketNBytes h w = moduleNXPixels w * lastPacketNRows h w * 3 / 2 := by
    rw [lastPacketNBytes, Nat.mul_comm (lastPacketNRows h w), Nat.mod_eq_of_lt (by omega),
      Nat.mod_eq_of_lt (by omega)]
  have hsize : (receiverSizes h w).bytesOfFrame
      = moduleDataInBytes h w + padding (lastPacketNRows h w) (moduleNXPixels w) := by
    rw [moduleDataInBytes, hbytes, Nat.add_assoc]
    rfl
  rw [← padding_eq_zero_iff]
  constructor
  · intro hagree
    have := hagree.size
    omega
  · intro h0
    have heq : (receiverSizes h w).bytesOfFrame = moduleDataInBytes h w := by rw [hsize, h0]; rfl
    exact ⟨heq, fun id => by rw [heq]⟩

/-- The image size of the small test configuration: the last packet has twelve rows. -/
theorem slots_agree_small_image : SlotsAgree 252 504 :=
  (slots_agree_iff (by decide) (by decide)).mpr (.inr (by decide))

/-- With twelve rows less the last packet has nine rows of 252 pixels, and the slots differ by the
padding. -/
theorem not_slots_agree_240 : 1 ≤ nRowsPerPacket 240 504 ∧ ¬ SlotsAgree 240 504 :=
  ⟨by decide, fun h => absurd h.size (by decide)⟩

/-! ### The memory of the receiver -/

/-- The receiver stays inside the memory it has allocated for a frame: when it copies a packet into
it, and when the communicator copies a slot out of it. -/
structure ReceivesInBounds (r : ReceiverSizes) : Prop where
  copies : ∀ i < r.packetsInFrame, r.frameBufferOffset (i * r.rowsPerPacket) +
    r.copiedBytes (i * r.rowsPerPacket) ≤ r.bytesPerModule
  slot : r.bytesOfFrame ≤ r.bytesPerModule

section Bounds

variable {h w : ℤ} {k : ℕ}

/-- Rows of `12 * k` pixels take `18 * k` bytes each. -/
theorem bytes_of_rows (hk : moduleNXPixels w = 12 * k) (n : ℕ) :
    moduleNXPixels w * n * 3 / 2 = 18 * (k * n) := by
  rw [hk, Nat.mul_assoc 12]
  omega

theorem moduleNDataBytes_eq (hk : moduleNXPixels w = 12 * k) :
    moduleNDataBytes h w = 36 * (k * moduleNYPixels h) % 2 ^ 32 / 2 := by
  rw [moduleNDataBytes, hk, Nat.mod_mul_mod, Nat.mul_assoc 12]
  congr 2
  omega

theorem nDataBytesPerPacket_eq (hw : IsInt w) (hr : 1 ≤ nRowsPerPacket h w)
    (hk : moduleNXPixels w = 12 * k) :
    nDataBytesPerPacket h w
      = 18 * (k * nRowsPerPacket h w) + padding (nRowsPerPacket h w) (moduleNXPixels w) := by
  obtain ⟨-, -, hpixels⟩ := pixels_of_packet hw hr
  simp only [nDataBytesPerPacket]
  rw [Nat.mod_eq_of_lt (by omega), bytes_of_rows hk]

/-- A slot has the bytes of the module and the padding of all packets. -/
theorem bytesOfFrame_eq (hw : IsInt w) (hr : 1 ≤ nRowsPerPacket h w)
    (hk : moduleNXPixels w = 12 * k) :
    (receiverSizes h w).bytesOfFrame = 18 * (k * moduleNYPixels h) +
      padding (nRowsPerPacket h w) (moduleNXPixels w) * (nPacketsPerFrame h w - 1) +
      padding (lastPacketNRows h w) (moduleNXPixels w) := by
  change nDataBytesPerPacket h w * (nPacketsPerFrame h w - 1) +
    (moduleNXPixels w * lastPacketNRows h w * 3 / 2 + padding _ _) = _
  rw [nDataBytesPerPacket_eq hw hr hk, bytes_of_rows hk]
  conv_rhs => rw [← rows_of_frame hr]
  ring

/-- The padding adds nothing exactly when no packet that counts has an odd number of rows. -/
theorem no_padding_iff (hr : 1 ≤ nRowsPerPacket h w) :
    padding (nRowsPerPacket h w) (moduleNXPixels w) * (nPacketsPerFrame h w - 1) +
      padding (lastPacketNRows h w) (moduleNXPixels w) = 0 ↔
    moduleNXPixels w % 48 = 0 ∨ (moduleNYPixels h % 2 = 0 ∧ nRowsPerPacket h w % 2 = 0) := by
  have hrows := rows_of_frame hr
  rw [Nat.add_eq_zero_iff, Nat.mul_eq_zero, padding_eq_zero_iff, padding_eq_zero_iff]
  constructor
  · rintro ⟨hfull, hlast⟩
    refine or_iff_not_imp_left.mpr fun hwidth => ?_
    have hlast := hlast.resolve_left hwidth
    rcases hfull with hfull | hone
    · have hfull := hfull.resolve_left hwidth
      refine ⟨?_, hfull⟩
      rw [← hrows, Nat.add_mod, Nat.mul_mod, hfull, hlast]
      simp
    · -- a frame of one packet
      rw [hone, Nat.zero_mul, Nat.zero_add] at hrows
      have hle := lastPacketNRows_le hr
      have hge := nRowsPerPacket_le (h := h) (w := w)
      omega
  · rintro (hwidth | ⟨hheight, hfull⟩)
    · exact ⟨.inl (.inl hwidth), .inl hwidth⟩
    · refine ⟨.inl (.inr hfull), .inr ?_⟩
      rw [← hrows, Nat.add_mod, Nat.mul_mod, hfull] at hheight
      simpa using hheight

/-- A copy of unpadded packets stays inside the module. -/
theorem copy_in_bounds (hw : IsInt w) (hr : 1 ≤ nRowsPerPacket h w)
    (hk : moduleNXPixels w = 12 * k) (hwrap : 36 * (k * moduleNYPixels h) < 2 ^ 32)
    (hfull : padding (nRowsPerPacket h w) (moduleNXPixels w) * (nPacketsPerFrame h w - 1) = 0)
    (hlast : padding (lastPacketNRows h w) (moduleNXPixels w) = 0) {i : ℕ}
    (hi : i < nPacketsPerFrame h w) :
    (receiverSizes h w).frameBufferOffset (i * nRowsPerPacket h w) +
      (receiverSizes h w).copiedBytes (i * nRowsPerPacket h w) ≤ 18 * (k * moduleNYPixels h) := by
  have hrows := rows_of_frame hr
  have hi' : i * nRowsPerPacket h w ≤ (nPacketsPerFrame h w - 1) * nRowsPerPacket h w :=
    Nat.mul_le_mul_right _ (by omega)
  have hoffset : (receiverSizes h w).frameBufferOffset (i * nRowsPerPacket h w)
      = 18 * (k * (i * nRowsPerPacket h w)) := by
    have hle : k * (i * nRowsPerPacket h w) ≤ k * moduleNYPixels h :=
      Nat.mul_le_mul_left k (by omega)
    change i * nRowsPerPacket h w * moduleNXPixels w % 2 ^ 32 * 3 / 2 = _
    rw [Nat.mul_comm _ (moduleNXPixels w), Nat.mod_eq_of_lt, bytes_of_rows hk]
    rw [hk, Nat.mul_assoc]
    omega
  rw [hoffset, ReceiverSizes.copiedBytes]
  split
  · -- a full packet ends where the next one starts
    next hne =>
    change i * nRowsPerPacket h w ≠ moduleNYPixels h - lastPacketNRows h w at hne
    have hlt : i < nPacketsPerFrame h w - 1 := by
      rcases Nat.lt_or_ge i (nPacketsPerFrame h w - 1) with hlt | hge
      · exact hlt
      · have : i = nPacketsPerFrame h w - 1 := by omega
        subst this
        omega
    have hpad : padding (nRowsPerPacket h w) (moduleNXPixels w) = 0 :=
      (Nat.mul_eq_zero.mp hfull).resolve_right (by omega)
    change _ + nDataBytesPerPacket h w ≤ _
    rw [nDataBytesPerPacket_eq hw hr hk, hpad, Nat.add_zero, ← Nat.mul_add, ← Nat.mul_add]
    refine Nat.mul_le_mul_left 18 (Nat.mul_le_mul_left k ?_)
    have := Nat.mul_le_mul_right (nRowsPerPacket h w) hlt
    rw [Nat.succ_mul] at this
    omega
  · next heq =>
    change _ + (moduleNXPixels w * lastPacketNRows h w * 3 / 2 + padding _ _) ≤ _
    rw [bytes_of_rows hk, hlast, Nat.add_zero, ← Nat.mul_add, ← Nat.mul_add]
    refine Nat.mul_le_mul_left 18 (Nat.mul_le_mul_left k ?_)
    omega

end Bounds

/-- **The receiver stays inside its memory exactly when no packet is padded.** For rows of whole
12-pixel blocks: the rows of a packet are whole cache lines, or the module and its packets have even
numbers of rows; and the size of the module does not wrap in `uint32_t`. -/
theorem receivesInBounds_iff {h w : ℤ} (hw : IsInt w) (hr : 1 ≤ nRowsPerPacket h w)
    (hblocks : 12 ∣ moduleNXPixels w) :
    ReceivesInBounds (receiverSizes h w) ↔
      moduleNXPixels w * moduleNYPixels h * 3 < 2 ^ 32 ∧
        (moduleNXPixels w % 48 = 0 ∨
          (moduleNYPixels h % 2 = 0 ∧ nRowsPerPacket h w % 2 = 0)) := by
  obtain ⟨k, hk⟩ := hblocks
  have hmodule : (receiverSizes h w).bytesPerModule = 36 * (k * moduleNYPixels h) % 2 ^ 32 / 2 :=
    moduleNDataBytes_eq hk
  have hwrap : moduleNXPixels w * moduleNYPixels h * 3 < 2 ^ 32 ↔
      36 * (k * moduleNYPixels h) < 2 ^ 32 := by
    rw [hk, Nat.mul_assoc 12]
    omega
  rw [hwrap, ← no_padding_iff hr]
  constructor
  · rintro ⟨-, hslot⟩
    rw [hmodule, bytesOfFrame_eq hw hr hk] at hslot
    have hlt : 36 * (k * moduleNYPixels h) < 2 ^ 32 := by
      by_contra hge
      have := Nat.mod_lt (36 * (k * moduleNYPixels h)) (y := 2 ^ 32) (by decide)
      omega
    rw [Nat.mod_eq_of_lt hlt] at hslot
    exact ⟨hlt, by omega⟩
  · rintro ⟨hlt, hpad⟩
    obtain ⟨hfull, hlast⟩ := Nat.add_eq_zero_iff.mp hpad
    have hmodule : (receiverSizes h w).bytesPerModule = 18 * (k * moduleNYPixels h) := by
      rw [hmodule, Nat.mod_eq_of_lt hlt]
      omega
    refine ⟨fun i hi => ?_, ?_⟩
    · rw [hmodule]
      exact copy_in_bounds hw hr hk hlt hfull hlast hi
    · rw [hmodule, bytesOfFrame_eq hw hr hk, hfull, hlast]
      exact Nat.le_refl _

/-- The full detector: 21 cache lines in a row. -/
theorem receivesInBounds_full_image : ReceivesInBounds (receiverSizes 2016 2016) :=
  (receivesInBounds_iff (by decide) (by decide) (by decide)).mpr ⟨by decide, .inl (by decide)⟩

/-- The small test configuration: packets of 17 rows, and the communicator reads 108 bytes behind
the memory of the frame. -/
theorem not_receivesInBounds_small_image :
    1 ≤ nRowsPerPacket 252 504 ∧ 12 ∣ moduleNXPixels 504 ∧
      ¬ ReceivesInBounds (receiverSizes 252 504) :=
  ⟨by decide, by decide, fun h => absurd h.slot (by decide)⟩

end GigaFrost

end StdDaq
