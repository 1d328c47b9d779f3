import StdDaq.GigaFrost.Sizes

/-!
# The packets of a GigaFRoST frame

`PACKET_N_DATA_BYTES_MAX` is the size of the data in a packet, and the receiver copies from there
as many bytes as its own sizes say. It commits a frame at the packet that starts at
`start_row_last_packet`, and it has no other way to tell the last packet.

The width decides on both. Rows of `12 * b` pixels, and up to eleven more, are cut into cache lines
by a nest of truncating divisions, which leaves at most 4896 pixels in a packet: 7344 bytes, and the
padding. There is room for 20 bytes more.

## Main results

* `payload_fits` — no copy reads behind the data of a packet
* `wellFormed_geometry` — and the frame is committed at its last packet
-/

namespace StdDaq

namespace GigaFrost

section Packets

variable {h w : ℤ}

theorem padding_le (nRows moduleWidth : ℕ) : padding nRows moduleWidth ≤ 36 := by
  rw [padding]
  split
  · exact Nat.le_refl _
  · exact Nat.zero_le _

/-- A packet of at most as many rows as the others is no longer than 7380 bytes. -/
theorem rows_fit (hw : IsInt w) (hr : 1 ≤ nRowsPerPacket h w) {n : ℕ}
    (hn : n ≤ nRowsPerPacket h w) :
    moduleNXPixels w * n * 3 / 2 + padding n (moduleNXPixels w) ≤ 7380 := by
  obtain ⟨-, -, hpixels⟩ := pixels_of_packet hw hr
  have hrows : moduleNXPixels w * n ≤ 4896 := (Nat.mul_le_mul_left _ hn).trans hpixels
  have hpad := padding_le n (moduleNXPixels w)
  omega

theorem nDataBytesPerPacket_le (hw : IsInt w) (hr : 1 ≤ nRowsPerPacket h w) :
    nDataBytesPerPacket h w ≤ 7380 := by
  obtain ⟨-, -, hpixels⟩ := pixels_of_packet hw hr
  have hfit := rows_fit hw hr (Nat.le_refl _)
  simp only [nDataBytesPerPacket]
  rwa [Nat.mod_eq_of_lt (by omega)]

theorem bytesOfLastPacket_le (hw : IsInt w) (hr : 1 ≤ nRowsPerPacket h w) :
    (receiverSizes h w).bytesOfLastPacket ≤ 7380 :=
  rows_fit hw hr (lastPacketNRows_le hr)

/-- Whatever row a packet says it starts at, the copy stays in its data. -/
theorem payload_fits (hw : IsInt w) (hr : 1 ≤ nRowsPerPacket h w) (packetStartingRow : ℕ) :
    (receiverSizes h w).copiedBytes packetStartingRow ≤ packetNDataBytesMax := by
  rw [packetNDataBytesMax, ReceiverSizes.copiedBytes]
  split
  · exact (nDataBytesPerPacket_le hw hr).trans (by decide)
  · exact (bytesOfLastPacket_le hw hr).trans (by decide)

theorem lastPacketNRows_pos (hr : 1 ≤ nRowsPerPacket h w) : 1 ≤ lastPacketNRows h w := by
  rw [lastPacketNRows]
  split
  · exact hr
  · next hne => exact Nat.pos_of_ne_zero hne

theorem nPacketsPerFrame_pos (hr : 1 ≤ nRowsPerPacket h w) : 1 ≤ nPacketsPerFrame h w := by
  have hle := nRowsPerPacket_le (h := h) (w := w)
  exact Nat.div_pos (by omega) hr

/-- The last packet starts behind the full ones. -/
theorem startRowLastPacket_eq (hr : 1 ≤ nRowsPerPacket h w) :
    (receiverSizes h w).startRowLastPacket = (nPacketsPerFrame h w - 1) * nRowsPerPacket h w := by
  have hrows := rows_of_frame hr
  change moduleNYPixels h - lastPacketNRows h w = _
  omega

end Packets

/-- What the receiver relies on when it takes a frame of `h` times `w` pixels from its packets. -/
structure WellFormedGeometry (h w : ℤ) : Prop where
  /-- The data of a full packet are in the packet. -/
  payload : nDataBytesPerPacket h w ≤ packetNDataBytesMax
  /-- So are those of the last one. -/
  lastPayload : (receiverSizes h w).bytesOfLastPacket ≤ packetNDataBytesMax
  /-- So is every copy. -/
  copies : ∀ packetStartingRow,
    (receiverSizes h w).copiedBytes packetStartingRow ≤ packetNDataBytesMax
  /-- There is a last packet. -/
  packets_pos : 1 ≤ nPacketsPerFrame h w
  /-- It is not empty. -/
  lastRows_pos : 1 ≤ lastPacketNRows h w
  /-- It has no more rows than the others. -/
  lastRows_le : lastPacketNRows h w ≤ nRowsPerPacket h w
  /-- It ends with the module. -/
  lastRow : (receiverSizes h w).startRowLastPacket + lastPacketNRows h w = moduleNYPixels h
  /-- It starts behind the full packets. -/
  startRow : (receiverSizes h w).startRowLastPacket
    = (nPacketsPerFrame h w - 1) * nRowsPerPacket h w
  /-- It is the only packet taken for the last one. -/
  recognised : ∀ i < nPacketsPerFrame h w,
    i * nRowsPerPacket h w = (receiverSizes h w).startRowLastPacket ↔ i = nPacketsPerFrame h w - 1

/-- **The packets of a frame are well formed** for every image with at least one row in a packet:
no copy reads behind the data of a packet, and among the packets that start at the multiples of the
rows exactly the last one is taken for the last one. -/
theorem wellFormed_geometry {h w : ℤ} (hw : IsInt w) (hr : 1 ≤ nRowsPerPacket h w) :
    WellFormedGeometry h w where
  payload := (nDataBytesPerPacket_le hw hr).trans (by decide)
  lastPayload := (bytesOfLastPacket_le hw hr).trans (by decide)
  copies := payload_fits hw hr
  packets_pos := nPacketsPerFrame_pos hr
  lastRows_pos := lastPacketNRows_pos hr
  lastRows_le := lastPacketNRows_le hr
  lastRow := by
    rw [startRowLastPacket_eq hr]
    exact rows_of_frame hr
  startRow := startRowLastPacket_eq hr
  recognised i _ := by
    rw [startRowLastPacket_eq hr]
    exact Nat.mul_left_inj (Nat.ne_of_gt hr)

/-- Rows of 254 pixels, which are no whole blocks of twelve. -/
theorem wellFormed_geometry_508 : WellFormedGeometry 252 508 :=
  wellFormed_geometry (by decide) (by decide)

end GigaFrost

end StdDaq
