import StdDaq.UdpRecv.Loops

/-!
# Sending a frame with its last packet

When the last packet of a frame arrives, nothing more of the frame will come, and there is no reason
to keep it. The GigaFRoST loop handles the packet that begins a frame like any other, so it sends
the frame in any case. The Eiger and Jungfrau loops look for the last packet in the branch for the
current frame only. If the last packet is the first one of its frame that arrives, the frame waits
for a packet of another frame, which at the end of a scan does not come.

## Main results

* `flushes_on_last_packet` — when the three loops send a frame with its last packet
-/

namespace StdDaq

namespace UdpRecv

open Receiver

/-- From `s` to `s'` the frame with this number was sent, as the frame buffer now is and after
whatever else was sent, and there is no current frame any more. -/
structure Flushed {M : Type} [FrameType M] (currentFrame : M → ℕ) (dataBytes number : ℕ)
    (s s' : LoopState M) : Prop where
  sent : ∃ older header, s'.sent = s.sent ++ older ++
    [send dataBytes (imageId header) header s'.buffer] ∧ currentFrame header = number
  idle : currentFrame s'.header = invalidImageId

namespace SlsLoop

variable {P M : Type} [FrameType M] {l : SlsLoop P M} {s : LoopState M} {p : P}

/-- The last packet of the current frame. -/
theorem step_of_last (hcurrent : l.currentFrame s.header = l.frameNum p)
    (hlast : l.packetNumber p + 1 = l.nPacketsPerFrame) :
    l.step s p =
      { header := l.invalidate (l.countPacket s.header)
        buffer := l.accumulate s.buffer p
        sent := s.sent ++ [send l.frameNBytes (imageId (l.countPacket s.header))
          (l.countPacket s.header) (l.accumulate s.buffer p)] } := by
  have hlast : l.packetNumber p = l.nPacketsPerFrame - 1 := by omega
  rw [step, if_pos hcurrent]
  simp only [if_pos hlast]
  rfl

/-- A packet of another frame is not looked at twice: what is sent is the frame it ends. -/
theorem step_sent_of_ne (hother : l.currentFrame s.header ≠ l.frameNum p) :
    (l.step s p).sent = s.sent ++ if l.currentFrame s.header ≠ invalidImageId then
      [send l.frameNBytes (imageId s.header) s.header s.buffer] else [] := by
  rw [step, if_neg hother]
  split
  · rfl
  · exact (List.append_nil s.sent).symm

/-- **The last packet of a frame flushes the frame** exactly when the frame is the current one. -/
theorem flushed_iff (hcount : ∀ m, l.currentFrame (l.countPacket m) = l.currentFrame m)
    (hinvalidate : ∀ m, l.currentFrame (l.invalidate m) = invalidImageId)
    (hlast : l.packetNumber p + 1 = l.nPacketsPerFrame) :
    Flushed l.currentFrame l.frameNBytes (l.frameNum p) s (l.step s p) ↔
      l.currentFrame s.header = l.frameNum p := by
  constructor
  · rintro ⟨⟨older, header, hsent, hheader⟩, -⟩
    by_contra hother
    rw [step_sent_of_ne hother, List.append_assoc] at hsent
    have hsent := List.append_cancel_left hsent
    split at hsent
    · -- the frame that was sent is the old one
      have hlen := congrArg List.length hsent
      rw [List.length_singleton, List.length_append, List.length_singleton] at hlen
      obtain rfl : older = [] := List.length_eq_zero_iff.mp (by omega)
      have hsame : s.header = header :=
        congrArg Sent.header (List.head_eq_of_cons_eq hsent)
      rw [hsame] at hother
      exact hother hheader
    · exact List.append_ne_nil_of_right_ne_nil older (List.cons_ne_nil _ _) hsent.symm
  · intro hcurrent
    rw [step_of_last hcurrent hlast]
    refine ⟨⟨[], l.countPacket s.header, ?_, ?_⟩, hinvalidate _⟩
    · rw [List.append_nil]
    · rw [hcount, hcurrent]

end SlsLoop

/-! ### GigaFRoST -/

open GigaFrost

/-- The last packet of a frame flushes the frame, whatever the state is. -/
theorem gfStep_flushes (sizes : ReceiverSizes) (s : LoopState GFFrame) (p : GFUdpPacket)
    (hlast : p.packetStartingRow = sizes.startRowLastPacket) :
    Flushed (fun frame : GFFrame => frame.common.imageId) sizes.bytesOfFrame p.frameIndex s
      (gfStep sizes s p) := by
  have hprocess : ∀ (t : LoopState GFFrame) older, t.sent = s.sent ++ older →
      t.header.common.imageId = p.frameIndex →
      Flushed (fun frame : GFFrame => frame.common.imageId) sizes.bytesOfFrame p.frameIndex s
        (gfProcessPacket sizes t p) := by
    intro t older hsent hcurrent
    rw [gfProcessPacket]
    simp only [if_neg (not_not.mpr hlast)]
    refine ⟨⟨older, { t.header with common := CommonFrame.countPacket t.header.common }, ?_,
      hcurrent⟩, rfl⟩
    rw [← hsent]
    rfl
  rw [gfStep]
  split
  · next hcurrent => exact hprocess s [] (List.append_nil _).symm hcurrent
  · simp only
    split
    · exact hprocess _ _ rfl rfl
    · exact hprocess _ [] (List.append_nil _).symm rfl

/-! ### The three receivers -/

/-- **Which last packets flush their frame.** In every reachable state, a GigaFRoST packet with the
last starting row does. An Eiger or Jungfrau packet with the last packet number does if and only if
its frame is the current frame, so that another packet of it has been taken before. -/
theorem flushes_on_last_packet (moduleId : ℕ) (memory : ℕ → UInt8) :
    (∀ (h w : ℤ) (batches : List (List GFUdpPacket)) (p : GFUdpPacket),
      p.packetStartingRow = (receiverSizes h w).startRowLastPacket →
        Flushed (fun frame : GFFrame => frame.common.imageId) (receiverSizes h w).bytesOfFrame
          p.frameIndex ((gfReceiver (receiverSizes h w) moduleId memory).run batches)
          (gfStep (receiverSizes h w)
            ((gfReceiver (receiverSizes h w) moduleId memory).run batches) p)) ∧
    (∀ (bitDepth : ℤ) (batches : List (List EGUdpPacket)) (p : EGUdpPacket),
      p.packetNumber + 1 = (egLoop bitDepth moduleId).nPacketsPerFrame →
        (Flushed (fun frame : EGFrame => frame.common.imageId)
            (egLoop bitDepth moduleId).frameNBytes p.frameNum
            ((egReceiver bitDepth moduleId memory).run batches)
            ((egLoop bitDepth moduleId).step
              ((egReceiver bitDepth moduleId memory).run batches) p) ↔
          ((egReceiver bitDepth moduleId memory).run batches).header.common.imageId = p.frameNum)) ∧
    (∀ (batches : List (List JFUdpPacket)) (p : JFUdpPacket),
      p.packetnum + 1 = jfLoop.nPacketsPerFrame →
        (Flushed JFFrame.frameIndex jfLoop.frameNBytes p.framenum
            ((jfReceiver moduleId memory).run batches)
            (jfLoop.step ((jfReceiver moduleId memory).run batches) p) ↔
          ((jfReceiver moduleId memory).run batches).header.frameIndex = p.framenum)) := by
  refine ⟨fun h w batches p hlast => gfStep_flushes _ _ p hlast,
    fun bitDepth batches p hlast => ?_, fun batches p hlast => ?_⟩
  · exact SlsLoop.flushed_iff (l := egLoop bitDepth moduleId) (fun _ => rfl) (fun _ => rfl) hlast
  · exact SlsLoop.flushed_iff (l := jfLoop) (fun _ => rfl) (fun _ => rfl) hlast

/-- The first packet of Jungfrau frame 7 and then its last one; the last one sends the frame. -/
theorem flushes_on_last_packet_two_packets :
    Flushed JFFrame.frameIndex jfLoop.frameNBytes 7
      ((jfReceiver 0 fun _ => 0).run [[jfPacket 7 0 1007]])
      (jfLoop.step ((jfReceiver 0 fun _ => 0).run [[jfPacket 7 0 1007]]) (jfPacket 7 127 1007)) :=
  ((flushes_on_last_packet 0 fun _ => 0).2.2 [[jfPacket 7 0 1007]] (jfPacket 7 127 1007) rfl).mpr
    rfl

/-- The last packet of a frame, of which nothing else arrived, sent to a new receiver. -/
theorem last_packet_alone_not_flushed :
    ¬ Flushed JFFrame.frameIndex jfLoop.frameNBytes 7 ((jfReceiver 0 fun _ => 0).run [])
      (jfLoop.step ((jfReceiver 0 fun _ => 0).run []) (jfPacket 7 127 1007)) := by
  intro h
  have hcurrent := (SlsLoop.flushed_iff (l := jfLoop) (s := (jfReceiver 0 fun _ => 0).run [])
    (p := jfPacket 7 127 1007) (fun _ => rfl) (fun _ => rfl) rfl).mp h
  exact absurd hcurrent (by decide : invalidImageId ≠ 7)

end UdpRecv

end StdDaq
