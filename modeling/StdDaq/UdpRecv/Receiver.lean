import StdDaq.ImageMetadata
import StdDaq.Lib.Assembler
import StdDaq.Lib.Memory

/-!
# What a UDP receiver has to do

`std_udp_recv_gf`, `std_udp_recv_eg` and `std_udp_recv_jf` receive the packets of one detector
module and assemble them into frames. The network loses packets but does not reorder them. When a
frame is finished, or when a packet of another frame shows that nothing more of it will come, the
receiver copies the frame into a slot of a shared buffer and sends the header of the frame, which
says how many packets are missing.

A `Receiver` is such a service with the terms in which one speaks about it: which packet is which,
where the data of a packet belongs. `AssemblesFrames` is the specification. It is proved once, for
every service whose loop is an `Assembler`.

The memory of a frame is a function from the addresses behind `frame_buffer` to bytes. What it holds
before the first packet is not defined, and it is never cleared. It is a separate question whether
the addresses a receiver uses are those it has allocated.

## Main results

* `Implements.assemblesFrames` — a loop that is an assembler meets the specification
-/

namespace StdDaq

namespace UdpRecv

/-- `INVALID_IMAGE_ID`. -/
def invalidImageId : ℕ := 2 ^ 64 - 1

/-- Decrement a `uint64_t`. -/
def predUInt64 (n : ℕ) : ℕ := if n = 0 then 2 ^ 64 - 1 else n - 1

/-- `n_missing_packets -= 1`. -/
def CommonFrame.countPacket (common : CommonFrame) : CommonFrame :=
  { common with nMissingPackets := predUInt64 common.nMissingPackets }

/-- One call of `Communicator::send`. -/
structure Sent (M : Type) where
  /-- The image whose slot is written. -/
  id : ℕ
  /-- The message. -/
  header : M
  /-- What is written to the slot. -/
  data : List UInt8
  deriving DecidableEq, Repr

/-- `Communicator::send`: the bytes of a slot are copied out of the frame buffer, then the header is
sent. -/
def send {M : Type} (dataBytes id : ℕ) (header : M) (frameBuffer : ℕ → UInt8) : Sent M where
  id := id
  header := header
  data := Memory.slice frameBuffer 0 dataBytes

/-- The variables of a receive loop: the header `meta`, the frame buffer, and what was sent. -/
abbrev LoopState (M : Type) : Type := Assembler.State M (ℕ → UInt8) (Sent M)

/-- A receiver of packets `P` that sends headers `M`. -/
structure Receiver (P M : Type) where
  /-- The number of packets of a frame. -/
  frameNPackets : ℕ
  /-- The number of the frame a packet belongs to. -/
  frameNumber : P → ℕ
  /-- The image id of the frame a packet belongs to. -/
  packetImageId : P → ℕ
  /-- It is packet `i` of its frame. -/
  IsPacket : ℕ → P → Prop
  /-- The rows or bytes a packet brings. -/
  payload : P → List UInt8
  /-- Where they belong in the data of the frame. -/
  place : P → ℕ
  /-- The last packet of a frame is recognised when it is the first to arrive. -/
  sendsOnFirst : Bool
  /-- The variables before the loop. -/
  start : LoopState M
  /-- The body of the loop. -/
  step : LoopState M → P → LoopState M
  /-- The value of `n_missing_packets` that the body decrements. -/
  counted : LoopState M → P → ℕ

namespace Receiver

variable {P M : Type} [FrameType M] (r : Receiver P M)

/-- The two nested loops: `receive_many` brings the packets in batches. -/
def run (batches : List (List P)) : LoopState M :=
  batches.foldl (fun s batch => batch.foldl r.step s) r.start

/-- What arrives of one frame: a non-empty, strictly increasing subsequence of its packets. -/
structure LossyFrame (f : List P) : Prop where
  ne_nil : f ≠ []
  number : ∃ n, n ≠ invalidImageId ∧ ∀ p ∈ f, r.frameNumber p = n
  packets : ∃ indices : List ℕ, indices.Pairwise (· < ·) ∧ (∀ i ∈ indices, i < r.frameNPackets) ∧
    List.Forall₂ r.IsPacket indices f

/-- What arrives of a sequence of frames: neighbouring frames have different numbers. -/
structure LossyStream (fs : List (List P)) : Prop where
  frames : ∀ f ∈ fs, r.LossyFrame f
  neighbours : fs.IsChain fun f g => ∀ p ∈ f, ∀ q ∈ g, r.frameNumber p ≠ r.frameNumber q

/-- The message for a frame: its image id, the number of packets that did not arrive, and the data
of each packet that did in its place. -/
structure EmittedFor (f : List P) (message : Sent M) : Prop where
  image : ∃ first ∈ f.head?, imageId message.header = r.packetImageId first
  slot : message.id = imageId message.header
  missing : nMissingPackets message.header = r.frameNPackets - f.length
  data : ∀ p ∈ f, ∀ (k : ℕ) (byte : UInt8), (r.payload p)[k]? = some byte →
    message.data[r.place p + k]? = some byte

/-- A frame that may still be unsent when the stream ends: its last packet has not arrived, or the
receiver did not recognise it because no other packet had. -/
def MayBePending (f : List P) : Prop :=
  (∀ p ∈ f, ¬ r.IsPacket (r.frameNPackets - 1) p) ∨
    (r.sendsOnFirst = false ∧ ∃ first ∈ f.head?, r.IsPacket (r.frameNPackets - 1) first)

/-- **The specification of a receiver.** On every stream, in whatever batches it comes, there is
exactly one message for each frame, in order; only the last frame may be pending; and the count of
missing packets is never decremented at zero. -/
def AssemblesFrames : Prop :=
  ∀ (batches frames : List (List P)), batches.flatten = frames.flatten → r.LossyStream frames →
    (∃ done rest, frames = done ++ rest ∧ List.Forall₂ r.EmittedFor done (r.run batches).sent ∧
      (rest = [] ∨ ∃ f, rest = [f] ∧ r.MayBePending f)) ∧
    ∀ before p after, frames.flatten = before ++ p :: after →
      0 < r.counted (before.foldl r.step r.start) p

/-- The loop of a receiver is an assembler, and the assembler does with headers and buffers what the
specification asks for. -/
structure Implements (a : Assembler ℕ P M (ℕ → UInt8) (Sent M)) (dataBytes : ℕ) : Prop where
  lawful : a.Lawful
  start_idle : a.current r.start.header = a.idle
  start_sent : r.start.sent = []
  step_eq : ∀ s p, r.step s p = a.step s p
  counted_eq : ∀ s p, r.counted s p = nMissingPackets (a.headerFor s p)
  key_eq : ∀ p, a.key p = r.frameNumber p
  idle_eq : a.idle = invalidImageId
  closes_iff : ∀ i p, i < r.frameNPackets → r.IsPacket i p →
    (a.closes p = true ↔ i = r.frameNPackets - 1)
  eager_eq : a.eager = r.sendsOnFirst
  emit_eq : ∀ m b, a.emit m b = send dataBytes (imageId m) m b
  init : ∀ m p, imageId (a.init m p) = r.packetImageId p ∧
    nMissingPackets (a.init m p) = r.frameNPackets
  receive : ∀ m p, imageId (a.receive m p) = imageId m ∧
    nMissingPackets (a.receive m p) = predUInt64 (nMissingPackets m)
  /-- A packet is stored in its place. -/
  stored : ∀ i p, i < r.frameNPackets → r.IsPacket i p → ∀ (k : ℕ) (byte : UInt8),
    (r.payload p)[k]? = some byte →
      r.place p + k < dataBytes ∧ ∀ b, a.copy b p (r.place p + k) = byte
  /-- A later packet of the frame is stored elsewhere. -/
  kept : ∀ i j p q, i < j → j < r.frameNPackets → r.IsPacket i p → r.IsPacket j q →
    ∀ k < (r.payload p).length, ∀ b, a.copy b q (r.place p + k) = b (r.place p + k)

/-! ### Frames and streams -/

section Frames

variable {r} {f : List P}

omit [FrameType M] in
theorem exists_index {indices : List ℕ} (h : List.Forall₂ r.IsPacket indices f) {p : P}
    (hp : p ∈ f) : ∃ i ∈ indices, r.IsPacket i p := by
  induction h with
  | nil => cases hp
  | @cons i q indices f hpacket _ ih =>
    rcases List.mem_cons.mp hp with rfl | hp
    · exact ⟨i, List.mem_cons_self, hpacket⟩
    · obtain ⟨j, hj, hjp⟩ := ih hp
      exact ⟨j, List.mem_cons_of_mem i hj, hjp⟩

/-- `p` comes before `q` in their frame. -/
def Before (r : Receiver P M) (p q : P) : Prop :=
  ∃ i j, i < j ∧ j < r.frameNPackets ∧ r.IsPacket i p ∧ r.IsPacket j q

omit [FrameType M] in
theorem LossyFrame.index (h : r.LossyFrame f) {p : P} (hp : p ∈ f) :
    ∃ i < r.frameNPackets, r.IsPacket i p := by
  obtain ⟨indices, -, hlt, hpackets⟩ := h.packets
  obtain ⟨i, hi, hip⟩ := exists_index hpackets hp
  exact ⟨i, hlt i hi, hip⟩

omit [FrameType M] in
theorem LossyFrame.length_le (h : r.LossyFrame f) : f.length ≤ r.frameNPackets := by
  obtain ⟨indices, hsorted, hlt, hpackets⟩ := h.packets
  have hnodup : indices.Nodup := hsorted.imp fun hij => Nat.ne_of_lt hij
  have hsubset : indices ⊆ List.range r.frameNPackets := fun i hi => List.mem_range.mpr (hlt i hi)
  have hle := (List.subperm_of_subset hnodup hsubset).length_le
  rwa [List.length_range, hpackets.length_eq] at hle

omit [FrameType M] in
theorem LossyFrame.pairwise (h : r.LossyFrame f) : f.Pairwise r.Before := by
  obtain ⟨indices, hsorted, hlt, hpackets⟩ := h.packets
  clear h
  induction hpackets with
  | nil => exact .nil
  | @cons i p indices f hpacket hrest ih =>
    rw [List.pairwise_cons] at hsorted ⊢
    refine ⟨fun q hq => ?_, ih hsorted.2 fun j hj => hlt j (List.mem_cons_of_mem i hj)⟩
    obtain ⟨j, hj, hjq⟩ := exists_index hrest hq
    exact ⟨i, j, hsorted.1 j hj, hlt j (List.mem_cons_of_mem i hj), hpacket, hjq⟩

end Frames

/-! ### Assemblers meet the specification -/

namespace Implements

variable {r} {a : Assembler ℕ P M (ℕ → UInt8) (Sent M)} {dataBytes : ℕ} {f : List P}

/-- A packet that another one of its frame follows does not close the frame. -/
theorem not_closes_of_before (h : r.Implements a dataBytes) {p q : P} (hpq : r.Before p q) :
    a.closes p = false := by
  obtain ⟨i, j, hij, hj, hp, -⟩ := hpq
  refine Bool.eq_false_iff.mpr fun hcloses => ?_
  have := (h.closes_iff i p (by omega) hp).mp hcloses
  omega

theorem isFrame (h : r.Implements a dataBytes) (hf : r.LossyFrame f) : a.IsFrame f := by
  obtain ⟨n, hn, hnumber⟩ := hf.number
  refine ⟨hf.ne_nil, fun p hp q hq => ?_, fun p hp => ?_, fun p hp => ?_⟩
  · rw [h.key_eq, h.key_eq, hnumber p hp, hnumber q hq]
  · rw [h.key_eq, h.idle_eq, hnumber p hp]
    exact hn
  · have hpairwise := hf.pairwise
    rw [← List.dropLast_append_getLast hf.ne_nil, List.pairwise_append] at hpairwise
    exact h.not_closes_of_before (hpairwise.2.2 p hp _ (List.mem_singleton.mpr rfl))

theorem isStream (h : r.Implements a dataBytes) {fs : List (List P)} (hfs : r.LossyStream fs) :
    a.IsStream fs := by
  refine ⟨fun f hf => h.isFrame (hfs.frames f hf), hfs.neighbours.imp fun f g hfg p hp q hq => ?_⟩
  rw [h.key_eq, h.key_eq]
  exact hfg p hp q hq

/-- Counting packets. -/
theorem foldl_receive (h : r.Implements a dataBytes) (m : M) (hlen : f.length ≤ nMissingPackets m) :
    imageId (f.foldl a.receive m) = imageId m ∧
      nMissingPackets (f.foldl a.receive m) = nMissingPackets m - f.length := by
  induction f generalizing m with
  | nil => exact ⟨rfl, rfl⟩
  | cons p f ih =>
    obtain ⟨himage, hmissing⟩ := h.receive m p
    rw [List.length_cons] at hlen
    have hmissing : nMissingPackets (a.receive m p) = nMissingPackets m - 1 := by
      rw [hmissing, predUInt64, if_neg (by omega)]
    obtain ⟨himage', hmissing'⟩ := ih (a.receive m p) (by omega)
    refine ⟨himage'.trans himage, ?_⟩
    rw [List.foldl_cons, hmissing', hmissing, List.length_cons]
    omega

omit [FrameType M] in
theorem foldl_copy_eq {b : ℕ → UInt8} {x : ℕ} (h : ∀ q ∈ f, ∀ b, a.copy b q x = b x) :
    f.foldl a.copy b x = b x := by
  induction f generalizing b with
  | nil => rfl
  | cons q f ih =>
    rw [List.foldl_cons, ih fun q' hq' => h q' (List.mem_cons_of_mem q hq')]
    exact h q List.mem_cons_self b

/-- Every packet of a frame is in its place once all of them have been stored. -/
theorem foldl_copy (h : r.Implements a dataBytes) (hf : r.LossyFrame f) {p : P} (hp : p ∈ f)
    {k : ℕ} {byte : UInt8} (hk : (r.payload p)[k]? = some byte) (b : ℕ → UInt8) :
    f.foldl a.copy b (r.place p + k) = byte := by
  obtain ⟨i, hi, hip⟩ := hf.index hp
  obtain ⟨before, after, rfl⟩ := List.append_of_mem hp
  have hpairwise := (List.pairwise_append.mp hf.pairwise).2.1
  rw [List.pairwise_cons] at hpairwise
  rw [List.foldl_append, List.foldl_cons, foldl_copy_eq]
  · exact (h.stored i p hi hip k byte hk).2 _
  · intro q hq b
    obtain ⟨i', j, hij, hj, hip', hjq⟩ := hpairwise.1 q hq
    exact h.kept i' j p q hij hj hip' hjq k (List.getElem?_eq_some_iff.mp hk).1 b

/-- What the assembler sends for a frame is what the specification asks for. -/
theorem emittedFor (h : r.Implements a dataBytes) (hf : r.LossyFrame f) {message : Sent M}
    (hemit : a.Emitted f message) : r.EmittedFor f message := by
  obtain ⟨m, b, rfl⟩ := hemit
  obtain ⟨first, rest, rfl⟩ := List.exists_cons_of_ne_nil hf.ne_nil
  obtain ⟨himage, hmissing⟩ := h.init m first
  obtain ⟨himage', hmissing'⟩ := h.foldl_receive (f := first :: rest) (a.init m first)
    (by rw [hmissing]; exact hf.length_le)
  rw [h.emit_eq]
  refine ⟨⟨first, rfl, himage'.trans himage⟩, rfl, by rw [← hmissing]; exact hmissing', ?_⟩
  intro p hp k byte hk
  obtain ⟨i, hi, hip⟩ := hf.index hp
  change (Memory.slice _ 0 dataBytes)[_]? = _
  rw [Memory.getElem?_slice (h.stored i p hi hip k byte hk).1, Nat.zero_add, h.foldl_copy hf hp hk]

theorem forall₂_emittedFor (h : r.Implements a dataBytes) {done : List (List P)}
    {sent : List (Sent M)} (hsent : List.Forall₂ a.Emitted done sent)
    (hframes : ∀ f ∈ done, r.LossyFrame f) : List.Forall₂ r.EmittedFor done sent := by
  induction hsent with
  | nil => exact .nil
  | cons hemit _ ih =>
    rw [List.forall_mem_cons] at hframes
    exact .cons (h.emittedFor hframes.1 hemit) (ih hframes.2)

/-- A frame that was not sent at once may be pending. -/
theorem mayBePending (h : r.Implements a dataBytes) (hf : r.LossyFrame f) (hopen : ¬ a.Closes f) :
    r.MayBePending f := by
  have hsplit := List.dropLast_append_getLast hf.ne_nil
  obtain ⟨i, hi, hip⟩ := hf.index (List.getLast_mem hf.ne_nil)
  by_cases hlast : a.closes (f.getLast hf.ne_nil) = true
  · -- the last packet has arrived, but alone
    have hlen : a.eager = false ∧ f.length < 2 := by
      constructor
      · refine Bool.eq_false_iff.mpr fun heager => ?_
        exact hopen ⟨⟨_, List.getLast?_eq_getLast_of_ne_nil hf.ne_nil, hlast⟩, .inl heager⟩
      · refine Nat.lt_of_not_le fun hlen => ?_
        exact hopen ⟨⟨_, List.getLast?_eq_getLast_of_ne_nil hf.ne_nil, hlast⟩, .inr hlen⟩
    obtain ⟨p, rfl⟩ : ∃ p, f = [p] := by
      have := List.length_pos_iff.mpr hf.ne_nil
      exact List.length_eq_one_iff.mp (by omega)
    refine .inr ⟨by rw [← h.eager_eq]; exact hlen.1, p, rfl, ?_⟩
    obtain rfl := (h.closes_iff i p hi hip).mp hlast
    exact hip
  · refine .inl fun p hp hpacket => hlast ?_
    have hcloses := (h.closes_iff _ p (by omega) hpacket).mpr rfl
    rw [← hsplit] at hp
    rcases List.mem_append.mp hp with hp | hp
    · rw [(h.isFrame hf).open_before p hp] at hcloses
      cases hcloses
    · rwa [← List.mem_singleton.mp hp]

/-- **A receiver whose loop is an assembler assembles frames.** -/
theorem assemblesFrames (h : r.Implements a dataBytes) : r.AssemblesFrames := by
  intro batches frames hbatches hstream
  have hstep : r.step = a.step := funext fun s => funext fun p => h.step_eq s p
  have hframes := h.isStream hstream
  constructor
  · have hrun : r.run batches = frames.flatten.foldl a.step r.start := by
      rw [run, ← List.foldl_flatten, hbatches, hstep]
    have hassembled := Assembler.assembled_of_frames h.lawful h.start_idle h.start_sent hframes
    rw [← hrun] at hassembled
    generalize r.run batches = s at hassembled
    cases hassembled with
    | closed sent _ _ =>
      exact ⟨frames, [], (List.append_nil _).symm, h.forall₂_emittedFor sent hstream.frames,
        .inl rfl⟩
    | @pending done f _ _ _ sent _ _ _ hopen =>
      refine ⟨done, [f], rfl, h.forall₂_emittedFor sent fun g hg => ?_, .inr ⟨f, rfl, ?_⟩⟩
      · exact hstream.frames g (List.mem_append_left _ hg)
      · exact h.mayBePending (hstream.frames f (by simp)) hopen
  · intro before p after hsplit
    obtain ⟨f, g, m, first, hmem, -, hheader⟩ :=
      Assembler.headerFor_of_frames h.lawful h.start_idle h.start_sent hframes hsplit
    obtain ⟨-, hmissing⟩ := h.init m first
    have hlen := (hstream.frames _ hmem).length_le
    rw [List.length_append, List.length_cons] at hlen
    obtain ⟨-, hcount⟩ := h.foldl_receive (f := f) (a.init m first) (by omega)
    rw [h.counted_eq, hstep, hheader, hcount, hmissing]
    omega

end Implements

end Receiver

end UdpRecv

end StdDaq
