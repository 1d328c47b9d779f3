import Mathlib
import StdDaq.Bitshuffle.Filter
import StdDaq.ImageMetadata
import StdDaq.RamBuffer

/-!
# The compression service

`std_data_compress_h5bitshuffle_lz4` compresses every good image into a slot of its own RAM buffer,
in the form of a chunk of the HDF5 filter, and announces it with its new size. The slots have the
size of an uncompressed image, and nothing keeps the service from writing behind them.

The memory of the sender has no end here. What is said of it is about chunks inside its buffer.

## Main definitions

* `Compression.step` — what the service does with a message

## Main results

* `Compression.sent_restores` — when the chunks fit the slots, each good image is announced once, in
  its order, and the filter makes of its slot the image again until the slot is used again
* `Compression.exists_overlap` — some images do not fit into their slots, and overwrite the next
-/

namespace StdDaq.Bitshuffle

open Memory

/-- The constants of the service. -/
structure Compression where
  /-- `converted_bytes` at the beginning, and the size of the slots. -/
  convertedBytes : ℕ
  slots : ℕ
  elementSize : ℕ
  /-- The argument, in bytes. -/
  blockSize : ℕ
  isPco : Bool

/-- A message, and what `get_data` of the receiver shows for its image. -/
structure Announced where
  metadata : ImageMetadata
  image : Bytes

/-- The memory of the sender, and the messages it has sent, each with the memory of that time. -/
structure CompressionState where
  mem : Bytes
  sent : List (ImageMetadata × Bytes)

/-- The constants for a configuration and the argument of the block size. -/
def Compression.ofConfig (config : DetectorConfig) (blockSize : ℕ) : Except String Compression := do
  let convertedBytes ← convertedImageNBytes config
  let slots ← slotsNumber config
  .ok { convertedBytes, slots, elementSize := (config.bitDepth.tdiv 8).toNat, blockSize
        isPco := config.detectorType = .pco }

namespace Compression

section Service

variable (c : Compression) (lz4 : Lz4) (junk : Bytes)

/-- `get_data` of the sender. -/
def slot (imageId : ℕ) : ℕ := imageId % c.slots * c.convertedBytes

/-- The number of bytes of an image. -/
def imageBytes (r : Announced) : ℕ := if c.isPco then r.metadata.size else c.convertedBytes

/-- Compress an image behind the header: the size that is returned, and the memory. -/
def compress (r : Announced) (mem : Bytes) : ℤ × Bytes :=
  let p := c.slot r.metadata.imageId
  let mem := blit mem p (header (c.imageBytes r) c.blockSize)
  match compressLz4 lz4 junk r.image (fun a => mem (p + 12 + a)) (c.imageBytes r / c.elementSize)
      c.elementSize (c.blockSize / c.elementSize) with
  | .error e => (e, mem)
  | .ok (size, out) => (size.bmod (2 ^ 32), fill (p + 12) mem fun a => out (a - (p + 12)))

/-- **What the service does with a message.** -/
def step (s : CompressionState) (r : Announced) : CompressionState :=
  if r.metadata.status = .goodImage then
    let (size, mem) := c.compress lz4 junk r s.mem
    if 0 < size then
      let metadata := { r.metadata with size := size.toNat + 12, compression := .h5bitshuffleLz4 }
      { mem := mem, sent := s.sent ++ [(metadata, mem)] }
    else { s with mem := mem }
  else s

end Service

section Runs

variable {c : Compression} {lz4 : Lz4} {junk : Bytes} {r : Announced} {rs : List Announced}
  {s : CompressionState} {mem : Bytes}

/-- What the service assumes of an image. -/
structure Sound (c : Compression) (lz4 : Lz4) (r : Announced) : Prop where
  valid : Valid lz4 c.elementSize (c.blockSize / c.elementSize)
  block_lt : c.blockSize < 2 ^ 31
  pos : 0 < c.imageBytes r
  elems : c.imageBytes r % c.elementSize = 0
  bound : compressLz4Bound lz4 (c.imageBytes r / c.elementSize) c.elementSize
    (c.blockSize / c.elementSize) < 2 ^ 31
  bytes_lt : c.imageBytes r < 2 ^ 64

/-- The compressed image, with the header. -/
def chunkOf (c : Compression) (lz4 : Lz4) (r : Announced) : List UInt8 :=
  chunk lz4 r.image c.elementSize (c.imageBytes r) c.blockSize

theorem length_chunkOf : (c.chunkOf lz4 r).length
    = 12 + (compressed lz4 r.image c.elementSize (c.imageBytes r / c.elementSize)
      (c.blockSize / c.elementSize)).length := by
  rw [chunkOf, chunk, List.length_append, length_header]

/-- The compressed image has some bytes, and its length is an `int`. -/
theorem Sound.length (hdoc : lz4.Documented) (h : c.Sound lz4 r) :
    12 < (c.chunkOf lz4 r).length ∧ (c.chunkOf lz4 r).length - 12 < 2 ^ 31 := by
  have helems : 0 < c.imageBytes r / c.elementSize :=
    Nat.div_pos (Nat.le_of_dvd h.pos (Nat.dvd_of_mod_eq_zero h.elems)) h.valid.elem_pos
  have hpos := length_compressed_pos r.image h.valid helems
  have hlt := (length_compressed_le r.image (c.imageBytes r / c.elementSize) hdoc
    h.valid).trans_lt h.bound
  rw [length_chunkOf]
  omega

/-- The service writes the chunk into the slot. -/
theorem compress_eq (junk mem : Bytes) (hdoc : lz4.Documented) (h : c.Sound lz4 r) :
    c.compress lz4 junk r mem = (↑((c.chunkOf lz4 r).length - 12),
      blit mem (c.slot r.metadata.imageId) (c.chunkOf lz4 r)) := by
  have hlt := (h.length hdoc).2
  rw [length_chunkOf, Nat.add_sub_cancel_left] at hlt
  have hint : ((compressed lz4 r.image c.elementSize (c.imageBytes r / c.elementSize)
      (c.blockSize / c.elementSize)).length : ℤ).bmod (2 ^ 32) = _ := asInt_of_lt hlt
  simp only [compress, compressLz4_eq junk r.image _ _ hdoc.maxInputSize_lt h.valid, hint]
  rw [fill_blit_shift, length_chunkOf, Nat.add_sub_cancel_left, blit_header]
  rfl

/-- What is announced for an image. -/
def newMetadata (c : Compression) (lz4 : Lz4) (r : Announced) : ImageMetadata :=
  { r.metadata with size := (c.chunkOf lz4 r).length, compression := .h5bitshuffleLz4 }

/-- What is announced for an image, with the memory at that time. -/
structure Restores (c : Compression) (lz4 : Lz4) (r : Announced) (e : ImageMetadata × Bytes) :
    Prop where
  metadata : e.1 = c.newMetadata lz4 r
  /-- Who passes the bytes of the slot through the filter gets the image. -/
  restores : ∀ (junk : Bytes) (cdValues : List ℕ) (buf : Bytes),
    UsesLz4 cdValues c.elementSize →
      (∀ a < e.1.size, buf a = e.2 (c.slot r.metadata.imageId + a)) →
        bshufH5Filter lz4 junk true cdValues e.1.size buf
          = some ⟨c.imageBytes r, c.imageBytes r, fill (c.imageBytes r) r.image junk⟩

/-- The chunk can be restored wherever its slot holds it. -/
theorem restores_of_holds (hdoc : lz4.Documented) (h : c.Sound lz4 r)
    (hholds : Holds mem (c.slot r.metadata.imageId) (c.chunkOf lz4 r)) :
    c.Restores lz4 r (c.newMetadata lz4 r, mem) := by
  refine ⟨rfl, fun junk cdValues buf hcd hbuf => ?_⟩
  have hlt := (h.length hdoc).2
  rw [length_chunkOf, Nat.add_sub_cancel_left] at hlt
  refine bshufH5Filter_reverse junk hdoc hcd h.valid (h.block_lt.trans (by decide)) h.bytes_lt
    h.elems hlt (hholds.congr fun i hi => ?_)
  rw [Nat.zero_add]
  exact hbuf i hi

/-- **A good image is announced.** -/
theorem step_good (junk : Bytes) (s : CompressionState) (hdoc : lz4.Documented)
    (hgood : r.metadata.status = .goodImage) (h : c.Sound lz4 r) :
    c.step lz4 junk s r =
      ⟨blit s.mem (c.slot r.metadata.imageId) (c.chunkOf lz4 r), s.sent ++ [(c.newMetadata lz4 r,
        blit s.mem (c.slot r.metadata.imageId) (c.chunkOf lz4 r))]⟩ := by
  have hpos := (h.length hdoc).1
  have hsize : (0 : ℤ) < ↑((c.chunkOf lz4 r).length - 12) := by omega
  have hbytes : ((↑((c.chunkOf lz4 r).length - 12) : ℤ)).toNat + 12
      = (c.chunkOf lz4 r).length := by omega
  rw [step, if_pos hgood]
  simp only [compress_eq junk s.mem hdoc h]
  rw [if_pos hsize]
  simp only [hbytes]
  rfl

/-- The chunk of the image fits its slot. -/
def FitsSlot (c : Compression) (lz4 : Lz4) (r : Announced) : Prop :=
  (c.chunkOf lz4 r).length ≤ c.convertedBytes

/-- Each slot is inside the buffer. -/
theorem slot_inside (hslots : 0 < c.slots) (id : ℕ) :
    c.slot id + c.convertedBytes ≤ c.slots * c.convertedBytes :=
  RamBuffer.slot_end_le (Nat.mod_lt id hslots)

/-- A chunk that fits its slot leaves the other slots alone. -/
theorem step_mem_of_slot_ne (junk : Bytes) (s : CompressionState) (hdoc : lz4.Documented)
    (hsound : r.metadata.status = .goodImage → c.Sound lz4 r ∧ c.FitsSlot lz4 r) {id : ℕ}
    (hne : r.metadata.status = .goodImage → r.metadata.imageId % c.slots ≠ id % c.slots) {i : ℕ}
    (hi : i < c.convertedBytes) :
    (c.step lz4 junk s r).mem (c.slot id + i) = s.mem (c.slot id + i) := by
  by_cases hgood : r.metadata.status = .goodImage
  · obtain ⟨hr, hfits⟩ := hsound hgood
    rw [FitsSlot] at hfits
    rw [step_good junk s hdoc hgood hr]
    refine blit_of_not_mem fun hcover => ?_
    rcases Nat.lt_or_gt_of_ne (hne hgood) with hlt | hlt
    · have hend := RamBuffer.slot_end_le (d := c.convertedBytes) hlt
      rw [slot, slot] at hcover
      omega
    · have hend := RamBuffer.slot_end_le (d := c.convertedBytes) hlt
      rw [slot, slot] at hcover
      omega
  · rw [step, if_neg hgood]

/-- The slot of an image that is not used again stays as it is. -/
theorem run_mem_of_slot_ne (junk : Bytes) (s : CompressionState) (hdoc : lz4.Documented)
    (hsound : ∀ r ∈ rs, r.metadata.status = .goodImage → c.Sound lz4 r ∧ c.FitsSlot lz4 r) {id : ℕ}
    (hne : ∀ r ∈ rs, r.metadata.status = .goodImage → r.metadata.imageId % c.slots ≠ id % c.slots)
    {i : ℕ} (hi : i < c.convertedBytes) :
    (rs.foldl (c.step lz4 junk) s).mem (c.slot id + i) = s.mem (c.slot id + i) := by
  induction rs generalizing s with
  | nil => rfl
  | cons r rs ih =>
    rw [List.forall_mem_cons] at hsound hne
    rw [List.foldl_cons, ih _ hsound.2 hne.2, step_mem_of_slot_ne junk s hdoc hsound.1 hne.1 hi]

/-- Each good image is announced once, in its order. -/
theorem forall₂_sent (hdoc : lz4.Documented)
    (hsound : ∀ r ∈ rs, r.metadata.status = .goodImage → c.Sound lz4 r) (junk mem : Bytes) :
    List.Forall₂ (c.Restores lz4) (rs.filter fun r => r.metadata.status = .goodImage)
      (rs.foldl (c.step lz4 junk) ⟨mem, []⟩).sent := by
  -- the messages of a run come behind those that have been sent before
  suffices hrun : ∀ s : CompressionState, ∃ es, (rs.foldl (c.step lz4 junk) s).sent = s.sent ++ es ∧
      List.Forall₂ (c.Restores lz4) (rs.filter fun r => r.metadata.status = .goodImage) es by
    obtain ⟨es, hsent, hall⟩ := hrun ⟨mem, []⟩
    rwa [hsent]
  induction rs with
  | nil => exact fun s => ⟨[], (List.append_nil _).symm, .nil⟩
  | cons r rs ih =>
    intro s
    rw [List.forall_mem_cons] at hsound
    rw [List.foldl_cons]
    obtain ⟨es, hsent, hall⟩ := ih hsound.2 (c.step lz4 junk s r)
    rw [hsent]
    by_cases hgood : r.metadata.status = .goodImage
    · rw [step_good junk s hdoc hgood (hsound.1 hgood), List.filter_cons,
        if_pos (decide_eq_true hgood)]
      exact ⟨_ :: es, List.append_assoc _ _ _,
        .cons (restores_of_holds hdoc (hsound.1 hgood) holds_blit) hall⟩
    · rw [step, if_neg hgood, List.filter_cons, if_neg (by simpa using hgood)]
      exact ⟨es, rfl, hall⟩

/-- **Each good image is announced once, in its order**, when the chunks fit the slots: it can be
restored from its slot, which is inside the buffer, when it is announced and until a good image of
the same slot comes. -/
theorem sent_restores (hdoc : lz4.Documented) (hslots : 0 < c.slots)
    (hsound : ∀ r ∈ rs, r.metadata.status = .goodImage → c.Sound lz4 r ∧ c.FitsSlot lz4 r)
    (junk mem : Bytes) :
    List.Forall₂ (c.Restores lz4) (rs.filter fun r => r.metadata.status = .goodImage)
      (rs.foldl (c.step lz4 junk) ⟨mem, []⟩).sent ∧
    ∀ before r after, rs = before ++ r :: after → r.metadata.status = .goodImage →
      c.slot r.metadata.imageId + (c.chunkOf lz4 r).length ≤ c.slots * c.convertedBytes ∧
      ((∀ r' ∈ after, r'.metadata.status = .goodImage →
          r'.metadata.imageId % c.slots ≠ r.metadata.imageId % c.slots) →
        c.Restores lz4 r
          (c.newMetadata lz4 r, (rs.foldl (c.step lz4 junk) ⟨mem, []⟩).mem)) := by
  refine ⟨forall₂_sent hdoc (fun r hr hgood => (hsound r hr hgood).1) junk mem, ?_⟩
  rintro before r after rfl hgood
  obtain ⟨hr, hfits⟩ := hsound r (List.mem_append_right _ List.mem_cons_self) hgood
  have hinside := slot_inside hslots r.metadata.imageId
  rw [FitsSlot] at hfits
  refine ⟨by omega, fun hne => ?_⟩
  have hwritten : Holds
      (blit (before.foldl (c.step lz4 junk) ⟨mem, []⟩).mem (c.slot r.metadata.imageId)
        (c.chunkOf lz4 r)) (c.slot r.metadata.imageId) (c.chunkOf lz4 r) := holds_blit
  refine restores_of_holds hdoc hr ?_
  rw [List.foldl_append, List.foldl_cons, step_good junk _ hdoc hgood hr]
  refine hwritten.congr fun i hi => ?_
  exact run_mem_of_slot_ne junk _ hdoc
    (fun r' hr' => hsound r' (List.mem_append_right _ (List.mem_cons_of_mem r hr'))) hne
    (Nat.lt_of_lt_of_le hi hfits)

/-- Images of 16 elements of two bytes, in one block. -/
def oneBlock : Compression := ⟨32, 4, 2, 32, false⟩

theorem sound_oneBlock (metadata : ImageMetadata) (image : Bytes) :
    oneBlock.Sound repeatLz4 ⟨metadata, image⟩ where
  valid := ⟨by decide, by decide, by decide⟩
  block_lt := by decide
  pos := show 0 < 32 by decide
  elems := show 32 % 2 = 0 from rfl
  bound := by
    have hbytes : oneBlock.imageBytes ⟨metadata, image⟩ = 32 := rfl
    rw [hbytes]
    decide
  bytes_lt := show 32 < 2 ^ 64 by decide

/-- A good image in which all pixels have the same value. -/
def plain (imageId : ℕ) (x : UInt8) : Announced :=
  ⟨{ imageId := imageId, status := .goodImage }, fun _ => x⟩

/-- Two good images, and one with missing packets for the slot of the first. -/
def plainImages : List Announced :=
  [plain 5 0, ⟨{ imageId := 9, status := .missingPackets }, UInt8.ofNat⟩, plain 6 255]

theorem sent_restores_plainImages :
    List.Forall₂ (oneBlock.Restores repeatLz4)
        (plainImages.filter fun r => r.metadata.status = .goodImage)
        (plainImages.foldl (oneBlock.step repeatLz4 UInt8.ofNat) ⟨UInt8.ofNat, []⟩).sent ∧
      (oneBlock.chunkOf repeatLz4 (plain 5 0)).length = 27 ∧
      oneBlock.Restores repeatLz4 (plain 5 0) (oneBlock.newMetadata repeatLz4 (plain 5 0),
        (plainImages.foldl (oneBlock.step repeatLz4 UInt8.ofNat) ⟨UInt8.ofNat, []⟩).mem) := by
  have hdark : (oneBlock.chunkOf repeatLz4 (plain 5 0)).length = 27 := by decide +kernel
  have hbright : (oneBlock.chunkOf repeatLz4 (plain 6 255)).length = 27 := by decide +kernel
  have hfits : ∀ r ∈ plainImages, r.metadata.status = .goodImage →
      oneBlock.FitsSlot repeatLz4 r := by
    rw [plainImages, List.forall_mem_cons, List.forall_mem_cons, List.forall_mem_singleton]
    exact ⟨fun _ => hdark.trans_le (by decide), nofun, fun _ => hbright.trans_le (by decide)⟩
  obtain ⟨hsent, hkept⟩ := sent_restores repeatLz4_documented (by decide)
    (fun r hr hgood => ⟨sound_oneBlock r.metadata r.image, hfits r hr hgood⟩)
    UInt8.ofNat UInt8.ofNat
  refine ⟨hsent, hdark, (hkept [] (plain 5 0) _ rfl rfl).2 ?_⟩
  rw [List.forall_mem_cons, List.forall_mem_singleton]
  exact ⟨nofun, fun _ => by decide⟩

/-- The slot of the next identifier follows, unless the ring ends. -/
theorem slot_succ {id : ℕ} (hnext : id % c.slots + 1 < c.slots) :
    c.slot (id + 1) = c.slot id + c.convertedBytes := by
  rw [slot, slot, Nat.add_mod, Nat.mod_eq_of_lt (Nat.lt_of_le_of_lt (Nat.le_add_left 1 _) hnext),
    Nat.mod_eq_of_lt hnext, Nat.succ_mul]

/-- **Not every image fits into its slot**, however LZ4 compresses: for any geometry and any block
size that LZ4 takes there is an image that is announced with more bytes than a slot has, and the
next slot then begins with a byte of it, whatever was there. The slot is not so close to the end of
the ring that a compressed image can reach behind it. -/
theorem exists_overlap (hdoc : lz4.Documented) {metadata : ImageMetadata}
    (hgood : metadata.status = .goodImage) (hsound : ∀ image, c.Sound lz4 ⟨metadata, image⟩)
    (hpco : c.isPco = false)
    (hroom : c.slot metadata.imageId + (12 + compressLz4Bound lz4
      (c.convertedBytes / c.elementSize) c.elementSize (c.blockSize / c.elementSize)) ≤
        c.slots * c.convertedBytes) (junk : Bytes) :
    ∃ (image : Bytes) (x : UInt8), ∀ s : CompressionState, ∃ e,
      (c.step lz4 junk s ⟨metadata, image⟩).sent = s.sent ++ [e] ∧
        c.convertedBytes < e.1.size ∧
        (c.step lz4 junk s ⟨metadata, image⟩).mem (c.slot (metadata.imageId + 1)) = x := by
  have hany := hsound fun _ => 0
  have hbytes (image : Bytes) : c.imageBytes ⟨metadata, image⟩ = c.convertedBytes :=
    if_neg (by rw [hpco]; exact Bool.false_ne_true)
  have hcancel := Nat.div_mul_cancel (Nat.dvd_of_mod_eq_zero hany.elems)
  obtain ⟨image, hlong⟩ := exists_le_length_compressed hdoc hany.valid
    (c.imageBytes ⟨metadata, fun _ => 0⟩ / c.elementSize)
  rw [hcancel, hbytes] at hlong
  have hlength : c.convertedBytes < (c.chunkOf lz4 ⟨metadata, image⟩).length := by
    rw [length_chunkOf]
    simp only [hbytes]
    omega
  have hnext : metadata.imageId % c.slots + 1 < c.slots := by
    have hle := length_compressed_le image (c.convertedBytes / c.elementSize) hdoc hany.valid
    rw [length_chunkOf] at hlength
    simp only [hbytes] at hlength
    refine Nat.lt_of_mul_lt_mul_right (a := c.convertedBytes) ?_
    rw [Nat.succ_mul]
    rw [slot] at hroom
    omega
  -- the byte of the compressed image that is the first of the next slot
  refine ⟨image, (c.chunkOf lz4 ⟨metadata, image⟩).get ⟨c.convertedBytes, hlength⟩, fun s => ?_⟩
  rw [step_good junk s hdoc hgood (hsound image)]
  refine ⟨_, rfl, hlength, ?_⟩
  rw [slot_succ hnext]
  exact blit_of_getElem? (List.getElem?_eq_getElem hlength)

/-- Images of 21 elements of two bytes, in blocks of eight elements. -/
def small : Compression := ⟨42, 4, 2, 16, false⟩

theorem sound_small (metadata : ImageMetadata) (image : Bytes) :
    small.Sound literalLz4 ⟨metadata, image⟩ where
  valid := ⟨by decide, by decide, by decide⟩
  block_lt := by decide
  pos := show 0 < 42 by decide
  elems := show 42 % 2 = 0 from rfl
  bound := by
    have hbytes : small.imageBytes ⟨metadata, image⟩ = 42 := rfl
    rw [hbytes]
    decide
  bytes_lt := show 42 < 2 ^ 64 by decide

theorem exists_overlap_small :
    ∃ (image : Bytes) (x : UInt8), ∀ s : CompressionState, ∃ e,
      (small.step literalLz4 UInt8.ofNat s ⟨{ imageId := 5, status := .goodImage }, image⟩).sent
          = s.sent ++ [e] ∧
        small.convertedBytes < e.1.size ∧
        (small.step literalLz4 UInt8.ofNat s
          ⟨{ imageId := 5, status := .goodImage }, image⟩).mem (small.slot (5 + 1)) = x :=
  exists_overlap literalLz4_documented rfl (sound_small _) rfl (by decide) UInt8.ofNat

end Runs

end Compression

end StdDaq.Bitshuffle
