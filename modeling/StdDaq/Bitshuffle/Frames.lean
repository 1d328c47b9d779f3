import Mathlib
import StdDaq.Bitshuffle.Blocks

/-!
# The shuffled and the compressed image

A block function that encodes writes the code of one block behind that of the block before, and one
that decodes gives the block back. What the loop then does with an image is the same for all codes:
`blockedWrapFun_of_encodes` and `blockedWrapFun_of_decodes`. The elements that are left over stand
behind the codes.

There are two codes: the shuffled block, and the frame, which has the length of what LZ4 makes of
the shuffled block in four bytes, and then that.

## Main definitions

* `encodedImage` — the image for a code
* `shuffled`, `frame` — the two codes

## Main results

* `bitunshuffle_bitshuffle` — unshuffling undoes shuffling
* `decompressLz4_compressLz4` — decompressing undoes compressing, and the room it needs
* `decompressLz4_append` — images that are compressed apart are decompressed together
-/

namespace StdDaq.Bitshuffle

open Memory BitMatrix

/-! ### Codes of blocks -/

section Codes

variable (code : ℕ → ℕ → List UInt8) (inp : Bytes) (elemSize : ℕ)

/-- The codes of blocks that stand one behind the other from `p` on. -/
def encodedBlocks : ℕ → List ℕ → List UInt8
  | _, [] => []
  | p, n :: ns => code p n ++ encodedBlocks (p + n * elemSize) ns

/-- **The encoded image**: the codes of its blocks, and the elements that are left over. -/
def encodedImage (size blockSize : ℕ) : List UInt8 :=
  let ns := blockSizes size (blockElems elemSize blockSize)
  encodedBlocks code elemSize 0 ns ++ slice inp (ns.sum * elemSize) (size % 8 * elemSize)

/-- A function that writes the code of a block of `n` elements. -/
def Encodes (fn : Block) (n : ℕ) : Prop := ∀ s : WrapState, callBlock fn s =
  { inPtr := s.inPtr + n * elemSize
    outPtr := s.outPtr + (code s.inPtr n).length
    err := s.err
    cumCount := s.cumCount + (code s.inPtr n).length
    mem := blit s.mem s.outPtr (code s.inPtr n) }

/-- A function that reads the code of a block of `n` elements in `src`, and writes the block. -/
def Decodes (src : Bytes) (fn : Block) (n : ℕ) : Prop :=
  ∀ (s : WrapState) (p : ℕ), Holds src s.inPtr (code p n) → callBlock fn s =
    { inPtr := s.inPtr + (code p n).length
      outPtr := s.outPtr + n * elemSize
      err := s.err
      cumCount := s.cumCount + (code p n).length
      mem := blit s.mem s.outPtr (slice inp p (n * elemSize)) }

end Codes

section Codes

variable {code code' : ℕ → ℕ → List UInt8} {inp out src : Bytes} {elemSize blockSize size p q : ℕ}
  {fn : ℕ → Block} {ns ms : List ℕ} {s : WrapState}

theorem encodedBlocks_append : encodedBlocks code elemSize p (ns ++ ms)
    = encodedBlocks code elemSize p ns
      ++ encodedBlocks code elemSize (p + ns.sum * elemSize) ms := by
  induction ns generalizing p with
  | nil =>
    rw [List.nil_append, List.sum_nil, Nat.zero_mul, Nat.add_zero, encodedBlocks, List.nil_append]
  | cons n ns ih =>
    rw [List.cons_append, encodedBlocks, ih, encodedBlocks, List.append_assoc, List.sum_cons,
      Nat.add_mul, Nat.add_assoc]

/-- Blocks with the same codes at different places. -/
theorem encodedBlocks_congr
    (h : ∀ n ∈ ns, ∀ i, i + n * elemSize ≤ ns.sum * elemSize → code (p + i) n = code' (q + i) n) :
    encodedBlocks code elemSize p ns = encodedBlocks code' elemSize q ns := by
  induction ns generalizing p q with
  | nil => rfl
  | cons n ns ih =>
    simp only [List.sum_cons, Nat.add_mul] at h
    have hfst : code p n = code' q n := h n List.mem_cons_self 0 (by omega)
    rw [encodedBlocks, encodedBlocks, hfst, ih fun n' hn' i hi => ?_]
    rw [Nat.add_assoc, Nat.add_assoc]
    exact h n' (List.mem_cons_of_mem n hn') _ (by omega)

/-- Encoding the blocks writes their codes. -/
theorem calls_of_encodes (hfn : ∀ n ∈ ns, Encodes code elemSize (fn n) n) :
    calls fn ns s =
      { inPtr := s.inPtr + ns.sum * elemSize
        outPtr := s.outPtr + (encodedBlocks code elemSize s.inPtr ns).length
        err := s.err
        cumCount := s.cumCount + (encodedBlocks code elemSize s.inPtr ns).length
        mem := blit s.mem s.outPtr (encodedBlocks code elemSize s.inPtr ns) } := by
  induction ns generalizing s with
  | nil => simp [calls, encodedBlocks]
  | cons n ns ih =>
    rw [List.forall_mem_cons] at hfn
    rw [calls_cons, hfn.1 s, ih hfn.2]
    simp only [encodedBlocks, List.length_append, List.sum_cons, Nat.add_mul, Nat.add_assoc,
      blit_blit, Int.add_assoc, Nat.cast_add]

/-- **Encoding an image.** -/
theorem blockedWrapFun_of_encodes (inp out : Bytes)
    (hblock : blockElems elemSize blockSize % 8 = 0)
    (hfn : ∀ n ∈ blockSizes size (blockElems elemSize blockSize), Encodes code elemSize (fn n) n) :
    blockedWrapFun fn inp out size elemSize blockSize
      = .ok (↑(encodedImage code inp elemSize size blockSize).length,
          blit out 0 (encodedImage code inp elemSize size blockSize)) := by
  rw [blockedWrapFun_eq hblock (calls_of_encodes hfn) le_rfl]
  simp only [encodedImage, Nat.zero_add, Int.zero_add, List.length_append, length_slice,
    Nat.cast_add]
  rw [← blit_blit, Nat.zero_add]

/-- Decoding the codes gives the blocks. -/
theorem calls_of_decodes (hfn : ∀ n ∈ ns, Decodes code inp elemSize src (fn n) n)
    (hcodes : Holds src s.inPtr (encodedBlocks code elemSize p ns)) :
    calls fn ns s =
      { inPtr := s.inPtr + (encodedBlocks code elemSize p ns).length
        outPtr := s.outPtr + ns.sum * elemSize
        err := s.err
        cumCount := s.cumCount + (encodedBlocks code elemSize p ns).length
        mem := blit s.mem s.outPtr (slice inp p (ns.sum * elemSize)) } := by
  induction ns generalizing s p with
  | nil => simp [calls, encodedBlocks]
  | cons n ns ih =>
    rw [List.forall_mem_cons] at hfn
    rw [encodedBlocks] at hcodes
    obtain ⟨hcode, hcodes⟩ := holds_append.mp hcodes
    rw [calls_cons, hfn.1 s p hcode, ih hfn.2 hcodes, List.sum_cons, Nat.add_mul, slice_add,
      ← blit_blit, length_slice]
    simp only [encodedBlocks, List.length_append, Nat.add_assoc, Int.add_assoc, Nat.cast_add]

/-- **Decoding an encoded image.** -/
theorem blockedWrapFun_of_decodes (out : Bytes)
    (hblock : blockElems elemSize blockSize % 8 = 0)
    (hfn : ∀ n ∈ blockSizes size (blockElems elemSize blockSize),
      Decodes code inp elemSize src (fn n) n)
    (hsrc : Holds src 0 (encodedImage code inp elemSize size blockSize)) :
    blockedWrapFun fn src out size elemSize blockSize
      = .ok (↑(encodedImage code inp elemSize size blockSize).length,
          fill (size * elemSize) inp out) := by
  obtain ⟨hcodes, hrest⟩ := holds_append.mp hsrc
  have hcalls := calls_of_decodes (s := ⟨0, 0, 0, 0, out⟩) hfn hcodes
  rw [blockedWrapFun_eq hblock hcalls le_rfl]
  simp only [encodedImage, Nat.zero_add, Int.zero_add, List.length_append, length_slice,
    Nat.cast_add]
  rw [Nat.zero_add] at hrest
  rw [hrest.slice_eq (length_slice _ _ _), ← blit_slice_zero]
  -- the blocks, and what is left over
  have hsplit : size * elemSize
      = (blockSizes size (blockElems elemSize blockSize)).sum * elemSize + size % 8 * elemSize := by
    rw [← Nat.add_mul, sum_blockSizes size hblock]
  rw [hsplit, slice_add, Nat.zero_add, ← blit_blit, length_slice, Nat.zero_add]

/-- The encoded image of two images one behind the other, if the first ends with a whole block. -/
theorem encodedImage_add (codeOf : Bytes → ℕ → ℕ → List UInt8) {inp' image : Bytes} {size' : ℕ}
    (hblock : blockElems elemSize blockSize % 8 = 0)
    (hdvd : size % blockElems elemSize blockSize = 0)
    (hcode : ∀ (m m' : Bytes) (p q n : ℕ),
      (∀ i < n * elemSize, m (p + i) = m' (q + i)) → codeOf m p n = codeOf m' q n)
    (hfst : ∀ i < size * elemSize, image i = inp i)
    (hsnd : ∀ i < size' * elemSize, image (size * elemSize + i) = inp' i) :
    encodedImage (codeOf image) image elemSize (size + size') blockSize
      = encodedImage (codeOf inp) inp elemSize size blockSize
        ++ encodedImage (codeOf inp') inp' elemSize size' blockSize := by
  have height : size % 8 = 0 := by
    rw [← Nat.mod_mod_of_dvd size (Nat.dvd_of_mod_eq_zero hblock), hdvd]
  have hsum := sum_blockSizes size hblock
  have hsum' := sum_blockSizes size' hblock
  rw [height, Nat.add_zero] at hsum
  have hmod : (size + size') % 8 = size' % 8 := by omega
  have hsplit : size' * elemSize = (blockSizes size' (blockElems elemSize blockSize)).sum * elemSize
      + size' % 8 * elemSize := by rw [← Nat.add_mul, hsum']
  have hfirst : encodedBlocks (codeOf image) elemSize 0
        (blockSizes size (blockElems elemSize blockSize))
      = encodedBlocks (codeOf inp) elemSize 0
        (blockSizes size (blockElems elemSize blockSize)) := by
    refine encodedBlocks_congr fun n _ i hi => hcode _ _ _ _ _ fun k hk => ?_
    rw [hsum] at hi
    rw [Nat.zero_add]
    exact hfst _ (by omega)
  have hsecond : encodedBlocks (codeOf image) elemSize (size * elemSize)
        (blockSizes size' (blockElems elemSize blockSize))
      = encodedBlocks (codeOf inp') elemSize 0
        (blockSizes size' (blockElems elemSize blockSize)) := by
    refine encodedBlocks_congr fun n _ i hi => hcode _ _ _ _ _ fun k hk => ?_
    rw [Nat.add_assoc, Nat.zero_add]
    exact hsnd _ (by omega)
  have hrest : slice image (size * elemSize
        + (blockSizes size' (blockElems elemSize blockSize)).sum * elemSize) (size' % 8 * elemSize)
      = slice inp' ((blockSizes size' (blockElems elemSize blockSize)).sum * elemSize)
        (size' % 8 * elemSize) := by
    refine slice_congr fun i hi => ?_
    rw [Nat.add_assoc]
    exact hsnd _ (by omega)
  simp only [encodedImage, blockSizes_add hdvd, encodedBlocks_append, List.sum_append, hsum, height,
    hmod, Nat.zero_add, Nat.zero_mul, slice_zero, List.append_nil, List.append_assoc, Nat.add_mul,
    hfirst, hsecond, hrest]

end Codes

/-! ### Shuffled blocks -/

/-- The shuffled block of `n` elements at `p`. -/
def shuffled (inp : Bytes) (elemSize p n : ℕ) : List UInt8 :=
  slice (bitTranspose n (8 * elemSize) fun a => inp (p + a)) 0 (n * elemSize)

section Shuffled

variable {junk junk' inp inp' out out' src : Bytes} {elemSize blockSize size p q n : ℕ}

@[simp] theorem length_shuffled (inp : Bytes) (elemSize p n : ℕ) :
    (shuffled inp elemSize p n).length = n * elemSize :=
  length_slice _ _ _

theorem shuffled_ne_nil (hpos : 0 < n * elemSize) : shuffled inp elemSize p n ≠ [] :=
  List.length_pos_iff.mp (by rwa [length_shuffled])

/-- The code depends on the elements of the block only. -/
theorem shuffled_congr (h : ∀ i < n * elemSize, inp (p + i) = inp' (q + i)) :
    shuffled inp elemSize p n = shuffled inp' elemSize q n := by
  refine slice_congr fun i hi => bitTranspose_congr (Nat.mul_left_comm 8 n elemSize)
    (fun a ha => h a ha) ?_
  rwa [Nat.zero_add]

/-- What the shuffle writes. -/
theorem slice_shuffled : slice (fill (n * elemSize)
    (bitTranspose n (8 * elemSize) fun a => inp (p + a)) out) 0 (n * elemSize)
      = shuffled inp elemSize p n :=
  slice_congr fun i hi => by rw [Nat.zero_add, fill_of_lt hi]

/-- Unshuffling a shuffled block. -/
theorem untransBitElem_shuffled (junk out : Bytes) (hmult : n % 8 = 0) {m : Bytes}
    (hm : Holds m 0 (shuffled inp elemSize p n)) :
    untransBitElem junk m out n elemSize
      = .ok (n * elemSize, fill (n * elemSize) (fun a => inp (p + a)) out) := by
  rw [untransBitElem_eq junk m out hmult]
  refine congrArg (fun block => Except.ok (n * elemSize, block)) (fill_congr fun a ha => ?_)
  rw [← unshuffled (m := fun a => inp (p + a)) ha]
  refine bitTranspose_congr ?_ (fun b hb => ?_) ha
  · rw [← Nat.mul_assoc, Nat.mul_right_comm]
  · have hb : (shuffled inp elemSize p n)[b]? = some _ :=
      (getElem?_slice hb).trans (by rw [Nat.zero_add])
    rw [← hm.apply hb, Nat.zero_add]

theorem encodes_bitshuffleBlock (junk inp : Bytes) (elemSize : ℕ) (hmult : n % 8 = 0) :
    Encodes (shuffled inp elemSize) elemSize (bitshuffleBlock junk inp elemSize n) n := by
  intro s
  have hblock : transBitElem junk (fun a => inp (s.inPtr + a)) junk n elemSize = _ :=
    transBitElem_eq junk _ junk hmult
  simp only [callBlock, bitshuffleBlock, shuffledBlock, hblock, length_shuffled, slice_shuffled,
    WrapState.mk.injEq, true_and]
  exact ⟨if_neg (by omega), rfl⟩

theorem decodes_bitunshuffleBlock (junk : Bytes) (hmult : n % 8 = 0) :
    Decodes (shuffled inp elemSize) inp elemSize src (bitunshuffleBlock junk src elemSize n) n := by
  intro s p hcode
  have hblock := untransBitElem_shuffled junk junk hmult
    (holds_shift.mpr hcode : Holds (fun a => src (s.inPtr + a)) 0 _)
  have hslice : slice (fill (n * elemSize) (fun a => inp (p + a)) junk) 0 (n * elemSize)
      = slice inp p (n * elemSize) := slice_congr fun i hi => by rw [Nat.zero_add, fill_of_lt hi]
  simp only [callBlock, bitunshuffleBlock, shuffledBlock, hblock, length_shuffled, hslice,
    WrapState.mk.injEq, true_and]
  exact ⟨if_neg (by omega), rfl⟩

theorem length_encodedBlocks_shuffled {ns : List ℕ} :
    (encodedBlocks (shuffled inp elemSize) elemSize p ns).length = ns.sum * elemSize := by
  induction ns generalizing p with
  | nil => rw [encodedBlocks, List.sum_nil, Nat.zero_mul, List.length_nil]
  | cons n ns ih =>
    rw [encodedBlocks, List.length_append, length_shuffled, ih, List.sum_cons, Nat.add_mul]

/-- **Unshuffling undoes shuffling**, block by block, for every image and every block size that is
allowed. -/
theorem bitunshuffle_bitshuffle (hallowed : Allowed elemSize blockSize)
    (junk junk' inp out out' : Bytes) (size : ℕ) :
    ∃ m : Bytes, bitshuffle junk inp out size elemSize blockSize = .ok (↑(size * elemSize), m) ∧
      (∀ a, size * elemSize ≤ a → m a = out a) ∧
      ∀ src : Bytes, (∀ a < size * elemSize, src a = m a) →
        bitunshuffle junk' src out' size elemSize blockSize
          = .ok (↑(size * elemSize), fill (size * elemSize) inp out') := by
  have hblock := hallowed.mult
  have hmult (n : ℕ) (hn : n ∈ blockSizes size (blockElems elemSize blockSize)) : n % 8 = 0 :=
    (of_mem_blockSizes blockElems_pos hblock hn).1
  have hlength : (encodedImage (shuffled inp elemSize) inp elemSize size blockSize).length
      = size * elemSize := by
    rw [encodedImage, List.length_append, length_encodedBlocks_shuffled, length_slice,
      ← Nat.add_mul, sum_blockSizes size hblock]
  refine ⟨blit out 0 (encodedImage (shuffled inp elemSize) inp elemSize size blockSize), ?_,
    fun a ha => blit_of_not_mem (by omega), fun src hsrc => ?_⟩
  · have hencode := blockedWrapFun_of_encodes inp out hblock fun n hn =>
      encodes_bitshuffleBlock junk inp elemSize (hmult n hn)
    rwa [hlength] at hencode
  · have hholds :
        Holds src 0 (encodedImage (shuffled inp elemSize) inp elemSize size blockSize) := by
      refine holds_blit.congr (m := blit out 0 _) fun i hi => ?_
      rw [Nat.zero_add]
      exact hsrc i (hlength ▸ hi)
    have hdecode := blockedWrapFun_of_decodes out' hblock
      (fun n hn => decodes_bitunshuffleBlock junk' (hmult n hn)) hholds
    rwa [hlength] at hdecode

theorem bitunshuffle_bitshuffle_bytes :
    let inp : Bytes := UInt8.ofNat
    ∃ m : Bytes, bitshuffle inp inp inp 21 3 8 = .ok (↑(21 * 3), m) ∧
      (∀ a, 21 * 3 ≤ a → m a = inp a) ∧
      ∀ src : Bytes, (∀ a < 21 * 3, src a = m a) →
        bitunshuffle inp src inp 21 3 8 = .ok (↑(21 * 3), fill (21 * 3) inp inp) :=
  bitunshuffle_bitshuffle ⟨by decide, by decide⟩ UInt8.ofNat UInt8.ofNat UInt8.ofNat UInt8.ofNat
    UInt8.ofNat 21

end Shuffled

/-! ### Frames -/

section Frames

variable (lz4 : Lz4) (inp : Bytes) (elemSize p n : ℕ)

/-- What LZ4 makes of a shuffled block. -/
def payload : List UInt8 :=
  lz4.compressDefault (shuffled inp elemSize p n) (lz4.compressBound ↑(n * elemSize))

/-- The frame of a block. -/
def frame : List UInt8 :=
  writeUint32BE (payload lz4 inp elemSize p n).length ++ payload lz4 inp elemSize p n

end Frames

/-- The compressed image. -/
def compressed (lz4 : Lz4) (inp : Bytes) (elemSize size blockSize : ℕ) : List UInt8 :=
  encodedImage (frame lz4 inp elemSize) inp elemSize size blockSize

/-- A block that LZ4 takes. -/
structure Fits (lz4 : Lz4) (elemSize n : ℕ) : Prop where
  mult : n % 8 = 0
  pos : 0 < n * elemSize
  le : n * elemSize ≤ lz4.maxInputSize

/-- What the functions assume of their parameters: elements are not empty, and the blocks are
multiples of eight and not too large for LZ4. -/
structure Valid (lz4 : Lz4) (elemSize blockSize : ℕ) : Prop where
  elem_pos : 0 < elemSize
  mult : blockElems elemSize blockSize % 8 = 0
  le : blockElems elemSize blockSize * elemSize ≤ lz4.maxInputSize

section Frames

variable {lz4 : Lz4} {junk inp inp' out src : Bytes} {elemSize blockSize size p q n : ℕ}

/-- All blocks of an image are taken by LZ4. -/
theorem Valid.fits (h : Valid lz4 elemSize blockSize) (size : ℕ) :
    ∀ n ∈ blockSizes size (blockElems elemSize blockSize), Fits lz4 elemSize n := by
  intro n hn
  obtain ⟨hmult, hpos, hle⟩ := of_mem_blockSizes blockElems_pos h.mult hn
  exact ⟨hmult, Nat.mul_pos hpos h.elem_pos, (Nat.mul_le_mul_right _ hle).trans h.le⟩

theorem length_frame :
    (frame lz4 inp elemSize p n).length = (payload lz4 inp elemSize p n).length + 4 := by
  rw [frame, List.length_append, length_writeUint32BE, Nat.add_comm]

theorem frame_congr (h : ∀ i < n * elemSize, inp (p + i) = inp' (q + i)) :
    frame lz4 inp elemSize p n = frame lz4 inp' elemSize q n := by
  rw [frame, frame, payload, payload, shuffled_congr h]

theorem compressedBlock_eq (lz4 : Lz4) (junk inp : Bytes) (p : ℕ) (hmult : n % 8 = 0)
    (hlt : n * elemSize < 2 ^ 31) :
    compressedBlock lz4 junk inp elemSize n p = .ok (payload lz4 inp elemSize p n) := by
  rw [compressedBlock, transBitElem_eq junk _ junk hmult, asInt_of_lt hlt]
  simp only [bind, Except.bind, Int.toNat_natCast, slice_shuffled]
  rfl

/-- Compressing a block writes its frame. -/
theorem encodes_compressLz4Block (hlt : lz4.maxInputSize < 2 ^ 31) (hfits : Fits lz4 elemSize n) :
    Encodes (frame lz4 inp elemSize) elemSize (compressLz4Block lz4 junk inp elemSize n) n := by
  intro s
  have hpayload := compressedBlock_eq lz4 junk inp s.inPtr hfits.mult (hfits.le.trans_lt hlt)
  simp only [callBlock, compressLz4Block, hpayload, length_frame, WrapState.mk.injEq, true_and]
  refine ⟨Nat.add_assoc _ _ _, if_neg (by omega), by push_cast; rfl, ?_⟩
  rw [frame, ← blit_blit, length_writeUint32BE]
  rfl

/-- Room for the worst case. -/
theorem length_payload_le (hdoc : lz4.Documented) (hfits : Fits lz4 elemSize n) :
    (payload lz4 inp elemSize p n).length ≤ lz4.compressBound ↑(n * elemSize) := by
  rw [← length_shuffled inp elemSize p n]
  exact hdoc.compresses _ _ (shuffled_ne_nil hfits.pos) (by rw [length_shuffled]; exact hfits.le)
    (by rw [length_shuffled])

theorem decompressSafe_payload (hdoc : lz4.Documented) (hfits : Fits lz4 elemSize n) :
    lz4.decompressSafe (payload lz4 inp elemSize p n) ↑(n * elemSize)
      = .ok (shuffled inp elemSize p n) := by
  rw [← length_shuffled inp elemSize p n]
  exact hdoc.decompresses _ _ (shuffled_ne_nil hfits.pos) (by rw [length_shuffled]; exact hfits.le)
    (by rw [length_shuffled])

/-- Decompressing a frame gives the block. -/
theorem decodes_decompressLz4Block (hdoc : lz4.Documented) (hfits : Fits lz4 elemSize n) :
    Decodes (frame lz4 inp elemSize) inp elemSize src
      (decompressLz4Block lz4 junk src elemSize n) n := by
  intro s p hframe
  have hle := hfits.le
  have hmax := hdoc.maxInputSize_lt
  have hsize : (payload lz4 inp elemSize p n).length < 2 ^ 31 :=
    (length_payload_le hdoc hfits).trans_lt (hdoc.compressBound_lt _)
  obtain ⟨hheader, hpayload⟩ := holds_append.mp hframe
  rw [length_writeUint32BE] at hpayload
  have hnbytes : nbytesFromHeader src s.inPtr = (payload lz4 inp elemSize p n).length := by
    rw [nbytesFromHeader, readUint32BE_of_holds hheader, Nat.mod_eq_of_lt (by omega),
      asInt_of_lt hsize]
  have hblock : decompressedBlock lz4 junk src elemSize n s.inPtr
      = .ok (n * elemSize, fill (n * elemSize) (fun a => inp (p + a)) junk) := by
    rw [decompressedBlock, hnbytes, Int.toNat_natCast, hpayload, asInt_of_lt (by omega),
      decompressSafe_payload hdoc hfits]
    simp only [Except.mapError, bind, Except.bind]
    rw [if_neg (not_not.mpr (length_shuffled inp elemSize p n))]
    exact untransBitElem_shuffled junk junk hfits.mult holds_blit
  have hslice : slice (fill (n * elemSize) (fun a => inp (p + a)) junk) 0 (n * elemSize)
      = slice inp p (n * elemSize) := slice_congr fun i hi => by rw [Nat.zero_add, fill_of_lt hi]
  simp only [callBlock, decompressLz4Block, hblock, hnbytes, length_frame, hslice,
    WrapState.mk.injEq, true_and]
  exact ⟨by omega, if_neg (by omega), by push_cast; rfl, rfl⟩

/-- **Compressing an image** writes the compressed image. -/
theorem compressLz4_eq (junk inp out : Bytes) (size : ℕ) (hlt : lz4.maxInputSize < 2 ^ 31)
    (hvalid : Valid lz4 elemSize blockSize) :
    compressLz4 lz4 junk inp out size elemSize blockSize
      = .ok (↑(compressed lz4 inp elemSize size blockSize).length,
          blit out 0 (compressed lz4 inp elemSize size blockSize)) :=
  blockedWrapFun_of_encodes inp out hvalid.mult fun n hn =>
    encodes_compressLz4Block hlt (hvalid.fits size n hn)

/-- **Decompressing the compressed image** gives the image. -/
theorem decompressLz4_of_holds (junk out : Bytes) (hdoc : lz4.Documented)
    (hvalid : Valid lz4 elemSize blockSize)
    (hsrc : Holds src 0 (compressed lz4 inp elemSize size blockSize)) :
    decompressLz4 lz4 junk src out size elemSize blockSize
      = .ok (↑(compressed lz4 inp elemSize size blockSize).length,
          fill (size * elemSize) inp out) :=
  blockedWrapFun_of_decodes out hvalid.mult
    (fun n hn => decodes_decompressLz4Block hdoc (hvalid.fits size n hn)) hsrc

/-! ### The size of the compressed image -/

theorem length_frame_le (hdoc : lz4.Documented) (hfits : Fits lz4 elemSize n) :
    (frame lz4 inp elemSize p n).length ≤ lz4.compressBound (asInt (n * elemSize)) + 4 := by
  rw [length_frame, asInt_of_lt (hfits.le.trans_lt hdoc.maxInputSize_lt)]
  exact Nat.add_le_add_right (length_payload_le hdoc hfits) 4

theorem length_frames_replicate_le (hdoc : lz4.Documented) (hfits : Fits lz4 elemSize n) (k : ℕ) :
    (encodedBlocks (frame lz4 inp elemSize) elemSize p (List.replicate k n)).length
      ≤ (lz4.compressBound (asInt (n * elemSize)) + 4) * k := by
  induction k generalizing p with
  | zero => exact Nat.zero_le _
  | succ k ih =>
    rw [List.replicate_succ, encodedBlocks, List.length_append, Nat.mul_succ, Nat.add_comm]
    exact Nat.add_le_add ih (length_frame_le hdoc hfits)

/-- **There is room for the compressed image** in a buffer of the size that is asked for. -/
theorem length_compressed_le (inp : Bytes) (size : ℕ) (hdoc : lz4.Documented)
    (hvalid : Valid lz4 elemSize blockSize) :
    (compressed lz4 inp elemSize size blockSize).length
      ≤ compressLz4Bound lz4 size elemSize blockSize := by
  have hlast : size % blockElems elemSize blockSize / 8 * 8
      = lastBlockSize size (blockElems elemSize blockSize) := by
    rw [lastBlockSize]
    omega
  simp only [compressed, encodedImage, compressLz4Bound, if_neg (not_not.mpr hvalid.mult), hlast,
    List.length_append, length_slice]
  refine Nat.add_le_add_right ?_ _
  rw [blockSizes, encodedBlocks_append, List.length_append]
  have hfits := hvalid.fits size
  rw [blockSizes, List.forall_mem_append] at hfits
  refine Nat.add_le_add ?_ ?_
  · by_cases hnone : size / blockElems elemSize blockSize = 0
    · rw [hnone]
      exact Nat.zero_le _
    · exact length_frames_replicate_le hdoc
        (hfits.1 _ (List.mem_replicate.mpr ⟨hnone, rfl⟩)) _
  · by_cases hnone : lastBlockSize size (blockElems elemSize blockSize) = 0
    · rw [if_neg (not_not.mpr hnone), if_neg (not_not.mpr hnone)]
      exact Nat.zero_le _
    · rw [if_pos hnone] at hfits ⊢
      rw [if_pos hnone, encodedBlocks, encodedBlocks, List.append_nil]
      exact length_frame_le hdoc (hfits.2 _ (List.mem_singleton_self _))

/-- An image that has elements is compressed to some bytes. -/
theorem length_compressed_pos (inp : Bytes) (hvalid : Valid lz4 elemSize blockSize)
    (hsize : 0 < size) :
    0 < (compressed lz4 inp elemSize size blockSize).length := by
  have hsum := sum_blockSizes size hvalid.mult
  rw [compressed, encodedImage, List.length_append, length_slice]
  cases hns : blockSizes size (blockElems elemSize blockSize) with
  | nil =>
    rw [hns, List.sum_nil, Nat.zero_add] at hsum
    rw [hsum]
    exact Nat.lt_add_left _ (Nat.mul_pos hsize hvalid.elem_pos)
  | cons n ns =>
    rw [encodedBlocks, List.length_append, length_frame]
    omega

/-- **No LZ4 makes every image smaller**: some image of `size` elements is not. -/
theorem exists_le_length_compressed (hdoc : lz4.Documented) (hvalid : Valid lz4 elemSize blockSize)
    (size : ℕ) :
    ∃ inp, size * elemSize ≤ (compressed lz4 inp elemSize size blockSize).length := by
  -- the compressed image is a code for the bytes of the image, since it can be decompressed
  let extend (x : Fin (size * elemSize) → UInt8) : Bytes := fun a =>
    if h : a < size * elemSize then x ⟨a, h⟩ else 0
  have hextend (x : Fin (size * elemSize) → UInt8) (i : Fin (size * elemSize)) :
      extend x i = x i := dif_pos i.isLt
  have hinj : Function.Injective fun x => compressed lz4 (extend x) elemSize size blockSize := by
    intro x y heq
    have hback (z : Fin (size * elemSize) → UInt8) :
        decompressLz4 lz4 (extend x)
            (blit (extend x) 0 (compressed lz4 (extend z) elemSize size blockSize)) (extend x) size
            elemSize blockSize = _ :=
      decompressLz4_of_holds (extend x) (extend x) hdoc hvalid holds_blit
    have hboth := (hback x).symm.trans ((congrArg (fun c => decompressLz4 lz4 (extend x)
      (blit (extend x) 0 c) (extend x) size elemSize blockSize) heq).trans (hback y))
    have hfill := (Prod.mk.inj (Except.ok.inj hboth)).2
    funext i
    have hi := congrFun hfill i
    rwa [fill_of_lt i.isLt, fill_of_lt i.isLt, hextend, hextend] at hi
  have : Nontrivial UInt8 := ⟨0, 1, by decide⟩
  obtain ⟨x, hx⟩ := exists_le_length _ hinj
  exact ⟨extend x, hx⟩

/-! ### Round trips -/

/-- **Decompressing undoes compressing**, for every image and every block size that is allowed. The
compressed image fits into the buffer that is asked for, nothing behind it is written, and both
directions return its length. -/
theorem decompressLz4_compressLz4 (hdoc : lz4.Documented) (hvalid : Valid lz4 elemSize blockSize)
    (junk junk' inp out out' : Bytes) (size : ℕ) :
    ∃ (n : ℕ) (m : Bytes), compressLz4 lz4 junk inp out size elemSize blockSize = .ok (↑n, m) ∧
      n ≤ compressLz4Bound lz4 size elemSize blockSize ∧ (∀ a, n ≤ a → m a = out a) ∧
      ∀ src : Bytes, (∀ a < n, src a = m a) →
        decompressLz4 lz4 junk' src out' size elemSize blockSize
          = .ok (↑n, fill (size * elemSize) inp out') := by
  refine ⟨_, _, compressLz4_eq junk inp out size hdoc.maxInputSize_lt hvalid,
    length_compressed_le inp size hdoc hvalid, fun a ha => blit_of_not_mem (by omega),
    fun src hsrc => decompressLz4_of_holds junk' out' hdoc hvalid
      (holds_blit.congr (m := blit out 0 _) fun i hi => ?_)⟩
  rw [Nat.zero_add]
  exact hsrc i hi

theorem decompressLz4_compressLz4_bytes :
    let inp : Bytes := UInt8.ofNat
    ∃ (n : ℕ) (m : Bytes), compressLz4 literalLz4 inp inp inp 21 2 8 = .ok (↑n, m) ∧
      n ≤ compressLz4Bound literalLz4 21 2 8 ∧ (∀ a, n ≤ a → m a = inp a) ∧
      ∀ src : Bytes, (∀ a < n, src a = m a) →
        decompressLz4 literalLz4 inp src inp 21 2 8 = .ok (↑n, fill (21 * 2) inp inp) :=
  decompressLz4_compressLz4 literalLz4_documented ⟨by decide, by decide, by decide⟩ UInt8.ofNat
    UInt8.ofNat UInt8.ofNat UInt8.ofNat UInt8.ofNat 21

/-- What compressing leaves in the first `n` bytes. -/
theorem slice_of_compressLz4 (hlt : lz4.maxInputSize < 2 ^ 31)
    (hvalid : Valid lz4 elemSize blockSize) {m : Bytes}
    (h : compressLz4 lz4 junk inp out size elemSize blockSize = .ok (↑n, m)) :
    n = (compressed lz4 inp elemSize size blockSize).length ∧
      slice m 0 n = compressed lz4 inp elemSize size blockSize := by
  rw [compressLz4_eq junk inp out size hlt hvalid] at h
  obtain ⟨hn, rfl⟩ := Prod.mk.inj (Except.ok.inj h)
  have hn : (compressed lz4 inp elemSize size blockSize).length = n := Int.ofNat_inj.mp hn
  exact ⟨hn.symm, holds_blit.slice_eq hn⟩

/-- **Images that are compressed apart are decompressed together**, from their compressed images one
behind the other, if all but the last are made up of whole blocks. -/
theorem decompressLz4_append (hdoc : lz4.Documented) (hvalid : Valid lz4 elemSize blockSize)
    (hdvd : size % blockElems elemSize blockSize = 0) {junk' : Bytes} {size' n n' : ℕ}
    {out₁ out₂ m m' : Bytes}
    (hfst : compressLz4 lz4 junk inp out₁ size elemSize blockSize = .ok (↑n, m))
    (hsnd : compressLz4 lz4 junk inp' out₂ size' elemSize blockSize = .ok (↑n', m'))
    (hsrc : Holds src 0 (slice m 0 n ++ slice m' 0 n')) :
    decompressLz4 lz4 junk' src out (size + size') elemSize blockSize
      = .ok (↑(n + n'), blits out
          [(0, slice inp 0 (size * elemSize)),
            (size * elemSize, slice inp' 0 (size' * elemSize))]) := by
  obtain ⟨hn, hslice⟩ := slice_of_compressLz4 hdoc.maxInputSize_lt hvalid hfst
  obtain ⟨hn', hslice'⟩ := slice_of_compressLz4 hdoc.maxInputSize_lt hvalid hsnd
  let image : Bytes := fill (size * elemSize) inp fun a => inp' (a - size * elemSize)
  have himage (i : ℕ) (hi : i < size * elemSize) : image i = inp i := fill_of_lt hi
  have himage' (i : ℕ) : image (size * elemSize + i) = inp' i :=
    (fill_of_ge (Nat.le_add_right _ _)).trans (congrArg inp' (Nat.add_sub_cancel_left _ _))
  have hadd : compressed lz4 image elemSize (size + size') blockSize
      = compressed lz4 inp elemSize size blockSize
        ++ compressed lz4 inp' elemSize size' blockSize :=
    encodedImage_add (fun m => frame lz4 m elemSize) hvalid.mult hdvd
      (fun m m' p q n h => frame_congr h) himage fun i _ => himage' i
  have hfirst : slice image 0 (size * elemSize) = slice inp 0 (size * elemSize) :=
    slice_congr fun i hi => by rw [Nat.zero_add, himage i hi]
  have hsecond : slice image (size * elemSize) (size' * elemSize)
      = slice inp' 0 (size' * elemSize) :=
    slice_congr fun i _ => by rw [Nat.zero_add, himage' i]
  rw [hslice, hslice', ← hadd] at hsrc
  rw [decompressLz4_of_holds junk' out hdoc hvalid hsrc, hadd, List.length_append, ← hn, ← hn',
    ← blit_slice_zero, Nat.add_mul, slice_add, ← blit_blit, length_slice, Nat.zero_add, hfirst,
    hsecond]
  rfl

theorem decompressLz4_append_bytes :
    let inp : Bytes := UInt8.ofNat
    let fst := blit inp 0 (compressed literalLz4 inp 2 8 8)
    let snd := blit inp 0 (compressed literalLz4 inp 2 13 8)
    let n := (compressed literalLz4 inp 2 8 8).length
    let n' := (compressed literalLz4 inp 2 13 8).length
    decompressLz4 literalLz4 inp (blit inp 0 (slice fst 0 n ++ slice snd 0 n')) inp (8 + 13) 2 8
      = .ok (↑(n + n'), blits inp [(0, slice inp 0 (8 * 2)), (8 * 2, slice inp 0 (13 * 2))]) :=
  decompressLz4_append literalLz4_documented ⟨by decide, by decide, by decide⟩ (by decide)
    (compressLz4_eq UInt8.ofNat UInt8.ofNat UInt8.ofNat 8 (by decide)
      ⟨by decide, by decide, by decide⟩)
    (compressLz4_eq UInt8.ofNat UInt8.ofNat UInt8.ofNat 13 (by decide)
      ⟨by decide, by decide, by decide⟩) holds_blit

end Frames

end StdDaq.Bitshuffle
