import Mathlib
import StdDaq.Bitshuffle.Frames

/-!
# The HDF5 filter

HDF5 passes every chunk of a dataset through `bshufH5Filter`, one way when it is written and the
other when it is read. A chunk that is compressed with LZ4 begins with a header of 12 bytes: the
number of bytes of the chunk, and the size of the blocks in bytes.

The parameters of the filter are stored with the dataset: two numbers of a version, the size of the
elements, the number of elements in a block and the compression. `bshufH5SetLocal` fills in the
first three.

## Main definitions

* `bshufH5Filter` — the filter

## Main results

* `bshufH5Filter_reverse` — a compressed chunk is read back
* `bshufH5Filter_roundTrip` — and so is every chunk that the filter has written
-/

namespace StdDaq.Bitshuffle

open Memory

/-- `BSHUF_H5_COMPRESS_LZ4`. -/
def compressLz4Flag : ℕ := 2

/-- `BSHUF_H5_COMPRESS_ZSTD`. -/
def compressZstdFlag : ℕ := 3

/-- The parameters of the filter, from those of the user and the size of the elements. An unknown
compression is reported, but it is no error. -/
def bshufH5SetLocal (tmpValues : List ℕ) (elemSize : ℕ) : Option (List ℕ) :=
  let values := [0, 4, elemSize] ++ tmpValues.take 8
  if elemSize = 0 then none
  else if 3 < values.length ∧ values.getD 3 0 % 8 ≠ 0 then none
  else some values

/-- What the filter returns: a number of bytes, and the buffer with its size. -/
structure Filtered where
  nbytes : ℤ
  bufSize : ℕ
  buf : Bytes

/-- The error of a function that returns a count, as an `int`: none if it is not negative. -/
def countOf (r : Except ℤ (ℤ × Bytes)) : Option (ℤ × Bytes) :=
  match r with
  | .error _ => none
  | .ok (count, out) =>
    if count.bmod (2 ^ 32) < 0 then none else some (count.bmod (2 ^ 32), out)

/-- The filter. It fails with `none`, where the source returns 0 and leaves the buffer alone. -/
def bshufH5Filter (lz4 : Lz4) (junk : Bytes) (reverse : Bool) (cdValues : List ℕ) (nbytes : ℕ)
    (buf : Bytes) : Option Filtered :=
  if cdValues.length < 3 then none
  else
    let elemSize := cdValues.getD 2 0
    let blockSize := blockElems elemSize (cdValues.getD 3 0)
    if 4 < cdValues.length ∧ cdValues.getD 4 0 = compressZstdFlag then none
    else if 4 < cdValues.length ∧ cdValues.getD 4 0 = compressLz4Flag then
      if reverse then
        let nbytesUncomp := readUint64BE buf
        -- the size of the blocks is that of the header
        let blockSize := readUint32BE (fun a => buf (8 + a)) / elemSize
        if nbytesUncomp % elemSize ≠ 0 then none
        else (countOf (decompressLz4 lz4 junk (fun a => buf (12 + a)) junk (nbytesUncomp / elemSize)
          elemSize blockSize)).map fun (_, outBuf) => ⟨nbytesUncomp, nbytesUncomp, outBuf⟩
      else if nbytes % elemSize ≠ 0 then none
      else
        let bufSizeOut := compressLz4Bound lz4 (nbytes / elemSize) elemSize blockSize + 12
        let outBuf := blit junk 0 (writeUint64BE nbytes ++ writeUint32BE (blockSize * elemSize))
        (countOf (compressLz4 lz4 junk buf (fun a => outBuf (12 + a)) (nbytes / elemSize) elemSize
          blockSize)).map fun (err, out) =>
            ⟨err + 12, bufSizeOut, fill 12 outBuf fun a => out (a - 12)⟩
    else if nbytes % elemSize ≠ 0 then none
    else
      let shuffle := if reverse then bitunshuffle else bitshuffle
      (countOf (shuffle junk buf junk (nbytes / elemSize) elemSize blockSize)).map
        fun (_, outBuf) => ⟨nbytes, nbytes, outBuf⟩

/-! ### Chunks -/

/-- The header of a compressed chunk. -/
def header (nbytes blockBytes : ℕ) : List UInt8 := writeUint64BE nbytes ++ writeUint32BE blockBytes

/-- A compressed chunk, for a size of the blocks in bytes. -/
def chunk (lz4 : Lz4) (inp : Bytes) (elemSize nbytes blockBytes : ℕ) : List UInt8 :=
  header nbytes blockBytes
    ++ compressed lz4 inp elemSize (nbytes / elemSize) (blockBytes / elemSize)

section Chunks

variable {lz4 : Lz4} {junk junk' inp buf : Bytes} {cdValues tmpValues : List ℕ}
  {elemSize nbytes blockBytes blockSize n : ℕ} {out : Bytes}

@[simp] theorem length_header : (header nbytes blockBytes).length = 12 := by
  rw [header, List.length_append, length_writeUint64BE, length_writeUint32BE]

/-- Writing the header, and what follows it. -/
theorem blit_header {m : Bytes} {p : ℕ} {xs : List UInt8} :
    blit (blit m p (header nbytes blockBytes)) (p + 12) xs
      = blit m p (header nbytes blockBytes ++ xs) := by
  rw [← blit_blit, length_header]

theorem countOf_ok (hn : n < 2 ^ 31) : countOf (.ok (↑n, out)) = some (↑n, out) := by
  have hint : (n : ℤ).bmod (2 ^ 32) = n := asInt_of_lt hn
  simp only [countOf, hint]
  exact if_neg (Int.not_lt.mpr (Int.natCast_nonneg n))

theorem not_zstd : ¬ (n < cdValues.length ∧ compressLz4Flag = compressZstdFlag) := fun h =>
  absurd h.2 (by decide)

/-- The filter compresses. -/
structure UsesLz4 (cdValues : List ℕ) (elemSize : ℕ) : Prop where
  length : 4 < cdValues.length
  elem : cdValues.getD 2 0 = elemSize
  flag : cdValues.getD 4 0 = compressLz4Flag

/-- **A compressed chunk is read back**, whoever compressed it. The numbers have room in the
header. -/
theorem bshufH5Filter_reverse (junk : Bytes) (hdoc : lz4.Documented)
    (hcd : UsesLz4 cdValues elemSize)
    (hvalid : Valid lz4 elemSize (blockBytes / elemSize)) (hblock : blockBytes < 2 ^ 32)
    (hnbytes : nbytes < 2 ^ 64) (helems : nbytes % elemSize = 0)
    (hsize : (compressed lz4 inp elemSize (nbytes / elemSize) (blockBytes / elemSize)).length
      < 2 ^ 31)
    (hbuf : Holds buf 0 (chunk lz4 inp elemSize nbytes blockBytes)) :
    bshufH5Filter lz4 junk true cdValues n buf
      = some ⟨nbytes, nbytes, fill nbytes inp junk⟩ := by
  have hlength := hcd.length
  obtain ⟨hheader, hbody⟩ := holds_append.mp hbuf
  obtain ⟨hfst, hsnd⟩ := holds_append.mp hheader
  rw [length_header, Nat.zero_add] at hbody
  rw [length_writeUint64BE, Nat.zero_add] at hsnd
  have huncomp : readUint64BE buf = nbytes := by
    have hread := readUint64BE_of_holds hfst
    simp only [Nat.zero_add] at hread
    rw [hread, Nat.mod_eq_of_lt hnbytes]
  have hblock : readUint32BE (fun a => buf (8 + a)) = blockBytes := by
    rw [readUint32BE_of_holds hsnd, Nat.mod_eq_of_lt hblock]
  have hbody : Holds (fun a => buf (12 + a)) 0
      (compressed lz4 inp elemSize (nbytes / elemSize) (blockBytes / elemSize)) :=
    holds_shift.mpr hbody
  have hdecompress := decompressLz4_of_holds junk junk hdoc hvalid hbody
  rw [bshufH5Filter, if_neg (Nat.not_lt.mpr (show 3 ≤ cdValues.length by omega)), hcd.flag,
    if_neg not_zstd, if_pos ⟨hlength, rfl⟩, if_pos rfl]
  simp only [hcd.elem, huncomp, hblock, hdecompress, countOf_ok hsize, Option.map_some]
  rw [if_neg (not_not.mpr helems), Nat.div_mul_cancel (Nat.dvd_of_mod_eq_zero helems)]

/-- What the filter makes of a chunk. -/
theorem bshufH5Filter_forward (junk : Bytes) (hlt : lz4.maxInputSize < 2 ^ 31)
    (hcd : UsesLz4 cdValues elemSize)
    (hblock : blockElems elemSize (cdValues.getD 3 0) = blockSize)
    (hvalid : Valid lz4 elemSize blockSize) (helems : nbytes % elemSize = 0)
    (hsize : (compressed lz4 inp elemSize (nbytes / elemSize) blockSize).length < 2 ^ 31) :
    bshufH5Filter lz4 junk false cdValues nbytes inp
      = some ⟨(chunk lz4 inp elemSize nbytes (blockSize * elemSize)).length,
          compressLz4Bound lz4 (nbytes / elemSize) elemSize blockSize + 12,
          blit junk 0 (chunk lz4 inp elemSize nbytes (blockSize * elemSize))⟩ := by
  have hlength := hcd.length
  rw [bshufH5Filter, if_neg (Nat.not_lt.mpr (show 3 ≤ cdValues.length by omega)), hcd.flag,
    if_neg not_zstd, if_pos ⟨hlength, rfl⟩, if_neg Bool.false_ne_true]
  simp only [hcd.elem, hblock, compressLz4_eq junk inp _ _ hlt hvalid, countOf_ok hsize,
    Option.map_some]
  rw [if_neg (not_not.mpr helems), fill_blit_shift, chunk, Nat.mul_div_cancel _ hvalid.elem_pos,
    List.length_append, length_header, Nat.add_comm 12, Nat.cast_add, ← blit_header, Nat.zero_add]
  rfl

/-- Parameters without a compression. -/
structure UsesNone (cdValues : List ℕ) (elemSize : ℕ) : Prop where
  length : 3 ≤ cdValues.length
  elem : cdValues.getD 2 0 = elemSize
  no_lz4 : ¬ (4 < cdValues.length ∧ cdValues.getD 4 0 = compressLz4Flag)
  no_zstd : ¬ (4 < cdValues.length ∧ cdValues.getD 4 0 = compressZstdFlag)

/-- A chunk that is shuffled is read back. -/
theorem bshufH5Filter_shuffled (lz4 : Lz4) (junk junk' inp : Bytes)
    (hcd : UsesNone cdValues elemSize)
    (hblock : blockElems elemSize (cdValues.getD 3 0) % 8 = 0) (helems : nbytes % elemSize = 0)
    (hlt : nbytes < 2 ^ 31) :
    ∃ m, bshufH5Filter lz4 junk false cdValues nbytes inp = some ⟨nbytes, nbytes, m⟩ ∧
      ∀ buf : Bytes, (∀ a < nbytes, buf a = m a) →
        bshufH5Filter lz4 junk' true cdValues nbytes buf
          = some ⟨nbytes, nbytes, fill nbytes inp junk'⟩ := by
  have hcancel := Nat.div_mul_cancel (Nat.dvd_of_mod_eq_zero helems)
  have hallowed : Allowed elemSize (blockElems elemSize (cdValues.getD 3 0)) :=
    ⟨.inr (Nat.ne_of_gt blockElems_pos), by rwa [blockElems_blockElems]⟩
  obtain ⟨m, hforward, -, hback⟩ :=
    bitunshuffle_bitshuffle hallowed junk junk' inp junk junk' (nbytes / elemSize)
  rw [hcancel] at hforward hback
  refine ⟨m, ?_, fun buf hbuf => ?_⟩
  · rw [bshufH5Filter, if_neg (Nat.not_lt.mpr hcd.length), if_neg hcd.no_zstd, if_neg hcd.no_lz4]
    simp only [hcd.elem]
    rw [if_neg (not_not.mpr helems), if_neg Bool.false_ne_true, hforward, countOf_ok hlt,
      Option.map_some]
  · rw [bshufH5Filter, if_neg (Nat.not_lt.mpr hcd.length), if_neg hcd.no_zstd, if_neg hcd.no_lz4]
    simp only [hcd.elem]
    rw [if_neg (not_not.mpr helems), if_true, hback buf hbuf, countOf_ok hlt, Option.map_some]

/-- The parameters that are stored with a dataset. -/
theorem of_bshufH5SetLocal (hset : bshufH5SetLocal tmpValues elemSize = some cdValues) :
    0 < elemSize ∧ cdValues = [0, 4, elemSize] ++ tmpValues.take 8 ∧
      cdValues.getD 3 0 = tmpValues.getD 0 0 ∧
      blockElems elemSize (cdValues.getD 3 0) % 8 = 0 := by
  rw [bshufH5SetLocal] at hset
  split at hset
  · cases hset
  split at hset
  · cases hset
  obtain rfl := Option.some.inj hset
  rename_i hpos hmult
  have hfirst : ([0, 4, elemSize] ++ tmpValues.take 8).getD 3 0 = tmpValues.getD 0 0 := by
    cases tmpValues <;> rfl
  refine ⟨Nat.pos_of_ne_zero hpos, rfl, hfirst, ?_⟩
  rw [blockElems]
  split
  case isTrue => exact defaultBlockSize_mod elemSize
  case isFalse hne =>
    by_contra hodd
    refine hmult ⟨?_, hodd⟩
    rw [hfirst] at hne
    cases tmpValues with
    | nil => exact absurd rfl hne
    | cons v rest =>
      rw [List.length_append, List.take_succ_cons, List.length_cons]
      exact Nat.lt_add_of_pos_right (Nat.succ_pos _)

/-- **What the filter writes it reads**: with the parameters that are stored with a dataset a chunk
is read as it was written, if it is made up of whole elements and smaller than 2 GiB, with its
blocks small enough for LZ4. -/
theorem bshufH5Filter_roundTrip (hdoc : lz4.Documented)
    (hset : bshufH5SetLocal tmpValues elemSize = some cdValues)
    (hzstd : tmpValues.getD 1 0 ≠ compressZstdFlag)
    (hle : blockElems elemSize (tmpValues.getD 0 0) * elemSize ≤ lz4.maxInputSize)
    (helems : nbytes % elemSize = 0) (hlt : nbytes < 2 ^ 31)
    (hbound : compressLz4Bound lz4 (nbytes / elemSize) elemSize
      (blockElems elemSize (tmpValues.getD 0 0)) < 2 ^ 31) (junk junk' inp : Bytes) :
    ∃ r, bshufH5Filter lz4 junk false cdValues nbytes inp = some r ∧
      0 ≤ r.nbytes ∧ r.nbytes ≤ r.bufSize ∧
      ∀ buf : Bytes, (∀ a < r.nbytes.toNat, buf a = r.buf a) →
        bshufH5Filter lz4 junk' true cdValues r.nbytes.toNat buf
          = some ⟨nbytes, nbytes, fill nbytes inp junk'⟩ := by
  obtain ⟨hpos, hcd, hfirst, hmult⟩ := of_bshufH5SetLocal hset
  have hlength : 3 ≤ cdValues.length := by
    rw [hcd, List.length_append]
    exact Nat.le_add_right 3 _
  have helem : cdValues.getD 2 0 = elemSize := by rw [hcd]; rfl
  by_cases hlz4 : 4 < cdValues.length ∧ cdValues.getD 4 0 = compressLz4Flag
  · -- the size of the blocks is in the header
    obtain ⟨blockSize, hblock⟩ : ∃ b, blockElems elemSize (cdValues.getD 3 0) = b := ⟨_, rfl⟩
    have hself : blockElems elemSize blockSize = blockSize := by
      rw [← hblock, blockElems_blockElems]
    rw [← hfirst, hblock] at hle hbound
    rw [hblock] at hmult
    have huses : UsesLz4 cdValues elemSize := ⟨hlz4.1, helem, hlz4.2⟩
    have hvalid : Valid lz4 elemSize blockSize := ⟨hpos, by rwa [hself], by rwa [hself]⟩
    have hmax := hdoc.maxInputSize_lt
    have hroom := length_compressed_le inp (nbytes / elemSize) hdoc hvalid
    have hforward := bshufH5Filter_forward junk hmax huses hblock hvalid helems
      (hroom.trans_lt hbound)
    refine ⟨_, hforward, Int.natCast_nonneg _, ?_, fun buf hbuf => ?_⟩
    · rw [chunk, List.length_append, length_header, Nat.mul_div_cancel _ hpos, Nat.add_comm]
      exact Int.ofNat_le.mpr (Nat.add_le_add_right hroom 12)
    · have hcancel := Nat.mul_div_cancel blockSize hpos
      have hvalid' : Valid lz4 elemSize (blockSize * elemSize / elemSize) := by rwa [hcancel]
      refine bshufH5Filter_reverse junk' hdoc huses hvalid' (by omega)
        (by omega) helems ?_ (holds_blit.congr (m := blit junk 0 _) fun i hi => ?_)
      · rw [hcancel]
        exact hroom.trans_lt hbound
      · rw [Nat.zero_add]
        exact hbuf i hi
  · have hnone : UsesNone cdValues elemSize := by
      refine ⟨hlength, helem, hlz4, fun h => hzstd ?_⟩
      rw [← h.2, hcd]
      rcases tmpValues with - | ⟨v, - | ⟨w, rest⟩⟩ <;> rfl
    obtain ⟨m, hforward, hback⟩ :=
      bshufH5Filter_shuffled lz4 junk junk' inp hnone hmult helems hlt
    exact ⟨_, hforward, Int.natCast_nonneg _, le_rfl, hback⟩

theorem bshufH5Filter_roundTrip_bytes :
    ∃ r, bshufH5Filter literalLz4 UInt8.ofNat false [0, 4, 2, 8, 2] 42 UInt8.ofNat = some r ∧
      0 ≤ r.nbytes ∧ r.nbytes ≤ r.bufSize ∧
      ∀ buf : Bytes, (∀ a < r.nbytes.toNat, buf a = r.buf a) →
        bshufH5Filter literalLz4 UInt8.ofNat true [0, 4, 2, 8, 2] r.nbytes.toNat buf
          = some ⟨42, 42, fill 42 UInt8.ofNat UInt8.ofNat⟩ :=
  bshufH5Filter_roundTrip literalLz4_documented
    (show bshufH5SetLocal [8, 2] 2 = some [0, 4, 2, 8, 2] from rfl) (by decide) (by decide)
    (by decide) (by decide) (by decide) UInt8.ofNat UInt8.ofNat UInt8.ofNat

end Chunks

end StdDaq.Bitshuffle
