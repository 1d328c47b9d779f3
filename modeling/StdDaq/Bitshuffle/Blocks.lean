import Mathlib
import StdDaq.Lib.Messages
import StdDaq.Bitshuffle.Avx

/-!
# Compressing an image block by block

An image is shuffled and compressed in blocks of a fixed number of elements, a multiple of eight.
The last block may be smaller, and the elements that do not fill up a group of eight are copied.

LZ4 is a parameter, with what its documentation promises in `Lz4.Documented`.

## Main definitions

* `blockedWrapFun` — the loop over the blocks
* `compressLz4`, `decompressLz4`, `bitshuffle`, `bitunshuffle` — the loop with each of the four
  block functions
-/

namespace StdDaq.Bitshuffle

open Memory BitMatrix

/-! ### LZ4 -/

/-- The functions of LZ4. -/
structure Lz4 where
  /-- The largest size of an input. -/
  maxInputSize : ℕ
  /-- The largest size of an output, for the size of an input. -/
  compressBound : ℤ → ℕ
  /-- The output for an input and the capacity of the buffer: empty when it fails. -/
  compressDefault : List UInt8 → ℕ → List UInt8
  /-- A negative error, or the output for an input and the capacity of the buffer. -/
  decompressSafe : List UInt8 → ℤ → Except ℤ (List UInt8)

/-- What the documentation says about them. -/
structure Lz4.Documented (lz4 : Lz4) : Prop where
  /-- Sizes are of type `int`. -/
  maxInputSize_lt : lz4.maxInputSize < 2 ^ 31
  compressBound_lt : ∀ n, lz4.compressBound n < 2 ^ 31
  /-- Compression succeeds when there is room for the worst case. -/
  compresses : ∀ (src : List UInt8) (cap : ℕ), src ≠ [] → src.length ≤ lz4.maxInputSize →
    lz4.compressBound src.length ≤ cap →
      (lz4.compressDefault src cap).length ≤ lz4.compressBound src.length
  /-- And what it gives is decompressed again. -/
  decompresses : ∀ (src : List UInt8) (cap : ℕ), src ≠ [] → src.length ≤ lz4.maxInputSize →
    lz4.compressBound src.length ≤ cap →
      lz4.decompressSafe (lz4.compressDefault src cap) src.length = .ok src

/-! ### LZ4 without matches -/

/-- The length of a run of literals, behind the first 15: bytes of 255, and a last byte. -/
def writeRun (n : ℕ) : List UInt8 := List.replicate (n / 255) 255 ++ [UInt8.ofNat (n % 255)]

/-- The length of a run, and what follows it. -/
def readRun : List UInt8 → ℕ × List UInt8
  | [] => (0, [])
  | b :: bs => if b = 255 then ((readRun bs).1 + 255, (readRun bs).2) else (b.toNat, bs)

theorem readRun_writeRun (n : ℕ) (xs : List UInt8) : readRun (writeRun n ++ xs) = (n, xs) := by
  have hlast (k : ℕ) (hk : k < 255) : readRun (UInt8.ofNat k :: xs) = (k, xs) := by
    have hk' : (UInt8.ofNat k).toNat = k := UInt8.toNat_ofNat_of_lt' (hk.trans (by decide))
    have hne : UInt8.ofNat k ≠ 255 := fun heq => by
      rw [heq] at hk'
      exact hk.ne hk'.symm
    rw [readRun, if_neg hne, hk']
  have hruns (k r : ℕ) (hr : r < 255) :
      readRun (List.replicate k 255 ++ [UInt8.ofNat r] ++ xs) = (k * 255 + r, xs) := by
    induction k with
    | zero => rw [Nat.zero_mul, Nat.zero_add]; exact hlast r hr
    | succ k ih =>
      rw [List.replicate_succ, List.cons_append, List.cons_append, readRun, if_pos rfl, ih]
      exact congrArg (·, xs) (by omega)
  rw [writeRun, hruns _ _ (Nat.mod_lt n (by decide)), Nat.div_add_mod']

/-- The literals behind the header of a block. -/
def literals (src : List UInt8) : List UInt8 :=
  if src.length < 15 then UInt8.ofNat (16 * src.length) :: src
  else 240 :: (writeRun (src.length - 15) ++ src)

/-- A block that consists of literals. -/
def readLiterals : List UInt8 → Except ℤ (List UInt8)
  | [] => .error (-1)
  | token :: rest =>
    if token < 240 then if token.toNat = 16 * rest.length then .ok rest else .error (-1)
    else if (readRun rest).2.length = (readRun rest).1 + 15 then .ok (readRun rest).2
    else .error (-1)

/-- LZ4 that never looks for a match, as it is on inputs of up to 12 bytes. -/
def literalLz4 : Lz4 where
  maxInputSize := 0x7E000000
  compressBound n := if 0 ≤ n ∧ n ≤ 0x7E000000 then n.toNat + n.toNat / 255 + 16 else 0
  compressDefault src cap := if (literals src).length ≤ cap then literals src else []
  decompressSafe src cap := do
    let dst ← readLiterals src
    if dst.length ≤ cap then .ok dst else .error (-1)

theorem readLiterals_literals (src : List UInt8) : readLiterals (literals src) = .ok src := by
  rw [literals]
  split
  case isTrue hlt =>
    have htoken : (UInt8.ofNat (16 * src.length)).toNat = 16 * src.length :=
      UInt8.toNat_ofNat_of_lt' (show 16 * src.length < 256 by omega)
    have hsmall : UInt8.ofNat (16 * src.length) < 240 := by
      rw [UInt8.lt_iff_toNat_lt, htoken]
      change _ < 240
      omega
    rw [readLiterals, if_pos hsmall, if_pos htoken]
  case isFalse hge =>
    rw [readLiterals, if_neg (by decide), readRun_writeRun, if_pos (by simp; omega)]

theorem length_literals (src : List UInt8) :
    (literals src).length ≤ src.length + src.length / 255 + 16 := by
  rw [literals]
  split
  · rw [List.length_cons]
    omega
  · rw [List.length_cons, writeRun, List.length_append, List.length_append, List.length_replicate,
      List.length_singleton]
    omega

theorem literalLz4_compressBound {n : ℕ} (h : n ≤ literalLz4.maxInputSize) :
    literalLz4.compressBound n = n + n / 255 + 16 := by
  have hle : (n : ℤ) ≤ 0x7E000000 := Int.ofNat_le.mpr h
  exact if_pos ⟨Int.natCast_nonneg n, hle⟩

theorem compressDefault_literalLz4 {src : List UInt8} {cap : ℕ} (h : (literals src).length ≤ cap) :
    literalLz4.compressDefault src cap = literals src := if_pos h

/-- It keeps what is documented. -/
theorem literalLz4_documented : literalLz4.Documented where
  maxInputSize_lt := by decide
  compressBound_lt n := by
    simp only [literalLz4]
    split <;> omega
  compresses src cap _ hle hcap := by
    have hbound := literalLz4_compressBound hle
    have hlength := length_literals src
    rw [hbound] at hcap ⊢
    rwa [compressDefault_literalLz4 (hlength.trans hcap)]
  decompresses src cap _ hle hcap := by
    rw [literalLz4_compressBound hle] at hcap
    rw [compressDefault_literalLz4 ((length_literals src).trans hcap)]
    simp only [literalLz4, readLiterals_literals, bind, Except.bind]
    exact if_pos le_rfl

/-! ### LZ4 with one match -/

/-- A block of at least 25 equal bytes: a literal, a match of what is just before, and the last five
bytes, which are literals again. -/
def writeRepeat (x : UInt8) (n : ℕ) : List UInt8 :=
  31 :: x :: 1 :: 0 :: (writeRun (n - 25) ++ 80 :: List.replicate 5 x)

/-- The bytes of such a block. -/
def readRepeat : List UInt8 → Option (List UInt8)
  | token :: x :: 1 :: 0 :: rest =>
    if token = 31 ∧ (readRun rest).2 = 80 :: List.replicate 5 x then
      some (List.replicate ((readRun rest).1 + 25) x)
    else none
  | _ => none

/-- LZ4 that only finds blocks of equal bytes, as it is on these and on inputs of up to 12 bytes. -/
def repeatLz4 : Lz4 where
  maxInputSize := 0x7E000000
  compressBound := literalLz4.compressBound
  compressDefault src cap :=
    let x := src.headD 0
    if 25 ≤ src.length ∧ src = List.replicate src.length x then
      if (writeRepeat x src.length).length ≤ cap then writeRepeat x src.length else []
    else literalLz4.compressDefault src cap
  decompressSafe src cap :=
    match readRepeat src with
    | some dst => if dst.length ≤ cap then .ok dst else .error (-1)
    | none => literalLz4.decompressSafe src cap

theorem readRepeat_writeRepeat {n : ℕ} (hn : 25 ≤ n) (x : UInt8) :
    readRepeat (writeRepeat x n) = some (List.replicate n x) := by
  rw [writeRepeat, readRepeat, readRun_writeRun, if_pos ⟨rfl, rfl⟩, Nat.sub_add_cancel hn]

/-- No literals look like a match. -/
theorem readRepeat_literals (src : List UInt8) : readRepeat (literals src) = none := by
  have htoken (token : UInt8) (rest : List UInt8) (hne : token ≠ 31) :
      readRepeat (token :: rest) = none := by
    rw [readRepeat.eq_def]
    split
    · next heq =>
      obtain ⟨rfl, -⟩ := List.cons.inj heq
      exact if_neg fun h => hne h.1
    · rfl
  rw [literals]
  split
  · next hlt =>
    refine htoken _ _ fun heq => ?_
    have hnat := congrArg UInt8.toNat heq
    rw [UInt8.toNat_ofNat_of_lt' (show 16 * src.length < 256 by omega)] at hnat
    change 16 * src.length = 31 at hnat
    omega
  · exact htoken _ _ (by decide)

theorem length_writeRepeat {n : ℕ} (hn : 25 ≤ n) (x : UInt8) :
    (writeRepeat x n).length ≤ n + n / 255 + 16 := by
  simp only [writeRepeat, writeRun, List.length_cons, List.length_append, List.length_replicate,
    List.length_nil]
  omega

/-- It keeps what is documented. -/
theorem repeatLz4_documented : repeatLz4.Documented where
  maxInputSize_lt := by decide
  compressBound_lt := literalLz4_documented.compressBound_lt
  compresses src cap hne hle hcap := by
    by_cases hrepeat : 25 ≤ src.length ∧ src = List.replicate src.length (src.headD 0)
    · have hlength := length_writeRepeat hrepeat.1 (src.headD 0)
      rw [← literalLz4_compressBound hle] at hlength
      simp only [repeatLz4, if_pos hrepeat, if_pos (hlength.trans hcap)]
      exact hlength
    · simp only [repeatLz4, if_neg hrepeat]
      exact literalLz4_documented.compresses src cap hne hle hcap
  decompresses src cap hne hle hcap := by
    have hbound := literalLz4_compressBound hle
    by_cases hrepeat : 25 ≤ src.length ∧ src = List.replicate src.length (src.headD 0)
    · have hlength := length_writeRepeat hrepeat.1 (src.headD 0)
      rw [← hbound] at hlength
      simp only [repeatLz4, if_pos hrepeat, if_pos (hlength.trans hcap),
        readRepeat_writeRepeat hrepeat.1]
      rw [← hrepeat.2]
      exact if_pos le_rfl
    · have hliteral := literalLz4_documented.decompresses src cap hne hle hcap
      have hroom : (literals src).length ≤ cap := (length_literals src).trans (hbound ▸ hcap)
      rw [compressDefault_literalLz4 hroom] at hliteral
      simp only [repeatLz4, if_neg hrepeat, compressDefault_literalLz4 hroom, readRepeat_literals]
      exact hliteral

/-! ### Numbers -/

/-- The conversion to `int`. -/
def asInt (n : ℕ) : ℤ := (n : ℤ).bmod (2 ^ 32)

theorem asInt_of_lt {n : ℕ} (h : n < 2 ^ 31) : asInt n = n :=
  Int.bmod_eq_of_le (by omega) (by omega)

/-- Write a 32 bit number in big endian order. -/
def writeUint32BE (num : ℕ) : List UInt8 := writeBE 4 num

/-- Read a 32 bit number in big endian order. -/
def readUint32BE (buf : Bytes) : ℕ := readBE 4 buf

/-- Write a 64 bit number in big endian order. -/
def writeUint64BE (num : ℕ) : List UInt8 := writeBE 8 num

/-- Read a 64 bit number in big endian order. -/
def readUint64BE (buf : Bytes) : ℕ := readBE 8 buf

@[simp] theorem length_writeUint32BE {num : ℕ} : (writeUint32BE num).length = 4 := length_writeBE

@[simp] theorem length_writeUint64BE {num : ℕ} : (writeUint64BE num).length = 8 := length_writeBE

theorem readUint32BE_of_holds {m : Bytes} {p num : ℕ} (h : Holds m p (writeUint32BE num)) :
    readUint32BE (fun a => m (p + a)) = num % 2 ^ 32 := readBE_of_holds h

theorem readUint64BE_of_holds {m : Bytes} {p num : ℕ} (h : Holds m p (writeUint64BE num)) :
    readUint64BE (fun a => m (p + a)) = num % 2 ^ 64 := readBE_of_holds h

/-! ### Blocks -/

/-- A function that processes a block. Its input is read from a buffer that nobody writes. -/
structure Block where
  /-- The next input pointer. -/
  nextIn : ℕ → ℕ
  /-- The next output pointer. -/
  nextOut : ℕ → ℕ → ℕ
  /-- The messages that are written. -/
  stores : ℕ → ℕ → List (ℕ × List UInt8)
  /-- The number of bytes that is returned, or a negative error. -/
  count : ℕ → ℤ

section BlockFunctions

variable (lz4 : Lz4) (junk inp : Bytes) (elemSize size : ℕ)

/-- The shuffled block, compressed. -/
def compressedBlock (p : ℕ) : Except ℤ (List UInt8) := do
  let n := asInt (size * elemSize)
  let (_, tmpBufBshuf) ← transBitElem junk (fun a => inp (p + a)) junk size elemSize
  .ok (lz4.compressDefault (slice tmpBufBshuf 0 n.toNat) (lz4.compressBound n))

/-- Bitshuffle and compress a single block. -/
def compressLz4Block : Block where
  nextIn p := p + size * elemSize
  nextOut p q :=
    match compressedBlock lz4 junk inp elemSize size p with
    | .error _ => q
    | .ok tmpBufLz4 => q + tmpBufLz4.length + 4
  stores p q :=
    match compressedBlock lz4 junk inp elemSize size p with
    | .error _ => []
    | .ok tmpBufLz4 => [(q, writeUint32BE tmpBufLz4.length), (q + 4, tmpBufLz4)]
  count p :=
    match compressedBlock lz4 junk inp elemSize size p with
    | .error e => e
    | .ok tmpBufLz4 => tmpBufLz4.length + 4

/-- The length of a frame, as the reader takes it. -/
def nbytesFromHeader (p : ℕ) : ℤ := asInt (readUint32BE fun a => inp (p + a))

/-- The block of a frame, decompressed and unshuffled. -/
def decompressedBlock (p : ℕ) : Outcome := do
  let tmpBuf ← (lz4.decompressSafe (slice inp (p + 4) (nbytesFromHeader inp p).toNat)
    (asInt (size * elemSize))).mapError (· - 1000)
  if tmpBuf.length ≠ size * elemSize then .error (-91)
  else untransBitElem junk (blit junk 0 tmpBuf) junk size elemSize

/-- Decompress and bitunshuffle a single block. -/
def decompressLz4Block : Block where
  nextIn p := (p + nbytesFromHeader inp p + 4).toNat
  nextOut _ q := q + size * elemSize
  stores p q :=
    match decompressedBlock lz4 junk inp elemSize size p with
    | .error _ => []
    | .ok (_, block) => [(q, slice block 0 (size * elemSize))]
  count p :=
    match decompressedBlock lz4 junk inp elemSize size p with
    | .error e => e
    | .ok _ => nbytesFromHeader inp p + 4

/-- A block that is shuffled one way or the other, and keeps its size. -/
def shuffledBlock (shuffle : Bytes → Bytes → ℕ → ℕ → Outcome) : Block where
  nextIn p := p + size * elemSize
  nextOut _ q := q + size * elemSize
  stores p q :=
    match shuffle (fun a => inp (p + a)) junk size elemSize with
    | .error _ => []
    | .ok (_, block) => [(q, slice block 0 (size * elemSize))]
  count p :=
    match shuffle (fun a => inp (p + a)) junk size elemSize with
    | .error e => e
    | .ok (count, _) => count

/-- Bitshuffle a single block. -/
def bitshuffleBlock : Block := shuffledBlock junk inp elemSize size (transBitElem junk)

/-- Bitunshuffle a single block. -/
def bitunshuffleBlock : Block := shuffledBlock junk inp elemSize size (untransBitElem junk)

end BlockFunctions

/-! ### The loop -/

/-- The pointers, the sum of the counts, the last error and the output. -/
@[ext] structure WrapState where
  inPtr : ℕ
  outPtr : ℕ
  err : ℤ
  cumCount : ℤ
  mem : Bytes

/-- Process the next block. -/
def callBlock (fn : Block) (s : WrapState) : WrapState where
  inPtr := fn.nextIn s.inPtr
  outPtr := fn.nextOut s.inPtr s.outPtr
  err := if fn.count s.inPtr < 0 then fn.count s.inPtr else s.err
  cumCount := s.cumCount + fn.count s.inPtr
  mem := blits s.mem (fn.stores s.inPtr s.outPtr)

/-- The default number of elements in a block. -/
def defaultBlockSize (elemSize : ℕ) : ℕ := max (8192 / elemSize / 8 * 8) 128

/-- The number of elements in a block, by the parameter. -/
def blockElems (elemSize blockSize : ℕ) : ℕ :=
  if blockSize = 0 then defaultBlockSize elemSize else blockSize

/-- The parameters that are allowed: blocks are multiples of eight, and where the size of the blocks
is left to the library, elements are not empty, for it divides by their size. -/
structure Allowed (elemSize blockSize : ℕ) : Prop where
  defined : 0 < elemSize ∨ blockSize ≠ 0
  mult : blockElems elemSize blockSize % 8 = 0

/-- The number of elements in the last block, which may be 0. -/
def lastBlockSize (size blockSize : ℕ) : ℕ := size % blockSize - size % blockSize % 8

/-- What the wrapper does after the loop: the last block, and the elements that are left over. -/
def afterLoop (fn : ℕ → Block) (inp : Bytes) (size elemSize blockSize : ℕ) (s : WrapState) :
    Except ℤ (ℤ × Bytes) :=
  let s :=
    if lastBlockSize size blockSize ≠ 0 then callBlock (fn (lastBlockSize size blockSize)) s else s
  if s.err < 0 then .error s.err
  else .ok (s.cumCount + ↑(size % 8 * elemSize),
    blit s.mem s.outPtr (slice inp s.inPtr (size % 8 * elemSize)))

/-- Wrap a function that processes a block to process a buffer. -/
def blockedWrapFun (fn : ℕ → Block) (inp out : Bytes) (size elemSize blockSize : ℕ) :
    Except ℤ (ℤ × Bytes) :=
  let blockSize := blockElems elemSize blockSize
  if blockSize % 8 ≠ 0 then .error (-81)
  else afterLoop fn inp size elemSize blockSize
    ((callBlock (fn blockSize))^[size / blockSize] ⟨0, 0, 0, 0, out⟩)

section Functions

variable (lz4 : Lz4) (junk inp out : Bytes) (size elemSize blockSize : ℕ)

/-- Bitshuffle and compress a buffer. -/
def compressLz4 : Except ℤ (ℤ × Bytes) :=
  blockedWrapFun (compressLz4Block lz4 junk inp elemSize) inp out size elemSize blockSize

/-- Decompress and bitunshuffle a buffer. -/
def decompressLz4 : Except ℤ (ℤ × Bytes) :=
  blockedWrapFun (decompressLz4Block lz4 junk inp elemSize) inp out size elemSize blockSize

/-- Bitshuffle a buffer. -/
def bitshuffle : Except ℤ (ℤ × Bytes) :=
  blockedWrapFun (bitshuffleBlock junk inp elemSize) inp out size elemSize blockSize

/-- Bitunshuffle a buffer. -/
def bitunshuffle : Except ℤ (ℤ × Bytes) :=
  blockedWrapFun (bitunshuffleBlock junk inp elemSize) inp out size elemSize blockSize

/-- The size of a buffer for the compressed data. An error is a huge size. -/
def compressLz4Bound : ℕ :=
  let blockSize := blockElems elemSize blockSize
  if blockSize % 8 ≠ 0 then 2 ^ 64 - 81
  else
    let leftover := size % blockSize / 8 * 8
    (lz4.compressBound (asInt (blockSize * elemSize)) + 4) * (size / blockSize) +
      (if leftover ≠ 0 then lz4.compressBound (asInt (leftover * elemSize)) + 4 else 0) +
      size % 8 * elemSize

end Functions

/-- The numbers of elements of all blocks. -/
def blockSizes (size blockSize : ℕ) : List ℕ :=
  List.replicate (size / blockSize) blockSize ++
    if lastBlockSize size blockSize ≠ 0 then [lastBlockSize size blockSize] else []

section BlockSizes

variable {size size' blockSize n : ℕ}

/-- All blocks are multiples of eight. -/
theorem of_mem_blockSizes (hpos : 0 < blockSize) (hblock : blockSize % 8 = 0)
    (h : n ∈ blockSizes size blockSize) : n % 8 = 0 ∧ 0 < n ∧ n ≤ blockSize := by
  rcases List.mem_append.mp h with h | h
  · obtain ⟨-, rfl⟩ := List.mem_replicate.mp h
    exact ⟨hblock, hpos, le_rfl⟩
  · have hlt := Nat.mod_lt size hpos
    split at h
    · obtain rfl := List.mem_singleton.mp h
      rw [lastBlockSize] at *
      omega
    · cases h

/-- The blocks and the elements that are left over make up the buffer. -/
theorem sum_blockSizes (size : ℕ) (hblock : blockSize % 8 = 0) :
    (blockSizes size blockSize).sum + size % 8 = size := by
  have hlast : (if lastBlockSize size blockSize ≠ 0 then [lastBlockSize size blockSize]
      else []).sum = lastBlockSize size blockSize := by
    split <;> simp_all
  have hmod : size % blockSize % 8 = size % 8 :=
    Nat.mod_mod_of_dvd _ (Nat.dvd_of_mod_eq_zero hblock)
  have hdiv := Nat.div_add_mod size blockSize
  have hle := Nat.mod_le (size % blockSize) 8
  rw [blockSizes, List.sum_append, hlast, List.sum_replicate, lastBlockSize, smul_eq_mul,
    Nat.mul_comm]
  omega

/-- Two buffers one behind the other, the first of which ends with a whole block. -/
theorem blockSizes_add (hdvd : size % blockSize = 0) :
    blockSizes (size + size') blockSize
      = blockSizes size blockSize ++ blockSizes size' blockSize := by
  have hmod : (size + size') % blockSize = size' % blockSize := by
    rw [Nat.add_mod, hdvd, Nat.zero_add, Nat.mod_mod]
  have hlast : lastBlockSize size blockSize = 0 := by rw [lastBlockSize, hdvd]
  have hlast' : lastBlockSize (size + size') blockSize = lastBlockSize size' blockSize := by
    rw [lastBlockSize, lastBlockSize, hmod]
  have hdiv : (size + size') / blockSize = size / blockSize + size' / blockSize :=
    Nat.add_div_of_dvd_right (Nat.dvd_of_mod_eq_zero hdvd)
  rw [blockSizes, blockSizes, blockSizes, hlast', hdiv, List.replicate_add, hlast, if_neg
    (not_not.mpr rfl), List.append_nil, List.append_assoc]

/-- The default is a multiple of eight. -/
theorem defaultBlockSize_mod (elemSize : ℕ) : defaultBlockSize elemSize % 8 = 0 := by
  rw [defaultBlockSize]
  omega

theorem blockElems_pos {elemSize : ℕ} : 0 < blockElems elemSize blockSize := by
  rw [blockElems]
  split
  · exact Nat.lt_of_lt_of_le (by decide) (le_max_right _ _)
  · exact Nat.pos_of_ne_zero ‹_›

/-- A size that has been chosen is kept. -/
theorem blockElems_blockElems {elemSize : ℕ} :
    blockElems elemSize (blockElems elemSize blockSize) = blockElems elemSize blockSize := by
  rw [blockElems, if_neg (Nat.ne_of_gt blockElems_pos)]

end BlockSizes

/-- One block after the other. -/
def calls (fn : ℕ → Block) (ns : List ℕ) (s : WrapState) : WrapState :=
  ns.foldl (fun s n => callBlock (fn n) s) s

section Calls

variable {fn : ℕ → Block} {ns : List ℕ} {s : WrapState} {size elemSize blockSize : ℕ}
  {inp out : Bytes}

theorem calls_cons {n : ℕ} : calls fn (n :: ns) s = calls fn ns (callBlock (fn n) s) := rfl

theorem calls_replicate {k n : ℕ} : calls fn (List.replicate k n) s = (callBlock (fn n))^[k] s := by
  induction k generalizing s with
  | zero => rfl
  | succ k ih => exact ih

/-- The wrapper processes all blocks, and copies what is left over. -/
theorem blockedWrapFun_eq (hblock : blockElems elemSize blockSize % 8 = 0)
    (hcalls : calls fn (blockSizes size (blockElems elemSize blockSize)) ⟨0, 0, 0, 0, out⟩ = s)
    (herr : 0 ≤ s.err) :
    blockedWrapFun fn inp out size elemSize blockSize
      = .ok (s.cumCount + ↑(size % 8 * elemSize),
          blit s.mem s.outPtr (slice inp s.inPtr (size % 8 * elemSize))) := by
  rw [blockSizes, calls, List.foldl_append] at hcalls
  change calls fn _ (calls fn _ _) = s at hcalls
  rw [calls_replicate] at hcalls
  simp only [blockedWrapFun, if_neg (not_not.mpr hblock), afterLoop]
  by_cases hlast : lastBlockSize size (blockElems elemSize blockSize) ≠ 0
  · rw [if_pos hlast] at hcalls ⊢
    change callBlock _ _ = s at hcalls
    rw [hcalls, if_neg (Int.not_lt.mpr herr)]
  · rw [if_neg hlast] at hcalls ⊢
    rw [calls, List.foldl_nil] at hcalls
    rw [hcalls, if_neg (Int.not_lt.mpr herr)]

end Calls

end StdDaq.Bitshuffle
