import Mathlib
import StdDaq.Bitshuffle.Scalar
import StdDaq.Lib.Lanes

/-!
# Bitshuffle with registers of 16 bytes

The steps of the shuffle with SSE2 instructions. Bytes are moved by networks of unpacking
instructions, and bits are collected by taking the top bits of the lanes of a register and shifting
it. What does not fill a register is left to the loops over bytes.

A network gets its registers by number and gives the registers it stores, by number as well.

## Main results

* `transByteElemSSE_eq` — transposing the bytes, whatever the size of an element
* `transBitByteSSE_eq`, `transByteBitrowSSE_eq`, `shuffleBitEightelemSSE_eq` — the other steps
  draw what the loops over bytes draw
-/

namespace StdDaq.Bitshuffle

open Memory BitMatrix Bits Lanes

/-! ### Transposing the bytes of elements -/

/-- Two registers hold 16 elements of two bytes. -/
def elemNetwork16 {α : Type*} (r : ℕ → ℕ → α) : ℕ → ℕ → α :=
  let a0 := r 0
  let b0 := r 1
  let a1 := unpacklo 1 a0 b0
  let b1 := unpackhi 1 a0 b0
  let a0 := unpacklo 1 a1 b1
  let b0 := unpackhi 1 a1 b1
  let a1 := unpacklo 1 a0 b0
  let b1 := unpackhi 1 a0 b0
  let a0 := unpacklo 1 a1 b1
  let b0 := unpackhi 1 a1 b1
  fun
    | 0 => a0
    | _ => b0

/-- Four registers hold 16 elements of four bytes. -/
def elemNetwork32 {α : Type*} (r : ℕ → ℕ → α) : ℕ → ℕ → α :=
  let a0 := r 0
  let b0 := r 1
  let c0 := r 2
  let d0 := r 3
  let a1 := unpacklo 1 a0 b0
  let b1 := unpackhi 1 a0 b0
  let c1 := unpacklo 1 c0 d0
  let d1 := unpackhi 1 c0 d0
  let a0 := unpacklo 1 a1 b1
  let b0 := unpackhi 1 a1 b1
  let c0 := unpacklo 1 c1 d1
  let d0 := unpackhi 1 c1 d1
  let a1 := unpacklo 1 a0 b0
  let b1 := unpackhi 1 a0 b0
  let c1 := unpacklo 1 c0 d0
  let d1 := unpackhi 1 c0 d0
  let a0 := unpacklo 8 a1 c1
  let b0 := unpackhi 8 a1 c1
  let c0 := unpacklo 8 b1 d1
  let d0 := unpackhi 8 b1 d1
  fun
    | 0 => a0
    | 1 => b0
    | 2 => c0
    | _ => d0

/-- Eight registers hold 16 elements of eight bytes. -/
def elemNetwork64 {α : Type*} (r : ℕ → ℕ → α) : ℕ → ℕ → α :=
  let a0 := r 0
  let b0 := r 1
  let c0 := r 2
  let d0 := r 3
  let e0 := r 4
  let f0 := r 5
  let g0 := r 6
  let h0 := r 7
  let a1 := unpacklo 1 a0 b0
  let b1 := unpackhi 1 a0 b0
  let c1 := unpacklo 1 c0 d0
  let d1 := unpackhi 1 c0 d0
  let e1 := unpacklo 1 e0 f0
  let f1 := unpackhi 1 e0 f0
  let g1 := unpacklo 1 g0 h0
  let h1 := unpackhi 1 g0 h0
  let a0 := unpacklo 1 a1 b1
  let b0 := unpackhi 1 a1 b1
  let c0 := unpacklo 1 c1 d1
  let d0 := unpackhi 1 c1 d1
  let e0 := unpacklo 1 e1 f1
  let f0 := unpackhi 1 e1 f1
  let g0 := unpacklo 1 g1 h1
  let h0 := unpackhi 1 g1 h1
  let a1 := unpacklo 4 a0 c0
  let b1 := unpackhi 4 a0 c0
  let c1 := unpacklo 4 b0 d0
  let d1 := unpackhi 4 b0 d0
  let e1 := unpacklo 4 e0 g0
  let f1 := unpackhi 4 e0 g0
  let g1 := unpacklo 4 f0 h0
  let h1 := unpackhi 4 f0 h0
  let a0 := unpacklo 8 a1 e1
  let b0 := unpackhi 8 a1 e1
  let c0 := unpacklo 8 b1 f1
  let d0 := unpackhi 8 b1 f1
  let e0 := unpacklo 8 c1 g1
  let f0 := unpackhi 8 c1 g1
  let g0 := unpacklo 8 d1 h1
  let h0 := unpackhi 8 d1 h1
  fun
    | 0 => a0
    | 1 => b0
    | 2 => c0
    | 3 => d0
    | 4 => e0
    | 5 => f0
    | 6 => g0
    | _ => h0

/-- Byte `k` of element `i` goes to lane `i` of register `k`. -/
def Deinterleaves (net : (ℕ → ℕ → UInt8) → ℕ → ℕ → UInt8) (w : ℕ) : Prop :=
  ∀ m : ℕ → ℕ → UInt8, ∀ k < w, ∀ i < 16, net m k i = m ((w * i + k) / 16) ((w * i + k) % 16)

section Networks

variable {α β : Type*} (f : α → β) (r : ℕ → ℕ → α) (k i : ℕ)

theorem elemNetwork16_comp :
    elemNetwork16 (fun k l => f (r k l)) k i = f (elemNetwork16 r k i) := by
  rcases k with _ | k <;> simp only [elemNetwork16, unpacklo_comp, unpackhi_comp]

theorem elemNetwork32_comp :
    elemNetwork32 (fun k l => f (r k l)) k i = f (elemNetwork32 r k i) := by
  rcases k with _ | _ | _ | k <;> simp only [elemNetwork32, unpacklo_comp, unpackhi_comp]

theorem elemNetwork64_comp :
    elemNetwork64 (fun k l => f (r k l)) k i = f (elemNetwork64 r k i) := by
  rcases k with _ | _ | _ | _ | _ | _ | _ | k <;>
    simp only [elemNetwork64, unpacklo_comp, unpackhi_comp]

end Networks

-- each network is run once, on lanes that hold their register and their number

theorem deinterleaves16 : Deinterleaves elemNetwork16 2 := by
  have hrun : ∀ k < 2, ∀ i < 16,
      elemNetwork16 Prod.mk k i = ((2 * i + k) / 16, (2 * i + k) % 16) := by decide +kernel
  intro m k hk i hi
  exact (elemNetwork16_comp (fun p => m p.1 p.2) Prod.mk k i).trans (by rw [hrun k hk i hi])

theorem deinterleaves32 : Deinterleaves elemNetwork32 4 := by
  have hrun : ∀ k < 4, ∀ i < 16,
      elemNetwork32 Prod.mk k i = ((4 * i + k) / 16, (4 * i + k) % 16) := by decide +kernel
  intro m k hk i hi
  exact (elemNetwork32_comp (fun p => m p.1 p.2) Prod.mk k i).trans (by rw [hrun k hk i hi])

theorem deinterleaves64 : Deinterleaves elemNetwork64 8 := by
  have hrun : ∀ k < 8, ∀ i < 16,
      elemNetwork64 Prod.mk k i = ((8 * i + k) / 16, (8 * i + k) % 16) := by decide +kernel
  intro m k hk i hi
  exact (elemNetwork64_comp (fun p => m p.1 p.2) Prod.mk k i).trans (by rw [hrun k hk i hi])

/-- The loop over 16 elements a turn. -/
def elemLoops (net : (ℕ → ℕ → UInt8) → ℕ → ℕ → UInt8) (inp : Bytes) (size w : ℕ) :
    List (ℕ × List UInt8) :=
  (blocks 0 size 16).flatMap fun ii => (List.range w).map fun k =>
    (k * size + ii, (List.range 16).map (net (fun r => load inp (w * ii + r * 16)) k))

/-- Transpose the bytes within elements of `w` bytes, with a network for 16 of them. -/
def transByteElemVector (net : (ℕ → ℕ → UInt8) → ℕ → ℕ → UInt8) (inp out : Bytes) (size w : ℕ) :
    Outcome :=
  transByteElemRemainder inp (blits out (elemLoops net inp size w)) size w (size - size % 16)

/-- Transpose the bytes within 16-bit elements. -/
def transByteElemSSE16 (inp out : Bytes) (size : ℕ) : Outcome :=
  transByteElemVector elemNetwork16 inp out size 2

/-- Transpose the bytes within 32-bit elements. -/
def transByteElemSSE32 (inp out : Bytes) (size : ℕ) : Outcome :=
  transByteElemVector elemNetwork32 inp out size 4

/-- Transpose the bytes within 64-bit elements. -/
def transByteElemSSE64 (inp out : Bytes) (size : ℕ) : Outcome :=
  transByteElemVector elemNetwork64 inp out size 8

section Vector

variable {net : (ℕ → ℕ → UInt8) → ℕ → ℕ → UInt8} {w size : ℕ}

theorem elemLoops_paints (hnet : Deinterleaves net w) (inp : Bytes) :
    Paints (cellTranspose size w 1 inp) {a | a < size * w ∧ a % size < size - size % 16}
      (elemLoops net inp size w) := by
  have hlane {ii k i : ℕ} (hk : k < w) (hi : i < 16) (hrow : ii + i < size) :
      net (fun r => load inp (w * ii + r * 16)) k i
        = cellTranspose size w 1 inp (k * size + (ii + i)) := by
    have hplace : w * ii + (w * i + k) / 16 * 16 + (w * i + k) % 16 = (ii + i) * w + k := by
      rw [Nat.add_assoc, Nat.div_add_mod']
      ring
    rw [hnet _ k hk i hi, load, hplace, cellTranspose_one, flip_place hrow]
  constructor
  · intro a x h
    simp only [elemLoops, stores_flatMap, stores_map, stores_lanes, List.mem_range] at h
    obtain ⟨ii, hii, k, hk, i, hi, rfl, rfl⟩ := h
    have hblock := le_of_mem_blocks (by decide) hii
    have hrow : ii + i < size := by omega
    rw [Nat.add_assoc, Nat.mul_comm size]
    refine ⟨⟨place_lt hk hrow, ?_⟩, hlane hk hi hrow⟩
    rw [place_mod hrow]
    omega
  · rintro a ⟨ha, hlow⟩
    rw [Nat.mul_comm] at ha
    obtain ⟨k, hk, b, hb, rfl⟩ := exists_place ha
    rw [place_mod hb] at hlow
    obtain ⟨ii, hii, i, hi, rfl⟩ :=
      exists_mem_blocks size (by decide : 0 < 16) (Nat.zero_le b) (by rwa [Nat.sub_zero])
    simp only [elemLoops, stores_flatMap, stores_map, stores_lanes, List.mem_range]
    exact ⟨_, ii, hii, k, hk, i, hi, by rw [Nat.add_assoc], rfl⟩

/-- **The network and the loops over bytes** draw one picture. -/
theorem transByteElemVector_eq (hnet : Deinterleaves net w) (inp out : Bytes) (size : ℕ) :
    transByteElemVector net inp out size w
      = .ok (size * w, fill (size * w) (cellTranspose size w 1 inp) out) := by
  have hrest : (size - size % 16) % 8 = 0 := by omega
  obtain ⟨writes, heq, hpaints⟩ := transByteElemRemainder_draws inp w hrest (Nat.sub_le _ _)
  suffices hdraws : Draws (fun out => transByteElemVector net inp out size w) (size * w)
      (cellTranspose size w 1 inp) {a | a < size * w} from hdraws.eq_fill out
  refine ⟨elemLoops net inp size w ++ writes, fun out => ?_, ?_⟩
  · beta_reduce
    rw [transByteElemVector, blits_append]
    exact heq _
  · refine ((elemLoops_paints hnet inp).append hpaints).congr fun a => ⟨?_, fun ha => ?_⟩
    · rintro (ha | ha) <;> exact ha.1
    · exact (Nat.lt_or_ge (a % size) (size - size % 16)).imp (fun h => ⟨ha, h⟩) fun h => ⟨ha, h⟩

end Vector

/-- Elements of a multiple of `w` bytes: transpose the matrix of words, the bytes within the words,
and the rows into order. -/
def transByteElemChunks (vector : Bytes → Bytes → ℕ → Outcome) (junk inp out : Bytes)
    (size elemSize w : ℕ) : Outcome := do
  let nchunkElem := elemSize / w
  let out := transElemType inp out size nchunkElem w
  let (count, tmpBuf) ← vector out junk (size * nchunkElem)
  let (_, out) ← transElem tmpBuf out w nchunkElem size
  .ok (count, out)

/-- Transpose the bytes within elements by the best of the algorithms. -/
def transByteElemSSE (junk inp out : Bytes) (size elemSize : ℕ) : Outcome :=
  if elemSize = 1 then copy inp out size elemSize
  else if elemSize = 2 then transByteElemSSE16 inp out size
  else if elemSize = 4 then transByteElemSSE32 inp out size
  else if elemSize = 8 then transByteElemSSE64 inp out size
  else if elemSize % 4 ≠ 0 then transByteElemScal inp out size elemSize
  else if elemSize % 8 = 0 then transByteElemChunks transByteElemSSE64 junk inp out size elemSize 8
  else if elemSize % 4 = 0 then transByteElemChunks transByteElemSSE32 junk inp out size elemSize 4
  else transByteElemChunks transByteElemSSE16 junk inp out size elemSize 2

theorem transByteElemChunks_eq {vector : Bytes → Bytes → ℕ → Outcome} {w elemSize : ℕ}
    (hvector : ∀ inp out size, vector inp out size
      = .ok (size * w, fill (size * w) (cellTranspose size w 1 inp) out))
    (hw : elemSize % w = 0) (junk inp out : Bytes) (size : ℕ) :
    transByteElemChunks vector junk inp out size elemSize w
      = .ok (size * elemSize,
          fill (size * elemSize) (cellTranspose size elemSize 1 inp) out) := by
  obtain ⟨c, rfl⟩ := Nat.dvd_of_mod_eq_zero hw
  rcases Nat.eq_zero_or_pos w with rfl | hpos
  · simp only [transByteElemChunks, hvector, transElem_eq, transElemType_eq, Nat.zero_mul,
      Nat.mul_zero, fill_zero, bind, Except.bind]
  · have hn : c * size * w = size * (w * c) := by ring
    have hn' : size * c * w = size * (w * c) := by ring
    have hn'' : w * c * size = size * (w * c) := by ring
    simp only [transByteElemChunks, Nat.mul_div_cancel_left c hpos, hvector, transElem_eq,
      transElemType_eq, bind, Except.bind, hn, hn', hn'', fill_fill]
    congr 2
    refine fill_congr fun a ha => ?_
    rw [← hn'', Nat.mul_comm w c] at ha
    obtain ⟨p, hp, b, hb, rfl⟩ := exists_place ha
    obtain ⟨j, hj, k, hk, rfl⟩ := exists_place hp
    -- byte `k` of word `j` of element `b`
    have hrow : j * size + b < size * c := by
      rw [Nat.mul_comm size]
      exact place_lt hj hb
    have hword : (k * c + j) * size + b = k * (size * c) + (j * size + b) := by ring
    have hplace : b * (w * c) + (j * w + k) = (b * c + j) * w + k := by ring
    have hlt : (k * c + j) * size + b < size * (w * c) := by
      rw [← hn'']
      exact place_lt (place_lt hk hj) hb
    have hlt' : (j * size + b) * w + k < size * (w * c) := by
      rw [← hn]
      exact place_lt (place_lt hj hb) hk
    rw [cellTranspose_place hk hb, fill_of_lt hlt, hword, cellTranspose_one, flip_place hrow,
      fill_of_lt hlt', cellTranspose_place hb hk, cellTranspose_one, flip_place hb, hplace]

/-- **Transposing the bytes of elements** comes to the same for every size of an element. -/
theorem transByteElemSSE_eq (junk inp out : Bytes) (size elemSize : ℕ) :
    transByteElemSSE junk inp out size elemSize = .ok (size * elemSize,
      fill (size * elemSize) (cellTranspose size elemSize 1 inp) out) := by
  rw [transByteElemSSE]
  split_ifs with h1 h2 h4 h8 hodd hmul8 hmul4
  · subst h1
    rw [copy_eq]
    congr 2
    refine fill_congr fun a ha => ?_
    rw [Nat.mul_one] at ha
    rw [cellTranspose_one, BitMatrix.flip, Nat.mod_eq_of_lt ha, Nat.div_eq_of_lt ha, Nat.mul_one,
      Nat.add_zero]
  · subst h2
    exact transByteElemVector_eq deinterleaves16 inp out size
  · subst h4
    exact transByteElemVector_eq deinterleaves32 inp out size
  · subst h8
    exact transByteElemVector_eq deinterleaves64 inp out size
  · exact transByteElemScal_eq inp out size elemSize
  · exact transByteElemChunks_eq (transByteElemVector_eq deinterleaves64) hmul8 junk inp out size
  · exact transByteElemChunks_eq (transByteElemVector_eq deinterleaves32) hmul4 junk inp out size
  · exact absurd (not_not.mp hodd) hmul4

/-! ### Collecting bits -/

/-- The loop that transposes the bits within bytes, `lanes` bytes a turn: the top bits of the lanes
are taken eight times, with a shift in between. -/
def maskLoops (lanes : ℕ) (inp : Bytes) (nbyte : ℕ) : List (ℕ × List UInt8) :=
  (blocks 0 nbyte lanes).flatMap fun ii => (List.range 8).map fun kk =>
    (((7 - kk) * nbyte + ii) / 8, maskBytes lanes (shifted (load inp ii) kk))

/-- Transpose the bits within bytes. -/
def transBitByteSSE (inp out : Bytes) (size elemSize : ℕ) : Outcome := do
  let nbyte := elemSize * size
  checkMultEight nbyte
  transBitByteRemainder inp (blits out (maskLoops 16 inp nbyte)) size elemSize (nbyte - nbyte % 16)

theorem maskLoops_paints {u : ℕ} (hu : 0 < u) (inp : Bytes) {n : ℕ} (hn : n % 8 = 0) :
    Paints (bitTranspose n 8 inp) {a | a < n ∧ a % (n / 8) < (n - n % (8 * u)) / 8}
      (maskLoops (8 * u) inp n) := by
  have height : 8 * (n / 8) = n := Nat.mul_div_cancel' (Nat.dvd_of_mod_eq_zero hn)
  have hlanes : 8 * u / 8 = u := Nat.mul_div_cancel_left u (by decide)
  have haddr {ii kk c : ℕ} : ((7 - kk) * n + ii) / 8 + c = (7 - kk) * (n / 8) + (ii / 8 + c) := by
    rw [← Nat.add_assoc]
    congr 1
    conv_lhs => rw [← height, Nat.mul_left_comm]
    exact Nat.mul_add_div (by decide) _ _
  constructor
  · intro a x h
    simp only [maskLoops, maskBytes, hlanes, stores_flatMap, stores_map, stores_lanes,
      List.mem_range] at h
    obtain ⟨ii, hii, kk, hkk, c, hc, rfl, rfl⟩ := h
    obtain ⟨k, hk, rfl⟩ := mem_blocks.mp hii
    have hblock := le_of_mem_blocks (by omega) hii
    have hmod : (0 + 8 * u * k) / 8 = u * k := by
      rw [Nat.zero_add, Nat.mul_assoc, Nat.mul_div_cancel_left _ (by decide)]
    have hstart : 0 + 8 * u * k = 8 * (u * k) := by ring
    have hturn : 8 * u * (k + 1) ≤ n - n % (8 * u) := by
      rw [Nat.sub_zero] at hk
      calc 8 * u * (k + 1) ≤ 8 * u * (n / (8 * u)) := Nat.mul_le_mul_left _ hk
        _ = n - n % (8 * u) := by
          have := Nat.mod_add_div n (8 * u)
          omega
    have hend : 8 * (u * k + u) ≤ n - n % (8 * u) := by
      calc 8 * (u * k + u) = 8 * u * (k + 1) := by ring
        _ ≤ _ := hturn
    have hlt : u * k + c < n / 8 := by omega
    rw [haddr, hmod]
    refine ⟨⟨?_, ?_⟩, eq_of_bits fun t ht => ?_⟩
    · calc (7 - kk) * (n / 8) + (u * k + c) < 8 * (n / 8) := place_lt (by omega) hlt
        _ = n := height
    · rw [place_mod hlt]
      omega
    · rw [bit_maskBytes hkk (by omega) ht, bit_rows hn hlt (by omega) ht, load, hstart]
      congr 2
      omega
  · rintro a ⟨ha, hlow⟩
    rw [← height] at ha
    obtain ⟨kk, hkk, i, hi, rfl⟩ := exists_place ha
    rw [place_mod hi] at hlow
    obtain ⟨ii, hii, b, hb, hsplit⟩ := exists_mem_blocks n (by omega : 0 < 8 * u)
      (Nat.zero_le (8 * i)) (by rw [Nat.sub_zero]; omega)
    have hblock := le_of_mem_blocks (by omega) hii
    have hdvd : 8 ∣ ii := by
      obtain ⟨k, -, rfl⟩ := mem_blocks.mp hii
      exact ⟨u * k, by ring⟩
    simp only [maskLoops, maskBytes, hlanes, stores_flatMap, stores_map, stores_lanes,
      List.mem_range]
    refine ⟨_, ii, hii, 7 - kk, by omega, i - ii / 8, by omega, ?_, rfl⟩
    rw [haddr]
    congr 2
    · omega
    · omega

/-- **Collecting bits** draws what the squares of bits draw. -/
theorem mask_then_squares {u : ℕ} (hu : 0 < u) (inp out : Bytes) {size elemSize : ℕ}
    (hsize : size % 8 = 0) :
    transBitByteRemainder inp (blits out (maskLoops (8 * u) inp (elemSize * size))) size elemSize
        (elemSize * size - elemSize * size % (8 * u))
      = .ok (size * elemSize,
          fill (size * elemSize) (bitTranspose (size * elemSize) 8 inp) out) := by
  have hn := mul_mod_eight elemSize hsize
  rw [Nat.mul_comm elemSize]
  generalize hbytes : size * elemSize = n at hn ⊢
  have hrest : (n - n % (8 * u)) % 8 = 0 := by
    have hdvd : 8 ∣ n % (8 * u) :=
      (Nat.dvd_mod_iff (Dvd.intro u rfl)).mpr (Nat.dvd_of_mod_eq_zero hn)
    omega
  rw [transBitByteRemainder_eq inp _ (hbytes ▸ hn) hrest, hbytes, ← blits_append]
  congr 2
  refine (((maskLoops_paints hu inp hn).append
    (bitByteLoops_paints inp hn)).congr fun a => ⟨?_, fun ha => ?_⟩).blits_eq
  · rintro (ha | ha) <;> exact ha.1
  · exact (Nat.lt_or_ge (a % (n / 8)) ((n - n % (8 * u)) / 8)).imp (fun h => ⟨ha, h⟩)
      fun h => ⟨ha, h⟩

theorem transBitByteSSE_eq (inp out : Bytes) {size elemSize : ℕ} (hsize : size % 8 = 0) :
    transBitByteSSE inp out size elemSize = .ok (size * elemSize,
      fill (size * elemSize) (bitTranspose (size * elemSize) 8 inp) out) := by
  have hn : elemSize * size % 8 = 0 := by
    rw [Nat.mul_comm]
    exact mul_mod_eight elemSize hsize
  rw [transBitByteSSE, checkMultEight_of_dvd hn]
  exact mask_then_squares (by decide : 0 < 2) inp out hsize

/-- Transpose the bits within elements. -/
def transBitElemSSE (junk inp out : Bytes) (size elemSize : ℕ) : Outcome := do
  checkMultEight size
  let (_, out) ← transByteElemSSE junk inp out size elemSize
  let (_, tmpBuf) ← transBitByteSSE out junk size elemSize
  transBitrowEight tmpBuf out size elemSize

/-- **Shuffling with registers of 16 bytes** transposes the matrix of bits. -/
theorem transBitElemSSE_eq (junk inp out : Bytes) {size elemSize : ℕ} (hsize : size % 8 = 0) :
    transBitElemSSE junk inp out size elemSize = .ok (size * elemSize,
      fill (size * elemSize) (bitTranspose size (8 * elemSize) inp) out) :=
  transposed_of_steps hsize (fun inp out => transByteElemSSE_eq junk inp out size elemSize)
    (fun inp out => transBitByteSSE_eq inp out hsize) junk inp out

/-! ### Back -/

/-- Eight rows of 16 bytes, transposed: a register holds two columns. -/
def bitrowNetwork {α : Type*} (r : ℕ → ℕ → α) : ℕ → ℕ → α :=
  let a0 := r 0
  let b0 := r 1
  let c0 := r 2
  let d0 := r 3
  let e0 := r 4
  let f0 := r 5
  let g0 := r 6
  let h0 := r 7
  let a1 := unpacklo 1 a0 b0
  let b1 := unpacklo 1 c0 d0
  let c1 := unpacklo 1 e0 f0
  let d1 := unpacklo 1 g0 h0
  let e1 := unpackhi 1 a0 b0
  let f1 := unpackhi 1 c0 d0
  let g1 := unpackhi 1 e0 f0
  let h1 := unpackhi 1 g0 h0
  let a0 := unpacklo 2 a1 b1
  let b0 := unpacklo 2 c1 d1
  let c0 := unpackhi 2 a1 b1
  let d0 := unpackhi 2 c1 d1
  let e0 := unpacklo 2 e1 f1
  let f0 := unpacklo 2 g1 h1
  let g0 := unpackhi 2 e1 f1
  let h0 := unpackhi 2 g1 h1
  let a1 := unpacklo 4 a0 b0
  let b1 := unpackhi 4 a0 b0
  let c1 := unpacklo 4 c0 d0
  let d1 := unpackhi 4 c0 d0
  let e1 := unpacklo 4 e0 f0
  let f1 := unpackhi 4 e0 f0
  let g1 := unpacklo 4 g0 h0
  let h1 := unpackhi 4 g0 h0
  fun
    | 0 => a1
    | 1 => b1
    | 2 => c1
    | 3 => d1
    | 4 => e1
    | 5 => f1
    | 6 => g1
    | _ => h1

theorem bitrowNetwork_comp {α β : Type*} (f : α → β) (r : ℕ → ℕ → α) (k i : ℕ) :
    bitrowNetwork (fun k l => f (r k l)) k i = f (bitrowNetwork r k i) := by
  rcases k with _ | _ | _ | _ | _ | _ | _ | k <;>
    simp only [bitrowNetwork, unpacklo_comp, unpackhi_comp]

/-- Lane `l` of the lower half of register `k` is byte `2 * k` of row `l`, and of the upper half
byte `2 * k + 1`. -/
theorem bitrowNetwork_apply (m : ℕ → ℕ → UInt8) {k l half : ℕ} (hk : k < 8) (hl : l < 8)
    (hhalf : half < 2) : bitrowNetwork m k (8 * half + l) = m l (2 * k + half) := by
  have hrun : ∀ k < 8, ∀ l < 8, ∀ half < 2,
      bitrowNetwork Prod.mk k (8 * half + l) = (l, 2 * k + half) := by decide +kernel
  exact (bitrowNetwork_comp (fun p => m p.1 p.2) Prod.mk k (8 * half + l)).trans
    (by rw [hrun k hk l hl half hhalf])

/-- Transpose the bytes of data that has a row for each bit of an element: 16 bytes of eight rows a
turn, and then the columns that are left. -/
def transByteBitrowSSE (inp out : Bytes) (size elemSize : ℕ) : Outcome := do
  checkMultEight size
  let nrows := 8 * elemSize
  let nbyteRow := size / 8
  .ok (size * elemSize, blits out ((blocks 0 nrows 8).flatMap fun ii =>
    ((blocks 0 nbyteRow 16).flatMap fun jj =>
      let r := bitrowNetwork fun k => load inp ((ii + k) * nbyteRow + jj)
      ((List.range 8).map fun k =>
        ((jj + 2 * k) * nrows + ii, (List.range 8).map fun l => r k l)) ++
      (List.range 8).map fun k =>
        ((jj + (2 * k + 1)) * nrows + ii, (List.range 8).map fun l => r k (8 + l))) ++
    (blocks (nbyteRow - nbyteRow % 16) nbyteRow 1).flatMap fun jj => (List.range 8).map fun k =>
      (jj * nrows + ii + k, [inp ((ii + k) * nbyteRow + jj)])))

theorem transByteBitrowSSE_eq (inp out : Bytes) {size elemSize : ℕ} (hsize : size % 8 = 0) :
    transByteBitrowSSE inp out size elemSize = .ok (size * elemSize,
      fill (size * elemSize) (cellTranspose (8 * elemSize) (size / 8) 1 inp) out) := by
  have hn : size / 8 * (8 * elemSize) = size * elemSize := by
    rw [← Nat.mul_assoc, Nat.div_mul_cancel (Nat.dvd_of_mod_eq_zero hsize)]
  rw [transByteBitrowSSE, checkMultEight_of_dvd hsize, ← hn]
  refine congrArg (fun m => Except.ok (_, m)) (Paints.blits_eq ⟨?_, ?_⟩)
  · have hcell {i j : ℕ} (hi : i < 8 * elemSize) (hj : j < size / 8) :
        j * (8 * elemSize) + i ∈ {a | a < size / 8 * (8 * elemSize)} ∧ inp (i * (size / 8) + j)
          = cellTranspose (8 * elemSize) (size / 8) 1 inp (j * (8 * elemSize) + i) :=
      ⟨place_lt hj hi, by rw [cellTranspose_one, flip_place hi]⟩
    intro a x h
    simp only [stores_flatMap, stores_append, stores_map, stores_lanes, stores_cell,
      List.mem_range] at h
    obtain ⟨ii, hii, h⟩ := h
    have hrows := le_of_mem_blocks (by decide) hii
    rcases h with ⟨jj, hjj, h⟩ | ⟨jj, hjj, k, hk, rfl, rfl⟩
    · have hcols := le_of_mem_blocks (by decide) hjj
      rcases h with ⟨k, hk, l, hl, rfl, rfl⟩ | ⟨k, hk, l, hl, rfl, rfl⟩
      · have hlane := bitrowNetwork_apply (fun k => load inp ((ii + k) * (size / 8) + jj)) hk hl
          (by decide : 0 < 2)
        rw [Nat.mul_zero, Nat.zero_add] at hlane
        rw [hlane, load, Nat.add_assoc, Nat.add_assoc]
        exact hcell (by omega) (by omega)
      · have hlane := bitrowNetwork_apply (fun k => load inp ((ii + k) * (size / 8) + jj)) hk hl
          (by decide : 1 < 2)
        rw [Nat.mul_one] at hlane
        rw [hlane, load, Nat.add_assoc, Nat.add_assoc]
        exact hcell (by omega) (by omega)
    · have hcols := le_of_mem_blocks (by decide) hjj
      rw [Nat.add_assoc]
      exact hcell (by omega) (by omega)
  · intro a ha
    obtain ⟨j, hj, i, hi, rfl⟩ := exists_place ha
    obtain ⟨ii, hii, k, hk, rfl⟩ :=
      exists_mem_blocks (8 * elemSize) (by decide : 0 < 8) (Nat.zero_le i) (by omega)
    simp only [stores_flatMap, stores_append, stores_map, stores_lanes, stores_cell,
      List.mem_range]
    rcases Nat.lt_or_ge j (size / 8 - size / 8 % 16) with hcol | hcol
    · obtain ⟨jj, hjj, c, hc, rfl⟩ := exists_mem_blocks (size / 8) (by decide : 0 < 16)
        (Nat.zero_le j) (by omega)
      -- an even column is in the lower half of its register
      obtain ⟨d, rfl | rfl⟩ := Nat.even_or_odd' c
      · exact ⟨_, ii, hii, .inl ⟨jj, hjj, .inl ⟨d, by omega, k, hk, by rw [Nat.add_assoc], rfl⟩⟩⟩
      · exact ⟨_, ii, hii, .inl ⟨jj, hjj, .inr ⟨d, by omega, k, hk, by rw [Nat.add_assoc], rfl⟩⟩⟩
    · obtain ⟨jj, hjj, c, hc, rfl⟩ :=
        exists_mem_blocks (size / 8) (by decide : 0 < 1) hcol (by omega)
      obtain rfl : c = 0 := by omega
      exact ⟨_, ii, hii, .inr ⟨jj, hjj, k, hk, by rw [Nat.add_assoc, Nat.add_zero], rfl⟩⟩

/-- Stores of masks in blocks of eight elements, by any order of the loops. -/
theorem maskGroups_paints {writes : List (ℕ × List UInt8)} {inp : Bytes} {u size elemSize : ℕ}
    (hu : 0 < u) (hsize : size % 8 = 0) (helem : elemSize % u = 0)
    (hwrites : ∀ a x, Stores writes a x ↔ ∃ ii ∈ blocks 0 (elemSize * size) (8 * elemSize),
      ∃ jj ∈ blocks 0 (8 * elemSize) (8 * u), ∃ kk < 8, ∃ c < u,
        a = ii + jj / 8 + (7 - kk) * elemSize + c ∧
          x = byteAt (movemask (8 * u) (shifted (load inp (ii + jj)) kk)) c) :
    Paints (groupTranspose (8 * elemSize) 8 inp) {a | a < size * elemSize} writes := by
  have hn : size / 8 * (8 * elemSize) = size * elemSize := by
    rw [← Nat.mul_assoc, Nat.div_mul_cancel (Nat.dvd_of_mod_eq_zero hsize)]
  obtain ⟨e, rfl⟩ := Nat.dvd_of_mod_eq_zero helem
  have hregisters {jj : ℕ} : jj ∈ blocks 0 (8 * (u * e)) (8 * u) ↔ ∃ k < e, jj = 8 * (u * k) := by
    rw [mem_blocks, Nat.sub_zero, ← Nat.mul_assoc, Nat.mul_div_cancel_left e (by omega)]
    simp only [Nat.zero_add, Nat.mul_assoc]
  rw [← hn]
  constructor
  · intro a x h
    obtain ⟨ii, hii, jj, hjj, kk, hkk, c, hc, rfl, rfl⟩ := (hwrites a x).mp h
    obtain ⟨k, hk, rfl⟩ := hregisters.mp hjj
    have hj : u * k + c < u * e := by
      rw [Nat.mul_comm u, Nat.mul_comm u]
      exact place_lt hk hc
    obtain ⟨g, hg, rfl⟩ := (mem_groups hsize (Nat.zero_lt_of_lt hj)).mp hii
    have hplace : g * (8 * (u * e)) + 8 * (u * k) / 8 + (7 - kk) * (u * e) + c
        = g * (8 * (u * e)) + ((7 - kk) * (u * e) + (u * k + c)) := by omega
    rw [hplace]
    refine ⟨place_lt hg (place_lt (by omega) hj), eq_of_bits fun t ht => ?_⟩
    rw [bit_maskBytes hkk (by omega) ht, bit_groups hj (by omega) ht, load]
    congr 2
    omega
  · intro a ha
    obtain ⟨g, hg, r, hr, rfl⟩ := exists_place ha
    obtain ⟨kk, hkk, j, hj, rfl⟩ := exists_place hr
    have hj' := hj
    rw [Nat.mul_comm] at hj
    obtain ⟨k, hk, c, hc, rfl⟩ := exists_place hj
    refine ⟨_, (hwrites _ _).mpr ⟨g * (8 * (u * e)),
      (mem_groups hsize (Nat.zero_lt_of_lt hj')).mpr ⟨g, hg, rfl⟩, 8 * (u * k),
      hregisters.mpr ⟨k, hk, rfl⟩, 7 - kk, by omega, c, hc, ?_, rfl⟩⟩
    have hkk' : 7 - (7 - kk) = kk := by omega
    rw [hkk', Nat.mul_comm k u]
    omega

/-- Shuffle the bits within the bytes of blocks of eight elements. The masks are stored as 16-bit
words. -/
def shuffleBitEightelemSSE (inp out : Bytes) (size elemSize : ℕ) : Outcome := do
  checkMultEight size
  let nbyte := elemSize * size
  if elemSize % 2 ≠ 0 then
    let (_, out) ← shuffleBitEightelemScal inp out size elemSize
    .ok (size * elemSize, out)
  else
    .ok (size * elemSize, blits out
      ((blocks 0 nbyte (8 * elemSize)).flatMap fun ii =>
        (blocks 0 (8 * elemSize) 16).flatMap fun jj => (List.range 8).map fun kk =>
          let ind := ii + jj / 8 + (7 - kk) * elemSize
          (2 * (ind / 2), maskBytes 16 (shifted (load inp (ii + jj)) kk))))

theorem shuffleBitEightelemSSE_eq (inp out : Bytes) {size elemSize : ℕ} (hsize : size % 8 = 0) :
    shuffleBitEightelemSSE inp out size elemSize = .ok (size * elemSize,
      fill (size * elemSize) (groupTranspose (8 * elemSize) 8 inp) out) := by
  rw [shuffleBitEightelemSSE, checkMultEight_of_dvd hsize]
  by_cases hodd : elemSize % 2 ≠ 0
  · simp only [bind, Except.bind, if_pos hodd, shuffleBitEightelemScal_eq inp out hsize]
  · simp only [bind, Except.bind, if_neg hodd]
    congr 2
    refine (maskGroups_paints (by decide : 0 < 2) hsize (not_not.mp hodd) fun a x => ?_).blits_eq
    simp only [maskBytes, stores_flatMap, stores_map, stores_lanes, List.mem_range]
    -- every mask is stored at an even place
    have heven {ii jj kk : ℕ} (hii : ii ∈ blocks 0 (elemSize * size) (8 * elemSize))
        (hjj : jj ∈ blocks 0 (8 * elemSize) 16) :
        2 * ((ii + jj / 8 + (7 - kk) * elemSize) / 2) = ii + jj / 8 + (7 - kk) * elemSize := by
      obtain ⟨e, rfl⟩ := Nat.dvd_of_mod_eq_zero (not_not.mp hodd)
      obtain ⟨g, -, rfl⟩ := mem_blocks.mp hii
      obtain ⟨k, -, rfl⟩ := mem_blocks.mp hjj
      have hwords : 0 + 8 * (2 * e) * g + (0 + 16 * k) / 8 + (7 - kk) * (2 * e)
          = 2 * (8 * e * g + k + (7 - kk) * e) := by
        have hhalf : (0 + 16 * k) / 8 = 2 * k := by omega
        rw [hhalf]
        ring
      rw [hwords, Nat.mul_div_cancel_left _ (by decide)]
    constructor
    · rintro ⟨ii, hii, jj, hjj, kk, hkk, c, hc, rfl, rfl⟩
      exact ⟨ii, hii, jj, hjj, kk, hkk, c, hc, by rw [heven hii hjj], rfl⟩
    · rintro ⟨ii, hii, jj, hjj, kk, hkk, c, hc, rfl, rfl⟩
      exact ⟨ii, hii, jj, hjj, kk, hkk, c, hc, by rw [heven hii hjj], rfl⟩

/-- Undo the transposition of the bits within elements. -/
def untransBitElemSSE (junk inp out : Bytes) (size elemSize : ℕ) : Outcome := do
  checkMultEight size
  let (_, tmpBuf) ← transByteBitrowSSE inp junk size elemSize
  shuffleBitEightelemSSE tmpBuf out size elemSize

/-- **Unshuffling with registers of 16 bytes** transposes the matrix of bits back. -/
theorem untransBitElemSSE_eq (junk inp out : Bytes) {size elemSize : ℕ} (hsize : size % 8 = 0) :
    untransBitElemSSE junk inp out size elemSize = .ok (size * elemSize,
      fill (size * elemSize) (bitTranspose (8 * elemSize) size inp) out) :=
  untransposed_of_steps hsize (fun inp out => transByteBitrowSSE_eq inp out hsize)
    (fun inp out => shuffleBitEightelemSSE_eq inp out hsize) junk inp out

end StdDaq.Bitshuffle
