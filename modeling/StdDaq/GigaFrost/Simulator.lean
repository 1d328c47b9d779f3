import Mathlib.Data.Rat.Floor
import Mathlib.Tactic.FieldSimp
import Mathlib.Tactic.NormNum
import StdDaq.GigaFrost.Sizes

/-!
# The packets of the simulator

The simulated GigaFRoST of `std_buffer/gigafrost` works out its packets on its own, from the same
height and width as the receiver. Its `calculate_udp_packet_info` writes the same expressions in
another language, and both sides warn that they must not be optimized because of rounding. The
receiver rounds after each division: its `/` is a division of integers. The simulator divides
exactly, and what it rounds at the end no longer depends on the number of blocks: 102 cache lines
fit into a packet, whatever a row is.

Let `b` be the number of 12-pixel blocks of a row, and `205 = b * q + rest`. The receiver first
rounds down to `b * q` blocks, the simulator does not, and both then round down to whole cache lines
of four blocks for every two of them. If `rest` is zero nothing is lost. If it is odd, `b * q` is
even and the receiver finds `2 * q` rows, and so does the simulator unless the rest is enough for
one more. If it is even, the receiver loses half a cache line and with it a row.

Only the numbers of rows can differ: all other sizes follow from them.

A division by zero raises an exception in the simulator.

## Main results

* `min_rows_eq_iff` — when the two ways of rounding come to the same
* `simulator_agrees_iff` — when the packets of the simulator are those of the receiver
-/

namespace StdDaq

namespace GigaFrost

/-! ### Two ways of rounding -/

section Rounding

variable {n b m : ℕ}

/-- Of an odd number something is left, and an even rest leaves a row. -/
theorem div_pos_of_even_rest (hn : n % 2 = 1) (heven : n % b % 2 = 0) : 1 ≤ n / b := by
  by_contra h0
  have hdiv := Nat.div_add_mod n b
  rw [Nat.lt_one_iff.mp (Nat.not_le.mp h0), Nat.mul_zero] at hdiv
  omega

/-- Rounding to whole rows of blocks first, with an odd number of blocks in all. -/
theorem rows_of_whole_rows (hn : n % 2 = 1) (hb : 2 ≤ b) :
    4 * (n / b * b / 2) / b = 2 * (n / b) + n % b % 2 - 1 := by
  have hdiv := Nat.div_add_mod n b
  rw [Nat.mul_comm] at hdiv
  rcases Nat.mod_two_eq_zero_or_one (n % b) with heven | hodd
  · -- half a cache line is lost
    obtain ⟨q, hq⟩ := Nat.exists_eq_add_of_le' (div_pos_of_even_rest hn heven)
    rw [hq] at hdiv ⊢
    have hlines : 4 * ((q + 1) * b / 2) = (2 * q + 1) * b + (b - 2) := by
      have hrow : 2 * ((q + 1) * b) = (2 * q + 1) * b + b := by ring
      omega
    have hrows : 2 * (q + 1) + n % b % 2 - 1 = 2 * q + 1 := by omega
    rw [hlines, hrows]
    exact Nat.div_eq_of_lt_le (by omega) (by rw [Nat.add_mul (2 * q + 1), Nat.one_mul]; omega)
  · have hlines : 4 * (n / b * b / 2) = 2 * (n / b) * b := by
      rw [Nat.mul_assoc 2 (n / b)]
      generalize n / b * b = whole at hdiv ⊢
      omega
    rw [hlines, hodd, Nat.add_sub_cancel]
    exact Nat.mul_div_cancel _ (by omega)

/-- Rounding to whole cache lines only, if there is a rest. -/
theorem rows_of_cache_lines (hn : n % 2 = 1) (hb : 0 < b) (hrest : n % b ≠ 0) :
    4 * (n / 2) / b = 2 * (n / b) + (2 * (n % b) - 2) / b := by
  have hdiv := Nat.div_add_mod n b
  have hq : 2 * (b * (n / b)) = b * (2 * (n / b)) := by ring
  have hlines : 4 * (n / 2) = 2 * (n % b) - 2 + b * (2 * (n / b)) := by omega
  rw [hlines, Nat.add_mul_div_left _ _ hb, Nat.add_comm]

/-- The rounding loses no row: there is no rest, or an odd one of at most half a row, or the module
is no higher than what is left. -/
def RoundingHarmless (n b m : ℕ) : Prop :=
  n % b = 0 ∨ (n % b % 2 = 1 ∧ 2 * (n % b) ≤ b + 1) ∨ m < 2 * (n / b) + n % b % 2

instance (n b m : ℕ) : Decidable (RoundingHarmless n b m) :=
  inferInstanceAs (Decidable (_ ∨ _ ∨ _))

/-- **The two ways of rounding come to the same** exactly when the rounding loses no row. -/
theorem min_rows_eq_iff (hn : n % 2 = 1) (hb : 0 < b) :
    min (4 * (n / 2) / b) m = min (4 * (n / b * b / 2) / b) m ↔ RoundingHarmless n b m := by
  by_cases hrest : n % b = 0
  · rw [Nat.div_mul_cancel (Nat.dvd_of_mod_eq_zero hrest)]
    exact iff_of_true rfl (.inl hrest)
  · have hb2 : 2 ≤ b := by
      by_contra h
      rw [show b = 1 by omega, Nat.mod_one] at hrest
      exact hrest rfl
    have hlt := Nat.mod_lt n hb
    rw [rows_of_whole_rows hn hb2, rows_of_cache_lines hn hb hrest, RoundingHarmless]
    have hmore : (2 * (n % b) - 2) / b = 0 ↔ 2 * (n % b) < b + 2 := by
      rw [Nat.div_eq_zero_iff]
      omega
    have hrow := div_pos_of_even_rest (b := b) hn
    generalize (2 * (n % b) - 2) / b = more at *
    omega

end Rounding

/-! ### The simulator -/

/-- The sizes `calculate_udp_packet_info` returns. -/
structure PacketInfo where
  packetNDataBytes : ℤ
  lastPacketStartingRow : ℤ
  frameNPackets : ℤ
  packetNRows : ℤ
  lastPacketNRows : ℤ
  lastPacketNDataBytes : ℤ
  deriving DecidableEq, Repr

/-- `GF_MAX_PAYLOAD`. -/
def gfMaxPayload : ℤ := 7400

/-- `int(x)`: towards zero. -/
def truncate (x : ℚ) : ℤ := if 0 ≤ x then ⌊x⌋ else ⌈x⌉

/-- The data of a packet with this many rows, as the simulator counts them. -/
def nDataBytes (moduleNXPixel rows : ℤ) : ℤ :=
  truncate (moduleNXPixel * rows * (3 / 2)) +
    if rows.fmod 2 = 1 ∧ moduleNXPixel.fmod 48 ≠ 0 then 36 else 0

/-- `calculate_udp_packet_info`. The second division by a number of pixels needs no test: there is
a block in it. -/
def calculateUdpPacketInfo (imagePixelHeight imagePixelWidth : ℤ) : Except String PacketInfo := do
  let moduleNXPixel := imagePixelWidth.fdiv 2
  let moduleNYPixel := (imagePixelHeight.fdiv 2).fdiv 2
  let n12PixelBlocks := moduleNXPixel.fdiv 12
  throwIf (n12PixelBlocks = 0) "division by zero"
  let nCacheLineBlocks :=
    truncate ((gfMaxPayload : ℚ) / (36 * n12PixelBlocks : ℤ) * n12PixelBlocks / 2)
  let packetNRows := truncate (min ((nCacheLineBlocks * 48 : ℤ) / moduleNXPixel) moduleNYPixel)
  throwIf (packetNRows = 0) "division by zero"
  let lastPacketNRows :=
    if moduleNYPixel.fmod packetNRows ≠ 0 then moduleNYPixel.fmod packetNRows else packetNRows
  return {
    packetNDataBytes := nDataBytes moduleNXPixel packetNRows
    lastPacketStartingRow := moduleNYPixel - lastPacketNRows
    frameNPackets := ⌈(moduleNYPixel : ℚ) / packetNRows⌉
    packetNRows := packetNRows
    lastPacketNRows := lastPacketNRows
    lastPacketNDataBytes := nDataBytes moduleNXPixel lastPacketNRows }

/-- The same sizes in the receiver. -/
def receiverPacketInfo (imagePixelHeight imagePixelWidth : ℤ) : PacketInfo :=
  let sizes := receiverSizes imagePixelHeight imagePixelWidth
  { packetNDataBytes := sizes.bytesPerPacket
    lastPacketStartingRow := sizes.startRowLastPacket
    frameNPackets := sizes.packetsInFrame
    packetNRows := sizes.rowsPerPacket
    lastPacketNRows := lastPacketNRows imagePixelHeight imagePixelWidth
    lastPacketNDataBytes := sizes.bytesOfLastPacket }

/-! ### Both sides in the same words -/

/-- The sizes that follow from the number of rows in a packet. -/
def packetInfo (moduleWidth moduleHeight rows : ℕ) : PacketInfo :=
  let lastRows := if moduleHeight % rows = 0 then rows else moduleHeight % rows
  { packetNDataBytes := ↑(moduleWidth * rows * 3 / 2 + padding rows moduleWidth)
    lastPacketStartingRow := ↑(moduleHeight - lastRows)
    frameNPackets := ↑((moduleHeight + rows - 1) / rows)
    packetNRows := rows
    lastPacketNRows := lastRows
    lastPacketNDataBytes := ↑(moduleWidth * lastRows * 3 / 2 + padding lastRows moduleWidth) }

theorem truncate_natCast_div (m n : ℕ) : truncate ((m : ℚ) / n) = ↑(m / n) := by
  have hnonneg : (0 : ℚ) ≤ (m : ℚ) / n := by positivity
  rw [truncate, if_pos hnonneg, Rat.floor_natCast_div_natCast, Int.natCast_div]

theorem nDataBytes_natCast (moduleWidth rows : ℕ) :
    nDataBytes moduleWidth rows = ↑(moduleWidth * rows * 3 / 2 + padding rows moduleWidth) := by
  have hbytes : ((moduleWidth : ℤ) : ℚ) * ((rows : ℤ) : ℚ) * (3 / 2)
      = ((moduleWidth * rows * 3 : ℕ) : ℚ) / (2 : ℕ) := by
    push_cast
    ring
  rw [nDataBytes, hbytes, truncate_natCast_div, Nat.cast_add]
  congr 1
  rw [padding, Int.fmod_eq_emod_of_nonneg _ (by decide), Int.fmod_eq_emod_of_nonneg _ (by decide)]
  have hiff : (rows : ℤ) % 2 = 1 ∧ (moduleWidth : ℤ) % 48 ≠ 0 ↔
      rows % 2 = 1 ∧ moduleWidth % 48 ≠ 0 := by omega
  by_cases hpad : rows % 2 = 1 ∧ moduleWidth % 48 ≠ 0
  · rw [if_pos hpad, if_pos (hiff.mpr hpad)]
    rfl
  · rw [if_neg hpad, if_neg (mt hiff.mp hpad)]
    rfl

theorem lastRows_natCast (m rows : ℕ) :
    (if (m : ℤ).fmod rows ≠ 0 then (m : ℤ).fmod rows else ↑rows)
      = ((if m % rows = 0 then rows else m % rows : ℕ) : ℤ) := by
  rw [Int.fmod_eq_emod_of_nonneg _ (Int.natCast_nonneg _)]
  by_cases h0 : m % rows = 0
  · rw [if_pos h0, if_neg (not_not_intro (by omega))]
  · rw [if_neg h0, if_pos (by omega), Int.natCast_mod]

theorem ceil_natCast_div (m : ℕ) {rows : ℕ} (hrows : 0 < rows) :
    ⌈((m : ℤ) : ℚ) / ((rows : ℤ) : ℚ)⌉ = ↑((m + rows - 1) / rows) := by
  have hpos : (0 : ℚ) < rows := Nat.cast_pos.mpr hrows
  have hlo : (m + rows - 1) / rows * rows < m + rows :=
    (Nat.div_mul_le_self _ _).trans_lt (by omega)
  have hhi : m ≤ (m + rows - 1) / rows * rows := by
    have := Nat.lt_div_mul_add (a := m + rows - 1) hrows
    omega
  rw [Int.cast_natCast, Int.cast_natCast, Int.ceil_eq_iff, lt_div_iff₀ hpos, div_le_iff₀ hpos,
    Int.cast_natCast]
  generalize (m + rows - 1) / rows = packets at *
  constructor
  · have hlo' : (packets : ℚ) * rows < m + rows := by exact_mod_cast hlo
    linarith
  · exact_mod_cast hhi

theorem truncate_min_natCast (m n k : ℕ) :
    truncate (min ((m : ℚ) / n) k) = ↑(min (m / n) k) := by
  have hnonneg : (0 : ℚ) ≤ min ((m : ℚ) / n) k := le_min (by positivity) (by positivity)
  rw [truncate, if_pos hnonneg, Int.floor_mono.map_min, Rat.floor_natCast_div_natCast,
    Int.floor_natCast, Nat.cast_min, Int.natCast_div]

/-- The simulator divides the number of blocks out. -/
theorem cacheLines_eq {b : ℕ} (hb : 0 < b) :
    truncate ((gfMaxPayload : ℚ) / (36 * b : ℤ) * b / 2) = 102 := by
  have hb' : (b : ℚ) ≠ 0 := by positivity
  have hpacket : (gfMaxPayload : ℚ) / (36 * b : ℤ) * b / 2 = (7400 : ℕ) / (72 : ℕ) := by
    rw [gfMaxPayload]
    push_cast
    field_simp
    norm_num
  rw [hpacket, truncate_natCast_div]
  rfl

section Sides

variable {h w : ℤ} {b : ℕ}

/-- Both sides halve a positive size alike. -/
theorem fdiv_eq_moduleNXPixels (hw : IsInt w) (hpos : 0 < w) : w.fdiv 2 = ↑(moduleNXPixels w) := by
  obtain ⟨-, hhi⟩ := hw
  rw [Int.fdiv_eq_ediv_of_nonneg _ (by decide), moduleNXPixels,
    Int.tdiv_eq_ediv_of_nonneg hpos.le, toUInt32]
  omega

theorem fdiv_eq_moduleNYPixels (hh : IsInt h) (hpos : 0 < h) :
    (h.fdiv 2).fdiv 2 = ↑(moduleNYPixels h) := by
  obtain ⟨-, hhi⟩ := hh
  rw [Int.fdiv_eq_ediv_of_nonneg _ (by decide), Int.fdiv_eq_ediv_of_nonneg _ (by decide),
    moduleNYPixels, Int.tdiv_eq_ediv_of_nonneg hpos.le, Int.tdiv_eq_ediv_of_nonneg (by omega),
    toUInt32]
  omega

/-- The rows of a packet in the receiver: 205 blocks are rounded to whole rows, and these to whole
cache lines. -/
theorem nRowsPerPacket_eq (hk : moduleNXPixels w = 12 * b) (hb : b ≤ 205) :
    nRowsPerPacket h w = min (4 * (205 / b * b / 2) / b) (moduleNYPixels h) := by
  have hblocks := blocks_of_packet hb
  have hrow : 7400 / (36 * b % 2 ^ 32) = 205 / b := by
    rw [Nat.mod_eq_of_lt (by omega), ← Nat.div_div_eq_div_mul]
  rw [hrow] at hblocks
  simp only [nRowsPerPacket, packetNDataBytesMax]
  rw [hk, Nat.mul_div_cancel_left b (by decide), hrow, Nat.mod_eq_of_lt (a := 205 / b * b)
    (by omega), Nat.mod_eq_of_lt (by omega)]
  congr 1
  rw [Nat.mul_comm (205 / b * b / 2) 48, show 48 = 12 * 4 from rfl, Nat.mul_assoc 12,
    Nat.mul_div_mul_left _ _ (by decide)]

/-- The sizes of the receiver follow from its rows. -/
theorem receiverPacketInfo_eq (hw : IsInt w) (hr : 1 ≤ nRowsPerPacket h w) :
    receiverPacketInfo h w
      = packetInfo (moduleNXPixels w) (moduleNYPixels h) (nRowsPerPacket h w) := by
  obtain ⟨-, -, hpixels⟩ := pixels_of_packet hw hr
  have hbytes : nDataBytesPerPacket h w = moduleNXPixels w * nRowsPerPacket h w * 3 / 2 +
      padding (nRowsPerPacket h w) (moduleNXPixels w) := by
    simp only [nDataBytesPerPacket]
    rw [Nat.mod_eq_of_lt (by omega)]
  rw [receiverPacketInfo, packetInfo, receiverSizes, hbytes]
  rfl

/-- Those of the simulator follow from its rows: 205 blocks are rounded to whole cache lines. -/
theorem calculateUdpPacketInfo_eq (hh : IsInt h) (hw : IsInt w) (hh0 : 0 < h) (hw0 : 0 < w)
    (hk : moduleNXPixels w = 12 * b) (hb : 0 < b)
    (hrows : 0 < min (4 * (205 / 2) / b) (moduleNYPixels h)) :
    calculateUdpPacketInfo h w = .ok (packetInfo (moduleNXPixels w) (moduleNYPixels h)
      (min (4 * (205 / 2) / b) (moduleNYPixels h))) := by
  have hblocks : (moduleNXPixels w : ℤ).fdiv 12 = b := by
    rw [Int.fdiv_eq_ediv_of_nonneg _ (by decide), hk]
    omega
  have hlines : truncate (min (((102 * 48 : ℤ) : ℚ) / ((moduleNXPixels w : ℤ) : ℚ))
      ((moduleNYPixels h : ℤ) : ℚ)) = ↑(min (4 * (205 / 2) / b) (moduleNYPixels h)) := by
    have hrow : ((102 * 48 : ℤ) : ℚ) / ((moduleNXPixels w : ℤ) : ℚ)
        = ((4 * (205 / 2) : ℕ) : ℚ) / b := by
      have hb' : (b : ℚ) ≠ 0 := by positivity
      rw [hk]
      push_cast
      field_simp
      norm_num
    rw [hrow, Int.cast_natCast, truncate_min_natCast]
  have hcache := cacheLines_eq hb
  rw [calculateUdpPacketInfo, fdiv_eq_moduleNXPixels hw hw0, fdiv_eq_moduleNYPixels hh hh0]
  simp only [hblocks, Int.cast_natCast] at hlines ⊢
  rw [hcache, hlines]
  have hle : min (4 * (205 / 2) / b) (moduleNYPixels h) ≤ moduleNYPixels h := Nat.min_le_right _ _
  generalize min (4 * (205 / 2) / b) (moduleNYPixels h) = rows at *
  have hlast : (if moduleNYPixels h % rows = 0 then rows else moduleNYPixels h % rows)
      ≤ moduleNYPixels h := by
    split
    · exact hle
    · exact Nat.mod_le _ _
  have hceil := ceil_natCast_div (moduleNYPixels h) hrows
  rw [Int.cast_natCast] at hceil
  rw [lastRows_natCast, hceil, nDataBytes_natCast, nDataBytes_natCast, ← Int.natCast_sub hlast,
    throwIf, if_neg (by omega), throwIf, if_neg (by omega)]
  rfl

/-- The two sides agree if they agree on the rows. -/
theorem agrees_iff_rows (hh : IsInt h) (hw : IsInt w) (hh0 : 0 < h) (hw0 : 0 < w)
    (hk : moduleNXPixels w = 12 * b) (hr : 1 ≤ nRowsPerPacket h w) :
    calculateUdpPacketInfo h w = .ok (receiverPacketInfo h w) ↔
      min (4 * (205 / 2) / b) (moduleNYPixels h)
        = min (4 * (205 / b * b / 2) / b) (moduleNYPixels h) := by
  obtain ⟨hone, hmany, -⟩ := pixels_of_packet hw hr
  have hrows := nRowsPerPacket_eq (h := h) hk (by omega)
  have hless : 4 * (205 / b * b / 2) / b ≤ 4 * (205 / 2) / b :=
    Nat.div_le_div_right (Nat.mul_le_mul_left 4 (Nat.div_le_div_right (Nat.div_mul_le_self _ _)))
  rw [receiverPacketInfo_eq hw hr, hrows]
  rw [hrows] at hr
  rw [calculateUdpPacketInfo_eq hh hw hh0 hw0 hk (by omega) (by omega)]
  constructor
  · intro heq
    exact Int.ofNat_inj.mp (congrArg PacketInfo.packetNRows (Except.ok.inj heq))
  · intro heq
    rw [heq]

end Sides

/-- **The packets of the simulator are those of the receiver** exactly when the rounding loses no
row. For every height, and for every width whose rows are whole 12-pixel blocks and fit into a
packet. -/
theorem simulator_agrees_iff {h w : ℤ} (hh : IsInt h) (hw : IsInt w) (hh0 : 0 < h) (hw0 : 0 < w)
    (hblocks : 12 ∣ moduleNXPixels w) (hr : 1 ≤ nRowsPerPacket h w) :
    calculateUdpPacketInfo h w = .ok (receiverPacketInfo h w) ↔
      RoundingHarmless 205 (moduleNXPixels w / 12) (moduleNYPixels h) := by
  obtain ⟨hone, -, -⟩ := pixels_of_packet hw hr
  obtain ⟨b, hk⟩ := hblocks
  rw [agrees_iff_rows hh hw hh0 hw0 hk hr, hk, Nat.mul_div_cancel_left b (by decide)]
  exact min_rows_eq_iff (by decide) (by omega)

/-- The full detector: 84 blocks in a row, and 37 left. -/
theorem simulator_agrees_full_image :
    calculateUdpPacketInfo 2016 2016 = .ok (receiverPacketInfo 2016 2016) :=
  (simulator_agrees_iff (by decide) (by decide) (by decide) (by decide) (by decide)
    (by decide)).mpr (by decide)

/-- The small test configuration has 21 blocks in a row. The simulator sends 19 rows in a packet and
the receiver expects 17. -/
theorem not_simulator_agrees_small_image :
    1 ≤ nRowsPerPacket 252 504 ∧ 12 ∣ moduleNXPixels 504 ∧
      calculateUdpPacketInfo 252 504 ≠ .ok (receiverPacketInfo 252 504) := by
  refine ⟨by decide, by decide, fun heq => ?_⟩
  rw [agrees_iff_rows (b := 21) (by decide) (by decide) (by decide) (by decide) (by decide)
    (by decide)] at heq
  exact absurd heq (by decide)

end GigaFrost

end StdDaq
