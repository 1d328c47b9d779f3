import Mathlib.Data.Nat.ModEq
import Mathlib.Order.Interval.Finset.Nat
import Mathlib.Tactic.Ring

/-!
# Cutting a range at rounded multiples

A range of `B` items is to be shared by `F` parts. Part `p` starts at `cut B F p = p * B / F`,
where the product is formed before the division, and has `width B F = B / F` items, where the
division comes first. The two roundings differ, so consecutive parts never overlap but may leave
one item between them.

The first such item sits at `gapFree B F`. Below it the parts are adjacent, and the item itself
belongs to no part. Everything a user of the partition wants to know about an initial segment of
length `C` is therefore the comparison of `C` with `gapFree B F`.

## Main results

* `cut_add_width_le` — parts do not overlap, whatever the remainder
* `cut_of_lt_gapIndex` — below the first gap the cuts are the multiples of the width
* `covers_iff` — the parts cover an initial segment exactly when it ends before the first gap
* `ceil_width_eq_startedParts_iff` — when dividing by the width counts the parts that start inside
  an initial segment
-/

namespace FloorPartition

/-- The start of part `p` when `B` items are cut into `F` parts: multiply, then round. -/
def cut (B F p : ℕ) : ℕ := p * B / F

/-- The number of items of one part: round, then use. -/
def width (B F : ℕ) : ℕ := B / F

/-- The first part that does not start where its predecessor ended: the `p` at which `p` times
the remainder first reaches `F`. When nothing remains there is none, and the value is `F`. -/
def gapIndex (B F : ℕ) : ℕ := if B % F = 0 then F else (F + B % F - 1) / (B % F)

/-- The length of the initial segment that the parts cover without a gap. -/
def gapFree (B F : ℕ) : ℕ := gapIndex B F * width B F

variable {B F C p q b : ℕ}

theorem cut_eq (hF : 0 < F) : cut B F p = p * width B F + p * (B % F) / F := by
  have h : p * B = p * (B % F) + F * (p * (B / F)) := by
    calc p * B = p * (F * (B / F) + B % F) := by rw [Nat.div_add_mod]
      _ = p * (B % F) + F * (p * (B / F)) := by ring
  rw [cut, h, Nat.add_mul_div_left _ _ hF, width, Nat.add_comm]

theorem cut_succ (hF : 0 < F) : cut B F p + width B F ≤ cut B F (p + 1) := by
  have hmono : p * (B % F) / F ≤ (p + 1) * (B % F) / F :=
    Nat.div_le_div_right (Nat.mul_le_mul_right _ (Nat.le_succ p))
  rw [cut_eq hF, cut_eq hF, Nat.add_mul, Nat.one_mul]
  omega

theorem cut_mono (h : p ≤ q) : cut B F p ≤ cut B F q :=
  Nat.div_le_div_right (Nat.mul_le_mul_right _ h)

/-- **Parts do not overlap.** -/
theorem cut_add_width_le (hF : 0 < F) (h : p < q) : cut B F p + width B F ≤ cut B F q :=
  (cut_succ hF).trans (cut_mono h)

theorem gapIndex_le (hF : 0 < F) : gapIndex B F ≤ F := by
  unfold gapIndex
  split
  · exact Nat.le_refl F
  · have hr : 0 < B % F := by omega
    refine Nat.div_le_of_le_mul ?_
    obtain ⟨r, hr'⟩ : ∃ r, B % F = r + 1 := ⟨B % F - 1, by omega⟩
    obtain ⟨f, rfl⟩ : ∃ f, F = f + 1 := ⟨F - 1, by omega⟩
    rw [hr']
    have : (r + 1) * (f + 1) = r * f + r + f + 1 := by ring
    omega

/-- Below the first gap no remainder has accumulated. -/
theorem mul_mod_lt_of_lt_gapIndex (hF : 0 < F) (h : p < gapIndex B F) : p * (B % F) < F := by
  unfold gapIndex at h
  split at h
  · next h0 => simpa [h0] using hF
  · next h0 =>
    have hr : 0 < B % F := by omega
    have hle : (p + 1) * (B % F) ≤ F + B % F - 1 := (Nat.le_div_iff_mul_le hr).mp h
    rw [Nat.add_mul, Nat.one_mul] at hle
    omega

/-- Below the first gap the cuts are the multiples of the width. -/
theorem cut_of_lt_gapIndex (hF : 0 < F) (h : p < gapIndex B F) : cut B F p = p * width B F := by
  rw [cut_eq hF, Nat.div_eq_of_lt (mul_mod_lt_of_lt_gapIndex hF h), Nat.add_zero]

/-- From the first gap on, a cut lies strictly beyond the end of the gap-free segment. -/
theorem gapFree_lt_cut (hF : 0 < F) (h0 : B % F ≠ 0) (h : gapIndex B F ≤ p) :
    gapFree B F < cut B F p := by
  have hr : 0 < B % F := by omega
  have hreach : F ≤ gapIndex B F * (B % F) := by
    have hlt := Nat.lt_div_mul_add (a := F + B % F - 1) hr
    rw [gapIndex, if_neg h0]
    omega
  have hone : 1 ≤ gapIndex B F * (B % F) / F := (Nat.one_le_div_iff hF).mpr hreach
  calc gapFree B F < gapIndex B F * width B F + gapIndex B F * (B % F) / F := by
        rw [gapFree]; omega
    _ = cut B F (gapIndex B F) := (cut_eq hF).symm
    _ ≤ cut B F p := cut_mono h

theorem gapFree_of_dvd (h0 : B % F = 0) : gapFree B F = B := by
  rw [gapFree, gapIndex, if_pos h0, width, Nat.mul_div_cancel' (Nat.dvd_of_mod_eq_zero h0)]

/-- The item at which the gap-free segment ends belongs to no part. -/
theorem gapFree_not_mem (hF : 0 < F) (h0 : B % F ≠ 0) (hle : cut B F p ≤ gapFree B F) :
    cut B F p + width B F ≤ gapFree B F := by
  have hp : p < gapIndex B F := by
    by_contra hge
    exact absurd (gapFree_lt_cut hF h0 (Nat.not_lt.mp hge)) (Nat.not_lt.mpr hle)
  calc cut B F p + width B F = (p + 1) * width B F := by
        rw [cut_of_lt_gapIndex hF hp, Nat.add_mul, Nat.one_mul]
    _ ≤ gapFree B F := Nat.mul_le_mul_right _ hp

/-- Every item of the gap-free segment belongs to the part one finds by dividing. -/
theorem exists_part_of_lt_gapFree (hF : 0 < F) (hb : b < gapFree B F) :
    ∃ p < F, cut B F p ≤ b ∧ b < cut B F p + width B F := by
  have hw : 0 < width B F := by
    refine Nat.pos_of_ne_zero fun h => ?_
    rw [gapFree, h, Nat.mul_zero] at hb
    exact Nat.not_lt_zero b hb
  have hp : b / width B F < gapIndex B F := (Nat.div_lt_iff_lt_mul hw).mpr hb
  refine ⟨b / width B F, hp.trans_le (gapIndex_le hF), ?_⟩
  rw [cut_of_lt_gapIndex hF hp]
  exact ⟨Nat.div_mul_le_self _ _, Nat.lt_div_mul_add hw⟩

/-- **The parts cover an initial segment exactly when it ends before the first gap.** -/
theorem covers_iff (hF : 0 < F) (hC : C ≤ B) :
    (∀ b < C, ∃ p < F, cut B F p ≤ b ∧ b < cut B F p + width B F) ↔ C ≤ gapFree B F := by
  constructor
  · intro hcov
    by_contra hlt
    by_cases h0 : B % F = 0
    · exact hlt (by rw [gapFree_of_dvd h0]; exact hC)
    · obtain ⟨p, -, hle, hgt⟩ := hcov (gapFree B F) (Nat.not_le.mp hlt)
      exact absurd hgt (Nat.not_lt.mpr (gapFree_not_mem hF h0 hle))
  · intro hle b hb
    exact exists_part_of_lt_gapFree hF (hb.trans_le hle)

/-! ### Counting parts -/

/-- The number of parts that start inside an initial segment of length `C`. -/
def startedParts (B F C : ℕ) : ℕ := ((List.range F).filter fun p => cut B F p < C).length

/-- A part starts inside the segment when its exact, unrounded start does. -/
theorem cut_lt_iff (hF : 0 < F) : cut B F p < C ↔ p * B < C * F := Nat.div_lt_iff_lt_mul hF

/-- The parts that start inside the segment are the first ones. -/
theorem startedParts_eq (hF : 0 < F) {n : ℕ} (hn : n ≤ F) (hin : ∀ p < n, p * B < C * F)
    (hout : C * F ≤ n * B) : startedParts B F C = n := by
  have hfilter : ((List.range F).filter fun p => cut B F p < C) = List.range n := by
    obtain ⟨k, rfl⟩ := Nat.exists_eq_add_of_le hn
    rw [List.range_add, List.filter_append, List.filter_eq_self.mpr, List.filter_eq_nil_iff.mpr,
      List.append_nil]
    · intro p hp
      obtain ⟨j, -, rfl⟩ := List.mem_map.mp hp
      have hle : n * B ≤ (n + j) * B := Nat.mul_le_mul_right _ (by omega)
      rw [decide_eq_true_eq, cut_lt_iff hF]
      omega
    · intro p hp
      rw [decide_eq_true_eq, cut_lt_iff hF]
      exact hin p (List.mem_range.mp hp)
  rw [startedParts, hfilter, List.length_range]

/-- There is a first part that does not start inside the segment. -/
theorem exists_startedParts (hF : 0 < F) (hC : C ≤ B) :
    ∃ n ≤ F, startedParts B F C = n ∧ (∀ p < n, p * B < C * F) ∧ C * F ≤ n * B := by
  classical
  have hex : ∃ n, C * F ≤ n * B := ⟨F, by rw [Nat.mul_comm]; exact Nat.mul_le_mul_left F hC⟩
  have hle : Nat.find hex ≤ F :=
    Nat.find_min' hex (by rw [Nat.mul_comm]; exact Nat.mul_le_mul_left F hC)
  have hin : ∀ p < Nat.find hex, p * B < C * F := fun p hp => Nat.not_le.mp (Nat.find_min hex hp)
  exact ⟨_, hle, startedParts_eq hF hle hin (Nat.find_spec hex), hin, Nat.find_spec hex⟩

/-- Nothing is rounded when the number of parts divides the number of items. -/
theorem mul_lt_of_dvd (hF : 0 < F) (hdvd : F ∣ B) {n : ℕ} (h : n * (B / F) < C) :
    n * B < C * F := by
  obtain ⟨w, rfl⟩ := hdvd
  rw [Nat.mul_div_cancel_left w hF] at h
  calc n * (F * w) = n * w * F := by ring
    _ < C * F := Nat.mul_lt_mul_of_pos_right h hF

/-- **Counting by the rounded width.** The number of widths that an initial segment takes up is the
number of parts that start inside it, unless the segment ends behind `n` widths but not behind `n`
exact parts, for some `n`. -/
theorem ceil_width_eq_startedParts_iff (hF : 0 < F) (hC : C ≤ B) (hw : 0 < width B F) :
    (C + width B F - 1) / width B F = startedParts B F C ↔
      ∀ n, n * width B F < C → n * B < C * F := by
  obtain ⟨n, -, hn, hin, hout⟩ := exists_startedParts hF hC
  have hwF : width B F * F ≤ B := Nat.div_mul_le_self B F
  rw [hn]
  constructor
  · intro hceil m hm
    by_contra hge
    -- `m` widths are not enough, but `n` are, and `n ≤ m`
    have hnm : n ≤ m := by
      by_contra hlt
      exact absurd (hin m (Nat.not_le.mp hlt)) hge
    have hlt : m * width B F < n * width B F := by
      have := Nat.lt_div_mul_add hw (a := C + width B F - 1)
      rw [hceil] at this
      omega
    exact absurd (Nat.mul_le_mul_right (width B F) hnm) (Nat.not_le.mpr hlt)
  · intro hround
    have hle : C ≤ n * width B F := by
      by_contra hlt
      exact absurd (hround n (Nat.not_le.mp hlt)) (Nat.not_lt.mpr hout)
    refine Nat.div_eq_of_lt_le ?_ ?_
    · -- the last part that starts inside the segment needs another width
      rcases Nat.eq_zero_or_pos n with h0 | hpos
      · rw [h0, Nat.zero_mul]
        exact Nat.zero_le _
      · have hlast := hin (n - 1) (by omega)
        have hlt : (n - 1) * width B F < C := by
          by_contra hge
          have h1 : C * F ≤ (n - 1) * width B F * F := Nat.mul_le_mul_right F (Nat.not_lt.mp hge)
          have h2 : (n - 1) * width B F * F ≤ (n - 1) * B := by
            rw [Nat.mul_assoc]
            exact Nat.mul_le_mul_left _ hwF
          omega
        have : n * width B F = (n - 1) * width B F + width B F := by
          rw [← Nat.succ_mul]
          congr 1
          omega
        omega
    · rw [Nat.succ_mul]
      omega

end FloorPartition
