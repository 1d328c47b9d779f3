import Mathlib
import StdDaq.Lib.Painting

/-!
# Messages in memory

`Holds m p xs` says that the message `xs` stands in the memory `m` at the address `p`. A message of
two parts is read part by part, `holds_append`, and written part by part, `blit_blit`, so a format
that puts frames one behind the other is treated frame by frame.

Numbers stand in memory with their most significant byte first: `writeBE` and `readBE`.

## Main results

* `holds_append` — a message of two parts
* `readBE_of_holds` — a number that was written is read back
* `exists_le_length` — no code makes everything shorter
-/

namespace Memory

section Messages

variable {α : Type*} {m m' : ℕ → α} {p q n k i : ℕ} {xs ys : List α} {x : α}

theorem slice_add : slice m p (n + k) = slice m p n ++ slice m (p + n) k := by
  rw [slice, List.range_add, List.map_append, List.map_map]
  simp only [slice, Function.comp_def, Nat.add_assoc]

@[simp] theorem slice_zero : slice m p 0 = [] := rfl

theorem slice_congr (h : ∀ i < n, m (p + i) = m' (q + i)) : slice m p n = slice m' q n :=
  List.map_congr_left fun i hi => h i (List.mem_range.mp hi)

/-- A part of a message. -/
theorem take_drop_slice (h : q + n ≤ k) : ((slice m p k).drop q).take n = slice m (p + q) n := by
  obtain ⟨i, rfl⟩ := Nat.exists_eq_add_of_le h
  rw [Nat.add_assoc, slice_add, slice_add, List.drop_left' (length_slice m p q),
    List.take_left' (length_slice m (p + q) n)]

/-- Reading from an address of a part of the memory. -/
@[simp] theorem slice_shift : slice (fun a => m (p + a)) q n = slice m (p + q) n := by
  simp only [slice, Nat.add_assoc]

/-- The message `xs` stands in the memory at the address `p`. -/
def Holds (m : ℕ → α) (p : ℕ) (xs : List α) : Prop := slice m p xs.length = xs

@[simp] theorem holds_nil : Holds m p [] := rfl

theorem Holds.slice_eq (h : Holds m p xs) (hn : xs.length = n) : slice m p n = xs := hn ▸ h

theorem Holds.apply (h : Holds m p xs) (hx : xs[i]? = some x) : m (p + i) = x := by
  have hi : i < xs.length := (List.getElem?_eq_some_iff.mp hx).1
  rw [← h.slice_eq rfl, getElem?_slice hi] at hx
  exact Option.some.inj hx

/-- **A message of two parts**, one behind the other. -/
theorem holds_append : Holds m p (xs ++ ys) ↔ Holds m p xs ∧ Holds m (p + xs.length) ys := by
  rw [Holds, List.length_append, slice_add]
  exact ⟨fun h => List.append_inj h (length_slice m p _), fun h => by rw [h.1, h.2]⟩

theorem Holds.congr (h : Holds m p xs) (heq : ∀ i < xs.length, m' (q + i) = m (p + i)) :
    Holds m' q xs := (slice_congr heq).trans h

theorem holds_shift : Holds (fun a => m (p + a)) q xs ↔ Holds m (p + q) xs := by
  rw [Holds, slice_shift, Holds]

@[simp] theorem blit_nil : blit m p [] = m := by
  funext a
  exact blit_of_not_mem (by rw [List.length_nil]; omega)

theorem holds_blit : Holds (blit m p xs) p xs := by
  refine List.ext_getElem? fun i => ?_
  rcases Nat.lt_or_ge i xs.length with hlt | hge
  · have hx : xs[i]? = some (xs.get ⟨i, hlt⟩) := List.getElem?_eq_getElem hlt
    rw [getElem?_slice hlt, blit_of_getElem? hx, hx]
  · rw [List.getElem?_eq_none (by rwa [length_slice]), List.getElem?_eq_none hge]

theorem blit_singleton : blit m p [x] = Function.update m p x := by
  funext a
  rcases eq_or_ne a p with rfl | hne
  · rw [Function.update_self]
    exact blit_of_getElem? (i := 0) rfl
  · rw [Function.update_of_ne hne, blit_of_not_mem]
    rw [List.length_singleton]
    omega

/-- **Writing a message in two parts**, one behind the other. -/
theorem blit_blit : blit (blit m p xs) (p + xs.length) ys = blit m p (xs ++ ys) := by
  funext a
  rcases Nat.lt_or_ge a p with hp | hp
  · simp only [blit, if_pos hp, if_pos (hp.trans_le (Nat.le_add_right p xs.length))]
  obtain ⟨i, rfl⟩ := Nat.exists_eq_add_of_le hp
  rcases Nat.lt_or_ge i xs.length with hlt | hge
  · have hx : xs[i]? = some (xs.get ⟨i, hlt⟩) := List.getElem?_eq_getElem hlt
    rw [blit_of_not_mem (by omega), blit_of_getElem? hx,
      blit_of_getElem? (by rw [List.getElem?_append_left hlt, hx])]
  · obtain ⟨j, rfl⟩ := Nat.exists_eq_add_of_le hge
    rw [← Nat.add_assoc]
    rcases Nat.lt_or_ge j ys.length with hlt | hge
    · have hy : ys[j]? = some (ys.get ⟨j, hlt⟩) := List.getElem?_eq_getElem hlt
      rw [blit_of_getElem? hy, Nat.add_assoc, blit_of_getElem?]
      rw [List.getElem?_append_right (Nat.le_add_right _ _), Nat.add_sub_cancel_left, hy]
    · rw [blit_of_not_mem (by omega), blit_of_not_mem (by omega), blit_of_not_mem]
      rw [List.length_append]
      omega

/-- A message that is written behind the first `p` cells, by one who sees only what is there. -/
theorem fill_blit_shift :
    fill p m (fun a => blit (fun a => m (p + a)) 0 xs (a - p)) = blit m p xs := by
  funext a
  rcases Nat.lt_or_ge a p with hlt | hge
  · rw [fill_of_lt hlt, blit_of_not_mem (by omega)]
  · obtain ⟨i, rfl⟩ := Nat.exists_eq_add_of_le hge
    rw [fill_of_ge hge, Nat.add_sub_cancel_left, blit, blit, if_neg (Nat.not_lt_zero i),
      if_neg (Nat.not_lt.mpr hge), Nat.sub_zero, Nat.add_sub_cancel_left]

/-- A picture that fills the memory from its beginning. -/
theorem blit_slice_zero : blit m 0 (slice m' 0 n) = fill n m' m := by
  funext a
  rcases Nat.lt_or_ge a n with hlt | hge
  · rw [fill_of_lt hlt, blit_slice_of_mem (Nat.zero_le a) (by omega)]
  · rw [fill_of_ge hge, blit_slice_of_not_mem (by omega)]

end Messages

/-! ### Numbers -/

/-- The `k` low bytes of a number, the most significant first. -/
def writeBE : ℕ → ℕ → List UInt8
  | 0, _ => []
  | k + 1, num => writeBE k (num / 256) ++ [UInt8.ofNat (num % 256)]

/-- The number in `k` bytes. -/
def readBE : ℕ → (ℕ → UInt8) → ℕ
  | 0, _ => 0
  | k + 1, b => readBE k b * 256 + (b k).toNat

section Numbers

variable {k num p : ℕ} {m : ℕ → UInt8}

@[simp] theorem length_writeBE : (writeBE k num).length = k := by
  induction k generalizing num with
  | zero => rfl
  | succ k ih => rw [writeBE, List.length_append, ih, List.length_singleton]

/-- **A number that was written is read back**, as far as there is room for it. -/
theorem readBE_of_holds (h : Holds m p (writeBE k num)) :
    readBE k (fun a => m (p + a)) = num % 256 ^ k := by
  induction k generalizing num with
  | zero => rw [readBE, Nat.pow_zero, Nat.mod_one]
  | succ k ih =>
    obtain ⟨hhigh, hlow⟩ := holds_append.mp h
    rw [length_writeBE] at hlow
    have hbyte : (m (p + k)).toNat = num % 256 := by
      have hread : m (p + k) = UInt8.ofNat (num % 256) := hlow.apply (i := 0) rfl
      rw [hread, UInt8.toNat_ofNat', Nat.mod_mod]
    rw [readBE, ih hhigh, hbyte, Nat.pow_succ, Nat.mul_comm _ 256, Nat.mul_comm _ 256, Nat.mod_mul,
      Nat.add_comm]

end Numbers

/-! ### Codes -/

/-- **No code makes everything shorter**: a code for all sequences of `n` symbols of an alphabet
with two symbols or more needs `n` symbols for one of them. -/
theorem exists_le_length {α : Type*} [Fintype α] [Nontrivial α] {n : ℕ}
    (code : (Fin n → α) → List α) (hcode : Function.Injective code) : ∃ x, n ≤ (code x).length := by
  by_contra hshort
  simp only [not_exists, Nat.not_le] at hshort
  -- there are fewer sequences that are shorter than `n`
  have hcard : Fintype.card (Σ k : Fin n, Fin k → α) < Fintype.card (Fin n → α) := by
    rw [Fintype.card_sigma, Fintype.card_fun, Fintype.card_fin]
    simp only [Fintype.card_fun, Fintype.card_fin]
    rw [Fin.sum_univ_eq_sum_range (fun k => Fintype.card α ^ k)]
    exact Nat.geomSum_lt Fintype.one_lt_card fun k hk => Finset.mem_range.mp hk
  obtain ⟨x, y, hne, heq⟩ := Fintype.exists_ne_map_eq_of_card_lt
    (fun x => (⟨⟨(code x).length, hshort x⟩, (code x).get⟩ : Σ k : Fin n, Fin k → α)) hcard
  have hlist := congrArg (fun s : Σ k : Fin n, Fin k → α => List.ofFn s.2) heq
  simp only [List.ofFn_get] at hlist
  exact hne (hcode hlist)

end Memory
