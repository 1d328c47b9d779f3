import Mathlib
import StdDaq.Lib.Memory

/-!
# Loops that fill a buffer

A loop nest that fills a buffer is the list of the messages it writes, in its order. What matters of
it is which value it stores where, and `Stores writes a x` computes to an existential over the
counters of the loops. When the values are those of a picture that is given in advance, neither the
order of the loops nor what they write twice matters: `Paints`.

A vectorised loop does most of the buffer and a plain loop the rest, and both paint the same
picture: `Paints.append`.

## Main results

* `Paints.blits_eq` — a painted buffer is the picture, and unchanged behind it
* `exists_mem_blocks` — the places a loop with a step visits
-/

namespace Memory

variable {α : Type*}

/-- One of the messages stores `x` at the address `a`. -/
def Stores (writes : List (ℕ × List α)) (a : ℕ) (x : α) : Prop :=
  ∃ w ∈ writes, w.1 ≤ a ∧ w.2[a - w.1]? = some x

section Stores

variable {ι : Type*} {writes writes' : List (ℕ × List α)} {a : ℕ} {x : α}

@[simp] theorem not_stores_nil : ¬ Stores ([] : List (ℕ × List α)) a x := by
  rintro ⟨w, hw, -⟩
  cases hw

@[simp] theorem stores_append :
    Stores (writes ++ writes') a x ↔ Stores writes a x ∨ Stores writes' a x := by
  simp only [Stores, List.mem_append, or_and_right, exists_or]

@[simp] theorem stores_flatMap {l : List ι} {g : ι → List (ℕ × List α)} :
    Stores (l.flatMap g) a x ↔ ∃ i ∈ l, Stores (g i) a x := by
  simp only [Stores, List.mem_flatMap]
  constructor
  · rintro ⟨w, ⟨i, hi, hw⟩, h⟩
    exact ⟨i, hi, w, hw, h⟩
  · rintro ⟨i, hi, w, hw, h⟩
    exact ⟨w, ⟨i, hi, hw⟩, h⟩

/-- A loop that writes one message a turn. -/
@[simp] theorem stores_map {l : List ι} {g : ι → ℕ × List α} :
    Stores (l.map g) a x ↔ ∃ i ∈ l, Stores [g i] a x := by
  rw [List.map_eq_flatMap, stores_flatMap]

theorem stores_message {s : ℕ} {xs : List α} :
    Stores [(s, xs)] a x ↔ ∃ i, a = s + i ∧ xs[i]? = some x := by
  constructor
  · rintro ⟨w, hw, hle, hget⟩
    cases List.mem_singleton.mp hw
    exact ⟨a - s, (Nat.add_sub_cancel' hle).symm, hget⟩
  · rintro ⟨i, rfl, hget⟩
    refine ⟨(s, xs), List.mem_singleton_self _, Nat.le_add_right s i, ?_⟩
    rwa [Nat.add_sub_cancel_left]

/-- The store of one cell. -/
@[simp] theorem stores_cell {s : ℕ} {y : α} : Stores [(s, [y])] a x ↔ a = s ∧ x = y := by
  rw [stores_message]
  constructor
  · rintro ⟨i, rfl, hget⟩
    obtain ⟨hi, hy⟩ := List.getElem?_eq_some_iff.mp hget
    obtain rfl : i = 0 := by simpa using hi
    exact ⟨rfl, hy.symm⟩
  · rintro ⟨rfl, rfl⟩
    exact ⟨0, rfl, rfl⟩

/-- The store of a register, whose lanes are numbered. -/
@[simp] theorem stores_lanes {s n : ℕ} {g : ℕ → α} :
    Stores [(s, (List.range n).map g)] a x ↔ ∃ i < n, a = s + i ∧ x = g i := by
  rw [stores_message]
  constructor
  · rintro ⟨i, rfl, hget⟩
    rw [List.getElem?_map] at hget
    obtain ⟨j, hj, rfl⟩ := Option.map_eq_some_iff.mp hget
    obtain ⟨hi, rfl⟩ := List.getElem?_eq_some_iff.mp hj
    rw [List.getElem_range]
    exact ⟨i, by simpa using hi, rfl, rfl⟩
  · rintro ⟨i, hi, rfl, rfl⟩
    exact ⟨i, rfl, by rw [List.getElem?_map, List.getElem?_range hi, Option.map_some]⟩

@[simp] theorem stores_slice {m : ℕ → α} {s start n : ℕ} :
    Stores [(s, slice m start n)] a x ↔ ∃ i < n, a = s + i ∧ x = m (start + i) := stores_lanes

end Stores

/-- The messages hold the values of `f`, and write the cells in `s`. -/
structure Paints (f : ℕ → α) (s : Set ℕ) (writes : List (ℕ × List α)) : Prop where
  /-- What is stored lies in `s` and is a value of `f`. -/
  values : ∀ a x, Stores writes a x → a ∈ s ∧ x = f a
  /-- Every cell of `s` is written. -/
  covers : ∀ a ∈ s, ∃ x, Stores writes a x

/-- The first `n` cells replaced by those of `f`. -/
def fill (n : ℕ) (f m : ℕ → α) : ℕ → α := fun a => if a < n then f a else m a

section Fill

variable {n a : ℕ} {f g m : ℕ → α}

theorem fill_of_lt (h : a < n) : fill n f m a = f a := if_pos h

theorem fill_of_ge (h : n ≤ a) : fill n f m a = m a := if_neg (Nat.not_lt.mpr h)

theorem fill_congr (h : ∀ a < n, f a = g a) : fill n f m = fill n g m := by
  funext a
  rcases Nat.lt_or_ge a n with hlt | hge
  · rw [fill_of_lt hlt, fill_of_lt hlt, h a hlt]
  · rw [fill_of_ge hge, fill_of_ge hge]

theorem fill_zero : fill 0 f m = m := rfl

/-- A picture is painted over by a picture of the same size. -/
theorem fill_fill : fill n f (fill n g m) = fill n f m := by
  funext a
  rcases Nat.lt_or_ge a n with hlt | hge
  · rw [fill_of_lt hlt, fill_of_lt hlt]
  · rw [fill_of_ge hge, fill_of_ge hge, fill_of_ge hge]

end Fill

theorem blits_append {m : ℕ → α} {writes writes' : List (ℕ × List α)} :
    blits m (writes ++ writes') = blits (blits m writes) writes' := List.foldl_append

namespace Paints

variable {f : ℕ → α} {s t : Set ℕ} {writes writes' : List (ℕ × List α)} {m : ℕ → α} {n a : ℕ}

/-- Two loops, one after the other, that paint parts of one picture. -/
theorem append (h : Paints f s writes) (h' : Paints f t writes') :
    Paints f (s ∪ t) (writes ++ writes') where
  values a x hx := (stores_append.mp hx).elim
    (fun hx => ⟨.inl (h.values a x hx).1, (h.values a x hx).2⟩)
    (fun hx => ⟨.inr (h'.values a x hx).1, (h'.values a x hx).2⟩)
  covers a ha := ha.elim
    (fun ha => (h.covers a ha).imp fun _ hx => stores_append.mpr (.inl hx))
    (fun ha => (h'.covers a ha).imp fun _ hx => stores_append.mpr (.inr hx))

theorem congr (h : Paints f s writes) (hst : ∀ a, a ∈ s ↔ a ∈ t) : Paints f t writes :=
  Set.ext hst ▸ h

/-- A cell of the picture. -/
theorem blits_of_mem (h : Paints f s writes) (ha : a ∈ s) : blits m writes a = f a := by
  -- the last message that covers the cell decides, and all of them agree
  have hlast : ∀ (writes : List (ℕ × List α)) (m : ℕ → α),
      (∀ x, Stores writes a x → x = f a) → (∃ x, Stores writes a x) →
        blits m writes a = f a := by
    intro writes
    induction writes using List.reverseRecOn with
    | nil =>
      rintro m - ⟨x, hx⟩
      exact absurd hx not_stores_nil
    | append_singleton writes w ih =>
      intro m hvalues hcovers
      rw [blits_append]
      change blit _ w.1 w.2 a = f a
      by_cases hw : ∃ x, Stores [w] a x
      · obtain ⟨x, hx⟩ := hw
        obtain ⟨i, rfl, hget⟩ := stores_message.mp hx
        rw [blit_of_getElem? hget, hvalues x (stores_append.mpr (.inr hx))]
      · have hnot : ¬ (w.1 ≤ a ∧ a < w.1 + w.2.length) := fun hin =>
          hw ⟨w.2.get ⟨a - w.1, by omega⟩, w, List.mem_singleton_self w, hin.1,
            List.getElem?_eq_getElem (by omega)⟩
        rw [blit_of_not_mem hnot]
        refine ih m (fun x hx => hvalues x (stores_append.mpr (.inl hx))) ?_
        obtain ⟨x, hx⟩ := hcovers
        exact ⟨x, (stores_append.mp hx).resolve_right fun hx => hw ⟨x, hx⟩⟩
  exact hlast writes m (fun x hx => (h.values a x hx).2) (h.covers a ha)

/-- A cell outside. -/
theorem blits_of_not_mem (h : Paints f s writes) (ha : a ∉ s) : blits m writes a = m a := by
  refine Memory.blits_of_not_mem fun w hw hin => ha (h.values a (w.2.get ⟨a - w.1, by omega⟩) ?_).1
  exact ⟨w, hw, hin.1, List.getElem?_eq_getElem (by omega)⟩

/-- **The rule for a loop nest that fills a buffer.** -/
theorem blits_eq (h : Paints f {a | a < n} writes) : blits m writes = fill n f m := by
  funext a
  rcases Nat.lt_or_ge a n with hlt | hge
  · rw [fill_of_lt hlt, h.blits_of_mem hlt]
  · rw [fill_of_ge hge, h.blits_of_not_mem (Nat.not_lt.mpr hge)]

end Paints

/-! ### Loops with a step -/

/-- The values of the counter of `for (ii = start; ii + step - 1 < stop; ii += step)`. -/
def blocks (start stop step : ℕ) : List ℕ :=
  (List.range ((stop - start) / step)).map fun k => start + step * k

section Blocks

variable {start stop step i : ℕ}

theorem mem_blocks : i ∈ blocks start stop step ↔
    ∃ k < (stop - start) / step, i = start + step * k := by
  simp only [blocks, List.mem_map, List.mem_range, eq_comm]

/-- A block lies inside. -/
theorem le_of_mem_blocks (hstep : 0 < step) (h : i ∈ blocks start stop step) :
    start ≤ i ∧ i + step ≤ stop ∧ (i - start) % step = 0 := by
  obtain ⟨k, hk, rfl⟩ := mem_blocks.mp h
  have hle : step * (k + 1) ≤ stop - start :=
    (Nat.mul_le_mul_left step hk).trans (Nat.mul_div_le _ _)
  rw [Nat.mul_succ] at hle
  refine ⟨Nat.le_add_right _ _, by omega, ?_⟩
  rw [Nat.add_sub_cancel_left, Nat.mul_mod_right]

/-- The last places, fewer than a step, are not visited, and all before them are. -/
theorem exists_mem_blocks (stop : ℕ) {b : ℕ} (hstep : 0 < step) (hle : start ≤ b)
    (hlt : b < stop - (stop - start) % step) :
    ∃ i ∈ blocks start stop step, ∃ c < step, b = i + c := by
  have hmod := Nat.mod_add_div (stop - start) step
  have hdiv := Nat.mod_add_div (b - start) step
  have hk : (b - start) / step < (stop - start) / step := by
    rw [Nat.div_lt_iff_lt_mul hstep, Nat.mul_comm]
    omega
  refine ⟨start + step * ((b - start) / step), mem_blocks.mpr ⟨_, hk, rfl⟩, (b - start) % step,
    Nat.mod_lt _ hstep, ?_⟩
  omega

end Blocks

end Memory
