import Mathlib.Data.List.Basic
import Mathlib.Data.List.Perm.Basic
import Mathlib.Logic.Nontrivial.Basic

/-!
# Copying ranges between memories

A memory is a function from addresses to cells. `slice` reads a contiguous range into a message
and `blit` writes a message back at an address, so a message carries no addresses of its own and
the receiver has to be told where to put it.

A transfer that reads and writes at the same address is idempotent and commutes with every other
such transfer. The result of a list of them is read off pointwise: `transfer_apply`.
-/

namespace Memory

variable {α : Type*}

/-- The `n` cells from `start` on. -/
def slice (m : ℕ → α) (start n : ℕ) : List α := (List.range n).map fun i => m (start + i)

/-- Write `xs` at `start`, leaving every other cell alone. -/
def blit (m : ℕ → α) (start : ℕ) (xs : List α) : ℕ → α := fun a =>
  if a < start then m a else xs[a - start]?.getD (m a)

@[simp] theorem length_slice (m : ℕ → α) (start n : ℕ) : (slice m start n).length = n := by
  simp [slice]

theorem getElem?_slice {m : ℕ → α} {start n i : ℕ} (hi : i < n) :
    (slice m start n)[i]? = some (m (start + i)) := by
  simp [slice, List.getElem?_range hi]

/-- A cell that was written. -/
theorem blit_of_getElem? {m : ℕ → α} {start i : ℕ} {xs : List α} {x : α} (h : xs[i]? = some x) :
    blit m start xs (start + i) = x := by
  rw [blit, if_neg (by omega), Nat.add_sub_cancel_left, h, Option.getD_some]

/-- A cell that was not. -/
theorem blit_of_not_mem {m : ℕ → α} {start a : ℕ} {xs : List α}
    (h : ¬ (start ≤ a ∧ a < start + xs.length)) : blit m start xs a = m a := by
  rcases Nat.lt_or_ge a start with hlt | hge
  · rw [blit, if_pos hlt]
  · rw [blit, if_neg (Nat.not_lt.mpr hge), List.getElem?_eq_none (by omega), Option.getD_none]

theorem blit_slice_of_mem {src dst : ℕ → α} {start n a : ℕ} (hle : start ≤ a)
    (hlt : a < start + n) : blit dst start (slice src start n) a = src a := by
  obtain ⟨i, rfl⟩ := Nat.exists_eq_add_of_le hle
  exact blit_of_getElem? (getElem?_slice (by omega))

theorem blit_slice_of_not_mem {src dst : ℕ → α} {start n a : ℕ}
    (h : ¬ (start ≤ a ∧ a < start + n)) : blit dst start (slice src start n) a = dst a :=
  blit_of_not_mem (by rwa [length_slice])

/-- Copy each of the ranges `(start, n)` from `src` to the same place of `dst`. -/
def transfer (src : ℕ → α) (ranges : List (ℕ × ℕ)) (dst : ℕ → α) : ℕ → α :=
  ranges.foldl (fun m r => blit m r.1 (slice src r.1 r.2)) dst

/-- An address lies in one of the ranges. -/
def Covered (ranges : List (ℕ × ℕ)) (a : ℕ) : Prop := ∃ r ∈ ranges, r.1 ≤ a ∧ a < r.1 + r.2

instance (ranges : List (ℕ × ℕ)) (a : ℕ) : Decidable (Covered ranges a) :=
  inferInstanceAs (Decidable (∃ r ∈ ranges, r.1 ≤ a ∧ a < r.1 + r.2))

theorem covered_cons {r : ℕ × ℕ} {rs : List (ℕ × ℕ)} {a : ℕ} :
    Covered (r :: rs) a ↔ (r.1 ≤ a ∧ a < r.1 + r.2) ∨ Covered rs a := by
  simp [Covered]

/-- **The outcome of a list of transfers, cell by cell.** Covered cells hold the source, the
others what they held before; the order of the transfers does not matter. -/
theorem transfer_apply (src : ℕ → α) (rs : List (ℕ × ℕ)) (dst : ℕ → α) (a : ℕ) :
    transfer src rs dst a = if Covered rs a then src a else dst a := by
  induction rs generalizing dst with
  | nil => simp [transfer, Covered]
  | cons r rs ih =>
    change transfer src rs (blit dst r.1 (slice src r.1 r.2)) a = _
    rw [ih]
    by_cases hrs : Covered rs a
    · rw [if_pos hrs, if_pos (covered_cons.mpr (.inr hrs))]
    · rw [if_neg hrs]
      by_cases hr : r.1 ≤ a ∧ a < r.1 + r.2
      · rw [if_pos (covered_cons.mpr (.inl hr)), blit_slice_of_mem hr.1 hr.2]
      · rw [if_neg fun hc => (covered_cons.mp hc).elim hr hrs, blit_slice_of_not_mem hr]

/-- Write each of the messages at its address, one after the other. -/
def blits (m : ℕ → α) (writes : List (ℕ × List α)) : ℕ → α :=
  writes.foldl (fun m w => blit m w.1 w.2) m

section Blits

variable {writes : List (ℕ × List α)} {a size : ℕ}

theorem blits_cons {w : ℕ × List α} {m : ℕ → α} :
    blits m (w :: writes) = blits (blit m w.1 w.2) writes := rfl

/-- A cell that no message covers. -/
theorem blits_of_not_mem {m : ℕ → α}
    (h : ∀ w ∈ writes, ¬ (w.1 ≤ a ∧ a < w.1 + w.2.length)) : blits m writes a = m a := by
  induction writes generalizing m with
  | nil => rfl
  | cons w writes ih =>
    rw [List.forall_mem_cons] at h
    rw [blits_cons, ih h.2, blit_of_not_mem h.1]

/-- A covered cell holds a value that does not depend on what was there before. -/
theorem exists_blits_eq (h : ∃ w ∈ writes, w.1 ≤ a ∧ a < w.1 + w.2.length) :
    ∃ x, ∀ m : ℕ → α, blits m writes a = x := by
  induction writes with
  | nil =>
    obtain ⟨w, hw, -⟩ := h
    cases hw
  | cons w writes ih =>
    by_cases hlater : ∃ w ∈ writes, w.1 ≤ a ∧ a < w.1 + w.2.length
    · obtain ⟨x, hx⟩ := ih hlater
      exact ⟨x, fun m => hx _⟩
    · -- the first message is the last one that writes this cell
      have hcover : w.1 ≤ a ∧ a < w.1 + w.2.length := by
        obtain ⟨v, hv, hcover⟩ := h
        rcases List.mem_cons.mp hv with rfl | hv
        · exact hcover
        · exact absurd ⟨v, hv, hcover⟩ hlater
      obtain ⟨i, rfl⟩ := Nat.exists_eq_add_of_le hcover.1
      have hget : w.2[i]? = some (w.2.get ⟨i, by omega⟩) := List.getElem?_eq_getElem (by omega)
      refine ⟨w.2.get ⟨i, by omega⟩, fun m => ?_⟩
      rw [blits_cons, blits_of_not_mem fun v hv hcover => hlater ⟨v, hv, hcover⟩]
      exact blit_of_getElem? hget

/-- **What a list of messages leaves alone.** Whatever the memory holds, the cells from `size` on
keep it exactly when every message ends before. -/
theorem blits_inside_iff [Nontrivial α] :
    (∀ m : ℕ → α, ∀ a, size ≤ a → blits m writes a = m a) ↔
      ∀ w ∈ writes, w.2 ≠ [] → w.1 + w.2.length ≤ size := by
  constructor
  · intro h w hw hne
    have hpos := List.length_pos_iff.mpr hne
    by_contra hlong
    -- the last cell of the message keeps what it held, and it does not
    obtain ⟨x, hx⟩ := exists_blits_eq (a := w.1 + w.2.length - 1) ⟨w, hw, by omega, by omega⟩
    obtain ⟨y, hy⟩ := exists_ne x
    have hkept := h (fun _ => y) (w.1 + w.2.length - 1) (by omega)
    rw [hx] at hkept
    exact hy hkept.symm
  · intro h m a ha
    refine blits_of_not_mem fun w hw hcover => ?_
    have hne : w.2 ≠ [] := by
      intro hnil
      rw [hnil, List.length_nil] at hcover
      omega
    have := h w hw hne
    omega

end Blits

end Memory
