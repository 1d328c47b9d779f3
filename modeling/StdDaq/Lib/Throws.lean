import Mathlib.Data.List.Basic
import Mathlib.Logic.Basic

/-!
# Computations that may throw

A computation in `Except` that runs other computations one after the other does not throw exactly
when none of them does.

## Main results

* `Except.bind_eq_ok_iff` — the value of a sequence
* `Except.isOk_bind_and_iff` — when a sequence does not throw
* `Except.foldlM_range_eq_ok` — what a counting loop comes to
-/

namespace Except

variable {ε α β : Type}

/-- The computation does not throw. -/
def IsOk (x : Except ε α) : Prop := ∃ a, x = .ok a

theorem isOk_ok (a : α) : IsOk (.ok a : Except ε α) := ⟨a, rfl⟩

theorem isOk_pure (a : α) : IsOk (pure a : Except ε α) := ⟨a, rfl⟩

theorem not_isOk_error (e : ε) : ¬ IsOk (.error e : Except ε α) := nofun

theorem bind_eq_ok_iff {x : Except ε α} {f : α → Except ε β} {b : β} :
    x >>= f = .ok b ↔ ∃ a, x = .ok a ∧ f a = .ok b := by
  cases x with
  | error e =>
    refine ⟨nofun, ?_⟩
    rintro ⟨a, ha, -⟩
    cases ha
  | ok a =>
    constructor
    · intro h
      exact ⟨a, rfl, h⟩
    · rintro ⟨a', ha', h⟩
      cases ha'
      exact h

/-- A computation whose second part throws or not whatever the first one returns. -/
theorem isOk_bind_and_iff {x : Except ε α} {f : α → Except ε β} {P : Prop}
    (hf : ∀ a, IsOk (f a) ↔ P) : IsOk (x >>= f) ↔ IsOk x ∧ P := by
  constructor
  · rintro ⟨b, hb⟩
    obtain ⟨a, ha, h⟩ := bind_eq_ok_iff.mp hb
    exact ⟨⟨a, ha⟩, (hf a).mp ⟨b, h⟩⟩
  · rintro ⟨⟨a, ha⟩, h⟩
    obtain ⟨b, hb⟩ := (hf a).mpr h
    exact ⟨b, bind_eq_ok_iff.mpr ⟨a, ha, hb⟩⟩

/-- A computation that throws only in its first part. -/
theorem isOk_bind_iff {x : Except ε α} {f : α → Except ε β} (hf : ∀ a, IsOk (f a)) :
    IsOk (x >>= f) ↔ IsOk x := by
  rw [isOk_bind_and_iff (P := True) fun a => iff_of_true (hf a) trivial, and_true]

/-- A list of computations that do not throw. -/
theorem mapM_eq_ok {l : List α} {f : α → Except ε β} {g : α → β} (h : ∀ a ∈ l, f a = .ok (g a)) :
    l.mapM f = .ok (l.map g) := by
  induction l with
  | nil => rfl
  | cons a l ih =>
    rw [List.forall_mem_cons] at h
    rw [List.mapM_cons, h.1, ih h.2]
    rfl

/-- A counting loop whose turns keep an invariant and do not throw while it holds. -/
theorem foldlM_range_eq_ok {step : β → ℕ → Except ε β} (Inv : ℕ → β → Prop) {b : β} (h0 : Inv 0 b)
    (hstep : ∀ i s, Inv i s → ∃ s', step s i = .ok s' ∧ Inv (i + 1) s') (n : ℕ) :
    ∃ s, (List.range n).foldlM step b = .ok s ∧ Inv n s := by
  induction n with
  | zero => exact ⟨b, rfl, h0⟩
  | succ n ih =>
    obtain ⟨s, hrun, hs⟩ := ih
    obtain ⟨s', hturn, hs'⟩ := hstep n s hs
    refine ⟨s', ?_, hs'⟩
    rw [List.range_succ, List.foldlM_append]
    exact bind_eq_ok_iff.mpr ⟨s, hrun, bind_eq_ok_iff.mpr ⟨s', hturn, rfl⟩⟩

end Except
