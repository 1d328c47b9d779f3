import Mathlib.Data.Int.Order.Basic
import Mathlib.Data.List.Basic
import Mathlib.Data.List.Pairwise

/-!
# Bursts

A filter answers for each item of a sequence whether it passes, and each item comes with a reading
of a clock. `Bursts` says that the items that pass are those of bursts: runs of a fixed number of
items that do not overlap and whose starts are more than a fixed time apart. The last burst may be
cut off by the end of the sequence.

The sequence grows at its end, and there are three ways how: the next item passes within a burst, it
passes and starts a burst, or it does not pass.

## Main definitions

* `Bursts` — what passes comes in bursts
* `Bursts.Over` — all bursts are over
* `Bursts.Within` — the last burst goes on
-/

variable {burst : ℕ} {gap : ℤ} {readings : List ℤ} {answers : List Bool} {starts : List ℕ}

/-- The items that pass are those of bursts of `burst` items, which start at the items `starts`,
more than `gap` apart. -/
structure Bursts (burst : ℕ) (gap : ℤ) (readings : List ℤ) (answers : List Bool)
    (starts : List ℕ) : Prop where
  /-- Every item has an answer. -/
  length_eq : answers.length = readings.length
  /-- A burst starts at an item. -/
  start_lt : ∀ s ∈ starts, s < readings.length
  /-- The items of the bursts pass, and no others. -/
  passes_iff : ∀ i < readings.length,
    answers[i]? = some true ↔ ∃ s ∈ starts, s ≤ i ∧ i < s + burst
  /-- A burst starts when the one before is over, and later than `gap` after its start. -/
  apart : starts.Pairwise fun s s' => s + burst ≤ s' ∧
    ∀ t t', readings[s]? = some t → readings[s']? = some t' → t + gap < t'

namespace Bursts

/-- All bursts are over after `n` items. -/
def Over (burst : ℕ) (starts : List ℕ) (n : ℕ) : Prop := ∀ s ∈ starts, s + burst ≤ n

/-- After `n` items a burst has had `count` of its items, and all others are over. -/
structure Within (burst : ℕ) (starts : List ℕ) (n count : ℕ) : Prop where
  mem : ∃ s ∈ starts, s + count = n
  le : count ≤ burst
  over_or : ∀ s ∈ starts, s + burst ≤ n ∨ s + count = n

theorem nil (burst : ℕ) (gap : ℤ) : Bursts burst gap [] [] [] where
  length_eq := rfl
  start_lt _ hs := absurd hs List.not_mem_nil
  passes_iff _ hi := absurd hi (Nat.not_lt_zero _)
  apart := List.Pairwise.nil

/-- A burst that has had all its items is over. -/
theorem Within.finished {n : ℕ} (h : Within burst starts n burst) : Over burst starts n :=
  fun s hs => (h.over_or s hs).elim id Nat.le_of_eq

theorem Over.succ {n : ℕ} (h : Over burst starts n) : Over burst starts (n + 1) := fun s hs =>
  Nat.le_succ_of_le (h s hs)

/-- A burst has had one item more. -/
theorem Within.succ {n count : ℕ} (h : Within burst starts n count) (hlt : count < burst) :
    Within burst starts (n + 1) (count + 1) where
  mem := by
    obtain ⟨s, hs, hcount⟩ := h.mem
    exact ⟨s, hs, by omega⟩
  le := hlt
  over_or s hs := by
    have := h.over_or s hs
    omega

/-- A burst has had its first item. -/
theorem Over.start {n : ℕ} (h : Over burst starts n) (hpos : 0 < burst) :
    Within burst (starts ++ [n]) (n + 1) 1 where
  mem := ⟨n, by simp, rfl⟩
  le := hpos
  over_or s hs := by
    rcases List.mem_append.mp hs with hs | hs
    · exact .inl (h.succ s hs)
    · exact .inr (by rw [List.mem_singleton.mp hs])

/-- The bursts so far remain apart when an item is added. -/
theorem apart_append (h : Bursts burst gap readings answers starts) (t : ℤ) :
    starts.Pairwise fun s s' => s + burst ≤ s' ∧
      ∀ u u', (readings ++ [t])[s]? = some u → (readings ++ [t])[s']? = some u' → u + gap < u' := by
  refine h.apart.imp_of_mem fun {s s'} hs hs' hapart => ⟨hapart.1, ?_⟩
  rw [List.getElem?_append_left (h.start_lt s hs), List.getElem?_append_left (h.start_lt s' hs')]
  exact hapart.2

/-- The next item passes or not, and it starts no burst. -/
theorem append (h : Bursts burst gap readings answers starts) (t : ℤ) {answer : Bool}
    (hnext : answer = true ↔ ∃ s ∈ starts, readings.length < s + burst) :
    Bursts burst gap (readings ++ [t]) (answers ++ [answer]) starts where
  length_eq := by
    rw [List.length_append, List.length_append, h.length_eq]
    rfl
  start_lt s hs := by
    rw [List.length_append]
    exact Nat.lt_succ_of_lt (h.start_lt s hs)
  passes_iff i hi := by
    rw [List.length_append, List.length_singleton] at hi
    rcases Nat.lt_succ_iff_lt_or_eq.mp hi with hlt | rfl
    · rw [List.getElem?_append_left (by rw [h.length_eq]; exact hlt), h.passes_iff i hlt]
    · rw [← h.length_eq, List.getElem?_concat_length, Option.some.injEq, hnext, h.length_eq]
      exact ⟨fun ⟨s, hs, hlt⟩ => ⟨s, hs, Nat.le_of_lt (h.start_lt s hs), hlt⟩,
        fun ⟨s, hs, _, hlt⟩ => ⟨s, hs, hlt⟩⟩
  apart := h.apart_append t

/-- The next item passes within a burst. -/
theorem go_on (h : Bursts burst gap readings answers starts) {count : ℕ}
    (hwithin : Within burst starts readings.length count) (hlt : count < burst) (t : ℤ) :
    Bursts burst gap (readings ++ [t]) (answers ++ [true]) starts := by
  obtain ⟨s, hs, hcount⟩ := hwithin.mem
  exact h.append t (iff_of_true rfl ⟨s, hs, by omega⟩)

/-- The next item does not pass. -/
theorem idle (h : Bursts burst gap readings answers starts)
    (hover : Over burst starts readings.length) (t : ℤ) :
    Bursts burst gap (readings ++ [t]) (answers ++ [false]) starts :=
  h.append t (iff_of_false (by decide) fun ⟨s, hs, hlt⟩ => absurd (hover s hs) (by omega))

/-- The next item starts a burst. -/
theorem start (h : Bursts burst gap readings answers starts) (hpos : 0 < burst)
    (hover : Over burst starts readings.length) {t : ℤ}
    (hlate : ∀ s ∈ starts, ∀ u, readings[s]? = some u → u + gap < t) :
    Bursts burst gap (readings ++ [t]) (answers ++ [true]) (starts ++ [readings.length]) where
  length_eq := by
    rw [List.length_append, List.length_append, h.length_eq]
    rfl
  start_lt s hs := by
    rw [List.length_append, List.length_singleton]
    rcases List.mem_append.mp hs with hs | hs
    · exact Nat.lt_succ_of_lt (h.start_lt s hs)
    · rw [List.mem_singleton.mp hs]
      exact Nat.lt_succ_self _
  passes_iff i hi := by
    rw [List.length_append, List.length_singleton] at hi
    simp only [List.mem_append, List.mem_singleton]
    rcases Nat.lt_succ_iff_lt_or_eq.mp hi with hlt | rfl
    · rw [List.getElem?_append_left (by rw [h.length_eq]; exact hlt), h.passes_iff i hlt]
      constructor
      · rintro ⟨s, hs, hin⟩
        exact ⟨s, .inl hs, hin⟩
      · rintro ⟨s, hs | rfl, hin⟩
        · exact ⟨s, hs, hin⟩
        · omega
    · rw [← h.length_eq, List.getElem?_concat_length, h.length_eq]
      exact iff_of_true rfl ⟨_, .inr rfl, Nat.le_refl _, by omega⟩
  apart := by
    rw [List.pairwise_append]
    refine ⟨h.apart_append t, List.pairwise_singleton _ _, fun s hs s' hs' => ?_⟩
    rw [List.mem_singleton.mp hs']
    refine ⟨hover s hs, fun u u' hu hu' => ?_⟩
    rw [List.getElem?_append_left (h.start_lt s hs)] at hu
    rw [List.getElem?_concat_length] at hu'
    cases hu'
    exact hlate s hs u hu

end Bursts
