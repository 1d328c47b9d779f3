import Mathlib

/-!
# Streams that lose elements

What arrives over a channel that keeps the order but may lose elements is a subsequence of what was
sent, a `List.Sublist`. Moving the first element of one queue to the end of the next one changes
nothing about all that is under way.

## Main results

* `Subsequence.sublist_snoc` — the next element that comes out of several such channels
* `Subsequence.mem_of_nodup_length` — a source that has been heard of often enough
-/

namespace Subsequence

open List

variable {α β : Type*} {f : α → β} {l log left right : List α} {x : α}

/-- Before an element that occurs once comes what stands before it. -/
theorem sublist_of_snoc_sublist (hnew : x ∉ right) (h : l ++ [x] <+ left ++ x :: right)
    (hnew' : x ∉ left) : l <+ left := by
  obtain ⟨before, rest, heq, hbefore, hrest⟩ := sublist_append_iff.mp h
  have hlast : x ∈ rest := by
    have hmem : x ∈ before ++ rest := heq ▸ mem_append_right l mem_cons_self
    exact (mem_append.mp hmem).resolve_left fun h => hnew' (hbefore.subset h)
  obtain ⟨init, y, rfl⟩ := (eq_nil_or_concat rest).resolve_left (ne_nil_of_mem hlast)
  rw [concat_eq_append, ← append_assoc] at heq
  obtain ⟨rfl, hy⟩ := append_inj' heq rfl
  obtain rfl : x = y := (cons.inj hy).1
  -- nothing comes between: the element would stand behind itself
  rw [concat_eq_append] at hrest hlast
  cases init with
  | nil => rwa [append_nil]
  | cons z init =>
    rcases sublist_cons_iff.mp hrest with hright | ⟨tail, htail, hright⟩
    · exact absurd (hright.subset hlast) hnew
    · obtain rfl := (cons.inj htail).2
      exact absurd (hright.subset (mem_append_right init mem_cons_self)) hnew

/-- **The next element.** Several channels carry the elements of `log`, each one at most once and in
order. Everything in `l` has come out of this channel before `x`: then `x` comes after `l`. -/
theorem sublist_snoc {heard : List β} (hnodup : (log.map f).Nodup) (hl : l <+ log) (hx : x ∈ log)
    (hheard : heard ++ [f x] <+ log.map f) (hsub : ∀ y ∈ l, f y ∈ heard) : l ++ [x] <+ log := by
  obtain ⟨left, right, rfl⟩ := append_of_mem hx
  rw [map_append, map_cons] at hheard hnodup
  obtain ⟨-, hright, hdisjoint⟩ := nodup_append.mp hnodup
  have hbefore : heard <+ left.map f :=
    sublist_of_snoc_sublist (nodup_cons.mp hright).1 hheard
      fun hmem => hdisjoint _ hmem _ mem_cons_self rfl
  obtain ⟨first, second, rfl, hfirst, hsecond⟩ := sublist_append_iff.mp hl
  have hnone : second = [] := eq_nil_iff_forall_not_mem.mpr fun y hy => by
    have hleft := hbefore.subset (hsub y (mem_append_right first hy))
    refine hdisjoint _ hleft _ ?_ rfl
    rw [← map_cons]
    exact mem_map_of_mem (hsecond.subset hy)
  rw [hnone, append_nil]
  exact hfirst.append (cons_sublist_cons.mpr (nil_sublist right))

/-- As many different elements as there are: all of them. -/
theorem mem_of_nodup_length {all : List α} (hnodup : l.Nodup) (hsub : ∀ y ∈ l, y ∈ all)
    (hlen : all.length ≤ l.length) (hx : x ∈ all) : x ∈ l :=
  ((subperm_of_subset hnodup hsub).perm_of_length_le hlen).mem_iff.mpr hx

end Subsequence
