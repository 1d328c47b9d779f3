import Mathlib.Data.List.Basic
import Mathlib.Data.Option.Basic

/-!
# Stores addressed through a key

A store has cells and is written with keys. `cell` says where a key goes, and it may send many keys
to one cell, so that an entry lasts until a key of the same cell is written. A write may also bring
no data, and then it changes nothing.

Nothing is said about how the cells are kept: `Stores` is all that is asked of a single write.

## Main results

* `Stores.run` — a cell shows the last data written for it
* `lastWrite_of_no_rival` — an entry lasts until another key of its cell is written
-/

namespace KeyedStore

variable {κ σ δ α β : Type*}

/-- The last data written with a key of this kind. -/
def lastWrite (p : κ → Prop) [DecidablePred p] (writes : List (κ × Option δ)) : Option δ :=
  (writes.filterMap fun w => if p w.1 then w.2 else none).getLast?

section LastWrite

variable {p q : κ → Prop} [DecidablePred p] [DecidablePred q]

theorem lastWrite_append (xs ys : List (κ × Option δ)) :
    lastWrite p (xs ++ ys) = (lastWrite p ys).or (lastWrite p xs) := by
  rw [lastWrite, List.filterMap_append, List.getLast?_append]
  rfl

theorem lastWrite_singleton (w : κ × Option δ) :
    lastWrite p [w] = if p w.1 then w.2 else none := by
  rw [lastWrite, List.filterMap_cons]
  split
  · next h => rw [h]; rfl
  · next x h => rw [h]; rfl

/-- Earlier writes matter only if there is no later one. -/
theorem lastWrite_cons (w : κ × Option δ) (writes : List (κ × Option δ)) :
    lastWrite p (w :: writes) = (lastWrite p writes).or (if p w.1 then w.2 else none) := by
  rw [← List.singleton_append, lastWrite_append, lastWrite_singleton]

theorem mem_of_lastWrite {writes : List (κ × Option δ)} {x : δ} (h : lastWrite p writes = some x) :
    ∃ w ∈ writes, p w.1 ∧ w.2 = some x := by
  obtain ⟨w, hw, heq⟩ := List.mem_filterMap.mp (List.mem_of_getLast? h)
  split at heq
  · next hp => exact ⟨w, hw, hp, heq⟩
  · cases heq

theorem exists_lastWrite {writes : List (κ × Option δ)} {w : κ × Option δ} (hw : w ∈ writes)
    (hp : p w.1) {x : δ} (hx : w.2 = some x) : ∃ y, lastWrite p writes = some y := by
  have hmem : x ∈ writes.filterMap fun w => if p w.1 then w.2 else none :=
    List.mem_filterMap.mpr ⟨w, hw, by rw [if_pos hp, hx]⟩
  exact Option.isSome_iff_exists.mp (List.getLast?_isSome.mpr (List.ne_nil_of_mem hmem))

theorem lastWrite_congr {writes : List (κ × Option δ)} (h : ∀ w ∈ writes, p w.1 ↔ q w.1) :
    lastWrite p writes = lastWrite q writes := by
  rw [lastWrite, lastWrite]
  congr 1
  refine List.filterMap_congr fun w hw => ?_
  by_cases hp : p w.1
  · rw [if_pos hp, if_pos ((h w hw).mp hp)]
  · rw [if_neg hp, if_neg (mt (h w hw).mpr hp)]

end LastWrite

/-- What a write does: it needs `inv` and data that are `ok`, the cell of its key shows the value of
the data, and the other cells show what they did. -/
structure Stores (cell : κ → σ) (value : δ → α) (view : β → σ → α) (inv : β → Prop)
    (ok : δ → Prop) (write : β → κ → Option δ → Option β) : Prop where
  /-- A write without data does nothing. -/
  skip : ∀ b k, write b k none = some b
  /-- A write with data is defined, and goes to its cell. -/
  store : ∀ b k x, inv b → ok x → ∃ b', write b k (some x) = some b' ∧ inv b' ∧
    view b' (cell k) = value x ∧ ∀ s, s ≠ cell k → view b' s = view b s

section Run

variable [DecidableEq σ] {cell : κ → σ} {value : δ → α} {view : β → σ → α} {inv : β → Prop}
  {ok : δ → Prop} {write : β → κ → Option δ → Option β}

/-- One write, on all cells at once. -/
theorem Stores.step (h : Stores cell value view inv ok write) {b : β} (hb : inv b)
    (w : κ × Option δ) (hw : ∀ x, w.2 = some x → ok x) :
    ∃ b', write b w.1 w.2 = some b' ∧ inv b' ∧ ∀ s,
      view b' s = ((if cell w.1 = s then w.2 else none).map value).getD (view b s) := by
  obtain ⟨k, _ | x⟩ := w
  · exact ⟨b, h.skip b k, hb, fun s => by rw [ite_self]; rfl⟩
  · obtain ⟨b', hwrite, hinv, hsame, hother⟩ := h.store b k x hb (hw x rfl)
    refine ⟨b', hwrite, hinv, fun s => ?_⟩
    by_cases hs : cell k = s
    · rw [if_pos hs, ← hs, hsame]
      rfl
    · rw [if_neg hs, hother s (Ne.symm hs)]
      rfl

/-- **A cell shows the last data written for it**, and what it showed at first if there are none. -/
theorem Stores.run (h : Stores cell value view inv ok write) {b : β} (hb : inv b)
    (writes : List (κ × Option δ)) (hok : ∀ w ∈ writes, ∀ x, w.2 = some x → ok x) :
    ∃ b', writes.foldlM (fun b w => write b w.1 w.2) b = some b' ∧ inv b' ∧ ∀ s,
      view b' s = ((lastWrite (fun k => cell k = s) writes).map value).getD (view b s) := by
  induction writes generalizing b with
  | nil => exact ⟨b, rfl, hb, fun _ => rfl⟩
  | cons w writes ih =>
    rw [List.forall_mem_cons] at hok
    obtain ⟨b₁, hwrite, hb₁, hview₁⟩ := h.step hb w hok.1
    obtain ⟨b', hrest, hb', hview⟩ := ih hb₁ hok.2
    refine ⟨b', ?_, hb', fun s => ?_⟩
    · rw [List.foldlM_cons, hwrite]
      exact hrest
    · rw [hview, hview₁, lastWrite_cons]
      cases lastWrite (fun k => cell k = s) writes with
      | none => rfl
      | some x => rfl

end Run

/-- **An entry lasts until another key of its cell is written.** If none is, the cell shows the last
data written with the key itself. -/
theorem lastWrite_of_no_rival [DecidableEq σ] [DecidableEq κ] (cell : κ → σ) {key : κ} {x : δ}
    (before : List (κ × Option δ)) {after : List (κ × Option δ)}
    (hrival : ∀ w ∈ after, w.1 ≠ key → cell w.1 ≠ cell key) :
    lastWrite (fun k => cell k = cell key) (before ++ (key, some x) :: after)
      = some ((lastWrite (fun k => k = key) after).getD x) := by
  have hcongr : lastWrite (fun k => cell k = cell key) after = lastWrite (fun k => k = key) after :=
    lastWrite_congr fun w hw =>
      ⟨fun h => by_contra fun hne => hrival w hw hne h, fun h => by rw [h]⟩
  rw [lastWrite_append, lastWrite_cons, if_pos rfl, hcongr]
  cases lastWrite (fun k => k = key) after with
  | none => rfl
  | some y => rfl

end KeyedStore
