import Mathlib.Data.Set.Insert
import Mathlib.Data.List.Basic

/-!
# Scattered stores

A loop that fills a buffer cell by cell, in an order of its own. A store through a span is
defined only inside the span: `storeAt` has no value elsewhere.

`Overlays f s out out'` says what a sequence of stores did to a buffer: the cells in `s` hold the
values of `f`, the others what they held before. The picture `f` is given in advance, so that
overlays of one picture compose in any order: `Overlays.trans`.

A `memcpy` stores a range of cells at once. It is a `Copy`, defined only if both ranges lie inside
of their arrays, and what a list of copies does is an overlay again: `Copy.runAll_overlays`.
-/

variable {α : Type*}

/-- The store `out[j] = v`, when `j` is an index of the buffer. -/
def storeAt (out : List α) (j : ℤ) (v : α) : Option (List α) :=
  if 0 ≤ j ∧ j < out.length then some (out.set j.toNat v) else none

theorem isSome_storeAt_iff {out : List α} {k : ℕ} {v : α} :
    (storeAt out k v).isSome ↔ k < out.length := by
  rw [storeAt]
  split
  · next h => exact iff_of_true rfl (Int.ofNat_lt.mp h.2)
  · next h => exact iff_of_false (by simp) fun hk => h ⟨Int.natCast_nonneg k, Int.ofNat_lt.mpr hk⟩

theorem length_storeAt {out out' : List α} {j : ℤ} {v : α} (h : storeAt out j v = some out') :
    out'.length = out.length := by
  rw [storeAt] at h
  split at h
  · cases h
    exact List.length_set
  · cases h

/-- A counting loop, taken apart at its last turn. -/
theorem foldlM_range_succ {β : Type*} (body : β → ℕ → Option β) (init : β) (n : ℕ) :
    (List.range (n + 1)).foldlM body init =
      ((List.range n).foldlM body init).bind fun state => body state n := by
  rw [List.range_succ, List.foldlM_append]
  simp only [List.foldlM_cons, List.foldlM_nil, bind_pure, Option.bind_eq_bind]

/-- Two loops whose turns do the same. -/
theorem foldlM_congr {β ι : Type*} {f g : β → ι → Option β} {l : List ι}
    (h : ∀ i ∈ l, ∀ b, f b i = g b i) (init : β) : l.foldlM f init = l.foldlM g init := by
  induction l generalizing init with
  | nil => rfl
  | cons i l ih =>
    rw [List.foldlM_cons, List.foldlM_cons, h i List.mem_cons_self]
    congr 1
    funext b
    exact ih (fun i hi => h i (List.mem_cons_of_mem _ hi)) b

/-- A loop over a buffer whose turns leave the length alone, and need nothing but the length: it has
a value if every turn has. -/
theorem isSome_foldlM_iff {ι : Type*} (step : List α → ι → Option (List α)) (ok : ℕ → ι → Prop)
    (hok : ∀ out i, (step out i).isSome ↔ ok out.length i)
    (hlength : ∀ out i out', step out i = some out' → out'.length = out.length) {l : List ι}
    {out : List α} : (l.foldlM step out).isSome ↔ ∀ i ∈ l, ok out.length i := by
  induction l generalizing out with
  | nil => simp
  | cons i l ih =>
    rw [List.foldlM_cons, List.forall_mem_cons, ← hok out i]
    cases hstep : step out i with
    | none => simp
    | some out' =>
      rw [← hlength out i out' hstep, ← ih]
      simp

/-- `out'` is `out` with the cells in `s` replaced by the values of `f`. -/
structure Overlays (f : ℕ → α) (s : Set ℕ) (out out' : List α) : Prop where
  length_eq : out'.length = out.length
  inside : ∀ k ∈ s, out'[k]? = some (f k)
  outside : ∀ k ∉ s, out'[k]? = out[k]?

namespace Overlays

variable {f : ℕ → α} {s t : Set ℕ} {a b c picture : List α}

theorem refl (f : ℕ → α) (a : List α) : Overlays f ∅ a a :=
  ⟨rfl, fun _ hk => absurd hk (Set.notMem_empty _), fun _ _ => rfl⟩

theorem trans (hab : Overlays f s a b) (hbc : Overlays f t b c) : Overlays f (s ∪ t) a c where
  length_eq := hbc.length_eq.trans hab.length_eq
  inside k hk := by
    by_cases hkt : k ∈ t
    · exact hbc.inside k hkt
    · rw [hbc.outside k hkt]
      exact hab.inside k (hk.resolve_right hkt)
  outside k hk := by
    rw [Set.mem_union, not_or] at hk
    rw [hbc.outside k hk.2, hab.outside k hk.1]

theorem congr (h : Overlays f s a b) (hst : ∀ k, k ∈ s ↔ k ∈ t) : Overlays f t a b :=
  Set.ext hst ▸ h

/-- A store at an index of the buffer. -/
theorem store {k : ℕ} (hk : k < a.length) :
    ∃ b, storeAt a k (f k) = some b ∧ Overlays f {k} a b := by
  refine ⟨a.set k (f k), ?_, List.length_set, fun k' hk' => ?_, fun k' hk' => ?_⟩
  · rw [storeAt, if_pos ⟨Int.natCast_nonneg k, Int.ofNat_lt.mpr hk⟩, Int.toNat_natCast]
  · rw [Set.mem_singleton_iff.mp hk', List.getElem?_set_self hk]
  · exact List.getElem?_set_ne fun h => hk' (Set.mem_singleton_iff.mpr h.symm)

/-- An overlay has one outcome. -/
theorem eq (hb : Overlays f s a b) (hc : Overlays f s a c) : b = c := by
  refine List.ext_getElem? fun k => ?_
  by_cases hk : k ∈ s
  · rw [hb.inside k hk, hc.inside k hk]
  · rw [hb.outside k hk, hc.outside k hk]

/-- A buffer that is covered completely is the picture. -/
theorem eq_of_covered (h : Overlays f s a b) (hlen : picture.length = a.length)
    (hpicture : ∀ k, (hk : k < picture.length) → f k = picture[k])
    (hcover : ∀ k < a.length, k ∈ s) :
    b = picture := by
  refine List.ext_getElem? fun k => ?_
  rcases Nat.lt_or_ge k a.length with hk | hk
  · rw [h.inside k (hcover k hk), hpicture k (hlen ▸ hk), List.getElem?_eq_getElem]
  · rw [List.getElem?_eq_none (h.length_eq ▸ hk), List.getElem?_eq_none (hlen ▸ hk)]

end Overlays

/-- A `memcpy` between two arrays: `len` cells from `src` on go to `dst` and the cells behind. -/
structure Copy where
  src : ℕ
  dst : ℕ
  len : ℕ
  deriving DecidableEq, Repr

namespace Copy

variable {f : ℕ → α} {input output : List α} {c : Copy}

/-- The cells that are written. -/
def cells (c : Copy) : Set ℕ := {k | c.dst ≤ k ∧ k < c.dst + c.len}

/-- The outcome, when both ranges lie inside of their arrays. -/
def run (input : List α) (output : List α) (c : Copy) : Option (List α) :=
  if c.src + c.len ≤ input.length ∧ c.dst + c.len ≤ output.length then
    some (output.take c.dst ++ ((input.drop c.src).take c.len ++ output.drop (c.dst + c.len)))
  else none

/-- A list of copies from one array, one after the other. -/
def runAll (input : List α) (copies : List Copy) (output : List α) : Option (List α) :=
  copies.foldlM (run input) output

/-- The picture has the copied cells at the places where they go. -/
def Shows (f : ℕ → α) (input : List α) (c : Copy) : Prop :=
  ∀ i < c.len, input[c.src + i]? = some (f (c.dst + i))

theorem run_overlays (hsrc : c.src + c.len ≤ input.length) (hdst : c.dst + c.len ≤ output.length)
    (hf : c.Shows f input) :
    ∃ out, c.run input output = some out ∧ Overlays f c.cells output out := by
  refine ⟨_, if_pos ⟨hsrc, hdst⟩, ?_, fun k hk => ?_, fun k hk => ?_⟩
  · simp only [List.length_append, List.length_take, List.length_drop]
    omega
  · obtain ⟨i, rfl⟩ := Nat.exists_eq_add_of_le hk.1
    have hi : i < c.len := Nat.lt_of_add_lt_add_left hk.2
    have htake : (output.take c.dst).length = c.dst := by
      rw [List.length_take]
      omega
    rw [List.getElem?_append_right (by omega), htake, Nat.add_sub_cancel_left,
      List.getElem?_append_left (by simp only [List.length_take, List.length_drop]; omega),
      List.getElem?_take_of_lt hi, List.getElem?_drop, hf i hi]
  · have htake : (output.take c.dst).length = c.dst := by
      rw [List.length_take]
      omega
    rcases Nat.lt_or_ge k c.dst with hlt | hge
    · rw [List.getElem?_append_left (by omega), List.getElem?_take_of_lt hlt]
    · have hge' : c.dst + c.len ≤ k := Nat.le_of_not_lt fun h => hk ⟨hge, h⟩
      have hmid : ((input.drop c.src).take c.len).length = c.len := by
        simp only [List.length_take, List.length_drop]
        omega
      rw [List.getElem?_append_right (by omega), List.getElem?_append_right (by omega), htake, hmid,
        List.getElem?_drop]
      exact congrArg _ (by omega)

/-- The cells of a copy, without a picture. -/
theorem run_cells [Inhabited α] (c : Copy) (hsrc : c.src + c.len ≤ input.length)
    (hdst : c.dst + c.len ≤ output.length) :
    ∃ out, c.run input output = some out ∧
      (∀ i < c.len, out[c.dst + i]? = input[c.src + i]?) ∧ ∀ k ∉ c.cells, out[k]? = output[k]? := by
  have hshows : c.Shows (fun k => (input[c.src + (k - c.dst)]?).getD default) input := by
    intro i hi
    simp only [Nat.add_sub_cancel_left]
    rw [List.getElem?_eq_getElem (by omega), Option.getD_some]
  obtain ⟨out, hrun, hover⟩ := run_overlays hsrc hdst hshows
  refine ⟨out, hrun, fun i hi => ?_, hover.outside⟩
  rw [hover.inside _ ⟨Nat.le_add_right _ _, Nat.add_lt_add_left hi _⟩, hshows i hi]

theorem isSome_run_iff : (c.run input output).isSome ↔
    c.src + c.len ≤ input.length ∧ c.dst + c.len ≤ output.length := by
  rw [run]
  split
  · next h => simp [h]
  · next h => simp [h]

theorem length_run {out : List α} (h : c.run input output = some out) :
    out.length = output.length := by
  rw [run] at h
  split at h
  · next hfits =>
    cases h
    simp only [List.length_append, List.length_take, List.length_drop]
    omega
  · cases h

/-- A list of copies is defined if each of them lies inside of the arrays. -/
theorem isSome_runAll_iff {copies : List Copy} : (runAll input copies output).isSome ↔
    ∀ c ∈ copies, c.src + c.len ≤ input.length ∧ c.dst + c.len ≤ output.length :=
  isSome_foldlM_iff (run input)
    (fun n c => c.src + c.len ≤ input.length ∧ c.dst + c.len ≤ n) (fun _ _ => isSome_run_iff)
    fun _ _ _ => length_run

theorem runAll_overlays {copies : List Copy}
    (hsrc : ∀ c ∈ copies, c.src + c.len ≤ input.length)
    (hdst : ∀ c ∈ copies, c.dst + c.len ≤ output.length) (hf : ∀ c ∈ copies, c.Shows f input) :
    ∃ out, runAll input copies output = some out ∧
      Overlays f {k | ∃ c ∈ copies, k ∈ c.cells} output out := by
  induction copies generalizing output with
  | nil =>
    refine ⟨output, rfl, (Overlays.refl f output).congr fun k => ?_⟩
    simp
  | cons c copies ih =>
    simp only [List.forall_mem_cons] at hsrc hdst hf
    obtain ⟨out₁, hrun, hover₁⟩ := run_overlays hsrc.1 hdst.1 hf.1
    obtain ⟨out, hrest, hover⟩ := ih hsrc.2 (by rw [hover₁.length_eq]; exact hdst.2) hf.2
    refine ⟨out, ?_, (hover₁.trans hover).congr fun k => ?_⟩
    · rw [runAll, List.foldlM_cons, hrun]
      exact hrest
    · simp

end Copy
