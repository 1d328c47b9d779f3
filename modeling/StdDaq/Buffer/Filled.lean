import StdDaq.Buffer.Writer

/-!
# Finding the first file of a directory filled by writes

Any number of `FileHandler`s fill a root directory, each with its own open file, and their writes
come in any order. What the directory holds depends on the ids alone, and so does what
`get_first_matching_root_id` finds in it.

## Main results

* `layout_of_run` — the folders and files after any sequence of writes
* `lookup_exact` — the search finds the first block of a thousand ids in which an image was written
-/

namespace StdDaq

namespace Buffer

/-- The root directory, the `FileHandler`s that fill it, and the ids written so far. -/
structure Filling where
  handlers : ℕ → FileHandler := fun _ => {}
  disk : Disk := ∅
  ids : List ℕ := []

/-- What happens to the directory. -/
inductive FillingEvent where
  /-- A completed call of `FileHandler::write`. -/
  | write (handler imageId : ℕ) (data : List UInt8)
  /-- A stream hands over the next `n` bytes that it holds back. -/
  | writeOut (handler n : ℕ)
  /-- A new instance takes the place of an old one. -/
  | renew (handler : ℕ)
  deriving DecidableEq, Repr

/-- Ids are 64 bits wide. -/
def FillingEvent.Fits : FillingEvent → Prop
  | .write _ imageId _ => imageId < 2 ^ 64
  | _ => True

instance (e : FillingEvent) : Decidable e.Fits :=
  match e with
  | .write _ imageId _ => inferInstanceAs (Decidable (imageId < 2 ^ 64))
  | .writeOut _ _ => isTrue trivial
  | .renew _ => isTrue trivial

/-- One step. -/
def Filling.step (blosc : Blosc) (t : Filling) : FillingEvent → Filling
  | .write handler imageId data =>
    let result := (t.handlers handler).write blosc t.disk imageId data
    { handlers := Function.update t.handlers handler result.1
      disk := result.2.1
      ids := t.ids ++ [imageId] }
  | .writeOut handler n =>
    let result := (t.handlers handler).writeOut t.disk n
    { t with handlers := Function.update t.handlers handler result.1, disk := result.2 }
  | .renew handler => { t with handlers := Function.update t.handlers handler {} }

variable {blosc : Blosc}

/-- What ties the directory to the ids. -/
structure Filled (t : Filling) : Prop where
  within : ∀ k, (t.handlers k).Within {i | i ∈ t.ids}
  layout : Layout t.disk {i | i ∈ t.ids}
  fits : ∀ i ∈ t.ids, i < 2 ^ 64

theorem filled_start : Filled {} where
  within _ := FileHandler.within_start _
  layout := by
    have hnone : {i | i ∈ ({} : Filling).ids} = (∅ : Set ℕ) :=
      Set.eq_empty_of_forall_notMem fun _ => List.not_mem_nil
    rw [hnone]
    exact layout_empty
  fits _ hi := absurd hi List.not_mem_nil

/-- An instance in place of another. -/
theorem within_update {handlers : ℕ → FileHandler} {handler : FileHandler} {ids : Set ℕ}
    (h : ∀ k, (handlers k).Within ids) (hnew : handler.Within ids) (k j : ℕ) :
    (Function.update handlers k handler j).Within ids := by
  by_cases hj : j = k
  · subst hj
    rwa [Function.update_self]
  · rw [Function.update_of_ne hj]
    exact h j

theorem Filled.write {t : Filling} (h : Filled t) (k : ℕ) {imageId : ℕ} (hfits : imageId < 2 ^ 64)
    (data : List UInt8) : Filled (t.step blosc (.write k imageId data)) := by
  obtain ⟨hlayout, hwithin⟩ := h.layout.write blosc (h.within k) imageId data
  have hids : {i | i ∈ t.ids ++ [imageId]} = insert imageId {i | i ∈ t.ids} := by
    ext i
    simp [or_comm]
  refine ⟨fun j => ?_, ?_, fun i hi => ?_⟩
  · change FileHandler.Within _ {i | i ∈ t.ids ++ [imageId]}
    rw [hids]
    exact within_update (fun j => (h.within j).insert imageId) hwithin k j
  · change Layout _ {i | i ∈ t.ids ++ [imageId]}
    rw [hids]
    exact hlayout
  · rcases List.mem_append.mp hi with hi | hi
    · exact h.fits i hi
    · rw [List.mem_singleton.mp hi]
      exact hfits

theorem Filled.writeOut {t : Filling} (h : Filled t) (k n : ℕ) :
    Filled (t.step blosc (.writeOut k n)) :=
  ⟨within_update h.within ((h.within k).writeOut t.disk n) k,
    h.layout.writeOut (h.within k).file n, h.fits⟩

theorem Filled.renew {t : Filling} (h : Filled t) (k : ℕ) : Filled (t.step blosc (.renew k)) :=
  ⟨within_update h.within (FileHandler.within_start _) k, h.layout, h.fits⟩

/-- **The directory after any sequence of writes** has the folders and files of the ids that were
written. -/
theorem layout_of_run {es : List FillingEvent} {t : Filling}
    (hrun : Run (Restrict (fun _ e => e.Fits) (Steps.total (Filling.step blosc))) {} es t) :
    Filled t := by
  refine hrun.invariant (fun t e u h hstep => ?_) filled_start
  obtain ⟨hfits, rfl⟩ := hstep
  cases e with
  | write k imageId data => exact h.write k hfits data
  | writeOut k n => exact h.writeOut k n
  | renew k => exact h.renew k

/-- **The search is exact** on a directory that any sequence of writes has filled: it finds the
smallest block in which an image was written and that is not before the block of `x`, and nothing
when there is none. The names that were written are read back as the numbers they stand for. -/
theorem lookup_exact {es : List FillingEvent} {t : Filling}
    (hrun : Run (Restrict (fun _ e => e.Fits) (Steps.total (Filling.step blosc))) {} es t) :
    (∀ i ∈ t.ids, stoul (folderName i) = .ok (i / 1000000 * 1000000) ∧
      stoul (stem (fileName i)) = .ok (i / 1000 * 1000)) ∧
    ∀ x, ∃ r, FileHandler.getFirstMatchingRootId t.disk x = .ok r ∧
      IsFirstBlock {i | i ∈ t.ids} x r := by
  have h := layout_of_run hrun
  exact ⟨fun i hi => ⟨stoul_folderName (h.fits i hi), stoul_stem_fileName (h.fits i hi)⟩,
    getFirstMatchingRootId_spec h.layout h.fits⟩

/-- Two handlers; the blocks 0, 1000 and 3000000 get images. -/
def twoHandlers : List FillingEvent :=
  [.write 0 1500 [1], .write 1 3000000 [2], .write 0 7 [3], .writeOut 1 1, .renew 0,
    .write 0 1501 [4]]

theorem lookup_exact_twoHandlers :
    ∃ t, Run (Restrict (fun _ e => e.Fits) (Steps.total (Filling.step plainBlosc))) {}
        twoHandlers t ∧
      FileHandler.getFirstMatchingRootId t.disk 2000 = .ok (some 3000000) ∧
      ∃ r, FileHandler.getFirstMatchingRootId t.disk 2000 = .ok r ∧
        IsFirstBlock {i | i ∈ t.ids} 2000 r := by
  have hrun : Run (Restrict (fun _ e => e.Fits) (Steps.total (Filling.step plainBlosc))) {}
      twoHandlers (twoHandlers.foldl (Filling.step plainBlosc) {}) :=
    .cons_total (by decide) (.cons_total (by decide) (.cons_total (by decide)
      (.cons_total (by decide) (.cons_total (by decide) (.cons_total (by decide) .nil)))))
  exact ⟨_, hrun, by decide, (lookup_exact hrun).2 2000⟩

end Buffer

end StdDaq
