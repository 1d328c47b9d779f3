import StdDaq.ModuleSync.Synchronizer

/-!
# The count of corrupted images of the module synchronizer

`process_image_metadata` returns a number of corrupted images, and the service adds these up. A
duplicate drops an entry and counts one. For a new image, an entry is dropped when the cache is
longer than `n_images_buffer` before the new entry is made, but what is returned is whether it is
longer than that afterwards. When the cache has exactly `n_images_buffer` entries, nothing is
dropped and one is counted.

## Main results

* `corrupted_eq_dropped_iff` — the runs in which as many images are counted as entries were dropped
-/

namespace StdDaq

namespace ModuleSync

open Synchronizer SyncTrace

variable {F : Type} [FrameType F] {sync : Synchronizer}

/-- The call makes the cache one entry longer than `n_images_buffer`. -/
def Overfills (sync : Synchronizer) (t : SyncTrace F) : SyncEvent F → Prop
  | .process frame =>
    isNewImage t.cache (imageId frame) = true ∧ t.cache.size = sync.nImagesBuffer
  | .pop => False

instance (t : SyncTrace F) (e : SyncEvent F) : Decidable (Overfills sync t e) :=
  match e with
  | .process _ => inferInstanceAs (Decidable (_ ∧ _))
  | .pop => inferInstanceAs (Decidable False)

/-! ### The size of the cache -/

section Sizes

variable {cache : Cache F}

/-- A new image: an entry is dropped when the cache was too long, and one is counted when it is too
long now. -/
theorem processImageMetadata_new_size (sync : Synchronizer) {frame : F}
    (h : cache[imageId frame]? = none) :
    (sync.processImageMetadata cache frame).1.size =
        (if sync.nImagesBuffer < cache.size then cache.size else cache.size + 1) ∧
      (sync.processImageMetadata cache frame).2 =
        if sync.nImagesBuffer ≤ cache.size then 1 else 0 := by
  have hroom : imageId frame ∉ sync.makeRoom cache := by
    refine Std.TreeMap.not_mem_of_getElem?_eq_none ?_
    refine Option.eq_none_iff_forall_not_mem.mpr fun entry hentry => ?_
    rw [makeRoom_getElem? hentry] at h
    cases h
  have hsize : (sync.processImageMetadata cache frame).1.size =
      if sync.nImagesBuffer < cache.size then cache.size else cache.size + 1 := by
    rw [processImageMetadata, h]
    simp only [pushNewImageToQueue]
    rw [Std.TreeMap.size_insertIfNew, if_neg hroom, makeRoom, isQueueTooLong]
    by_cases hlong : sync.nImagesBuffer < cache.size
    · rw [if_pos (decide_eq_true hlong), if_pos hlong, Std.TreeMap.size_eraseFirst (by omega)]
      omega
    · rw [if_neg (mt of_decide_eq_true hlong), if_neg hlong]
  refine ⟨hsize, ?_⟩
  have hcount : (sync.processImageMetadata cache frame).2 =
      if sync.isQueueTooLong (sync.processImageMetadata cache frame).1 then 1 else 0 := by
    rw [processImageMetadata, h]
    rfl
  rw [hcount, isQueueTooLong, hsize]
  by_cases hlong : sync.nImagesBuffer ≤ cache.size
  · rw [if_pos hlong, if_pos]
    refine decide_eq_true ?_
    split <;> omega
  · rw [if_neg hlong, if_neg]
    refine mt of_decide_eq_true ?_
    rw [if_neg (by omega)]
    omega

/-- A frame of an image that has an entry: an entry is dropped when one is counted. -/
theorem processImageMetadata_old_size (sync : Synchronizer) {frame : F} {entry : ModulesMask × F}
    (h : cache[imageId frame]? = some entry) :
    cache.size = (sync.processImageMetadata cache frame).1.size +
      (sync.processImageMetadata cache frame).2 := by
  have hmem := Std.TreeMap.mem_of_getElem?_eq_some h
  have hcontains := Std.TreeMap.mem_iff_contains.mp hmem
  have hpos : 0 < cache.size := by
    rw [← Std.TreeMap.length_toList]
    exact List.length_pos_of_mem (Std.TreeMap.mem_toList_iff_getElem?_eq_some.mpr h)
  rw [processImageMetadata, h]
  simp only [updateModuleMaskForImage]
  split
  · rw [Std.TreeMap.size_insert, if_pos hcontains, Nat.add_zero]
  · rw [Std.TreeMap.size_erase, if_pos hcontains]
    omega

end Sizes

/-! ### Runs -/

/-- **One call** counts what it drops, and one more when it overfills the cache. -/
theorem corrupted_step (sync : Synchronizer) (t : SyncTrace F) (e : SyncEvent F) :
    (t.step sync e).corrupted + t.dropped =
      (t.step sync e).dropped + t.corrupted + if Overfills sync t e then 1 else 0 := by
  cases e with
  | pop =>
    rw [if_neg (show ¬ Overfills sync t .pop from id)]
    exact Nat.add_comm _ _
  | process frame =>
    have hover : Overfills sync t (.process frame) ↔
        isNewImage t.cache (imageId frame) = true ∧ t.cache.size = sync.nImagesBuffer := Iff.rfl
    rw [isNewImage] at hover
    rw [SyncTrace.step, isNewImage]
    cases hold : t.cache[imageId frame]? with
    | some entry =>
      have hsize := processImageMetadata_old_size sync hold
      rw [if_neg (mt hover.mp (by simp [hold]))]
      simp only [Option.isNone_some, Bool.false_eq_true, if_false]
      omega
    | none =>
      obtain ⟨hsize, hcount⟩ := processImageMetadata_new_size sync hold
      have hcond : Overfills sync t (.process frame) ↔ t.cache.size = sync.nImagesBuffer := by
        rw [hover, hold]
        exact and_iff_right rfl
      simp only [Option.isNone_none, if_true, hsize, hcount, hcond]
      split <;> split <;> split <;> omega

/-- Never fewer are counted than dropped. -/
theorem dropped_le_corrupted {es : List (SyncEvent F)} {t : SyncTrace F}
    (hrun : Run (Steps.total (SyncTrace.step sync)) start es t) : t.dropped ≤ t.corrupted := by
  refine hrun.invariant (P := fun t => t.dropped ≤ t.corrupted) (fun t e u h hstep => ?_) le_rfl
  obtain rfl : t.step sync e = u := hstep
  have := corrupted_step sync t e
  omega

/-- **The count of corrupted images is right** after a run exactly when no call of the run made the
cache longer than `n_images_buffer`. -/
theorem corrupted_eq_dropped_iff {es : List (SyncEvent F)} {t : SyncTrace F}
    (hrun : Run (Steps.total (SyncTrace.step sync)) start es t) :
    t.corrupted = t.dropped ↔
      Run (Restrict (fun t e => ¬ Overfills sync t e) (Steps.total (SyncTrace.step sync))) start es
        t := by
  refine holds_iff_restrict (Q := fun t : SyncTrace F => t.corrupted = t.dropped) hrun rfl
    fun es t e hrun => ?_
  have hle := dropped_le_corrupted hrun
  have hcount := corrupted_step sync t e
  by_cases hover : Overfills sync t e
  · rw [if_pos hover] at hcount
    exact iff_of_false (by omega) fun h => h.2 hover
  · rw [if_neg hover] at hcount
    rw [and_iff_left hover]
    omega

/-- Two modules and a queue of three images. -/
def threeImages : Synchronizer := .ofTwo 3 0#128

/-- A module arrives twice. -/
def duplicateRun : List (SyncEvent EGFrame) :=
  [.process { common := ⟨33, 0, 0⟩ }, .process { common := ⟨33, 0, 0⟩ }, .pop]

theorem corrupted_eq_dropped_duplicate :
    (duplicateRun.foldl (SyncTrace.step threeImages) start).corrupted =
        (duplicateRun.foldl (SyncTrace.step threeImages) start).dropped ∧
      (duplicateRun.foldl (SyncTrace.step threeImages) start).dropped = 1 :=
  ⟨(corrupted_eq_dropped_iff (run_total_iff.mpr rfl)).mpr
    (.cons_total (by decide) (.cons_total (by decide) (.cons_total (by decide) .nil))), by decide⟩

/-- Three images fill the queue, and a fourth arrives. -/
def fullQueueRun : List (SyncEvent EGFrame) :=
  [0, 1, 2, 42].map fun id => .process { common := ⟨id, 0, 0⟩ }

/-- The fourth image drops nothing and counts one. -/
theorem corrupted_ne_dropped :
    ¬ ∀ (sync : Synchronizer) (es : List (SyncEvent EGFrame)) (t : SyncTrace EGFrame),
      Run (Steps.total (SyncTrace.step sync)) start es t → t.corrupted = t.dropped := by
  intro h
  exact absurd (h threeImages fullQueueRun _ (run_total_iff.mpr rfl)) (by decide)

end ModuleSync

end StdDaq
