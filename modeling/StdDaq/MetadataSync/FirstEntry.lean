import StdDaq.MetadataSync

/-!
# The first entry of the metadata cache

`add_received_image` looks at `begin()` of `metadata_cache` without asking whether there is anything
in the cache. What the cache holds depends on the order of the calls so far: images may come before
any metadata, and the sending thread may have emptied it.

The sending thread takes metadata out only when the image has been received. So metadata whose image
has not been received is still in the cache, unless `add_metadata` had to drop it. It is enough that
there is one when an image is received, for instance the metadata of this image.

## Main results

* `reads_first` — calls in an order in which `add_received_image` always finds a first entry
-/

namespace StdDaq

namespace MetadataSync

open Synchronizer SyncTrace

variable {sync : Synchronizer} {t u : SyncTrace}

/-- The order of the calls: the cache is never taken beyond `n_images_buffer`, and when an image is
received, there is metadata that has been added and whose image has not been received before. -/
def MetadataFirst (sync : Synchronizer) (_before : List SyncCall) (t : SyncTrace) :
    SyncCall → Prop
  | .addMetadata metadata => Fits sync t (.addMetadata metadata)
  | .addReceivedImage _ => ∃ m ∈ t.added, m.imageId ∉ t.received
  | .getNextReceivedImage => True

theorem MetadataFirst.fits {before : List SyncCall} {call : SyncCall}
    (h : MetadataFirst sync before t call) : Fits sync t call := by
  cases call with
  | addMetadata m => exact h
  | addReceivedImage id => trivial
  | getNextReceivedImage => trivial

/-- Metadata whose image has not been received is in the cache. -/
structure Awaited (t : SyncTrace) : Prop where
  cached : ∀ m ∈ t.added, m.imageId ∉ t.received → ∃ m', t.state.metadataCache[m.imageId]? = some m'
  received : ∀ id ∈ t.state.receivedImages, id ∈ t.received

theorem awaited_start : Awaited start where
  cached := by simp [start]
  received := by simp [start]

theorem Awaited.addMetadata (h : Awaited t) {m : ImageMetadata}
    (hstep : FittingStep sync t (.addMetadata m) u) : Awaited u := by
  obtain rfl := step_addMetadata hstep
  refine ⟨fun m' hm' hnot => ?_, h.received⟩
  show ∃ m'', (t.state.metadataCache.insert m.imageId m)[m'.imageId]? = some m''
  rw [Std.TreeMap.getElem?_insert_nat]
  by_cases hid : m'.imageId = m.imageId
  · exact ⟨m, if_pos hid⟩
  · rw [if_neg hid]
    rcases List.mem_append.mp hm' with hold | hlast
    · exact h.cached m' hold hnot
    · exact absurd (congrArg ImageMetadata.imageId (List.mem_singleton.mp hlast)) hid

theorem Awaited.addReceivedImage (h : Awaited t) {id : ℕ}
    (hstep : FittingStep sync t (.addReceivedImage id) u) : Awaited u := by
  obtain ⟨first, data, -, rfl⟩ := step_addReceivedImage hstep
  refine ⟨fun m hm hnot => ?_, fun id' hid' => ?_⟩
  · exact h.cached m hm fun hmem => hnot (List.mem_append_left _ hmem)
  · rcases Finset.mem_insert.mp (Finset.mem_filter.mp hid').1 with rfl | hold
    · exact List.mem_append_right _ (List.mem_singleton.mpr rfl)
    · exact List.mem_append_left _ (h.received id' hold)

/-- The sending thread takes out only the metadata of a received image. -/
theorem Awaited.next (h : Awaited t) : Awaited t.next := by
  rw [SyncTrace.next, getNextReceivedImage]
  cases hfirst : t.state.metadataCache.first? with
  | none => exact ⟨h.cached, h.received⟩
  | some e =>
    obtain ⟨first, data⟩ := e
    simp only
    split
    · next hmin =>
      have hreceived : first ∈ t.received := h.received first (Finset.mem_of_min hmin)
      refine ⟨fun m hm hnot => ?_, fun id hid => h.received id (Finset.mem_of_mem_erase hid)⟩
      have hne : m.imageId ≠ first := fun heq => hnot (heq ▸ hreceived)
      simp only [Std.TreeMap.eraseFirst, hfirst]
      rw [Std.TreeMap.getElem?_erase_nat, if_neg hne]
      exact h.cached m hm hnot
    · exact ⟨h.cached, h.received⟩

theorem Awaited.step (h : Awaited t) {call : SyncCall} (hstep : FittingStep sync t call u) :
    Awaited u := by
  cases call with
  | addMetadata m => exact h.addMetadata hstep
  | addReceivedImage id => exact h.addReceivedImage hstep
  | getNextReceivedImage =>
    obtain rfl := step_getNextReceivedImage.mp hstep
    exact h.next

/-- A call in this order finds the first entry if it looks at it. -/
theorem Awaited.exists_step (h : Awaited t) {before : List SyncCall} {call : SyncCall}
    (hfirst : MetadataFirst sync before t call) : ∃ u, SyncTrace.step sync t call = some u := by
  cases call with
  | addMetadata m => exact ⟨_, rfl⟩
  | getNextReceivedImage => exact ⟨_, rfl⟩
  | addReceivedImage id =>
    obtain ⟨m, hm, hnot⟩ := hfirst
    obtain ⟨m', hget⟩ := h.cached m hm hnot
    cases hhead : t.state.metadataCache.first? with
    | none =>
      rw [Std.TreeMap.first?_eq_none_iff.mp hhead] at hget
      cases hget
    | some e => exact ⟨_, by rw [SyncTrace.step, Synchronizer.addReceivedImage, hhead]; rfl⟩

/-- **Calls in this order never look at the first entry of an empty cache.** A list of calls, each
of which meets the condition in the state that the calls before it lead to, runs through. -/
theorem reads_first (sync : Synchronizer) {calls : List SyncCall}
    (horder : Throughout (MetadataFirst sync) (Steps.guarded (SyncTrace.step sync)) start calls) :
    ∃ t, Run (Steps.guarded (SyncTrace.step sync)) start calls t := by
  obtain ⟨t, hrun, -⟩ := horder.exists_run awaited_start
    (fun _ _ _ h hfirst => h.exists_step hfirst)
    (fun _ _ _ _ h hfirst hstep => h.step ⟨hfirst.fits, hstep⟩)
  exact ⟨t, hrun⟩

/-- Image 2 arrives before its metadata, while image 1 is awaited. -/
def earlyImageCalls : List SyncCall :=
  [.addMetadata { imageId := 1 }, .addReceivedImage 2, .addReceivedImage 1, .getNextReceivedImage,
    .addMetadata { imageId := 2 }, .getNextReceivedImage]

theorem reads_first_earlyImage :
    ∃ t, Run (Steps.guarded (SyncTrace.step serviceSynchronizer)) start earlyImageCalls t ∧
      t.returned.map ImageMetadata.imageId = [1, 2] := by
  have horder : Throughout (MetadataFirst serviceSynchronizer)
      (Steps.guarded (SyncTrace.step serviceSynchronizer)) start earlyImageCalls :=
    (((((throughout_nil.snoc_exec rfl (by rw [MetadataFirst]; decide)).snoc_exec rfl
      (by rw [MetadataFirst]; decide)).snoc_exec rfl (by rw [MetadataFirst]; decide)).snoc_exec rfl
      trivial).snoc_exec rfl (by rw [MetadataFirst]; decide)).snoc_exec rfl trivial
  obtain ⟨t, hrun⟩ := reads_first serviceSynchronizer horder
  obtain rfl : _ = t := Option.some.inj (rfl.symm.trans hrun.exec_eq)
  exact ⟨_, hrun, by decide⟩

/-- The first call to a new synchronizer finds no entry, nor does a call after the only image has
been returned. -/
theorem reads_first_of_empty :
    (¬ ∀ (sync : Synchronizer) (calls : List SyncCall) (t : SyncTrace) (id : ℕ),
      Run (Steps.guarded (SyncTrace.step sync)) start calls t →
        (addReceivedImage t.state id).isSome) ∧
    ∃ t, Run (Steps.guarded (SyncTrace.step serviceSynchronizer)) start
      [.addMetadata { imageId := 1 }, .addReceivedImage 1, .getNextReceivedImage] t ∧
      addReceivedImage t.state 2 = none := by
  refine ⟨fun h => ?_, _, Run.of_exec rfl, by decide⟩
  exact Bool.noConfusion (h serviceSynchronizer [] start 7 .nil)

end MetadataSync

end StdDaq
