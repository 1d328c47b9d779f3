import StdDaq.Buffer.Interleaving
import StdDaq.Lib.Inevitable

/-!
# Replaying the image buffer

Where a buffer can be replayed from the first requested id to the last, a replay is right whatever
the two threads do when: every request is answered, and the answers are the stored images one after
the other.

## Main results

* `replay_returns_next_image` — every answer is right, and every request is answered
* `replay_stops_at_gap` — a replay that ends although there is another image
-/

namespace StdDaq

namespace Buffer

variable {x start : ℕ} {b : BufferTrace} {s s' : Replay} {blosc : Blosc} {nSlots endImageId : ℕ}

/-! ### Replays -/

theorem Right.step (hc : Consistent b) (hr : Replayable b.ids start endImageId)
    (h : Right b start endImageId s) {thread : Thread}
    (hstep : s.step blosc nSlots endImageId b.storage thread = some s') :
    Right b start endImageId s' ∧ Progress s s' := by
  cases thread with
  | requester => exact h.requesterStep hr hstep
  | loader => exact h.loaderStep hc hr hstep

/-- While a request is open, one of the threads can go on. -/
theorem Live.enabled (blosc : Blosc) (nSlots : ℕ) (hc : Consistent b)
    (hr : Replayable b.ids start endImageId) (h : Live b start endImageId s) {woken : Bool}
    (hrequester : s.requester = .waiting x woken) :
    ∃ thread s', s.step blosc nSlots endImageId b.storage thread = some s' := by
  cases h.phase with
  | idle y hidle => cases hidle.symm.trans hrequester
  | requested y woken' _ _ _ hloader _ =>
    refine ⟨.loader, ?_⟩
    rcases hloader with hloader | hloader <;>
      exact ⟨_, by simp only [Replay.step, Replay.loaderStep, hloader]; rfl⟩
  | fetching y woken' _ hy _ hloader _ himage _ hclean =>
    obtain ⟨fetched, hfetch, -⟩ := fetchNextMetadatas_spec hc hr hy hclean
    refine ⟨.loader, ?_⟩
    cases fetched <;>
      exact ⟨_, by simp only [Replay.step, Replay.loaderStep, hloader, himage, hfetch]; rfl⟩
  | noData y woken' _ _ hloader =>
    exact ⟨.loader, _, by simp only [Replay.step, Replay.loaderStep, hloader]; rfl⟩
  | exhausted y hwaiting =>
    exact ⟨.requester, _, by simp only [Replay.step, Replay.requesterStep, hwaiting]; rfl⟩
  | awaiting y woken' message rest _ _ _ hloader =>
    obtain ⟨image, fileHandler, slots, hpush, -⟩ := loaderStep_push blosc nSlots hc h hloader
    exact ⟨.loader, _, hpush⟩
  | served y hwaiting =>
    exact ⟨.requester, _, by simp only [Replay.step, Replay.requesterStep, hwaiting]; rfl⟩

/-- **Replays are right** where the stored ids can be replayed from the first to the last: whatever
was written in whatever order, and however the two threads are interleaved, every answer is the
metadata of the first image from the requested id on, or nothing if there is no such image; and
every request is answered. -/
theorem replay_returns_next_image {es : List BufferEvent}
    (hwrites : Run (Restrict (fun _ e => IdFits e) (Steps.guarded (BufferTrace.step blosc))) {}
      es b)
    (hr : Replayable b.ids start endImageId) {threads : List Thread}
    (hreplay : Run (Steps.guarded (Replay.step blosc nSlots endImageId b.storage))
      { requester := .idle start } threads s) :
    (∀ a ∈ s.answers, IsAnswer b a.1 a.2) ∧
      ∀ x woken, s.requester = .waiting x woken →
        Inevitable (Steps.guarded (Replay.step blosc nSlots endImageId b.storage))
          (fun u => ∃ r, u.answers = s.answers ++ [(x, r)]) s := by
  have hc := consistent_of_run hwrites
  have hright : Right b start endImageId s :=
    hreplay.invariant (fun _ _ _ h hstep => (h.step hc hr hstep).1) (right_start hr)
  refine ⟨hright.answers, fun x woken hrequester => ?_⟩
  refine Inevitable.of_rank Replay.rank
    (P := fun u =>
      Right b start endImageId u ∧ u.answers = s.answers ∧ ∃ w, u.requester = .waiting x w)
    (fun u thread u' hu hstep => ?_) (fun u hu => ?_) ⟨hright, rfl, woken, hrequester⟩
  · obtain ⟨hu, hanswers, w, hwaiting⟩ := hu
    obtain ⟨hu', hprogress⟩ := hu.step hc hr hstep
    rcases hprogress x w hwaiting with hanswer | ⟨hwaiting', hanswers', hrank⟩
    · exact .inl (hanswers ▸ hanswer)
    · exact .inr ⟨⟨hu', hanswers'.trans hanswers, hwaiting'⟩, hrank⟩
  · obtain ⟨hu, -, w, hwaiting⟩ := hu
    rcases hu.live with hfinished | hlive
    · cases hfinished.symm.trans hwaiting
    · exact hlive.enabled blosc nSlots hc hr hwaiting

/-- The announcement of an image of one pixel. -/
def onePixel (i : ℕ) : ImageMetadata := { imageId := i, height := 1, width := 1, dtype := .uint8 }

/-- A buffer of such images. -/
def onePixelBuffer (ids : List ℕ) : BufferTrace :=
  ids.foldl (fun t i => t.store plainBlosc (onePixel i) [7]) {}

theorem run_onePixelBuffer {l : List ℕ} (h : ∀ i ∈ l, i < 2 ^ 64) :
    Run (Restrict (fun _ e => IdFits e) (Steps.guarded (BufferTrace.step plainBlosc))) {}
      (l.map fun i => .image (onePixel i) [7]) (onePixelBuffer l) := by
  induction l using List.reverseRecOn with
  | nil => exact .nil
  | append_singleton l i ih =>
    rw [onePixelBuffer, List.foldl_append, List.map_append]
    exact (ih fun j hj => h j (List.mem_append_left _ hj)).snoc ⟨h i (by simp), rfl⟩

theorem mem_ids_onePixelBuffer {l : List ℕ} {i : ℕ} : i ∈ (onePixelBuffer l).ids ↔ i ∈ l := by
  induction l using List.reverseRecOn with
  | nil => simp [BufferTrace.ids, BufferTrace.lastWritten, onePixelBuffer]
  | append_singleton l j ih =>
    rw [onePixelBuffer, List.foldl_append, BufferTrace.ids, Set.mem_ofPred_eq]
    change (((onePixelBuffer l).store plainBlosc (onePixel j) [7]).lastWritten i).isSome ↔ _
    rw [lastWritten_store, List.mem_append, List.mem_singleton, ← ih]
    split
    next heq => simp [heq, onePixel]
    next hne => simp [show i ≠ j from hne, BufferTrace.ids]

/-- Images in two files, written out of order, and one behind the end of the replay. -/
def twoFilesBuffer : BufferTrace := onePixelBuffer [999, 1001, 1000, 7000]

/-- The turns of the two threads in which three images are returned. -/
def threeReturned : List Thread :=
  [.requester, .loader, .loader, .loader, .requester, .requester, .loader, .loader, .loader,
    .loader, .requester, .loader, .requester]

theorem replay_returns_next_image_two_files :
    ∃ s, Run (Steps.guarded (Replay.step plainBlosc 4 1001 twoFilesBuffer.storage))
        { requester := .idle 999 } threeReturned s ∧
      s.answers.map Prod.fst = [999, 1000, 1001] ∧
      ∀ a ∈ s.answers, IsAnswer twoFilesBuffer a.1 a.2 := by
  have hr : Replayable twoFilesBuffer.ids 999 1001 := by
    refine .of_small (.inr ?_) ?_ ?_ <;> simp only [twoFilesBuffer, mem_ids_onePixelBuffer]
    · simp
    · simp
    · simp
  have hanswers : ((exec (Replay.step plainBlosc 4 1001 twoFilesBuffer.storage)
      { requester := .idle 999 } threeReturned).map
      fun s => s.answers.map Prod.fst) = some [999, 1000, 1001] := by decide +kernel
  obtain ⟨s, hs, hids⟩ := Option.map_eq_some_iff.mp hanswers
  exact ⟨s, Run.of_exec hs, hids, (replay_returns_next_image
    (run_onePixelBuffer (by decide)) hr (Run.of_exec hs)).1⟩

/-- Two images with a gap after the first, which is not the last id of its file: the second request
loads the first file again, finds an image before it in front, and returns nothing. -/
theorem replay_stops_at_gap :
    ∃ s, Run (Restrict (fun _ e => IdFits e) (Steps.guarded (BufferTrace.step plainBlosc))) {}
        [.image (onePixel 0) [7], .image (onePixel 5000) [7]] (onePixelBuffer [0, 5000]) ∧
      Run (Steps.guarded (Replay.step plainBlosc 4 6000 (onePixelBuffer [0, 5000]).storage))
        { requester := .idle 0 }
        [.requester, .loader, .loader, .loader, .requester, .requester, .loader, .loader, .loader,
          .loader, .requester] s ∧
      (1, none) ∈ s.answers ∧ ¬ IsAnswer (onePixelBuffer [0, 5000]) 1 none := by
  have hanswers : ((exec (Replay.step plainBlosc 4 6000 (onePixelBuffer [0, 5000]).storage)
      { requester := .idle 0 }
      [.requester, .loader, .loader, .loader, .requester, .requester, .loader, .loader, .loader,
        .loader, .requester]).map
      fun s => decide ((1, none) ∈ s.answers)) = some true := by decide +kernel
  obtain ⟨s, hs, hmem⟩ := Option.map_eq_some_iff.mp hanswers
  refine ⟨s, run_onePixelBuffer (l := [0, 5000]) (by decide), Run.of_exec hs,
    of_decide_eq_true hmem, fun h => ?_⟩
  exact absurd (h 5000 (mem_ids_onePixelBuffer.mpr (by decide))) (by decide)

end Buffer

end StdDaq
