import StdDaq.ModuleSync.Synchronizer

/-!
# The status of a published image

`send_synchronized_images` publishes what `pop_next_full_image` returns. The status of the message
is taken from the one frame stored with the entry, and that is the frame that created it; the
frames that arrive later contribute their slot and nothing else. So an image is announced as good
when the first of its frames was complete, whatever the others miss.

The status is right in every run in which a frame with missing packets, if there is one, comes
first. Then it depends on the frames of the image and not on their order.
-/

namespace StdDaq

namespace ModuleSync

open SyncTrace Synchronizer

variable {F : Type} [FrameType F] {sync : Synchronizer}

/-- The fields `send_synchronized_images` sets once, before its loop. -/
def imageHeader (config : DetectorConfig) : Except String ImageMetadata := do
  let dtype ← getMetadataDtype config
  let size ← convertedImageNBytes config
  return { dtype := dtype, height := toSizeT config.imagePixelHeight,
           width := toSizeT config.imagePixelWidth, size := size, compression := .none }

/-- The body of the loop of `send_synchronized_images`: the message for a returned frame. -/
def publish (header : ImageMetadata) (frame : F) : ImageMetadata :=
  { header with
    imageId := imageId frame
    status := if nMissingPackets frame = 0 then .goodImage else .missingPackets
    detector := fillDetectorSpecificData frame }

/-- Every configured module's frame arrived with all its packets. -/
def AllComplete (sync : Synchronizer) (frames : List F) : Prop :=
  ∀ frame ∈ frames, sync.newImageMask.test (sync.slot frame) = true → nMissingPackets frame = 0

instance (frames : List F) : Decidable (AllComplete sync frames) :=
  inferInstanceAs (Decidable (∀ frame ∈ frames,
    sync.newImageMask.test (sync.slot frame) = true → nMissingPackets frame = 0))

/-- What a message should say about the frames of its image: good when all of them are complete,
missing packets otherwise. -/
structure StatusCorrect (sync : Synchronizer) (message : ImageMetadata) (frames : List F) :
    Prop where
  good : message.status = .goodImage ↔ AllComplete sync frames
  missing : message.status = .missingPackets ↔ ¬ AllComplete sync frames

/-- The condition on one operation: a frame that joins an entry misses packets only if the frame
that created the entry does, and a frame that creates an entry is configured or complete. -/
def IncompleteFirst (sync : Synchronizer) (t : SyncTrace F) : SyncEvent F → Prop
  | .process frame =>
    match t.cache[imageId frame]? with
    | none => sync.newImageMask.test (sync.slot frame) = true ∨ nMissingPackets frame = 0
    | some (mask, first) => mask.test (sync.slot frame) = true →
        nMissingPackets frame = 0 ∨ nMissingPackets first ≠ 0
  | .pop => True

/-- The stored frame speaks for all frames of its entry. -/
def Representative (sync : Synchronizer) (t : SyncTrace F) : Prop :=
  ∀ id entry, t.cache[id]? = some entry →
    (nMissingPackets entry.2 = 0 ↔ AllComplete sync (t.entryFrames id))

theorem allComplete_append {frames : List F} {frame : F} :
    AllComplete sync (frames ++ [frame]) ↔ AllComplete sync frames ∧
      (sync.newImageMask.test (sync.slot frame) = true → nMissingPackets frame = 0) := by
  simp only [AllComplete, List.mem_append, List.mem_singleton, or_imp, forall_and, forall_eq]

theorem allComplete_perm {frames frames' : List F} (h : frames.Perm frames') :
    AllComplete sync frames ↔ AllComplete sync frames' := by
  simp only [AllComplete, h.mem_iff]

theorem Representative.process {t : SyncTrace F} (h : Representative sync t)
    (hok : EntriesOk sync t) {frame : F} (hfirst : IncompleteFirst sync t (.process frame)) :
    Representative sync (t.step sync (.process frame)) := by
  intro id entry hget
  change (sync.processImageMetadata t.cache frame).1[id]? = some entry at hget
  change _ ↔ AllComplete sync (recordFrame _ t.entryFrames frame id)
  rw [recordFrame, hget, Option.isNone_some, if_neg Bool.false_ne_true]
  rw [IncompleteFirst] at hfirst
  cases hold : t.cache[imageId frame]? with
  | none =>
    rw [processImageMetadata_new hold] at hget
    rw [hold] at hfirst
    by_cases hid : id = imageId frame
    · subst hid
      rw [if_pos rfl] at hget ⊢
      obtain rfl := Option.some.inj hget
      have hnil : AllComplete sync ([] : List F) := fun f hf => absurd hf List.not_mem_nil
      rw [hok.absent _ hold, allComplete_append, and_iff_right hnil]
      exact ⟨fun h0 _ => h0, fun himp => hfirst.elim himp id⟩
    · rw [if_neg hid] at hget ⊢
      exact h id entry (makeRoom_getElem? hget)
  | some old =>
    obtain ⟨mask, first⟩ := old
    rw [hold] at hfirst
    cases hbit : mask.test (sync.slot frame) with
    | true =>
      rw [processImageMetadata_update hold hbit] at hget
      by_cases hid : id = imageId frame
      · subst hid
        rw [if_pos rfl] at hget ⊢
        obtain rfl := Option.some.inj hget
        have hconf := (((hok.entries _ _ hold).mask _).mp hbit).1
        have hrep := h _ _ hold
        rw [allComplete_append, ← hrep]
        have := hfirst hbit
        exact ⟨fun h0 => ⟨h0, fun _ => this.resolve_right fun hne => hne h0⟩, fun h0 => h0.1⟩
      · rw [if_neg hid] at hget ⊢
        exact h id entry hget
    | false =>
      rw [processImageMetadata_drop hold hbit] at hget
      by_cases hid : id = imageId frame
      · rw [if_pos hid] at hget; cases hget
      · rw [if_neg hid] at hget ⊢
        exact h id entry hget

theorem Representative.pop {t : SyncTrace F} (h : Representative sync t) :
    Representative sync (t.step sync .pop) := by
  intro id entry hget
  change (popNextFullImage t.cache).1[id]? = some entry at hget
  change _ ↔ AllComplete sync (if _ then [] else t.entryFrames id)
  rw [hget, Option.isNone_some, if_neg Bool.false_ne_true]
  cases hpop : (popNextFullImage t.cache).2 with
  | none =>
    rw [(popNextFullImage_none hpop).1] at hget
    exact h id entry hget
  | some frame =>
    obtain ⟨first, -, -, hrest⟩ := popNextFullImage_some hpop
    rw [hrest] at hget
    split at hget
    · cases hget
    · exact h id entry hget

/-- The operations of a run in which incomplete frames come first. -/
def RepresentativeStep (sync : Synchronizer) : SyncTrace F → SyncEvent F → SyncTrace F → Prop :=
  Restrict (IncompleteFirst sync) (Steps.total (SyncTrace.step sync))

theorem representative_of_run {es : List (SyncEvent F)} {t : SyncTrace F}
    (hrun : Run (RepresentativeStep sync) start es t) :
    EntriesOk sync t ∧ Representative sync t := by
  refine hrun.invariant (P := fun t => EntriesOk sync t ∧ Representative sync t) ?_
    ⟨entriesOk_start, fun id entry h => by simp [start] at h⟩
  rintro t e u ⟨hok, hrep⟩ ⟨hfirst, hstep⟩
  obtain rfl : t.step sync e = u := hstep
  refine ⟨hok.step e, ?_⟩
  cases e with
  | process frame => exact hrep.process hok hfirst
  | pop => exact hrep.pop

/-- What is returned has an entry whose frames come from every configured slot. -/
theorem entry_of_popped {t : SyncTrace F} (hok : EntriesOk sync t) {frame : F}
    (hpop : (popNextFullImage t.cache).2 = some frame) :
    t.cache[imageId frame]? = some (0#128, frame) ∧
      ∀ j, sync.newImageMask.test j = true →
        ∃ f ∈ t.entryFrames (imageId frame), sync.slot f = j ∧ imageId f = imageId frame := by
  obtain ⟨hentry, hget, -, -⟩ := hok.popped hpop
  refine ⟨hget, fun j hj => ?_⟩
  obtain ⟨f, hf, hslot⟩ := hentry.complete hj
  exact ⟨f, hf, hslot, hentry.image f hf⟩

theorem statusCorrect_publish {frames : List F} {frame : F} (header : ImageMetadata)
    (h : nMissingPackets frame = 0 ↔ AllComplete sync frames) :
    StatusCorrect sync (publish header frame) frames := by
  by_cases h0 : nMissingPackets frame = 0
  · exact ⟨by simp [publish, h0, h.mp h0], by simp [publish, h0, h.mp h0]⟩
  · have hnot : ¬ AllComplete sync frames := fun hall => h0 (h.mpr hall)
    exact ⟨by simp [publish, h0, hnot], by simp [publish, h0, hnot]⟩

/-- **The status of every published image is right when incomplete frames come first.** In such
a run a published image has heard from every configured slot, its status says whether all those
frames were complete, and any other such run that publishes an image with the same frames, in
whatever order they came, publishes the same status. -/
theorem published_status_correct {es : List (SyncEvent F)} {t : SyncTrace F} {frame : F}
    (hrun : Run (RepresentativeStep sync) start es t)
    (hpop : (popNextFullImage t.cache).2 = some frame) (header : ImageMetadata) :
    (∀ j, sync.newImageMask.test j = true →
      ∃ f ∈ t.entryFrames (imageId frame), sync.slot f = j ∧ imageId f = imageId frame) ∧
    StatusCorrect sync (publish header frame) (t.entryFrames (imageId frame)) ∧
    ∀ (es' : List (SyncEvent F)) (t' : SyncTrace F) (frame' : F),
      Run (RepresentativeStep sync) start es' t' →
      (popNextFullImage t'.cache).2 = some frame' →
      (t.entryFrames (imageId frame)).Perm (t'.entryFrames (imageId frame')) →
      (publish header frame).status = (publish header frame').status := by
  have key : ∀ {es : List (SyncEvent F)} {t : SyncTrace F} {frame : F},
      Run (RepresentativeStep sync) start es t → (popNextFullImage t.cache).2 = some frame →
      (nMissingPackets frame = 0 ↔ AllComplete sync (t.entryFrames (imageId frame))) := by
    intro es t frame hrun hpop
    obtain ⟨hok, hrep⟩ := representative_of_run hrun
    exact hrep _ _ (entry_of_popped hok hpop).1
  obtain ⟨hok, -⟩ := representative_of_run hrun
  refine ⟨(entry_of_popped hok hpop).2, statusCorrect_publish header (key hrun hpop), ?_⟩
  intro es' t' frame' hrun' hpop' hperm
  have hiff : nMissingPackets frame = 0 ↔ nMissingPackets frame' = 0 := by
    rw [key hrun hpop, key hrun' hpop', allComplete_perm hperm]
  simp only [publish, hiff]

/-- A synchronizer for two GigaFRoST modules. -/
def twoSlots : Synchronizer := .ofTwo 50 0#128

/-- Module 1 misses three packets and arrives first. -/
theorem published_status_correct_incomplete_first :
    ∃ t : SyncTrace GFFrame,
      Run (RepresentativeStep twoSlots) start
        [.process { common := ⟨5, 3, 1⟩ }, .process { common := ⟨5, 0, 0⟩ }] t ∧
      (popNextFullImage t.cache).2 = some { common := ⟨5, 3, 1⟩ } ∧
      StatusCorrect twoSlots (publish {} { common := ⟨5, 3, 1⟩ : GFFrame }) (t.entryFrames 5) := by
  have hrun : Run (RepresentativeStep twoSlots) start
      [.process { common := ⟨5, 3, 1⟩ }, .process { common := ⟨5, 0, 0⟩ }]
      (SyncTrace.step twoSlots (SyncTrace.step twoSlots start
        (.process { common := ⟨5, 3, 1⟩ : GFFrame })) (.process { common := ⟨5, 0, 0⟩ })) :=
    .cons_total (.inl (by decide)) (.cons_total (fun _ => .inl (by decide)) .nil)
  exact ⟨_, hrun, by decide, (published_status_correct hrun (by decide) {}).2.1⟩

/-- Module 0 is complete and arrives first, module 1 misses three packets: the image is
published as good. -/
theorem published_status_wrong :
    ¬ ∀ (sync : Synchronizer) (es : List (SyncEvent GFFrame)) (t : SyncTrace GFFrame)
      (frame : GFFrame), Run (Steps.total (SyncTrace.step sync)) start es t →
      (popNextFullImage t.cache).2 = some frame → ∀ header,
        StatusCorrect sync (publish header frame) (t.entryFrames (imageId frame)) := by
  intro h
  have hrun : Run (Steps.total (SyncTrace.step twoSlots)) (start : SyncTrace GFFrame)
      [.process { common := ⟨5, 0, 0⟩ }, .process { common := ⟨5, 3, 1⟩ }] _ :=
    run_total_iff.mpr rfl
  have hgood := (h twoSlots _ _ { common := ⟨5, 0, 0⟩ } hrun (by decide) {}).good
  exact absurd (hgood.mp rfl) (by decide)

end ModuleSync

end StdDaq
