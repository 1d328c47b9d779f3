import StdDaq.ModuleSync.Output

/-!
# Returning images once, and in order

What holds of the module synchronizer when nothing is assumed about who sends: frames may be
duplicated, come from modules that are not configured, and evict one another. An image that is
returned has heard from every configured slot exactly once since its entry was created.

When no slot delivers an image twice, no image is returned twice: a returned image has used up the
one frame each configured slot has for it, and a new entry of the image can never be completed.

Order is another matter. `pop_next_full_image` returns the smallest image it holds, and that says
nothing about images it does not hold yet. When a slot has one sender this cannot go wrong, see
`returned_exactly_expected`. GigaFRoST has two receivers for each slot. One of them can be ahead of
the other by an image, and then the image of the late one is opened, completed and returned after a
larger one has left.

## Main results

* `popped_once_from_each_slot` — what a returned image has heard, and that it is returned once
* `returned_increasing_of_not_late` — order, when no image is opened late
-/

namespace StdDaq

namespace ModuleSync

open SyncTrace Synchronizer

variable {F : Type} [FrameType F] {sync : Synchronizer}

/-- Exactly one frame from every configured slot and, beyond those, at most the first frame. -/
structure HeardOnce (sync : Synchronizer) (frames : List F) (id : ℕ) : Prop where
  image : ∀ frame ∈ frames, imageId frame = id
  configured : ∀ j, sync.newImageMask.test j = true →
    (frames.filter fun frame => sync.slot frame = j).length = 1
  others : ∃ first rest, frames = first :: rest ∧
    ∀ frame ∈ rest, sync.newImageMask.test (sync.slot frame) = true

/-- Each slot delivers an image at most once. -/
def AtMostOnce (sync : Synchronizer) (frames : List F) : Prop :=
  frames.Pairwise fun f g => sync.slot f = sync.slot g → imageId f ≠ imageId g

/-- Any number of senders, each with strictly increasing image ids; several of them may have the
same slot, but a slot delivers an image at most once. -/
structure SeveralSenders (sync : Synchronizer) (frames : List F) : Prop where
  increasing : ∃ tagged : List (ℕ × F), tagged.map Prod.snd = frames ∧
    tagged.Pairwise fun a b => a.1 = b.1 → imageId a.2 < imageId b.2
  once : AtMostOnce sync frames

theorem EntryOf.heardOnce {id : ℕ} {first : F} {frames : List F}
    (h : EntryOf sync id (0#128, first) frames) : HeardOnce sync frames id := by
  obtain ⟨rest, hframes, hrest⟩ := h.head
  refine ⟨h.image, fun j hj => ?_, first, rest, hframes, hrest⟩
  obtain ⟨frame, hmem, hslot⟩ := h.complete hj
  -- the frames of one slot are a list of length at most one, and there is one
  have hcount : (frames.map sync.slot).count j = 1 :=
    List.count_eq_one_of_mem h.slots (List.mem_map.mpr ⟨frame, hmem, hslot⟩)
  rw [List.count, List.countP_map, List.countP_eq_length_filter] at hcount
  rw [← hcount]
  rfl

/-! ### No image twice -/

/-- What ties returned images to deliveries: they have been delivered by every configured slot, and
an entry that is opened for one of them again has nothing from a configured slot. -/
structure ReturnedOnce (sync : Synchronizer) (t : SyncTrace F) : Prop where
  delivered : ∀ id, ∀ f ∈ t.entryFrames id, f ∈ t.delivered
  full : ∀ id ∈ t.returned.map imageId, ∀ j, sync.newImageMask.test j = true →
    DeliveredBy sync t.delivered j id
  spent : ∀ id ∈ t.returned.map imageId, ∀ f ∈ t.entryFrames id,
    sync.newImageMask.test (sync.slot f) = false
  nodup : (t.returned.map imageId).Nodup

theorem returnedOnce_start : ReturnedOnce sync (start : SyncTrace F) where
  delivered := by simp [start]
  full := by simp [start]
  spent := by simp [start]
  nodup := by simp [start]

theorem AtMostOnce.init {frames : List F} {frame : F} (h : AtMostOnce sync (frames ++ [frame])) :
    AtMostOnce sync frames :=
  (List.pairwise_append.mp h).1

/-- The last frame is the first that its slot delivers of its image. -/
theorem AtMostOnce.last {frames : List F} {frame : F} (h : AtMostOnce sync (frames ++ [frame])) :
    ¬ DeliveredBy sync frames (sync.slot frame) (imageId frame) := by
  rintro ⟨f, hf, hslot, hid⟩
  exact (List.pairwise_append.mp h).2.2 f hf frame (List.mem_singleton.mpr rfl) hslot hid

theorem ReturnedOnce.process {t : SyncTrace F} (h : ReturnedOnce sync t) {frame : F}
    (honce : AtMostOnce sync (t.delivered ++ [frame])) :
    ReturnedOnce sync (t.step sync (.process frame)) := by
  refine ⟨fun id f hf => ?_, fun id hid j hj => (h.full id hid j hj).append,
    fun id hid f hf => ?_, h.nodup⟩
  · rcases mem_recordFrame hf with hf | ⟨rfl, -⟩
    · exact List.mem_append_left _ (h.delivered id f hf)
    · exact List.mem_append_right _ (List.mem_singleton.mpr rfl)
  · rcases mem_recordFrame hf with hf | ⟨rfl, rfl⟩
    · exact h.spent id hid f hf
    · -- a configured slot has delivered the returned image already
      refine Bool.eq_false_iff.mpr fun hconf => ?_
      exact honce.last (h.full _ hid _ hconf)

theorem mem_entryFrames_pop {t : SyncTrace F} {id : ℕ} {f : F}
    (hf : f ∈ (t.step sync .pop).entryFrames id) :
    f ∈ t.entryFrames id ∧ (popNextFullImage t.cache).1[id]?.isNone = false := by
  change f ∈ (if (popNextFullImage t.cache).1[id]?.isNone then [] else t.entryFrames id) at hf
  split at hf
  · cases hf
  · next hsome => exact ⟨hf, by simpa using hsome⟩

/-- The frames of an entry have been delivered. -/
theorem delivered_of_run {es : List (SyncEvent F)} {t : SyncTrace F}
    (hrun : Run (Steps.total (SyncTrace.step sync)) start es t) {id : ℕ} {f : F}
    (hf : f ∈ t.entryFrames id) : f ∈ t.delivered := by
  refine hrun.invariant (P := fun t => ∀ id, ∀ f ∈ t.entryFrames id, f ∈ t.delivered) ?_
    (fun id f hf => by simp [start] at hf) id f hf
  intro t e u ih hstep id f hf
  obtain rfl : t.step sync e = u := hstep
  cases e with
  | process frame =>
    rcases mem_recordFrame hf with hf | ⟨rfl, -⟩
    · exact List.mem_append_left _ (ih id f hf)
    · exact List.mem_append_right _ (List.mem_singleton.mpr rfl)
  | pop => exact ih id f (mem_entryFrames_pop hf).1

theorem ReturnedOnce.pop {t : SyncTrace F} (h : ReturnedOnce sync t) (hok : EntriesOk sync t) :
    ReturnedOnce sync (t.step sync .pop) := by
  have hsub : ∀ id, ∀ f ∈ (t.step sync .pop).entryFrames id, f ∈ t.delivered :=
    fun id f hf => h.delivered id f (mem_entryFrames_pop hf).1
  cases hpop : (popNextFullImage t.cache).2 with
  | none =>
    have hret := returned_pop_none sync hpop
    refine ⟨hsub, ?_, fun id hid f hf => ?_, ?_⟩
    · rw [hret]; exact h.full
    · rw [hret] at hid
      exact h.spent id hid f (mem_entryFrames_pop hf).1
    · rw [hret]; exact h.nodup
  | some frame =>
    obtain ⟨hentry, -, -, hrest⟩ := hok.popped hpop
    have hret := returned_pop_some sync hpop
    refine ⟨hsub, fun id hid j hj => ?_, fun id hid f hf => ?_, ?_⟩
    · rw [hret] at hid
      rcases List.mem_append.mp hid with hid | hid
      · exact h.full id hid j hj
      · obtain ⟨f, hf, hslot⟩ := hentry.complete hj
        rw [List.mem_singleton.mp hid]
        exact ⟨f, h.delivered _ f hf, hslot, hentry.image f hf⟩
    · rw [hret] at hid
      obtain ⟨hf, hstays⟩ := mem_entryFrames_pop hf
      rcases List.mem_append.mp hid with hid | hid
      · exact h.spent id hid f hf
      · -- the entry of the returned image is gone
        rw [List.mem_singleton.mp hid, hrest, if_pos rfl] at hstays
        cases hstays
    · rw [hret, List.nodup_append_comm, List.singleton_append, List.nodup_cons]
      refine ⟨fun hid => ?_, h.nodup⟩
      obtain ⟨j, hj⟩ := sync.exists_configured
      obtain ⟨f, hf, rfl⟩ := hentry.complete hj
      rw [h.spent _ hid f hf] at hj
      cases hj

theorem returnedOnce_of_run {es : List (SyncEvent F)} {t : SyncTrace F}
    (hrun : Run (Steps.total (SyncTrace.step sync)) start es t)
    (honce : AtMostOnce sync t.delivered) : EntriesOk sync t ∧ ReturnedOnce sync t := by
  refine hrun.invariant
    (P := fun t => AtMostOnce sync t.delivered → EntriesOk sync t ∧ ReturnedOnce sync t) ?_
    (fun _ => ⟨entriesOk_start, returnedOnce_start⟩) honce
  intro t e u ih hstep honce
  obtain rfl : t.step sync e = u := hstep
  cases e with
  | process frame =>
    obtain ⟨hok, hret⟩ := ih honce.init
    exact ⟨hok.process frame, hret.process honce⟩
  | pop =>
    obtain ⟨hok, hret⟩ := ih honce
    exact ⟨hok.pop, hret.pop hok⟩

/-- **Every image that is returned has heard from each configured slot once, and no image is
returned twice.** The first holds in every run, whatever arrives in whatever order; the second in
every run in which each slot delivers an image at most once. -/
theorem popped_once_from_each_slot (sync : Synchronizer) {es : List (SyncEvent F)} {t : SyncTrace F}
    (hrun : Run (Steps.total (SyncTrace.step sync)) start es t) :
    (∀ frame, (popNextFullImage t.cache).2 = some frame →
      HeardOnce sync (t.entryFrames (imageId frame)) (imageId frame)) ∧
    (AtMostOnce sync t.delivered → (t.returned.map imageId).Nodup) := by
  constructor
  · intro frame hpop
    exact EntryOf.heardOnce ((entriesOk_of_run hrun).popped hpop).1
  · intro honce
    exact (returnedOnce_of_run hrun honce).2.nodup

/-- Two modules of which one is configured, and a queue of two images. -/
def oneOfTwoModules : Synchronizer := .ofTwo 2 1#128

/-- Image 5 is opened by the module that is not configured. -/
def unconfiguredFirstRun : List (SyncEvent EGFrame) :=
  [.process { common := ⟨5, 0, 1⟩ }, .process { common := ⟨5, 0, 0⟩ }]

theorem popped_once_from_each_slot_unconfiguredFirst :
    ∃ t : SyncTrace EGFrame,
      Run (Steps.total (SyncTrace.step oneOfTwoModules)) start unconfiguredFirstRun t ∧
      AtMostOnce oneOfTwoModules t.delivered ∧
      (popNextFullImage t.cache).2 = some { common := ⟨5, 0, 1⟩ } ∧
      HeardOnce oneOfTwoModules (t.entryFrames 5) 5 ∧ (t.returned.map imageId).Nodup := by
  have hrun : Run (Steps.total (SyncTrace.step oneOfTwoModules)) start unconfiguredFirstRun
      (unconfiguredFirstRun.foldl (SyncTrace.step oneOfTwoModules) start) := run_total_iff.mpr rfl
  have honce : AtMostOnce oneOfTwoModules
      (unconfiguredFirstRun.foldl (SyncTrace.step oneOfTwoModules) start).delivered :=
    List.pairwise_pair.mpr (by decide)
  obtain ⟨hheard, hnodup⟩ := popped_once_from_each_slot oneOfTwoModules hrun
  exact ⟨_, hrun, honce, by decide, hheard { common := ⟨5, 0, 1⟩ } (by decide), hnodup honce⟩

/-! ### Order -/

/-- No image is opened late: a frame that creates an entry belongs to no smaller image than one
that has been returned. -/
def NotLate (t : SyncTrace F) : SyncEvent F → Prop
  | .process frame => isNewImage t.cache (imageId frame) = true →
      ∀ id ∈ t.returned.map imageId, id ≤ imageId frame
  | .pop => True

/-- What is returned does not decrease, and nothing that is held is smaller. -/
structure NonDecreasing (t : SyncTrace F) : Prop where
  returned : (t.returned.map imageId).Pairwise (· ≤ ·)
  held : ∀ id ∈ t.returned.map imageId, ∀ (id' : ℕ) entry, t.cache[id']? = some entry → id ≤ id'

/-- Where the entries of a new cache come from. -/
theorem getElem?_processImageMetadata {cache : Cache F} {frame : F} {id : ℕ}
    {entry : ModulesMask × F} (h : (sync.processImageMetadata cache frame).1[id]? = some entry) :
    (∃ old, cache[id]? = some old) ∨ (id = imageId frame ∧ cache[id]? = none) := by
  cases hold : cache[imageId frame]? with
  | none =>
    rw [processImageMetadata_new hold] at h
    split at h
    · next hid => exact .inr ⟨hid, hid ▸ hold⟩
    · exact .inl ⟨entry, makeRoom_getElem? h⟩
  | some old =>
    by_cases hid : id = imageId frame
    · exact .inl ⟨old, hid ▸ hold⟩
    · cases hbit : old.1.test (sync.slot frame) with
      | true =>
        rw [processImageMetadata_update hold hbit, if_neg hid] at h
        exact .inl ⟨entry, h⟩
      | false =>
        rw [processImageMetadata_drop hold hbit, if_neg hid] at h
        exact .inl ⟨entry, h⟩

theorem NonDecreasing.process {t : SyncTrace F} (h : NonDecreasing t) {frame : F}
    (hlate : NotLate t (.process frame)) : NonDecreasing (t.step sync (.process frame)) := by
  refine ⟨h.returned, fun id hid id' entry hget => ?_⟩
  rcases getElem?_processImageMetadata hget with ⟨old, hold⟩ | ⟨rfl, hnew⟩
  · exact h.held id hid id' old hold
  · exact hlate (by rw [isNewImage, hnew]; rfl) id hid

theorem NonDecreasing.pop {t : SyncTrace F} (h : NonDecreasing t) (hok : EntriesOk sync t) :
    NonDecreasing (t.step sync .pop) := by
  cases hpop : (popNextFullImage t.cache).2 with
  | none =>
    have hret := returned_pop_none sync hpop
    have hcache : (t.step sync .pop).cache = t.cache := (popNextFullImage_none hpop).1
    refine ⟨?_, ?_⟩
    · rw [hret]; exact h.returned
    · rw [hret, hcache]; exact h.held
  | some frame =>
    obtain ⟨-, hfirst, hmin, hrest⟩ := hok.popped hpop
    have hret := returned_pop_some sync hpop
    refine ⟨?_, fun id hid id' entry hget => ?_⟩
    · rw [hret, List.pairwise_append]
      refine ⟨h.returned, List.pairwise_singleton _ _, fun id hid id' hid' => ?_⟩
      rw [List.mem_singleton.mp hid']
      exact h.held id hid _ _ hfirst
    · have hget : (popNextFullImage t.cache).1[id']? = some entry := hget
      rw [hrest] at hget
      split at hget
      · cases hget
      · rw [hret] at hid
        rcases List.mem_append.mp hid with hid | hid
        · exact h.held id hid id' entry hget
        · rw [List.mem_singleton.mp hid]
          exact hmin id' entry hget

theorem nonDecreasing_of_run {es : List (SyncEvent F)} {t : SyncTrace F}
    (hrun : Run (Restrict NotLate (Steps.total (SyncTrace.step sync))) start es t) :
    EntriesOk sync t ∧ NonDecreasing t := by
  refine hrun.invariant (P := fun t => EntriesOk sync t ∧ NonDecreasing t) ?_
    ⟨entriesOk_start, by simp [start], by simp [start]⟩
  rintro t e u ⟨hok, hnd⟩ ⟨hlate, hstep⟩
  obtain rfl : t.step sync e = u := hstep
  cases e with
  | process frame => exact ⟨hok.process frame, hnd.process hlate⟩
  | pop => exact ⟨hok.pop, hnd.pop hok⟩

/-- **Images leave in strictly increasing order when none is opened late.** For any number of
senders, in every run, with evictions. -/
theorem returned_increasing_of_not_late {es : List (SyncEvent F)} {t : SyncTrace F}
    (hrun : Run (Restrict NotLate (Steps.total (SyncTrace.step sync))) start es t)
    (hsenders : SeveralSenders sync t.delivered) :
    (t.returned.map imageId).Pairwise (· < ·) := by
  have hnodup : (t.returned.map imageId).Nodup :=
    (returnedOnce_of_run (hrun.mono fun _ _ _ h => h.2) hsenders.once).2.nodup
  have hle := (nonDecreasing_of_run hrun).2.returned
  exact hle.imp₂ (fun _ _ hle hne => Nat.lt_of_le_of_ne hle hne) hnodup

/-- One slot and a queue of fifty images. -/
def oneSlot : Synchronizer := .ofOne 50 0#128

/-- Two senders of one slot, the first with the odd images and the second with the even ones. -/
def alternatingRun : List (SyncEvent GFFrame) :=
  [.process { common := ⟨4, 0, 1⟩ }, .pop, .process { common := ⟨5, 0, 0⟩ }, .pop]

/-- The same, but the second sender is late. -/
def lateSenderRun : List (SyncEvent GFFrame) :=
  [.process { common := ⟨5, 0, 0⟩ }, .pop, .process { common := ⟨4, 0, 1⟩ }, .pop]

theorem severalSenders_pair {f g : GFFrame} (h : imageId f ≠ imageId g) :
    SeveralSenders oneSlot [f, g] :=
  ⟨⟨[(0, f), (1, g)], rfl, List.pairwise_pair.mpr (by simp)⟩, List.pairwise_pair.mpr fun _ => h⟩

theorem returned_increasing_of_not_late_alternating :
    ∃ t : SyncTrace GFFrame,
      Run (Restrict NotLate (Steps.total (SyncTrace.step oneSlot))) start alternatingRun t ∧
      t.returned.map imageId = [4, 5] ∧ (t.returned.map imageId).Pairwise (· < ·) := by
  have hrun : Run (Restrict NotLate (Steps.total (SyncTrace.step oneSlot))) start alternatingRun
      (alternatingRun.foldl (SyncTrace.step oneSlot) start) :=
    .cons_total (fun _ => by decide) (.cons_total trivial (.cons_total (fun _ => by decide)
      (.cons_total trivial .nil)))
  exact ⟨_, hrun, by decide,
    returned_increasing_of_not_late hrun (severalSenders_pair (by decide))⟩

/-- A late image leaves after a larger one. -/
theorem returned_not_increasing :
    ¬ ∀ (sync : Synchronizer) (es : List (SyncEvent GFFrame)) (t : SyncTrace GFFrame),
      Run (Steps.total (SyncTrace.step sync)) start es t → SeveralSenders sync t.delivered →
        (t.returned.map imageId).Pairwise (· < ·) := by
  intro h
  have hrun : Run (Steps.total (SyncTrace.step oneSlot)) start lateSenderRun
      (lateSenderRun.foldl (SyncTrace.step oneSlot) start) := run_total_iff.mpr rfl
  exact absurd (h oneSlot _ _ hrun (severalSenders_pair (by decide))) (by decide)

end ModuleSync

end StdDaq
