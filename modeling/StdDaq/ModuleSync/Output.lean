import StdDaq.ModuleSync.Synchronizer

/-!
# The images the module synchronizer returns

When every slot has one sender, a slot's frames arrive with increasing image ids, however the
slots interleave and whenever the publishing thread asks. The synchronizer then returns exactly
the images that are complete and have no incomplete image before them, in increasing order. An
incomplete image holds back everything behind it until it is evicted, so this is a statement
about runs in which nothing is evicted.

The argument rests on one observation. An image is returned only after every slot has delivered
it, and from then on every slot delivers larger ids. So what is returned is smaller than all
that is still to come, and no frame can revive an image that has been returned.
-/

namespace StdDaq

namespace ModuleSync

open SyncTrace Synchronizer

variable {F : Type} [FrameType F] {sync : Synchronizer}

/-- Slot `j` delivered a frame of image `id`. -/
def DeliveredBy (sync : Synchronizer) (frames : List F) (j id : ℕ) : Prop :=
  ∃ frame ∈ frames, sync.slot frame = j ∧ imageId frame = id

/-- Every frame comes from a configured slot, and each slot delivers strictly increasing image
ids. -/
structure OneSenderPerSlot (sync : Synchronizer) (frames : List F) : Prop where
  configured : ∀ frame ∈ frames, sync.newImageMask.test (sync.slot frame) = true
  increasing : frames.Pairwise fun f g => sync.slot f = sync.slot g → imageId f < imageId g

/-- The images that should come out: delivered by every configured slot, with no smaller image
that some configured slots delivered and others did not. -/
def Expected (sync : Synchronizer) (frames : List F) (id : ℕ) : Prop :=
  (∀ j, sync.newImageMask.test j = true → DeliveredBy sync frames j id) ∧
    ∀ id' < id, (∃ j, sync.newImageMask.test j = true ∧ DeliveredBy sync frames j id') →
      ∀ j, sync.newImageMask.test j = true → DeliveredBy sync frames j id'

/-- The operation does not evict: a frame of a new image finds room. -/
def NoEviction (sync : Synchronizer) (t : SyncTrace F) : SyncEvent F → Prop
  | .process frame =>
    isNewImage t.cache (imageId frame) = true → sync.isQueueTooLong t.cache = false
  | .pop => True

instance (t : SyncTrace F) (e : SyncEvent F) : Decidable (NoEviction sync t e) :=
  match e with
  | .process frame => inferInstanceAs (Decidable (isNewImage t.cache (imageId frame) = true →
      sync.isQueueTooLong t.cache = false))
  | .pop => inferInstanceAs (Decidable True)

/-- The operations of a run without evictions. -/
def KeepingStep (sync : Synchronizer) : SyncTrace F → SyncEvent F → SyncTrace F → Prop :=
  Restrict (NoEviction sync) (Steps.total (SyncTrace.step sync))

/-- What ties the cache and the returned images to the history of deliveries. -/
structure InOrder (sync : Synchronizer) (t : SyncTrace F) : Prop where
  /-- The frames of an entry are all frames of its image. -/
  frames : ∀ id entry, t.cache[id]? = some entry →
    t.entryFrames id = t.delivered.filter fun frame => imageId frame = id
  /-- An image that was delivered is being collected or was returned. -/
  kept : ∀ frame ∈ t.delivered,
    (∃ entry, t.cache[imageId frame]? = some entry) ∨ imageId frame ∈ t.returned.map imageId
  /-- A returned image was delivered by every configured slot. -/
  full : ∀ id ∈ t.returned.map imageId, ∀ j, sync.newImageMask.test j = true →
    DeliveredBy sync t.delivered j id
  /-- Images are returned in increasing order. -/
  increasing : (t.returned.map imageId).Pairwise (· < ·)
  /-- What is being collected is larger than what was returned. -/
  ahead : ∀ id ∈ t.returned.map imageId, ∀ id' entry, t.cache[id']? = some entry → id < id'

theorem OneSenderPerSlot.init {frames : List F} {frame : F}
    (h : OneSenderPerSlot sync (frames ++ [frame])) : OneSenderPerSlot sync frames :=
  ⟨fun f hf => h.configured f (List.mem_append_left _ hf),
    (List.pairwise_append.mp h.increasing).1⟩

/-- The last frame is newer than everything its slot delivered before. -/
theorem OneSenderPerSlot.last {frames : List F} {frame : F}
    (h : OneSenderPerSlot sync (frames ++ [frame])) {id : ℕ}
    (hdel : DeliveredBy sync frames (sync.slot frame) id) : id < imageId frame := by
  obtain ⟨f, hf, hslot, rfl⟩ := hdel
  exact (List.pairwise_append.mp h.increasing).2.2 f hf frame (List.mem_singleton.mpr rfl) hslot

theorem DeliveredBy.append {frames : List F} {frame : F} {j id : ℕ}
    (h : DeliveredBy sync frames j id) : DeliveredBy sync (frames ++ [frame]) j id := by
  obtain ⟨f, hf, h⟩ := h
  exact ⟨f, List.mem_append_left _ hf, h⟩

theorem inOrder_start : InOrder sync (start : SyncTrace F) where
  frames id entry h := by simp [start] at h
  kept := by simp [start]
  full := by simp [start]
  increasing := by simp [start]
  ahead := by simp [start]

/-- Everything returned before is older than a frame that is processed now. -/
theorem InOrder.returned_lt {t : SyncTrace F} (h : InOrder sync t) {frame : F}
    (hone : OneSenderPerSlot sync (t.delivered ++ [frame])) {id : ℕ}
    (hid : id ∈ t.returned.map imageId) : id < imageId frame :=
  hone.last (h.full id hid _ (hone.configured frame (by simp)))

/-- A frame of an image without an entry is the first frame of that image. -/
theorem InOrder.filter_eq_nil {t : SyncTrace F} (h : InOrder sync t) {frame : F}
    (hone : OneSenderPerSlot sync (t.delivered ++ [frame]))
    (hnew : t.cache[imageId frame]? = none) :
    (t.delivered.filter fun f => imageId f = imageId frame) = [] := by
  refine List.filter_eq_nil_iff.mpr fun f hf himage => ?_
  have himage : imageId f = imageId frame := by simpa using himage
  rcases h.kept f hf with ⟨entry, hentry⟩ | hret
  · rw [himage, hnew] at hentry
    cases hentry
  · exact absurd (h.returned_lt hone hret) (by rw [himage]; exact Nat.lt_irrefl _)

/-- A frame of an image with an entry comes from a slot that is still missing. -/
theorem InOrder.bit_set {t : SyncTrace F} (h : InOrder sync t) (hok : EntriesOk sync t)
    {frame : F} (hone : OneSenderPerSlot sync (t.delivered ++ [frame]))
    {entry : ModulesMask × F} (hentry : t.cache[imageId frame]? = some entry) :
    entry.1.test (sync.slot frame) = true := by
  refine ((hok.entries _ _ hentry).mask _).mpr ⟨hone.configured frame (by simp), ?_⟩
  rw [h.frames _ _ hentry]
  intro hmem
  obtain ⟨f, hf, hslot⟩ := List.mem_map.mp hmem
  have himage : imageId f = imageId frame := by simpa using (List.mem_filter.mp hf).2
  have hdel : DeliveredBy sync t.delivered (sync.slot frame) (imageId frame) :=
    ⟨f, (List.mem_filter.mp hf).1, hslot, himage⟩
  exact absurd (hone.last hdel) (Nat.lt_irrefl _)

/-- Where the new cache of a processed frame comes from: the entry of its image, and the old
entries. -/
theorem InOrder.process_getElem? {t : SyncTrace F} (h : InOrder sync t) (hok : EntriesOk sync t)
    {frame : F} (hone : OneSenderPerSlot sync (t.delivered ++ [frame]))
    (hroom : NoEviction sync t (.process frame)) :
    (∃ entry, (t.step sync (.process frame)).cache[imageId frame]? = some entry) ∧
      ∀ id, id ≠ imageId frame →
        (t.step sync (.process frame)).cache[id]? = t.cache[id]? := by
  change (∃ entry, (sync.processImageMetadata t.cache frame).1[imageId frame]? = some entry) ∧
    ∀ id : ℕ, id ≠ imageId frame →
      (sync.processImageMetadata t.cache frame).1[id]? = t.cache[id]?
  cases hold : t.cache[imageId frame]? with
  | none =>
    have hroom := makeRoom_of_not_tooLong (hroom (by rw [isNewImage, hold]; rfl))
    refine ⟨⟨_, by rw [processImageMetadata_new hold, if_pos rfl]⟩,
      fun id hid => ?_⟩
    rw [processImageMetadata_new hold, if_neg hid, hroom]
  | some entry =>
    have hbit := h.bit_set hok hone hold
    refine ⟨⟨_, by rw [processImageMetadata_update hold hbit, if_pos rfl]⟩,
      fun id hid => ?_⟩
    rw [processImageMetadata_update hold hbit, if_neg hid]

theorem InOrder.process {t : SyncTrace F} (h : InOrder sync t) (hok : EntriesOk sync t)
    {frame : F} (hone : OneSenderPerSlot sync (t.delivered ++ [frame]))
    (hroom : NoEviction sync t (.process frame)) :
    InOrder sync (t.step sync (.process frame)) := by
  obtain ⟨⟨new, hnew⟩, hold⟩ := h.process_getElem? hok hone hroom
  refine ⟨fun id entry hget => ?_, fun f hf => ?_, fun id hid j hj => ?_, h.increasing,
    fun id hid id' entry hget => ?_⟩
  · -- the frames of an entry
    change recordFrame (t.step sync (.process frame)).cache t.entryFrames frame id
      = (t.delivered ++ [frame]).filter fun f => imageId f = id
    rw [recordFrame, hget, Option.isNone_some, if_neg Bool.false_ne_true, List.filter_append]
    by_cases hid : id = imageId frame
    · subst hid
      rw [if_pos rfl]
      cases hbefore : t.cache[imageId frame]? with
      | none => simp [hok.absent _ hbefore, h.filter_eq_nil hone hbefore]
      | some entry => simp [h.frames _ _ hbefore]
    · rw [if_neg hid, h.frames id entry (by rw [← hold id hid]; exact hget)]
      simp [Ne.symm hid]
  · -- nothing is lost
    rcases List.mem_append.mp hf with hf | hf
    · by_cases hid : imageId f = imageId frame
      · exact .inl ⟨new, by rw [hid]; exact hnew⟩
      · rw [hold _ hid]
        exact h.kept f hf
    · rw [List.mem_singleton.mp hf]
      exact .inl ⟨new, hnew⟩
  · exact (h.full id hid j hj).append
  · -- the new entry is larger than what was returned
    by_cases hid' : id' = imageId frame
    · rw [hid']
      exact h.returned_lt hone hid
    · exact h.ahead id hid id' entry (by rw [← hold id' hid']; exact hget)

theorem entryFrames_pop (t : SyncTrace F) {id : ℕ} {entry : ModulesMask × F}
    (hget : (t.step sync .pop).cache[id]? = some entry) :
    (t.step sync .pop).entryFrames id = t.entryFrames id := by
  change (if (popNextFullImage t.cache).1[id]?.isNone then [] else t.entryFrames id) = _
  rw [show (popNextFullImage t.cache).1[id]? = some entry from hget, Option.isNone_some,
    if_neg Bool.false_ne_true]

/-- A pop that finds no complete image changes nothing. -/
theorem InOrder.pop_none {t : SyncTrace F} (h : InOrder sync t)
    (hpop : (popNextFullImage t.cache).2 = none) : InOrder sync (t.step sync .pop) := by
  have hcache : (t.step sync .pop).cache = t.cache := (popNextFullImage_none hpop).1
  have hret := returned_pop_none sync hpop
  refine ⟨fun id entry hget => ?_, fun f hf => ?_, ?_, ?_, ?_⟩
  · rw [entryFrames_pop t hget]
    exact h.frames id entry (by rw [← hcache]; exact hget)
  · rw [hcache, hret]
    exact h.kept f hf
  · rw [hret]; exact h.full
  · rw [hret]; exact h.increasing
  · rw [hret, hcache]; exact h.ahead

/-- And one that finds an image returns the smallest one. -/
theorem InOrder.pop_some {t : SyncTrace F} (h : InOrder sync t) (hok : EntriesOk sync t) {frame : F}
    (hpop : (popNextFullImage t.cache).2 = some frame) : InOrder sync (t.step sync .pop) := by
  obtain ⟨hentry, hfirst, hmin, hrest⟩ := hok.popped hpop
  have hret := returned_pop_some sync hpop
  have hcache : ∀ id : ℕ, (t.step sync .pop).cache[id]?
      = if id = imageId frame then none else t.cache[id]? := hrest
  refine ⟨fun id entry hget => ?_, fun f hf => ?_, fun id hmem j hj => ?_, ?_,
    fun id hmem id' entry hget => ?_⟩
  · rw [entryFrames_pop t hget]
    rw [hcache] at hget
    split at hget
    · cases hget
    · exact h.frames id entry hget
  · rw [hret, hcache]
    rcases h.kept f hf with ⟨entry, hget⟩ | hmem
    · by_cases hf' : imageId f = imageId frame
      · exact .inr (by rw [hf']; simp)
      · exact .inl ⟨entry, by rw [if_neg hf']; exact hget⟩
    · exact .inr (List.mem_append_left _ hmem)
  · rw [hret] at hmem
    rcases List.mem_append.mp hmem with hmem | hmem
    · exact h.full id hmem j hj
    · obtain ⟨f, hf, hslot⟩ := hentry.complete hj
      rw [h.frames _ _ hfirst] at hf
      obtain ⟨hf, himage⟩ := List.mem_filter.mp hf
      exact ⟨f, hf, hslot, by rw [List.mem_singleton.mp hmem]; simpa using himage⟩
  · rw [hret, List.pairwise_append]
    refine ⟨h.increasing, List.pairwise_singleton _ _, fun id hmem id' hmem' => ?_⟩
    rw [List.mem_singleton.mp hmem']
    exact h.ahead id hmem _ _ hfirst
  · rw [hcache] at hget
    split at hget
    · cases hget
    · next hne =>
      rw [hret] at hmem
      rcases List.mem_append.mp hmem with hmem | hmem
      · exact h.ahead id hmem id' entry hget
      · rw [List.mem_singleton.mp hmem]
        exact Nat.lt_of_le_of_ne (hmin id' entry hget) (Ne.symm hne)

theorem InOrder.pop {t : SyncTrace F} (h : InOrder sync t) (hok : EntriesOk sync t) :
    InOrder sync (t.step sync .pop) := by
  cases hpop : (popNextFullImage t.cache).2 with
  | none => exact h.pop_none hpop
  | some frame => exact h.pop_some hok hpop

/-- Both invariants, along every run without evictions whose deliveries are in order. -/
theorem inOrder_of_run {es : List (SyncEvent F)} {t : SyncTrace F}
    (hrun : Run (KeepingStep sync) start es t) (hone : OneSenderPerSlot sync t.delivered) :
    EntriesOk sync t ∧ InOrder sync t := by
  refine hrun.invariant (P := fun t => OneSenderPerSlot sync t.delivered →
    EntriesOk sync t ∧ InOrder sync t) ?_ (fun _ => ⟨entriesOk_start, inOrder_start⟩) hone
  rintro t e u ih ⟨hroom, hstep⟩ hone
  obtain rfl : t.step sync e = u := hstep
  cases e with
  | process frame =>
    obtain ⟨hok, hin⟩ := ih hone.init
    exact ⟨hok.process frame, hin.process hok hone hroom⟩
  | pop =>
    obtain ⟨hok, hin⟩ := ih hone
    exact ⟨hok.pop, hin.pop hok⟩

/-- Once `pop_next_full_image` has nothing to return, what was returned is what was expected. -/
theorem InOrder.mem_returned_iff {t : SyncTrace F} (h : InOrder sync t) (hok : EntriesOk sync t)
    (hone : OneSenderPerSlot sync t.delivered) (hdone : (popNextFullImage t.cache).2 = none)
    (id : ℕ) : id ∈ t.returned.map imageId ↔ Expected sync t.delivered id := by
  constructor
  · intro hid
    refine ⟨h.full id hid, fun id' hlt ⟨j, _, f, hf, _, hfid⟩ => ?_⟩
    rcases h.kept f hf with ⟨entry, hentry⟩ | hret
    · -- an image that is still being collected is larger than `id`
      rw [hfid] at hentry
      exact absurd (h.ahead id hid id' entry hentry) (Nat.not_lt.mpr hlt.le)
    · exact h.full id' (hfid ▸ hret)
  · rintro ⟨hall, hbefore⟩
    obtain ⟨j, hj⟩ := sync.exists_configured
    obtain ⟨f, hf, -, hfid⟩ := hall j hj
    rcases h.kept f hf with ⟨entry, hentry⟩ | hret
    · -- the image is being collected: the incomplete image in front of it contradicts `hbefore`
      rw [hfid] at hentry
      obtain ⟨id', entry', hle, hentry', hmask⟩ := (popNextFullImage_none hdone).2 id entry hentry
      obtain ⟨rest, hframes, -⟩ := (hok.entries id' entry' hentry').head
      have hmem : entry'.2 ∈ t.delivered.filter fun f => imageId f = id' := by
        rw [← h.frames id' entry' hentry', hframes]
        exact List.mem_cons_self
      obtain ⟨hmem, hid'⟩ := List.mem_filter.mp hmem
      have hall' : ∀ j, sync.newImageMask.test j = true → DeliveredBy sync t.delivered j id' := by
        rcases Nat.lt_or_eq_of_le hle with hlt | rfl
        · exact hbefore id' hlt ⟨_, hone.configured _ hmem, _, hmem, rfl, by simpa using hid'⟩
        · exact hall
      refine absurd (ModulesMask.eq_zero_iff.mpr fun j => ?_) hmask
      refine Bool.eq_false_iff.mpr fun hbit => ?_
      obtain ⟨hj, hmiss⟩ := ((hok.entries id' entry' hentry').mask j).mp hbit
      obtain ⟨g, hg, hslot, hgid⟩ := hall' j hj
      refine hmiss (List.mem_map.mpr ⟨g, ?_, hslot⟩)
      rw [h.frames id' entry' hentry']
      exact List.mem_filter.mpr ⟨hg, by simpa using hgid⟩
    · exact hfid ▸ hret

/-! ### Draining -/

omit [FrameType F] in
theorem popNextFullImage_size {cache : Cache F} {frame : F}
    (h : (popNextFullImage cache).2 = some frame) :
    (popNextFullImage cache).1.size < cache.size := by
  rw [popNextFullImage] at h ⊢
  split at h
  · cases h
  · next id mask first hfirst =>
    have hmem : id ∈ cache := Std.TreeMap.mem_iff_isSome_getElem?.mpr (by
      rw [(Std.TreeMap.first?_eq_some hfirst).1, Option.isSome_some])
    have hpos : cache.size ≠ 0 := fun h0 => by
      have := Std.TreeMap.isEmpty_eq_false_iff_exists_mem.mpr ⟨id, hmem⟩
      rw [Std.TreeMap.isEmpty_eq_size_eq_zero, h0] at this
      simp at this
    split at h
    · next hmask =>
      simp only [hmask, if_true, Std.TreeMap.size_erase, Std.TreeMap.contains_iff_mem.mpr hmem]
      omega
    · cases h

theorem keepingStep_pop (t : SyncTrace F) : KeepingStep sync t .pop (t.step sync .pop) :=
  ⟨trivial, rfl⟩

/-- Asking until nothing is returned takes finitely many calls. -/
theorem exists_drained (sync : Synchronizer) (t : SyncTrace F) :
    ∃ k u, Run (KeepingStep sync) t (List.replicate k .pop) u ∧
      (popNextFullImage u.cache).2 = none := by
  induction hn : t.cache.size using Nat.strong_induction_on generalizing t with
  | _ n ih =>
    cases hpop : (popNextFullImage t.cache).2 with
    | none => exact ⟨0, t, .nil, hpop⟩
    | some frame =>
      obtain ⟨k, u, hrun, hdone⟩ :=
        ih _ (hn ▸ popNextFullImage_size hpop) (t.step sync .pop) rfl
      exact ⟨k + 1, u, Run.cons_iff.mpr ⟨_, keepingStep_pop t, hrun⟩, hdone⟩

theorem delivered_of_pops {t u : SyncTrace F} {k : ℕ}
    (h : Run (KeepingStep sync) t (List.replicate k .pop) u) : u.delivered = t.delivered := by
  induction k generalizing t with
  | zero => rw [Run.nil_iff.mp h]
  | succ k ih =>
    obtain ⟨s, hstep, hrest⟩ := Run.cons_iff.mp h
    obtain rfl : t.step sync .pop = s := hstep.2
    rw [ih hrest]
    rfl

/-- **The images that are returned.** In every run without evictions, with one sender per slot
and `pop_next_full_image` called at any time: the ids returned so far increase; asking until
nothing comes takes finitely many calls; and then the ids returned are the expected ones, each
once and in increasing order. -/
theorem returned_exactly_expected {es : List (SyncEvent F)} {t : SyncTrace F}
    (hrun : Run (KeepingStep sync) start es t) (hone : OneSenderPerSlot sync t.delivered) :
    (t.returned.map imageId).Pairwise (· < ·) ∧
      (∃ k u, Run (KeepingStep sync) t (List.replicate k .pop) u ∧
        (popNextFullImage u.cache).2 = none) ∧
      ∀ k u, Run (KeepingStep sync) t (List.replicate k .pop) u →
        (popNextFullImage u.cache).2 = none →
          (u.returned.map imageId).Pairwise (· < ·) ∧
            ∀ id, id ∈ u.returned.map imageId ↔ Expected sync t.delivered id := by
  refine ⟨(inOrder_of_run hrun hone).2.increasing, exists_drained sync t,
    fun k u hpops hdone => ?_⟩
  have hdel := delivered_of_pops hpops
  rw [← hdel] at hone ⊢
  obtain ⟨hok, hin⟩ := inOrder_of_run (hrun.append hpops) hone
  exact ⟨hin.increasing, hin.mem_returned_iff hok hone hdone⟩

/-- Two modules, a queue of three images and no mask. -/
def twoModules : Synchronizer := .ofTwo 3 0#128

/-- Image 5 is complete, image 6 is not; the publishing thread asks twice. -/
def lateRun : List (SyncEvent EGFrame) :=
  [.process { common := ⟨5, 0, 0⟩ }, .process { common := ⟨6, 0, 0⟩ }, .pop,
    .process { common := ⟨5, 0, 1⟩ }, .pop]

theorem returned_exactly_expected_lateRun :
    ∃ t : SyncTrace EGFrame, Run (KeepingStep twoModules) start lateRun t ∧
      OneSenderPerSlot twoModules t.delivered ∧ t.returned = [{ common := ⟨5, 0, 0⟩ }] ∧
        (t.returned.map imageId).Pairwise (· < ·) := by
  have hrun : Run (KeepingStep twoModules) start lateRun
      (lateRun.foldl (SyncTrace.step twoModules) start) :=
    .cons_total (by decide) (.cons_total (by decide) (.cons_total (by decide)
      (.cons_total (by decide) (.cons_total (by decide) .nil))))
  have hone : OneSenderPerSlot twoModules
      (lateRun.foldl (SyncTrace.step twoModules) start).delivered := ⟨by decide, by decide⟩
  exact ⟨_, hrun, hone, by decide, (returned_exactly_expected hrun hone).1⟩

end ModuleSync

end StdDaq
