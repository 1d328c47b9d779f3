import StdDaq.ModuleSync.Accounting
import StdDaq.ModuleSync.Order
import StdDaq.ModuleSync.Output

/-!
# Making room in the module synchronizer

The queue of the module synchronizer is bounded. A frame that opens an entry while the queue is too
long first erases the image with the smallest id. This is meant for an image that lost a module:
the images behind it wait until it has gone. But `push_new_image_to_queue` does not look at the
mask. When the sending thread is late, the smallest image can be complete, and it is lost although
all of its modules have arrived.

Everything else keeps completed images. A frame that joins an entry can only complete it, since a
slot that has delivered an image does not deliver it again, and `pop_next_full_image` returns what
it removes. So whether a run loses a completed image is a question of scheduling alone. The queue
holds at most one image more than its bound. After a `pop_next_full_image` it is still too long
only if nothing was returned, and then the smallest image is incomplete. So it is enough that the
sending thread looks once between the last frame and the frame that makes room.

## Main results

* `keepsCompleted_run_iff` — a run loses no completed image if and only if no completed image is
  first whenever room is made
* `completed_kept` — a run loses no completed image if the sending thread has looked since the
  frame before whenever room is made
-/

namespace StdDaq

namespace ModuleSync

open SyncTrace Synchronizer

variable {F : Type} [FrameType F] {sync : Synchronizer}

/-- The frames come from configured slots, and each slot delivers an image at most once. -/
structure OnceFromConfigured (sync : Synchronizer) (frames : List F) : Prop where
  once : AtMostOnce sync frames
  configured : ∀ frame ∈ frames, sync.newImageMask.test (sync.slot frame) = true

theorem OnceFromConfigured.init {frames : List F} {frame : F}
    (h : OnceFromConfigured sync (frames ++ [frame])) : OnceFromConfigured sync frames :=
  ⟨h.once.init, fun f hf => h.configured f (List.mem_append_left _ hf)⟩

/-- An operation keeps completed images: processing a frame leaves every entry with an empty mask
as it is, and `pop_next_full_image` removes only a completed image that it returns. -/
def KeepsCompleted (sync : Synchronizer) (t : SyncTrace F) : SyncEvent F → Prop
  | .process frame => ∀ (id : ℕ) first, t.cache[id]? = some (0#128, first) →
      (sync.processImageMetadata t.cache frame).1[id]? = some (0#128, first)
  | .pop => ∀ (id : ℕ) entry, t.cache[id]? = some entry →
      (popNextFullImage t.cache).1[id]? = some entry ∨
        entry.1 = 0#128 ∧ (popNextFullImage t.cache).2 = some entry.2

/-- The sending thread has caught up when room is made: at a frame that opens an entry while the
queue is too long, `pop_next_full_image` would return nothing. -/
def CaughtUp (sync : Synchronizer) (t : SyncTrace F) : SyncEvent F → Prop
  | .process frame => isNewImage t.cache (imageId frame) = true →
      sync.isQueueTooLong t.cache = true → (popNextFullImage t.cache).2 = none
  | .pop => True

omit [FrameType F] in
/-- `pop_next_full_image` removes what it returns. -/
theorem popNextFullImage_keeps {cache : Cache F} {id : ℕ} {entry : ModulesMask × F}
    (hget : cache[id]? = some entry) :
    (popNextFullImage cache).1[id]? = some entry ∨
      entry.1 = 0#128 ∧ (popNextFullImage cache).2 = some entry.2 := by
  cases hpop : (popNextFullImage cache).2 with
  | none =>
    rw [(popNextFullImage_none hpop).1]
    exact .inl hget
  | some frame =>
    obtain ⟨first, hfirst, -, hrest⟩ := popNextFullImage_some hpop
    rw [hrest id]
    by_cases hid : id = first
    · subst hid
      obtain rfl := Option.some.inj (hfirst.symm.trans hget)
      exact .inr ⟨rfl, rfl⟩
    · rw [if_neg hid]
      exact .inl hget

omit [FrameType F] in
/-- Making room in a queue that is too long removes a completed image exactly when
`pop_next_full_image` would have returned one. -/
theorem makeRoom_keeps_iff {cache : Cache F} (hlong : sync.isQueueTooLong cache = true) :
    (∀ (id : ℕ) first, cache[id]? = some (0#128, first) →
      (sync.makeRoom cache)[id]? = some (0#128, first)) ↔ (popNextFullImage cache).2 = none := by
  rw [makeRoom, if_pos hlong, Std.TreeMap.eraseFirst, popNextFullImage]
  cases hfirst : cache.first? with
  | none => exact ⟨fun _ => rfl, fun _ _ _ h => h⟩
  | some entry =>
    obtain ⟨id, mask, frame⟩ := entry
    obtain ⟨hget, -⟩ := Std.TreeMap.first?_eq_some hfirst
    simp only [Std.TreeMap.getElem?_erase_nat]
    by_cases hmask : mask = 0#128
    · -- the first entry is completed, and it is the one that is erased
      subst hmask
      simp only [if_true, reduceCtorEq, iff_false]
      intro hkeep
      have := hkeep id frame hget
      rw [if_pos rfl] at this
      cases this
    · simp only [hmask, if_false, iff_true]
      intro id' first hget'
      have hne : id' ≠ id := by
        rintro rfl
        exact hmask (congrArg Prod.fst (Option.some.inj (hget.symm.trans hget')))
      rw [if_neg hne]
      exact hget'

/-- A frame of an image that has an entry keeps completed images: a slot that has delivered an
image does not deliver it again. -/
theorem keepsCompleted_of_entry {t : SyncTrace F} (hok : EntriesOk sync t)
    (hdel : ∀ id, ∀ f ∈ t.entryFrames id, f ∈ t.delivered) {frame : F}
    (honce : OnceFromConfigured sync (t.delivered ++ [frame])) {entry : ModulesMask × F}
    (hold : t.cache[imageId frame]? = some entry) : KeepsCompleted sync t (.process frame) := by
  intro id first hget
  obtain ⟨mask, stored⟩ := entry
  have hentry := hok.entries _ _ hold
  have hbit : mask.test (sync.slot frame) = true := by
    refine (hentry.mask _).mpr ⟨honce.configured frame (by simp), fun hmem => ?_⟩
    obtain ⟨f, hf, hslot⟩ := List.mem_map.mp hmem
    exact honce.once.last ⟨f, hdel _ f hf, hslot, hentry.image f hf⟩
  rw [processImageMetadata_update hold hbit]
  have hne : id ≠ imageId frame := by
    rintro rfl
    obtain rfl := congrArg Prod.fst (Option.some.inj (hget.symm.trans hold))
    rw [ModulesMask.eq_zero_iff.mp rfl] at hbit
    cases hbit
  rw [if_neg hne]
  exact hget

/-- A frame that opens an entry keeps the completed images that making room keeps. -/
theorem keepsCompleted_new_iff {t : SyncTrace F} {frame : F}
    (hnew : t.cache[imageId frame]? = none) :
    KeepsCompleted sync t (.process frame) ↔
      ∀ (id : ℕ) first, t.cache[id]? = some (0#128, first) →
        (sync.makeRoom t.cache)[id]? = some (0#128, first) := by
  refine forall₃_congr fun id first hget => ?_
  have hne : id ≠ imageId frame := by
    rintro rfl
    rw [hnew] at hget
    cases hget
  rw [processImageMetadata_new hnew, if_neg hne]

/-- One operation loses no completed image exactly when the sending thread has caught up. -/
theorem keepsCompleted_iff_caughtUp {t : SyncTrace F} {e : SyncEvent F} (hok : EntriesOk sync t)
    (hdel : ∀ id, ∀ f ∈ t.entryFrames id, f ∈ t.delivered)
    (honce : OnceFromConfigured sync (t.step sync e).delivered) :
    KeepsCompleted sync t e ↔ CaughtUp sync t e := by
  cases e with
  | pop => exact ⟨fun _ => trivial, fun _ id entry hget => popNextFullImage_keeps hget⟩
  | process frame =>
    cases hold : t.cache[imageId frame]? with
    | some entry =>
      refine ⟨fun _ hnew => ?_, fun _ => keepsCompleted_of_entry hok hdel honce hold⟩
      rw [isNewImage, hold] at hnew
      cases hnew
    | none =>
      rw [keepsCompleted_new_iff hold, CaughtUp, isNewImage, hold]
      simp only [Option.isNone_none, forall_const]
      cases hlong : sync.isQueueTooLong t.cache with
      | true => simpa using makeRoom_keeps_iff hlong
      | false =>
        rw [makeRoom_of_not_tooLong hlong]
        simp

/-- The frames delivered before a step are among those delivered after it. -/
theorem OnceFromConfigured.of_step {t : SyncTrace F} {e : SyncEvent F}
    (h : OnceFromConfigured sync (t.step sync e).delivered) :
    OnceFromConfigured sync t.delivered := by
  cases e with
  | process frame => exact h.init
  | pop => exact h

/-- A run loses no completed image if and only if the sending thread has caught up whenever room is
made. -/
theorem keepsCompleted_run_iff {es : List (SyncEvent F)} {t : SyncTrace F}
    (hrun : Run (Steps.total (SyncTrace.step sync)) start es t)
    (honce : OnceFromConfigured sync t.delivered) :
    Run (Restrict (KeepsCompleted sync) (Steps.total (SyncTrace.step sync))) start es t ↔
      Run (Restrict (CaughtUp sync) (Steps.total (SyncTrace.step sync))) start es t := by
  induction hrun with
  | nil => exact ⟨fun _ => .nil, fun _ => .nil⟩
  | @snoc es t u e hrun hstep ih =>
    obtain rfl : t.step sync e = u := hstep
    have hiff : KeepsCompleted sync t e ↔ CaughtUp sync t e :=
      keepsCompleted_iff_caughtUp (entriesOk_of_run hrun) (fun _ _ => delivered_of_run hrun) honce
    -- a total function has one run over `es`, so the step is taken in the state `t`
    rw [restrict_total_snoc_iff hrun, restrict_total_snoc_iff hrun, ih honce.of_step, hiff]

/-! ### The schedule -/

/-- The queue holds at most one image more than its bound. -/
theorem size_le_of_run {es : List (SyncEvent F)} {t : SyncTrace F}
    (hrun : Run (Steps.total (SyncTrace.step sync)) start es t) :
    t.cache.size ≤ sync.nImagesBuffer + 1 := by
  refine hrun.invariant (P := fun t => t.cache.size ≤ sync.nImagesBuffer + 1) ?_ (Nat.zero_le _)
  rintro t e _ hsize rfl
  cases e with
  | process frame =>
    change (sync.processImageMetadata t.cache frame).1.size ≤ _
    cases hold : t.cache[imageId frame]? with
    | none =>
      rw [(processImageMetadata_new_size sync hold).1]
      split <;> omega
    | some entry =>
      have := processImageMetadata_old_size sync hold
      omega
  | pop =>
    change (popNextFullImage t.cache).1.size ≤ _
    cases hpop : (popNextFullImage t.cache).2 with
    | none => rwa [(popNextFullImage_none hpop).1]
    | some frame => exact (popNextFullImage_size hpop).le.trans hsize

/-- After a `pop_next_full_image` the sending thread has caught up: a queue that is still too long
was not popped from, and its first image is incomplete. -/
theorem caughtUp_pop {t : SyncTrace F} (hsize : t.cache.size ≤ sync.nImagesBuffer + 1)
    (frame : F) : CaughtUp sync (t.step sync .pop) (.process frame) := by
  rintro - hlong
  change sync.isQueueTooLong (popNextFullImage t.cache).1 = true at hlong
  change (popNextFullImage (popNextFullImage t.cache).1).2 = none
  cases hpop : (popNextFullImage t.cache).2 with
  | none => rwa [(popNextFullImage_none hpop).1]
  | some popped =>
    have := popNextFullImage_size hpop
    have := of_decide_eq_true hlong
    omega

/-- The sending thread looks before room is made: when a frame opens an entry while the queue is
too long, the last call before it was a `pop_next_full_image`. -/
def PolledBeforeRoom (sync : Synchronizer) (before : List (SyncEvent F)) (t : SyncTrace F) :
    SyncEvent F → Prop
  | .process frame => isNewImage t.cache (imageId frame) = true →
      sync.isQueueTooLong t.cache = true → before.getLast? = some .pop
  | .pop => True

/-- A sending thread that looks before room is made has caught up whenever room is made. -/
theorem caughtUp_of_polled {es : List (SyncEvent F)} {t : SyncTrace F}
    (hrun : Run (Steps.total (SyncTrace.step sync)) start es t)
    (hpolled : Throughout (PolledBeforeRoom sync) (Steps.total (SyncTrace.step sync)) start es) :
    Run (Restrict (CaughtUp sync) (Steps.total (SyncTrace.step sync))) start es t := by
  induction hrun with
  | nil => exact .nil
  | @snoc es t u e hrun hstep ih =>
    obtain ⟨hes, hlast⟩ := throughout_snoc_iff.mp hpolled
    refine (ih hes).snoc ⟨?_, hstep⟩
    cases e with
    | pop => exact trivial
    | process frame =>
      intro hnew hlong
      obtain ⟨before, rfl⟩ := List.getLast?_eq_some_iff.mp (hlast t hrun hnew hlong)
      obtain ⟨t', hbefore, rfl⟩ := Run.snoc_iff.mp hrun
      exact caughtUp_pop (size_le_of_run hbefore) frame hnew hlong

/-- **No completed image is lost when the sending thread looks before room is made.** For every
run, that is every interleaving of the two threads, in which the frames come from configured slots
and no slot delivers an image twice. -/
theorem completed_kept {es : List (SyncEvent F)} {t : SyncTrace F}
    (hrun : Run (Steps.total (SyncTrace.step sync)) start es t)
    (honce : OnceFromConfigured sync t.delivered)
    (hpolled : Throughout (PolledBeforeRoom sync) (Steps.total (SyncTrace.step sync)) start es) :
    Run (Restrict (KeepsCompleted sync) (Steps.total (SyncTrace.step sync))) start es t :=
  (keepsCompleted_run_iff hrun honce).mpr (caughtUp_of_polled hrun hpolled)

/-- Two modules and a queue of one image. -/
def twoModulesShortQueue : Synchronizer := .ofTwo 1 0#128

/-- Image 1 loses a module, and image 2 is completed while it waits. The sending thread looks, and
image 3 makes room. -/
def lostModuleRun : List (SyncEvent EGFrame) :=
  [.process { common := ⟨1, 0, 0⟩ }, .process { common := ⟨2, 0, 0⟩ },
    .process { common := ⟨2, 0, 1⟩ }, .pop, .process { common := ⟨3, 0, 0⟩ }, .pop]

theorem completed_kept_lostModule :
    ∃ t : SyncTrace EGFrame,
      Run (Steps.total (SyncTrace.step twoModulesShortQueue)) start lostModuleRun t ∧
      OnceFromConfigured twoModulesShortQueue t.delivered ∧
      Throughout (PolledBeforeRoom twoModulesShortQueue)
        (Steps.total (SyncTrace.step twoModulesShortQueue)) start lostModuleRun ∧
      t.dropped = 1 ∧ t.returned.map imageId = [2] ∧
      Run (Restrict (KeepsCompleted twoModulesShortQueue)
        (Steps.total (SyncTrace.step twoModulesShortQueue))) start lostModuleRun t := by
  have hrun : Run (Steps.total (SyncTrace.step twoModulesShortQueue)) start lostModuleRun
      (lostModuleRun.foldl (SyncTrace.step twoModulesShortQueue) start) := run_total_iff.mpr rfl
  have honce : OnceFromConfigured twoModulesShortQueue
      (lostModuleRun.foldl (SyncTrace.step twoModulesShortQueue) start).delivered :=
    ⟨by rw [AtMostOnce]; decide, by decide⟩
  have hpolled : Throughout (PolledBeforeRoom twoModulesShortQueue)
      (Steps.total (SyncTrace.step twoModulesShortQueue)) start lostModuleRun :=
    (((((throughout_nil.snoc_total fun _ hlong => absurd hlong (by decide)).snoc_total
      fun _ hlong => absurd hlong (by decide)).snoc_total
      fun hnew => absurd hnew (by decide)).snoc_total trivial).snoc_total
      fun _ _ => rfl).snoc_total trivial
  exact ⟨_, hrun, honce, hpolled, by decide, by decide, completed_kept hrun honce hpolled⟩

/-- One module and a queue of one image. -/
def oneModuleShortQueue : Synchronizer := .ofOne 1 0#128

/-- Three images arrive, each complete, before the sending thread looks. -/
def lateSendingRun : List (SyncEvent EGFrame) :=
  [.process { common := ⟨1, 0, 0⟩ }, .process { common := ⟨2, 0, 0⟩ }] ++
    [.process { common := ⟨3, 0, 0⟩ }]

/-- The third image makes room by erasing the first, which is complete. -/
theorem completed_not_kept :
    ¬ ∀ (sync : Synchronizer) (es : List (SyncEvent EGFrame)) (t : SyncTrace EGFrame),
      Run (Steps.total (SyncTrace.step sync)) start es t → OnceFromConfigured sync t.delivered →
        Run (Restrict (KeepsCompleted sync) (Steps.total (SyncTrace.step sync))) start es t := by
  intro h
  have hrun : Run (Steps.total (SyncTrace.step oneModuleShortQueue)) start lateSendingRun
      (lateSendingRun.foldl (SyncTrace.step oneModuleShortQueue) start) := run_total_iff.mpr rfl
  have hkeeps := h oneModuleShortQueue _ _ hrun ⟨by rw [AtMostOnce]; decide, by decide⟩
  obtain ⟨u, hfirst, hkeep, -⟩ := Run.snoc_iff.mp hkeeps
  obtain rfl := run_total_iff.mp (hfirst.mono fun _ _ _ hstep => hstep.2)
  exact absurd (hkeep 1 { common := ⟨1, 0, 0⟩ } (by decide)) (by decide)

end ModuleSync

end StdDaq
