import StdDaq.StreamSync.Output

/-!
# The count of corrupted images of the stream service

`process_image_metadata` returns a number of corrupted images in both of its branches: the images
that a completed image discards, and the image that an overflow drops. The main loop gives the
number to the statistics only when an image is returned. An overflow belongs to a message that
returns no image, so what it drops is not reported. The same holds of an image whose id is
`INVALID_IMAGE_ID`: when it is complete it is returned, but the main loop cannot see that.

## Main results

* `reported_eq_removed_iff` — the runs in which as many images are reported as entries were removed
-/

namespace StdDaq

namespace StreamSync

open StreamSynchronizer

variable {sync : StreamSynchronizer}

/-- The message completes the image whose id the main loop takes for no image. -/
def CompletesInvalid (sync : StreamSynchronizer) (t : StreamTrace) (m : StreamMessage) : Prop :=
  m.imageId = invalidImageId ∧ countOf t.state m.imageId + 1 = sync.nParts

/-- The queue has room, and the image that is complete, if any, can be told from no image. -/
def Reportable (sync : StreamSynchronizer) (t : StreamTrace) (m : StreamMessage) : Prop :=
  QueueFits sync t m ∧ ¬ CompletesInvalid sync t m

instance (t : StreamTrace) (m : StreamMessage) : Decidable (CompletesInvalid sync t m) :=
  inferInstanceAs (Decidable (_ ∧ _))

instance (t : StreamTrace) (m : StreamMessage) : Decidable (Reportable sync t m) :=
  inferInstanceAs (Decidable (_ ∧ _))

/-- The main loop is running, and the queue and the cache belong together. -/
structure Running (sync : StreamSynchronizer) (t : StreamTrace) : Prop extends KeysOk t.state where
  alive : t.failure = none
  length_le : t.state.imageIdQueue.length ≤ sync.nImagesBuffer

theorem running_start : Running sync .start where
  toKeysOk := (show WellFormed sync State.empty from wellFormed_empty).toKeysOk
  alive := rfl
  length_le := Nat.zero_le _

section Step

variable {t : StreamTrace} {m : StreamMessage}

/-- The entry a message makes, and the one it drops when the queue has no room. -/
theorem length_arrive (sync : StreamSynchronizer) (t : StreamTrace) (m : StreamMessage) :
    (sync.arrive t.state m.imageId).1.imageIdQueue.length +
        (if QueueFits sync t m then 0 else 1) =
      t.state.imageIdQueue.length + if isNewImage t.state m.imageId then 1 else 0 := by
  by_cases hnew : isNewImage t.state m.imageId = true
  · have hlong : sync.isQueueTooLong (enqueue t.state m.imageId) = true ↔ ¬ QueueFits sync t m := by
      rw [isQueueTooLong, enqueue, decide_eq_true_iff, QueueFits, List.length_append,
        List.length_singleton]
      simp only [hnew, forall_const]
      omega
    rw [arrive, if_pos hnew, if_pos hnew, pushNewImageToQueue]
    by_cases hfits : QueueFits sync t m
    · rw [if_neg (mt hlong.mp (not_not_intro hfits)), if_pos hfits]
      exact List.length_append
    · rw [if_pos (hlong.mpr hfits), if_neg hfits, dropOldestIncompleteImage, enqueue]
      cases t.state.imageIdQueue with
      | nil => rfl
      | cons front rest =>
        rw [List.cons_append]
        simp only [List.length_append, List.length_cons, List.length_nil]
  · rw [arrive, if_neg hnew, if_neg hnew, if_pos (show QueueFits sync t m from (absurd · hnew))]

theorem Running.step (h : Running sync t) (hbuffer : 1 ≤ sync.nImagesBuffer) :
    Running sync (t.step sync m) := by
  obtain ⟨q', result, hok, hkeys, hlen⟩ := h.toKeysOk.process h.length_le hbuffer m.imageId
  rw [StreamTrace.step, h.alive, hok]
  dsimp only
  split
  · exact ⟨hkeys, rfl, hlen⟩
  · exact ⟨hkeys, rfl, hlen⟩

/-- **One message.** What it removes and does not report is what an overflow drops, and everything
that goes with an image that cannot be told from no image. -/
theorem removed_step (h : Running sync t) (hbuffer : 1 ≤ sync.nImagesBuffer) :
    ∃ silent, (t.step sync m).removed + t.reported =
        (t.step sync m).reported + t.removed + silent ∧
      (silent = 0 ↔ Reportable sync t m) := by
  have hlength := length_arrive sync t m
  have hdropped : (if QueueFits sync t m then 0 else 1) = 0 ↔ QueueFits sync t m := by
    by_cases hfits : QueueFits sync t m <;> simp [hfits]
  obtain ⟨stale, rest, cache, hfull, hqueue, hok, -⟩ | ⟨cache, hwait, hok, -⟩ :=
    processImageMetadata_cases (h.toKeysOk.arrive h.length_le hbuffer m.imageId)
  · rw [hqueue, List.length_append, List.length_cons] at hlength
    rw [StreamTrace.step, h.alive, hok]
    dsimp only
    by_cases hinvalid : m.imageId = invalidImageId
    · refine ⟨(if QueueFits sync t m then 0 else 1) + stale.length + 1, ?_, ?_⟩
      · rw [if_neg (not_not_intro hinvalid)]
        dsimp only
        omega
      · exact iff_of_false (by omega) fun hrep => hrep.2 ⟨hinvalid, hfull⟩
    · refine ⟨if QueueFits sync t m then 0 else 1, ?_, ?_⟩
      · rw [if_pos hinvalid]
        dsimp only
        omega
      · rw [hdropped]
        exact (and_iff_left fun hcomplete => hinvalid hcomplete.1).symm
  · rw [StreamTrace.step, h.alive, hok]
    refine ⟨if QueueFits sync t m then 0 else 1, ?_, ?_⟩
    · dsimp only
      rw [if_neg (not_not_intro rfl)]
      dsimp only
      omega
    · rw [hdropped]
      exact (and_iff_left fun hcomplete => hwait hcomplete.2).symm

end Step

/-! ### Runs -/

theorem running_of_run {messages : List StreamMessage} {t : StreamTrace}
    (hbuffer : 1 ≤ sync.nImagesBuffer)
    (hrun : Run (Steps.total (StreamTrace.step sync)) .start messages t) : Running sync t := by
  refine hrun.invariant (fun t m u h hstep => ?_) running_start
  obtain rfl : t.step sync m = u := hstep
  exact h.step hbuffer

/-- Never more is reported than was removed. -/
theorem reported_le_removed {messages : List StreamMessage} {t : StreamTrace}
    (hbuffer : 1 ≤ sync.nImagesBuffer)
    (hrun : Run (Steps.total (StreamTrace.step sync)) .start messages t) :
    t.reported ≤ t.removed := by
  induction hrun with
  | nil => exact le_rfl
  | @snoc messages t u m hrun hstep ih =>
    obtain rfl : t.step sync m = u := hstep
    obtain ⟨silent, hremoved, -⟩ := removed_step (m := m) (running_of_run hbuffer hrun) hbuffer
    omega

/-- **The reports are right** after a run exactly when the queue had room for every message of the
run, and no message completed the image whose id is the one for no image. -/
theorem reported_eq_removed_iff {messages : List StreamMessage} {t : StreamTrace}
    (hbuffer : 1 ≤ sync.nImagesBuffer)
    (hrun : Run (Steps.total (StreamTrace.step sync)) .start messages t) :
    t.reported = t.removed ↔
      Run (Restrict (Reportable sync) (Steps.total (StreamTrace.step sync))) .start messages t := by
  refine holds_iff_restrict (Q := fun t : StreamTrace => t.reported = t.removed) hrun rfl
    fun messages t m hrun => ?_
  have hle := reported_le_removed hbuffer hrun
  obtain ⟨silent, hremoved, hsilent⟩ := removed_step (m := m) (running_of_run hbuffer hrun) hbuffer
  rw [← hsilent]
  omega

/-- The synchronizer of the service, as `main` constructs it. -/
def service (parts : ℕ) : StreamSynchronizer := ⟨parts, 1000⟩

/-- Two parts. The first image loses one of them and is discarded. -/
def discardRun : List StreamMessage := [⟨0, 1⟩, ⟨0, 2⟩, ⟨1, 2⟩]

theorem reported_eq_removed_discard :
    (discardRun.foldl (StreamTrace.step (service 2)) .start).reported =
        (discardRun.foldl (StreamTrace.step (service 2)) .start).removed ∧
      (discardRun.foldl (StreamTrace.step (service 2)) .start).removed = 1 :=
  ⟨(reported_eq_removed_iff (by decide) (run_total_iff.mpr rfl)).mpr
    (.cons_total (by decide) (.cons_total (by decide) (.cons_total (by decide) .nil))), by decide⟩

/-! ### A second sender that is silent -/

/-- The first sender announces `n` images, and the second none. -/
def silentRun (n : ℕ) : List StreamMessage := (List.range n).map fun id => ⟨0, id⟩

/-- Until the queue is full, the images wait in it. -/
theorem silentRun_queue {n : ℕ} (hn : n ≤ 1000) :
    ((silentRun n).foldl (StreamTrace.step (service 2)) .start).state.imageIdQueue =
      List.range n := by
  induction n with
  | zero => rfl
  | succ n ih =>
    have hqueue := ih (by omega)
    have hrun : Running (service 2) ((silentRun n).foldl (StreamTrace.step (service 2)) .start) :=
      running_of_run (by decide) (run_total_iff.mpr rfl)
    rw [silentRun, List.range_succ, List.map_append, ← silentRun, List.foldl_append]
    generalize (silentRun n).foldl (StreamTrace.step (service 2)) .start = t at hqueue hrun
    have hnew : isNewImage t.state n = true := by
      rw [isNewImage_iff, ← hrun.not_mem_iff, hqueue]
      exact List.not_mem_range_self
    have hfits : isNewImage t.state n = true →
        t.state.imageIdQueue.length < (service 2).nImagesBuffer := by
      rw [hqueue, List.length_range]
      exact fun _ => hn
    have harrive : (service 2).arrive t.state n = (enqueue t.state n, 0) := by
      rw [arrive_of_fits hfits, if_pos hnew]
    change (t.step (service 2) ⟨0, n⟩).state.imageIdQueue = _
    rcases processImageMetadata_cases (hrun.toKeysOk.arrive hrun.length_le (by decide) n) with
      ⟨-, -, -, hfull, -⟩ | ⟨cache, -, hok, -⟩
    · rw [countOf, isNewImage_iff.mp hnew] at hfull
      exact absurd hfull (by decide)
    · rw [StreamTrace.step, hrun.alive, hok, harrive]
      dsimp only
      rw [if_neg (not_not_intro rfl), enqueue, hqueue]

/-- Nobody hears of the image that the next message drops. -/
theorem reported_ne_removed :
    ¬ ∀ (messages : List StreamMessage) (t : StreamTrace),
      Run (Steps.total (StreamTrace.step (service 2))) .start messages t →
        t.reported = t.removed := by
  intro h
  have hrun : Run (Steps.total (StreamTrace.step (service 2))) .start (silentRun 1000)
      ((silentRun 1000).foldl (StreamTrace.step (service 2)) .start) := run_total_iff.mpr rfl
  have hqueue := silentRun_queue (le_refl 1000)
  generalize (silentRun 1000).foldl (StreamTrace.step (service 2)) .start = t at hrun hqueue
  have hbuffer : 1 ≤ (service 2).nImagesBuffer := by decide
  have hrunning := running_of_run hbuffer hrun
  obtain ⟨silent, hremoved, hsilent⟩ := removed_step (m := ⟨0, 1000⟩) hrunning hbuffer
  have heq := h _ _ hrun
  have heq' := h _ _ (hrun.snoc (e := ⟨0, 1000⟩) rfl)
  obtain ⟨hfits, -⟩ := hsilent.mp (by omega)
  have hnew : isNewImage t.state 1000 = true := by
    rw [isNewImage_iff, ← hrunning.not_mem_iff, hqueue]
    exact List.not_mem_range_self
  have hlen := hfits hnew
  rw [hqueue, List.length_range] at hlen
  exact absurd hlen (by decide)

end StreamSync

end StdDaq
