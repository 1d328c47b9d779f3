import StdDaq.StreamSync.Synchronizer

/-!
# The images the stream synchronizer passes on

Each sender announces its part of an image once, in increasing order of the ids, and it may miss
images. However the streams of announcements interleave, the synchronizer passes on exactly the
images that all senders announced, in increasing order, as long as the queue has room.

Completing an image throws away what stands before it in the queue, and the queue is in the order
of first announcements, not of ids. What justifies this is that if `y` stands before `z`, then
some sender announced `y` and did not announce `z` before. When `z` is complete that sender has
announced `z` after `y`, so `y < z`, and every sender is past `y`: nobody who has not announced
`y` ever will.
-/

namespace StdDaq

namespace StreamSync

open StreamSynchronizer

variable {sync : StreamSynchronizer}

/-- Sender `s` announced image `id`. -/
def Announced (messages : List StreamMessage) (s id : ℕ) : Prop :=
  ∃ m ∈ messages, m.stream = s ∧ m.imageId = id

/-- The messages are an interleaving of `n_parts` streams, each with strictly increasing image ids,
none of which is the invalid id. -/
structure Interleaving (sync : StreamSynchronizer) (messages : List StreamMessage) : Prop where
  stream_lt : ∀ m ∈ messages, m.stream < sync.nParts
  valid : ∀ m ∈ messages, m.imageId ≠ invalidImageId
  increasing : messages.Pairwise fun m m' => m.stream = m'.stream → m.imageId < m'.imageId

/-- The message leaves the queue with at most `n_images_buffer` ids. -/
def QueueFits (sync : StreamSynchronizer) (t : StreamTrace) (m : StreamMessage) : Prop :=
  isNewImage t.state m.imageId = true → t.state.imageIdQueue.length + 1 ≤ sync.nImagesBuffer

instance (t : StreamTrace) (m : StreamMessage) : Decidable (QueueFits sync t m) :=
  inferInstanceAs (Decidable (_ → _))

/-- The turns of the main loop in which the queue has room. -/
def FittingStep (sync : StreamSynchronizer) :
    StreamTrace → StreamMessage → StreamTrace → Prop :=
  Restrict (QueueFits sync) (Steps.total (StreamTrace.step sync))

/-! ### Announcements -/

section Announcements

variable {messages : List StreamMessage} {m : StreamMessage} {s id : ℕ}

theorem Announced.append (h : Announced messages s id) : Announced (messages ++ [m]) s id := by
  obtain ⟨m', hm', h⟩ := h
  exact ⟨m', List.mem_append_left _ hm', h⟩

theorem announced_snoc :
    Announced (messages ++ [m]) s id ↔ Announced messages s id ∨ m.stream = s ∧ m.imageId = id := by
  simp [Announced, or_and_right, exists_or]

theorem Interleaving.init (h : Interleaving sync (messages ++ [m])) :
    Interleaving sync messages where
  stream_lt m' hm' := h.stream_lt m' (List.mem_append_left _ hm')
  valid m' hm' := h.valid m' (List.mem_append_left _ hm')
  increasing := (List.pairwise_append.mp h.increasing).1

theorem Interleaving.last_lt (h : Interleaving sync (messages ++ [m])) :
    m.stream < sync.nParts :=
  h.stream_lt m (List.mem_append_right _ (List.mem_singleton.mpr rfl))

theorem Interleaving.last_valid (h : Interleaving sync (messages ++ [m])) :
    m.imageId ≠ invalidImageId :=
  h.valid m (List.mem_append_right _ (List.mem_singleton.mpr rfl))

/-- A message is newer than everything its stream announced before. -/
theorem Interleaving.newer (h : Interleaving sync (messages ++ [m]))
    (hann : Announced messages m.stream id) : id < m.imageId := by
  obtain ⟨m', hm', hstream, rfl⟩ := hann
  exact (List.pairwise_append.mp h.increasing).2.2 m' hm' m (List.mem_singleton.mpr rfl) hstream

/-- The senders that announced an image, in the order in which they did. -/
def senders (messages : List StreamMessage) (id : ℕ) : List ℕ :=
  (messages.filter fun m => m.imageId = id).map StreamMessage.stream

theorem mem_senders : s ∈ senders messages id ↔ Announced messages s id := by
  simp only [senders, Announced, List.mem_map, List.mem_filter, decide_eq_true_eq]
  exact ⟨fun ⟨m, ⟨hm, hid⟩, hs⟩ => ⟨m, hm, hs, hid⟩, fun ⟨m, hm, hs, hid⟩ => ⟨m, ⟨hm, hid⟩, hs⟩⟩

theorem senders_snoc :
    senders (messages ++ [m]) id =
      senders messages id ++ if m.imageId = id then [m.stream] else [] := by
  rw [senders, List.filter_append, List.map_append, ← senders, List.filter_singleton]
  by_cases hid : m.imageId = id <;> simp [hid]

/-- No sender announces an image twice. -/
theorem Interleaving.senders_nodup (h : Interleaving sync messages) (id : ℕ) :
    (senders messages id).Nodup := by
  rw [senders, List.Nodup, List.pairwise_map]
  refine (h.increasing.filter _).imp_of_mem fun {m m'} hm hm' hlt hstream => ?_
  have hid : m.imageId = id := of_decide_eq_true (List.mem_filter.mp hm).2
  have hid' : m'.imageId = id := of_decide_eq_true (List.mem_filter.mp hm').2
  have := hlt hstream
  omega

/-- An image has been announced `n_parts` times when every sender has announced it. -/
theorem Interleaving.length_senders_iff (h : Interleaving sync messages) :
    (senders messages id).length = sync.nParts ↔ ∀ s < sync.nParts, Announced messages s id := by
  have hcard := List.toFinset_card_of_nodup (h.senders_nodup id)
  have hsub : (senders messages id).toFinset ⊆ Finset.range sync.nParts := by
    intro s hs
    obtain ⟨m, hm, rfl, -⟩ := mem_senders.mp (List.mem_toFinset.mp hs)
    exact Finset.mem_range.mpr (h.stream_lt m hm)
  constructor
  · intro hlen s hs
    have heq := Finset.eq_of_subset_of_card_le hsub (by rw [Finset.card_range, hcard, hlen])
    exact mem_senders.mp (List.mem_toFinset.mp (heq ▸ Finset.mem_range.mpr hs))
  · intro hall
    have heq : (senders messages id).toFinset = Finset.range sync.nParts :=
      hsub.antisymm fun s hs =>
        List.mem_toFinset.mpr (mem_senders.mpr (hall s (Finset.mem_range.mp hs)))
    rw [← hcard, heq, Finset.card_range]

end Announcements

/-! ### What ties the queue to the announcements -/

/-- `y` was first announced before `z`: some sender announced `y`, and `z` only after it. -/
def FirstAnnounced (messages : List StreamMessage) (y z : ℕ) : Prop :=
  ∃ s, Announced messages s y ∧ (Announced messages s z → y < z)

/-- The image is over: a larger one has been passed on, and some sender skipped it. -/
def Missed (sync : StreamSynchronizer) (t : StreamTrace) (id : ℕ) : Prop :=
  (∃ z ∈ t.sent, id < z) ∧ ∃ s < sync.nParts, ¬ Announced t.delivered s id

/-- The invariant of a run in which the queue has room. -/
structure Merging (sync : StreamSynchronizer) (t : StreamTrace) : Prop where
  /-- Nothing has failed. -/
  alive : t.failure = none
  wellFormed : WellFormed sync t.state
  /-- The count of an image is the number of its messages. -/
  counts : ∀ (id : ℕ) count, t.state.metaCache[id]? = some count →
    count = (senders t.delivered id).length
  /-- An announced image is being collected, was passed on, or is over. -/
  settled : ∀ s id, Announced t.delivered s id →
    id ∈ t.state.imageIdQueue ∨ id ∈ t.sent ∨ Missed sync t id
  /-- What was passed on was announced by everyone. -/
  full : ∀ z ∈ t.sent, ∀ s < sync.nParts, Announced t.delivered s z
  /-- Images are passed on in increasing order. -/
  increasing : t.sent.Pairwise (· < ·)
  /-- The queue is in the order of first announcements. -/
  order : t.state.imageIdQueue.Pairwise (FirstAnnounced t.delivered)

theorem merging_start : Merging sync .start where
  alive := rfl
  wellFormed := wellFormed_empty
  counts := by simp [StreamTrace.start, State.empty]
  settled := by simp [StreamTrace.start, Announced]
  full := by simp [StreamTrace.start]
  increasing := by simp [StreamTrace.start]
  order := by simp [StreamTrace.start, State.empty]

section Step

variable {t : StreamTrace} {m : StreamMessage}

/-- Everything passed on before is older than a message that arrives now. -/
theorem Merging.sent_lt (h : Merging sync t) (hm : Interleaving sync (t.delivered ++ [m])) {z : ℕ}
    (hz : z ∈ t.sent) : z < m.imageId :=
  hm.newer (h.full z hz m.stream hm.last_lt)

/-- A message of an image without an entry is the first message of that image: late messages do
not exist. -/
theorem Merging.not_announced (h : Merging sync t) (hm : Interleaving sync (t.delivered ++ [m]))
    (hnew : isNewImage t.state m.imageId = true) (s : ℕ) :
    ¬ Announced t.delivered s m.imageId := by
  intro hann
  rcases h.settled s m.imageId hann with hqueue | hsent | ⟨⟨z, hz, hlt⟩, -⟩
  · exact h.wellFormed.not_mem_iff.mpr (isNewImage_iff.mp hnew) hqueue
  · exact (h.sent_lt hm hsent).ne rfl
  · exact (h.sent_lt hm hz).not_gt hlt

theorem Merging.countOf_eq (h : Merging sync t) (hm : Interleaving sync (t.delivered ++ [m])) :
    countOf t.state m.imageId = (senders t.delivered m.imageId).length := by
  rw [countOf]
  cases hget : t.state.metaCache[m.imageId]? with
  | some count => exact h.counts _ _ hget
  | none =>
    have hnone : senders t.delivered m.imageId = [] :=
      List.eq_nil_iff_forall_not_mem.mpr fun s hs =>
        h.not_announced hm (isNewImage_iff.mpr hget) s (mem_senders.mp hs)
    rw [hnone]
    rfl

theorem length_senders_snoc_self :
    (senders (t.delivered ++ [m]) m.imageId).length =
      (senders t.delivered m.imageId).length + 1 := by
  rw [senders_snoc, if_pos rfl, List.length_append, List.length_singleton]

theorem FirstAnnounced.snoc (hm : Interleaving sync (t.delivered ++ [m])) {y z : ℕ}
    (h : FirstAnnounced t.delivered y z) : FirstAnnounced (t.delivered ++ [m]) y z := by
  obtain ⟨s, hy, hz⟩ := h
  refine ⟨s, hy.append, fun hann => ?_⟩
  rcases announced_snoc.mp hann with hold | ⟨rfl, rfl⟩
  · exact hz hold
  · exact hm.newer hy

theorem Missed.snoc (h : Merging sync t) (hm : Interleaving sync (t.delivered ++ [m]))
    {t' : StreamTrace}
    (hdel : t'.delivered = t.delivered ++ [m]) (hsent : ∀ z ∈ t.sent, z ∈ t'.sent) {id : ℕ}
    (hmiss : Missed sync t id) : Missed sync t' id := by
  obtain ⟨⟨z, hz, hlt⟩, s, hs, hnot⟩ := hmiss
  refine ⟨⟨z, hsent z hz, hlt⟩, s, hs, fun hann => ?_⟩
  rw [hdel, announced_snoc] at hann
  rcases hann with hold | ⟨-, rfl⟩
  · exact hnot hold
  · exact (h.sent_lt hm hz).not_gt hlt

/-- The queue with the image of the message in it is in the order of first announcements. -/
theorem Merging.order_arrive (h : Merging sync t) (hm : Interleaving sync (t.delivered ++ [m])) :
    (if isNewImage t.state m.imageId then t.state.imageIdQueue ++ [m.imageId]
      else t.state.imageIdQueue).Pairwise (FirstAnnounced (t.delivered ++ [m])) := by
  have hold := h.order.imp (FirstAnnounced.snoc hm)
  split
  · next hnew =>
    refine List.pairwise_append.mpr ⟨hold, List.pairwise_singleton _ _, fun y hy z hz => ?_⟩
    obtain rfl := List.mem_singleton.mp hz
    obtain ⟨count, hcount⟩ := (h.wellFormed.mem_iff y).mp hy
    have hpos := (h.wellFormed.counts y count hcount).1
    rw [h.counts y count hcount] at hpos
    obtain ⟨s, hs⟩ := List.exists_mem_of_length_pos hpos
    have hy := mem_senders.mp hs
    refine ⟨s, hy.append, fun hann => ?_⟩
    rcases announced_snoc.mp hann with hz | ⟨rfl, -⟩
    · exact absurd hz (h.not_announced hm hnew s)
    · exact hm.newer hy
  · exact hold

/-- The queue while the message is processed, when it has room. -/
theorem arrive_queue (hfits : QueueFits sync t m) :
    (sync.arrive t.state m.imageId).1.imageIdQueue =
      if isNewImage t.state m.imageId then t.state.imageIdQueue ++ [m.imageId]
      else t.state.imageIdQueue := by
  rw [arrive_of_fits hfits]
  split
  · rfl
  · rfl

theorem arrive_cache (hfits : QueueFits sync t m) {x : ℕ} (hx : x ≠ m.imageId) :
    (sync.arrive t.state m.imageId).1.metaCache[x]? = t.state.metaCache[x]? := by
  rw [arrive_of_fits hfits]
  change (if isNewImage t.state m.imageId then enqueue t.state m.imageId
    else t.state).metaCache[x]? = _
  split
  · rw [enqueue, Std.TreeMap.getElem?_insert_nat, if_neg hx]
  · rfl

/-- Everything that was announced stands in the queue while the message is processed, unless it
left the queue before. -/
theorem Merging.settled_arrive (h : Merging sync t) (hfits : QueueFits sync t m) {s id : ℕ}
    (hann : Announced (t.delivered ++ [m]) s id) :
    id ∈ (sync.arrive t.state m.imageId).1.imageIdQueue ∨ id ∈ t.sent ∨ Missed sync t id := by
  rw [arrive_queue hfits]
  rcases announced_snoc.mp hann with hold | ⟨-, rfl⟩
  · refine (h.settled s id hold).imp_left fun hqueue => ?_
    split
    · exact List.mem_append_left _ hqueue
    · exact hqueue
  · left
    split
    · exact List.mem_append_right _ (List.mem_singleton.mpr rfl)
    · next hold =>
      rw [h.wellFormed.mem_iff]
      exact Option.ne_none_iff_exists'.mp fun hnone => hold (isNewImage_iff.mpr hnone)

theorem counts_snoc (h : Merging sync t) {x count : ℕ} (hx : x ≠ m.imageId)
    (hget : t.state.metaCache[x]? = some count) :
    count = (senders (t.delivered ++ [m]) x).length := by
  rw [senders_snoc, if_neg (Ne.symm hx), List.append_nil]
  exact h.counts x count hget

/-- Another image in the queue is incomplete, since its count was below `n_parts`. -/
theorem Merging.queued_incomplete (h : Merging sync t) (hbuffer : 1 ≤ sync.nImagesBuffer)
    (hm : Interleaving sync (t.delivered ++ [m])) (hfits : QueueFits sync t m) {id : ℕ}
    (hne : id ≠ m.imageId) (hin : id ∈ (sync.arrive t.state m.imageId).1.imageIdQueue) :
    ∃ s < sync.nParts, ¬ Announced (t.delivered ++ [m]) s id := by
  by_contra hnot
  have hlen := hm.length_senders_iff.mpr fun s hs =>
    Classical.byContradiction fun hann => hnot ⟨s, hs, hann⟩
  obtain ⟨count, hget⟩ := ((h.wellFormed.arrive hbuffer m.imageId).mem_iff id).mp hin
  rw [arrive_cache hfits hne] at hget
  have hbelow := (h.wellFormed.counts id count hget).2
  have hcount := counts_snoc (m := m) h hne hget
  omega

/-- The message that completes its image. What stands before the image in the queue is older
than it, and every sender is past it. -/
theorem Merging.step_complete (h : Merging sync t) (hparts : 1 ≤ sync.nParts)
    (hbuffer : 1 ≤ sync.nImagesBuffer) (hm : Interleaving sync (t.delivered ++ [m]))
    (hfits : QueueFits sync t m)
    (hfull : (senders (t.delivered ++ [m]) m.imageId).length = sync.nParts) :
    Merging sync (t.step sync m) ∧ (t.step sync m).delivered = t.delivered ++ [m] := by
  have hall := hm.length_senders_iff.mp hfull
  rw [length_senders_snoc_self, ← h.countOf_eq hm] at hfull
  obtain ⟨q', result, hok', hwf⟩ := h.wellFormed.process hparts hbuffer m.imageId
  obtain ⟨stale, rest, cache, -, hqueue, hok, hcache⟩ | ⟨cache, hwait, -⟩ :=
    processImageMetadata_cases (h.wellFormed.arrive hbuffer m.imageId)
  swap
  · exact absurd hfull hwait
  obtain ⟨rfl, rfl⟩ := Prod.mk.inj (Except.ok.inj (hok'.symm.trans hok))
  have horder := h.order_arrive hm
  rw [← arrive_queue hfits, hqueue, List.pairwise_append] at horder
  have hstale : ∀ y ∈ stale, y < m.imageId := fun y hy => by
    obtain ⟨s, ⟨m', hm', rfl, -⟩, hlt⟩ := horder.2.2 y hy m.imageId List.mem_cons_self
    exact hlt (hall m'.stream (hm.stream_lt m' hm'))
  have hstep : t.step sync m = { t with
      state := ⟨rest, cache⟩
      delivered := t.delivered ++ [m]
      sent := t.sent ++ [m.imageId]
      reported := t.reported + stale.length
      removed := t.removed + (t.state.imageIdQueue.length +
        (if isNewImage t.state m.imageId then 1 else 0) - rest.length - 1) } := by
    rw [StreamTrace.step, h.alive, hok]
    exact if_pos hm.last_valid
  rw [hstep]
  refine ⟨⟨h.alive, hwf, ?_, ?_, ?_, ?_, (List.pairwise_cons.mp horder.2.1).2⟩, rfl⟩
  · intro x count hget
    change cache[x]? = some count at hget
    rw [hcache] at hget
    split at hget
    · cases hget
    · next hx =>
      have hx : x ≠ m.imageId := fun heq => hx (.inr heq)
      exact counts_snoc h hx (arrive_cache hfits hx ▸ hget)
  · intro s id hann
    rcases h.settled_arrive hfits hann with hin | hsent | hmiss
    · rw [hqueue, List.mem_append, List.mem_cons] at hin
      rcases hin with hin | rfl | hin
      · -- a discarded image
        exact .inr (.inr ⟨⟨m.imageId, by simp, hstale id hin⟩,
          h.queued_incomplete hbuffer hm hfits (hstale id hin).ne
            (hqueue ▸ List.mem_append_left _ hin)⟩)
      · exact .inr (.inl (by simp))
      · exact .inl hin
    · exact .inr (.inl (List.mem_append_left _ hsent))
    · exact .inr (.inr (hmiss.snoc h hm rfl fun z hz => List.mem_append_left _ hz))
  · intro z hz s hs
    rcases List.mem_append.mp hz with hz | hz
    · exact (h.full z hz s hs).append
    · rw [List.mem_singleton.mp hz]
      exact hall s hs
  · refine List.pairwise_append.mpr ⟨h.increasing, List.pairwise_singleton _ _, fun z hz x hx => ?_⟩
    rw [List.mem_singleton.mp hx]
    exact h.sent_lt hm hz

/-- A message after which its image is still incomplete. -/
theorem Merging.step_wait (h : Merging sync t) (hparts : 1 ≤ sync.nParts)
    (hbuffer : 1 ≤ sync.nImagesBuffer) (hm : Interleaving sync (t.delivered ++ [m]))
    (hfits : QueueFits sync t m)
    (hfull : (senders (t.delivered ++ [m]) m.imageId).length ≠ sync.nParts) :
    Merging sync (t.step sync m) ∧ (t.step sync m).delivered = t.delivered ++ [m] := by
  rw [length_senders_snoc_self, ← h.countOf_eq hm] at hfull
  obtain ⟨q', result, hok', hwf⟩ := h.wellFormed.process hparts hbuffer m.imageId
  obtain ⟨-, -, -, hfull', -⟩ | ⟨cache, -, hok, hcache⟩ :=
    processImageMetadata_cases (h.wellFormed.arrive hbuffer m.imageId)
  · exact absurd hfull' hfull
  obtain ⟨rfl, rfl⟩ := Prod.mk.inj (Except.ok.inj (hok'.symm.trans hok))
  have hstep : t.step sync m = { t with
      state := ⟨(sync.arrive t.state m.imageId).1.imageIdQueue, cache⟩
      delivered := t.delivered ++ [m]
      removed := t.removed + (t.state.imageIdQueue.length +
        (if isNewImage t.state m.imageId then 1 else 0) -
          (sync.arrive t.state m.imageId).1.imageIdQueue.length) } := by
    rw [StreamTrace.step, h.alive, hok]
    exact if_neg fun hne => hne rfl
  rw [hstep]
  refine ⟨⟨h.alive, hwf, ?_, ?_, fun z hz s hs => (h.full z hz s hs).append, h.increasing, ?_⟩, rfl⟩
  · intro x count hget
    change cache[x]? = some count at hget
    rw [hcache] at hget
    by_cases hx : x = m.imageId
    · rw [if_pos hx] at hget
      rw [hx, ← Option.some.inj hget, h.countOf_eq hm]
      exact length_senders_snoc_self.symm
    · rw [if_neg hx, arrive_cache hfits hx] at hget
      exact counts_snoc h hx hget
  · intro s id hann
    rcases h.settled_arrive hfits hann with hin | hsent | hmiss
    · exact .inl hin
    · exact .inr (.inl hsent)
    · refine .inr (.inr (hmiss.snoc h hm rfl fun z hz => ?_))
      exact hz
  · change (sync.arrive t.state m.imageId).1.imageIdQueue.Pairwise _
    rw [arrive_queue hfits]
    exact h.order_arrive hm

theorem Merging.step (h : Merging sync t) (hparts : 1 ≤ sync.nParts)
    (hbuffer : 1 ≤ sync.nImagesBuffer) (hm : Interleaving sync (t.delivered ++ [m]))
    (hfits : QueueFits sync t m) :
    Merging sync (t.step sync m) ∧ (t.step sync m).delivered = t.delivered ++ [m] := by
  by_cases hfull : (senders (t.delivered ++ [m]) m.imageId).length = sync.nParts
  · exact h.step_complete hparts hbuffer hm hfits hfull
  · exact h.step_wait hparts hbuffer hm hfits hfull

end Step

/-! ### Whole runs -/

theorem merging_of_run {messages : List StreamMessage} {t : StreamTrace}
    (hparts : 1 ≤ sync.nParts) (hbuffer : 1 ≤ sync.nImagesBuffer)
    (hrun : Run (FittingStep sync) .start messages t) (hm : Interleaving sync messages) :
    Merging sync t ∧ t.delivered = messages := by
  induction hrun with
  | nil => exact ⟨merging_start, rfl⟩
  | snoc _ hlast ih =>
    obtain ⟨h, rfl⟩ := ih hm.init
    obtain ⟨hfits, rfl⟩ := hlast
    exact h.step hparts hbuffer hm hfits

/-- A sent image was announced by all senders; an image announced by all has been sent. -/
theorem Merging.mem_sent_iff {t : StreamTrace} (h : Merging sync t) (hparts : 1 ≤ sync.nParts)
    (hm : Interleaving sync t.delivered) (id : ℕ) :
    id ∈ t.sent ↔ ∀ s < sync.nParts, Announced t.delivered s id := by
  refine ⟨fun hid => h.full id hid, fun hall => ?_⟩
  rcases h.settled 0 id (hall 0 hparts) with hqueue | hsent | ⟨-, s, hs, hnot⟩
  · obtain ⟨count, hget⟩ := (h.wellFormed.mem_iff id).mp hqueue
    have := (h.wellFormed.counts id count hget).2
    have := h.counts id count hget
    have := hm.length_senders_iff.mpr hall
    omega
  · exact hsent
  · exact absurd (hall s hs) hnot

/-- **The images that are passed on.** For every interleaving of `n_parts` streams with strictly
increasing ids during which the queue has room, the service does not fail, and the ids it passes
on are those announced in all streams, each once and in increasing order. -/
theorem sent_exactly_common {messages : List StreamMessage} {t : StreamTrace}
    (hparts : 1 ≤ sync.nParts) (hbuffer : 1 ≤ sync.nImagesBuffer)
    (hrun : Run (FittingStep sync) .start messages t) (hm : Interleaving sync messages) :
    t.failure = none ∧ t.sent.Pairwise (· < ·) ∧
      ∀ id, id ∈ t.sent ↔ ∀ s < sync.nParts, Announced messages s id := by
  obtain ⟨h, rfl⟩ := merging_of_run hparts hbuffer hrun hm
  exact ⟨h.alive, h.increasing, h.mem_sent_iff hparts hm⟩

/-- Two senders; the second misses image 5, and image 6 overtakes it. -/
def overtaking : List StreamMessage := [⟨0, 4⟩, ⟨0, 5⟩, ⟨1, 4⟩, ⟨0, 6⟩, ⟨1, 6⟩]

theorem sent_exactly_common_overtaking :
    ∃ t, Run (FittingStep ⟨2, 2⟩) .start overtaking t ∧ Interleaving ⟨2, 2⟩ overtaking ∧
      t.sent = [4, 6] ∧ t.failure = none := by
  have hrun : Run (FittingStep ⟨2, 2⟩) .start overtaking
      (overtaking.foldl (StreamTrace.step ⟨2, 2⟩) .start) :=
    .cons_total (by decide) (.cons_total (by decide) (.cons_total (by decide)
      (.cons_total (by decide) (.cons_total (by decide) .nil))))
  have hm : Interleaving ⟨2, 2⟩ overtaking := ⟨by decide, by decide, by decide⟩
  exact ⟨_, hrun, hm, by decide, (sent_exactly_common (by decide) (by decide) hrun hm).1⟩

end StreamSync

end StdDaq
