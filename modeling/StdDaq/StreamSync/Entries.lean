import StdDaq.StreamSync.Synchronizer
import Mathlib.Data.List.Count

/-!
# The entries of the stream synchronizer

An id can have several entries in the course of a run: an entry is dropped by an overflow or with
the images that a completed one discards, and a late part makes a new one. What the synchronizer
promises is about entries, not about ids. The record of a run therefore says which call created the
entry of an image, and the entries that were returned are given by the calls that created them.

No assumption is made on the ids: they may come in any order and as often as they like.

## Main results

* `InCreationOrder.step` — no call fails, and the queue stays in the order in which its entries were
  created
* `entries_of_run` — the state after any sequence of calls, and what the next call returns
-/

namespace StdDaq

namespace StreamSync

open StreamSynchronizer

/-- The synchronizer, and the record of the calls that led to it. -/
structure EntryTrace where
  state : State
  /-- The ids passed to `process_image_metadata`. -/
  calls : List ℕ
  /-- For each image with an entry, the number of calls before the one that created the entry. -/
  createdAt : ℕ → ℕ
  /-- The entries that were returned, each as the number of calls before its creation. -/
  returned : List ℕ

namespace EntryTrace

/-- No call has been made. -/
def start : EntryTrace := ⟨State.empty, [], fun _ => 0, []⟩

/-- When the entry was created that a message of this image belongs to. -/
def created (t : EntryTrace) (id : ℕ) : ℕ :=
  if isNewImage t.state id then t.calls.length else t.createdAt id

/-- The messages of the image since its entry was created, with one that arrives now. -/
def messagesSince (t : EntryTrace) (id : ℕ) : ℕ :=
  ((t.calls ++ [id]).drop (t.created id)).count id

/-- One call. There is no next state when the call fails. -/
def step (sync : StreamSynchronizer) (t : EntryTrace) (id : ℕ) : Option EntryTrace :=
  match sync.processImageMetadata t.state id with
  | .error _ => none
  | .ok (q, result) => some {
      state := q
      calls := t.calls ++ [id]
      createdAt := Function.update t.createdAt id (t.created id)
      returned :=
        if result.imageId = invalidImageId then t.returned else t.returned ++ [t.created id] }

end EntryTrace

variable {sync : StreamSynchronizer}

/-- The invariant of every run. -/
structure InCreationOrder (sync : StreamSynchronizer) (t : EntryTrace) : Prop where
  wellFormed : WellFormed sync t.state
  /-- The queue is in the order in which its entries were created. -/
  queue : t.state.imageIdQueue.Pairwise fun y z => t.createdAt y < t.createdAt z
  past : ∀ id ∈ t.state.imageIdQueue, t.createdAt id < t.calls.length
  /-- A count is the number of messages since the entry was created. -/
  counts : ∀ (id : ℕ) count, t.state.metaCache[id]? = some count →
    count = (t.calls.drop (t.createdAt id)).count id
  /-- What was returned was created before what stands in the queue. -/
  before : ∀ p ∈ t.returned, ∀ id ∈ t.state.imageIdQueue, p < t.createdAt id
  returned_past : ∀ p ∈ t.returned, p < t.calls.length
  increasing : t.returned.Pairwise (· < ·)

theorem inCreationOrder_start : InCreationOrder sync .start where
  wellFormed := wellFormed_empty
  queue := List.Pairwise.nil
  past := by simp [EntryTrace.start, State.empty]
  counts := by simp [EntryTrace.start, State.empty]
  before := by simp [EntryTrace.start]
  returned_past := by simp [EntryTrace.start]
  increasing := List.Pairwise.nil

namespace InCreationOrder

variable {t : EntryTrace} {id : ℕ}

theorem created_of_new (hnew : isNewImage t.state id = true) : t.created id = t.calls.length := by
  rw [EntryTrace.created, if_pos hnew]

theorem created_of_mem (h : InCreationOrder sync t) (hmem : id ∈ t.state.imageIdQueue) :
    t.created id = t.createdAt id := by
  rw [EntryTrace.created, if_neg]
  exact fun hnew => h.wellFormed.not_mem_iff.mpr (isNewImage_iff.mp hnew) hmem

theorem created_le (h : InCreationOrder sync t) (id : ℕ) : t.created id ≤ t.calls.length := by
  by_cases hmem : id ∈ t.state.imageIdQueue
  · rw [h.created_of_mem hmem]
    exact (h.past id hmem).le
  · rw [created_of_new (isNewImage_iff.mpr (h.wellFormed.not_mem_iff.mp hmem))]

/-- The count of an image is the number of its messages since the entry was created. -/
theorem countOf_eq (h : InCreationOrder sync t) (id : ℕ) :
    countOf t.state id = (t.calls.drop (t.created id)).count id := by
  rw [countOf]
  cases hget : t.state.metaCache[id]? with
  | none =>
    rw [created_of_new (isNewImage_iff.mpr hget), List.drop_length]
    rfl
  | some count =>
    rw [h.created_of_mem ((h.wellFormed.mem_iff id).mpr ⟨count, hget⟩)]
    exact h.counts id count hget

theorem messagesSince_eq (h : InCreationOrder sync t) (id : ℕ) :
    t.messagesSince id = countOf t.state id + 1 := by
  rw [EntryTrace.messagesSince, List.drop_append_of_le_length (h.created_le id), List.count_append,
    List.count_singleton_self, h.countOf_eq]

/-- The queue with the image of the message in it. -/
def queueWith (t : EntryTrace) (id : ℕ) : List ℕ :=
  if isNewImage t.state id then t.state.imageIdQueue ++ [id] else t.state.imageIdQueue

theorem mem_queueWith {x : ℕ} (hx : x ∈ queueWith t id) :
    x ∈ t.state.imageIdQueue ∨ x = id ∧ isNewImage t.state id = true := by
  rw [queueWith] at hx
  split at hx
  · next hnew =>
    exact (List.mem_append.mp hx).imp_right fun hx => ⟨List.mem_singleton.mp hx, hnew⟩
  · exact .inl hx

/-- The creation of an entry that stands in the queue while the message is processed. -/
theorem update_of_mem (h : InCreationOrder sync t) {x : ℕ} (hx : x ∈ t.state.imageIdQueue) :
    Function.update t.createdAt id (t.created id) x = t.createdAt x := by
  by_cases hid : x = id
  · subst hid
    rw [Function.update_self, h.created_of_mem hx]
  · rw [Function.update_of_ne hid]

/-- A new entry is the youngest. -/
theorem queue_update (h : InCreationOrder sync t) :
    (queueWith t id).Pairwise fun y z =>
      Function.update t.createdAt id (t.created id) y <
        Function.update t.createdAt id (t.created id) z := by
  have hold : t.state.imageIdQueue.Pairwise fun y z =>
      Function.update t.createdAt id (t.created id) y <
        Function.update t.createdAt id (t.created id) z := by
    refine h.queue.imp_of_mem fun {y z} hy hz hlt => ?_
    rwa [h.update_of_mem hy, h.update_of_mem hz]
  rw [queueWith]
  split
  · next hnew =>
    refine List.pairwise_append.mpr ⟨hold, List.pairwise_singleton _ _, fun y hy z hz => ?_⟩
    rw [List.mem_singleton.mp hz, Function.update_self, h.update_of_mem hy, created_of_new hnew]
    exact h.past y hy
  · exact hold

theorem before_update (h : InCreationOrder sync t) {p x : ℕ} (hp : p ∈ t.returned)
    (hx : x ∈ queueWith t id) : p < Function.update t.createdAt id (t.created id) x := by
  rcases mem_queueWith hx with hmem | ⟨rfl, hnew⟩
  · rw [h.update_of_mem hmem]
    exact h.before p hp x hmem
  · rw [Function.update_self, created_of_new hnew]
    exact h.returned_past p hp

theorem past_update (h : InCreationOrder sync t) {x : ℕ} (hx : x ∈ queueWith t id) :
    Function.update t.createdAt id (t.created id) x < (t.calls ++ [id]).length := by
  rw [List.length_append, List.length_singleton, Nat.lt_succ_iff]
  rcases mem_queueWith hx with hmem | ⟨rfl, -⟩
  · rw [h.update_of_mem hmem]
    exact (h.past x hmem).le
  · rw [Function.update_self]
    exact h.created_le x

/-- The other counts go on counting the messages of their images. -/
theorem counts_update (h : InCreationOrder sync t) {x count : ℕ} (hx : x ≠ id)
    (hget : t.state.metaCache[x]? = some count) :
    count = ((t.calls ++ [id]).drop (Function.update t.createdAt id (t.created id) x)).count x := by
  have hpast := h.past x ((h.wellFormed.mem_iff x).mpr ⟨count, hget⟩)
  rw [Function.update_of_ne hx, List.drop_append_of_le_length hpast.le, List.count_append,
    List.count_singleton, beq_false_of_ne (Ne.symm hx), if_neg Bool.false_ne_true, Nat.add_zero]
  exact h.counts x count hget

/-- What was returned before is older than the entry of the message. -/
theorem returned_lt_created (h : InCreationOrder sync t) {p : ℕ} (hp : p ∈ t.returned)
    (hid : id ∈ queueWith t id) : p < t.created id := by
  have := h.before_update hp hid
  rwa [Function.update_self] at this

/-- The state after a call, from what the call does to the queue, the counts and the record. -/
theorem advance (h : InCreationOrder sync t) {q' : State} {returned' : List ℕ}
    (hwf : WellFormed sync q') (hqueue : q'.imageIdQueue.Sublist (queueWith t id))
    (hid : id ∈ queueWith t id)
    (hcounts : ∀ (x : ℕ) count, q'.metaCache[x]? = some count →
      x = id ∧ count = countOf t.state id + 1 ∨ x ≠ id ∧ t.state.metaCache[x]? = some count)
    (hreturned : returned' = t.returned ∨ returned' = t.returned ++ [t.created id] ∧
      ∀ x ∈ q'.imageIdQueue, t.created id < Function.update t.createdAt id (t.created id) x) :
    InCreationOrder sync
      ⟨q', t.calls ++ [id], Function.update t.createdAt id (t.created id), returned'⟩ where
  wellFormed := hwf
  queue := h.queue_update.sublist hqueue
  past x hx := h.past_update (hqueue.subset hx)
  counts x count hget := by
    rcases hcounts x count hget with ⟨rfl, rfl⟩ | ⟨hx, hold⟩
    · dsimp only
      rw [← h.messagesSince_eq, EntryTrace.messagesSince, Function.update_self]
    · exact h.counts_update hx hold
  before p hp x hx := by
    rcases hreturned with rfl | ⟨rfl, hyounger⟩
    · exact h.before_update hp (hqueue.subset hx)
    · rcases List.mem_append.mp hp with hp | hp
      · exact h.before_update hp (hqueue.subset hx)
      · rw [List.mem_singleton.mp hp]
        exact hyounger x hx
  returned_past p hp := by
    have hlen : (t.calls ++ [id]).length = t.calls.length + 1 := List.length_append
    have hle := h.created_le id
    rw [hlen]
    rcases hreturned with rfl | ⟨rfl, -⟩
    · exact Nat.lt_succ_of_lt (h.returned_past p hp)
    · rcases List.mem_append.mp hp with hp | hp
      · exact Nat.lt_succ_of_lt (h.returned_past p hp)
      · rw [List.mem_singleton.mp hp]
        omega
  increasing := by
    rcases hreturned with rfl | ⟨rfl, -⟩
    · exact h.increasing
    · refine List.pairwise_append.mpr
        ⟨h.increasing, List.pairwise_singleton _ _, fun p hp z hz => ?_⟩
      rw [List.mem_singleton.mp hz]
      exact h.returned_lt_created hp hid

/-- **One call.** It does not fail, it returns the image exactly when the image has all of its
messages, and the entries stay in the order in which they were created. -/
theorem step (h : InCreationOrder sync t) (hparts : 1 ≤ sync.nParts)
    (hbuffer : 1 ≤ sync.nImagesBuffer) (id : ℕ) :
    (∃ q result, sync.processImageMetadata t.state id = .ok (q, result) ∧
      result.imageId = if t.messagesSince id = sync.nParts then id else invalidImageId) ∧
    ∃ t', t.step sync id = some t' ∧ t'.calls = t.calls ++ [id] ∧ InCreationOrder sync t' := by
  have ha := h.wellFormed.arrive hbuffer id
  have hsuffix : (sync.arrive t.state id).1.imageIdQueue.Sublist (queueWith t id) :=
    List.IsSuffix.sublist ha.suffix
  have hid : id ∈ queueWith t id := hsuffix.subset ha.mem
  obtain ⟨q', result, hok', hwf⟩ := h.wellFormed.process hparts hbuffer id
  obtain ⟨stale, rest, cache, hfull, hqueue, hok, hcache⟩ | ⟨cache, hwait, hok, hcache⟩ :=
    processImageMetadata_cases ha
  · obtain ⟨rfl, rfl⟩ := Prod.mk.inj (Except.ok.inj (hok'.symm.trans hok))
    refine ⟨⟨_, _, hok, by rw [h.messagesSince_eq, if_pos hfull]⟩, ?_⟩
    have hrest : rest.Sublist (sync.arrive t.state id).1.imageIdQueue := by
      rw [hqueue]
      exact (List.sublist_cons_self id rest).trans (List.sublist_append_right stale _)
    -- what stands behind the returned entry is younger
    have hyounger : ∀ x ∈ rest,
        t.created id < Function.update t.createdAt id (t.created id) x := by
      have horder := h.queue_update.sublist hsuffix
      rw [hqueue, List.pairwise_append, List.pairwise_cons] at horder
      intro x hx
      have := horder.2.1.1 x hx
      rwa [Function.update_self] at this
    refine ⟨_, by rw [EntryTrace.step, hok], rfl,
      h.advance hwf (hrest.trans hsuffix) hid (fun x count hget => ?_) ?_⟩
    · change cache[x]? = some count at hget
      rw [hcache] at hget
      split at hget
      · cases hget
      · next hx =>
        have hx : x ≠ id := fun heq => hx (.inr heq)
        exact .inr ⟨hx, ha.others x hx count hget⟩
    · dsimp only
      split
      · exact .inl rfl
      · exact .inr ⟨rfl, hyounger⟩
  · obtain ⟨rfl, rfl⟩ := Prod.mk.inj (Except.ok.inj (hok'.symm.trans hok))
    refine ⟨⟨_, _, hok, by rw [h.messagesSince_eq, if_neg hwait]⟩, ?_⟩
    refine ⟨_, by rw [EntryTrace.step, hok], rfl,
      h.advance hwf hsuffix hid (fun x count hget => ?_) (.inl (if_pos rfl))⟩
    change cache[x]? = some count at hget
    rw [hcache] at hget
    split at hget
    · next hx => exact .inl ⟨hx, (Option.some.inj hget).symm⟩
    · next hx => exact .inr ⟨hx, ha.others x hx count hget⟩

end InCreationOrder

/-! ### Runs -/

theorem inCreationOrder_of_run (hparts : 1 ≤ sync.nParts) (hbuffer : 1 ≤ sync.nImagesBuffer)
    {ids : List ℕ} {t : EntryTrace}
    (hrun : Run (Steps.guarded (EntryTrace.step sync)) .start ids t) :
    InCreationOrder sync t ∧ t.calls = ids := by
  induction hrun with
  | nil => exact ⟨inCreationOrder_start, rfl⟩
  | @snoc ids t u id hrun hstep ih =>
    obtain ⟨h, rfl⟩ := ih
    obtain ⟨-, t', hstep', hcalls, h'⟩ := h.step hparts hbuffer id
    obtain rfl : t' = u := Option.some.inj (hstep'.symm.trans hstep)
    exact ⟨h', hcalls⟩

/-- Any sequence of ids is a run: no call fails. -/
theorem exists_run (hparts : 1 ≤ sync.nParts) (hbuffer : 1 ≤ sync.nImagesBuffer) (ids : List ℕ) :
    ∃ t, Run (Steps.guarded (EntryTrace.step sync)) .start ids t := by
  induction ids using List.reverseRecOn with
  | nil => exact ⟨_, .nil⟩
  | append_singleton ids id ih =>
    obtain ⟨t, hrun⟩ := ih
    obtain ⟨h, -⟩ := inCreationOrder_of_run hparts hbuffer hrun
    obtain ⟨-, t', hstep, -⟩ := h.step hparts hbuffer id
    exact ⟨t', hrun.snoc hstep⟩

/-- **The entries after any sequence of calls.** No call fails. The queue has no duplicates, holds
the keys of the cache and is not too long, and every count is between 1 and `n_parts - 1`. The
entries that were returned were created in this order. The next call returns its image exactly when
`n_parts` messages of the image, this one included, have arrived since its entry was created, and
the invalid id otherwise. -/
theorem entries_of_run (hparts : 1 ≤ sync.nParts) (hbuffer : 1 ≤ sync.nImagesBuffer)
    (ids : List ℕ) :
    ∃ t, Run (Steps.guarded (EntryTrace.step sync)) .start ids t ∧ WellFormed sync t.state ∧
      t.returned.Pairwise (· < ·) ∧
      ∀ id, ∃ q result, sync.processImageMetadata t.state id = .ok (q, result) ∧
        result.imageId = if t.messagesSince id = sync.nParts then id else invalidImageId := by
  obtain ⟨t, hrun⟩ := exists_run hparts hbuffer ids
  obtain ⟨h, -⟩ := inCreationOrder_of_run hparts hbuffer hrun
  exact ⟨t, hrun, h.wellFormed, h.increasing, fun id => (h.step hparts hbuffer id).1⟩

/-- Image 1 is dropped by an overflow and comes back. -/
def lateParts : List ℕ := [1, 2, 3, 1, 3, 1]

theorem entries_of_run_late :
    (exec (EntryTrace.step ⟨2, 2⟩) .start lateParts).map EntryTrace.returned = some [2, 3] ∧
    ∃ t, Run (Steps.guarded (EntryTrace.step ⟨2, 2⟩)) .start lateParts t ∧
      WellFormed ⟨2, 2⟩ t.state ∧ t.returned.Pairwise (· < ·) ∧
      ∀ id, ∃ q result, processImageMetadata ⟨2, 2⟩ t.state id = .ok (q, result) ∧
        result.imageId = if t.messagesSince id = 2 then id else invalidImageId :=
  ⟨by decide, entries_of_run (by decide) (by decide) lateParts⟩

/-- The first of two messages of the image with the invalid id: what is returned is its id. -/
theorem returned_before_complete :
    ¬ ∀ (sync : StreamSynchronizer) (ids : List ℕ) (t : EntryTrace),
      1 ≤ sync.nParts → 1 ≤ sync.nImagesBuffer →
      Run (Steps.guarded (EntryTrace.step sync)) .start ids t →
      ∀ id < 2 ^ 64, ∃ q result, sync.processImageMetadata t.state id = .ok (q, result) ∧
        (result.imageId = id ↔ t.messagesSince id = sync.nParts) := by
  intro h
  have hlt : invalidImageId < 2 ^ 64 := by rw [invalidImageId]; omega
  obtain ⟨q, result, hok, hiff⟩ :=
    h ⟨2, 2⟩ [] .start (by decide) (by decide) .nil invalidImageId hlt
  have hstart : InCreationOrder ⟨2, 2⟩ .start := inCreationOrder_start
  obtain ⟨⟨q', result', hok', hid⟩, -⟩ := hstart.step (by decide) (by decide) invalidImageId
  obtain ⟨-, rfl⟩ := Prod.mk.inj (Except.ok.inj (hok.symm.trans hok'))
  have hone : EntryTrace.start.messagesSince invalidImageId = 1 := hstart.messagesSince_eq _
  rw [hone] at hid hiff
  exact absurd (hiff.mp hid) (by decide)

end StreamSync

end StdDaq
