import StdDaq.Lib.OrderedMap
import StdDaq.Lib.Run

/-!
# The stream synchronizer

The class `Synchronizer` of `std_data_sync_stream`. An image reaches the receiving side in parts,
one part from each sender, and every part that has arrived is announced by a message that
carries the id of the image and nothing else. The synchronizer counts the messages of an image
and forwards the last of them.

Images that are being collected stand in `image_id_queue` in the order of their first message,
with their counts in `meta_cache`. When an image is complete, everything ahead of it in the queue
is thrown away.

## Main definitions

* `StreamSynchronizer.processImageMetadata` — the operation, with the ways it can fail
* `StreamTrace.step` — one turn of the main loop, on the state and on the record of the run
* `StreamSynchronizer.WellFormed` — the queue and the counts belong together

## Main results

* `StreamSynchronizer.processImageMetadata_cases` — what one message does
* `StreamSynchronizer.WellFormed.process` — no message fails, and the state stays well formed
-/

namespace StdDaq

/-- `INVALID_IMAGE_ID`: all 64 bits set. -/
def invalidImageId : ℕ := 2 ^ 64 - 1

/-- The constants of a stream synchronizer. -/
structure StreamSynchronizer where
  nParts : ℕ
  nImagesBuffer : ℕ

namespace StreamSynchronizer

/-- The members that change. -/
structure State where
  imageIdQueue : List ℕ
  metaCache : Std.TreeMap ℕ ℕ

/-- `ImageAndSync`. -/
structure ImageAndSync where
  imageId : ℕ
  nCorruptedImages : ℕ
  deriving DecidableEq, Repr

/-- How `process_image_metadata` can go wrong. -/
inductive SyncError where
  /-- `meta_cache.find(id)->second` with nothing found. -/
  | endIterator
  /-- The exception of `get_full_image`: "No images to return. Impossible?!". -/
  | noImagesToReturn
  deriving DecidableEq, Repr

/-- A synchronizer that has just been constructed. -/
def State.empty : State := ⟨[], ∅⟩

variable (sync : StreamSynchronizer)

/-- `is_new_image`. -/
def isNewImage (q : State) (id : ℕ) : Bool := q.metaCache[id]?.isNone

/-- `is_queue_too_long`. -/
def isQueueTooLong (q : State) : Bool := decide (sync.nImagesBuffer < q.imageIdQueue.length)

/-- `drop_oldest_incomplete_image`. -/
def dropOldestIncompleteImage (q : State) : State :=
  match q.imageIdQueue with
  | [] => q
  | id :: rest => ⟨rest, q.metaCache.erase id⟩

/-- The entry `push_new_image_to_queue` makes, before it looks at the length of the queue. -/
def enqueue (q : State) (id : ℕ) : State := ⟨q.imageIdQueue ++ [id], q.metaCache.insert id 0⟩

/-- `push_new_image_to_queue`. -/
def pushNewImageToQueue (q : State) (id : ℕ) : State × ℕ :=
  if sync.isQueueTooLong (enqueue q id) then (dropOldestIncompleteImage (enqueue q id), 1)
  else (enqueue q id, 0)

/-- The loop of `discard_stale_images`, on the queue it consumes. -/
def discardLoop (id : ℕ) : List ℕ → Std.TreeMap ℕ ℕ → ℕ → State × ℕ
  | [], cache, n => (⟨[], cache⟩, n)
  | front :: rest, cache, n =>
    if front ≠ id then discardLoop id rest (cache.erase front) (n + 1)
    else (⟨front :: rest, cache⟩, n)

/-- `discard_stale_images`. -/
def discardStaleImages (q : State) (id : ℕ) : State × ℕ :=
  discardLoop id q.imageIdQueue q.metaCache 0

/-- `get_full_image`. -/
def getFullImage (q : State) (id : ℕ) : Except SyncError (State × ImageAndSync) :=
  let discarded := discardStaleImages q id
  match discarded.1.imageIdQueue with
  | [] => .error .noImagesToReturn
  | _ :: rest => .ok (⟨rest, discarded.1.metaCache.erase id⟩, ⟨id, discarded.2⟩)

/-- The first line of `process_image_metadata`: make an entry for a new image. -/
def arrive (q : State) (id : ℕ) : State × ℕ :=
  if isNewImage q id then sync.pushNewImageToQueue q id else (q, 0)

/-- `process_image_metadata`. -/
def processImageMetadata (q : State) (id : ℕ) : Except SyncError (State × ImageAndSync) :=
  let arrived := sync.arrive q id
  match arrived.1.metaCache[id]? with
  | none => .error .endIterator
  | some count =>
    let counted : State := { arrived.1 with metaCache := arrived.1.metaCache.insert id (count + 1) }
    if count + 1 = sync.nParts then getFullImage counted id
    else .ok (counted, ⟨invalidImageId, arrived.2⟩)

/-! ### The queue and the cache belong together -/

/-- The queue holds each key of the cache once, and nothing else. -/
structure KeysOk (q : State) : Prop where
  nodup : q.imageIdQueue.Nodup
  mem_iff : ∀ id : ℕ, id ∈ q.imageIdQueue ↔ ∃ count, q.metaCache[id]? = some count

/-- The state between two messages: besides the keys, the queue is not too long, and every image
in it has begun and is not complete. -/
structure WellFormed (q : State) : Prop extends KeysOk q where
  length_le : q.imageIdQueue.length ≤ sync.nImagesBuffer
  counts : ∀ (id : ℕ) count, q.metaCache[id]? = some count → 1 ≤ count ∧ count < sync.nParts

variable {sync} {q : State} {id : ℕ}

theorem isNewImage_iff : isNewImage q id = true ↔ q.metaCache[id]? = none := by
  rw [isNewImage, Option.isNone_iff_eq_none]

theorem KeysOk.not_mem_iff (h : KeysOk q) : id ∉ q.imageIdQueue ↔ q.metaCache[id]? = none := by
  rw [h.mem_iff, Option.eq_none_iff_forall_not_mem]
  exact not_exists

theorem wellFormed_empty : WellFormed sync State.empty where
  nodup := List.nodup_nil
  mem_iff := by simp [State.empty]
  length_le := Nat.zero_le _
  counts := by simp [State.empty]

theorem KeysOk.enqueue (h : KeysOk q) (hnew : q.metaCache[id]? = none) :
    KeysOk (enqueue q id) where
  nodup := by
    rw [StreamSynchronizer.enqueue, List.nodup_append_comm, List.singleton_append, List.nodup_cons]
    exact ⟨h.not_mem_iff.mpr hnew, h.nodup⟩
  mem_iff x := by
    simp only [StreamSynchronizer.enqueue, List.mem_append, List.mem_singleton,
      Std.TreeMap.getElem?_insert_nat]
    by_cases hx : x = id
    · simp [hx]
    · simp [hx, h.mem_iff x]

theorem KeysOk.dropOldest (h : KeysOk q) : KeysOk (dropOldestIncompleteImage q) := by
  rw [dropOldestIncompleteImage]
  split
  · exact h
  · next front rest hqueue =>
    have hnodup := h.nodup
    rw [hqueue, List.nodup_cons] at hnodup
    refine ⟨hnodup.2, fun x => ?_⟩
    rw [Std.TreeMap.getElem?_erase_nat]
    by_cases hx : x = front
    · subst hx
      simp [hnodup.1]
    · have := h.mem_iff x
      rw [hqueue, List.mem_cons] at this
      simpa [hx] using this

/-- The count of an image after its first line of `process_image_metadata`. -/
def countOf (q : State) (id : ℕ) : ℕ := q.metaCache[id]?.getD 0

/-- Without an overflow, a new image goes to the end of the queue and the others stay. -/
theorem arrive_of_fits
    (hfits : isNewImage q id = true → q.imageIdQueue.length < sync.nImagesBuffer) :
    sync.arrive q id = (if isNewImage q id then enqueue q id else q, 0) := by
  rw [arrive]
  by_cases hnew : isNewImage q id = true
  · have hshort : sync.isQueueTooLong (enqueue q id) = false := by
      have := hfits hnew
      rw [isQueueTooLong, enqueue]
      simp only [List.length_append, List.length_singleton, decide_eq_false_iff_not]
      omega
    rw [if_pos hnew, if_pos hnew, pushNewImageToQueue, hshort, if_neg Bool.false_ne_true]
  · rw [if_neg hnew, if_neg hnew]

/-- The state in the middle of `process_image_metadata`: the image of the message has an entry, and
the other counts are as before. -/
structure Arrived (sync : StreamSynchronizer) (q : State) (id : ℕ) (q' : State) : Prop
    extends KeysOk q' where
  mem : id ∈ q'.imageIdQueue
  length_le : q'.imageIdQueue.length ≤ sync.nImagesBuffer
  suffix : q'.imageIdQueue <:+ if isNewImage q id then q.imageIdQueue ++ [id] else q.imageIdQueue
  count : q'.metaCache[id]? = some (countOf q id)
  others : ∀ x ≠ id, ∀ count, q'.metaCache[x]? = some count → q.metaCache[x]? = some count

theorem arrived_enqueue (h : KeysOk q) (hnew : isNewImage q id = true)
    (hshort : (enqueue q id).imageIdQueue.length ≤ sync.nImagesBuffer) :
    Arrived sync q id (enqueue q id) where
  toKeysOk := h.enqueue (isNewImage_iff.mp hnew)
  mem := List.mem_append_right _ (List.mem_singleton.mpr rfl)
  length_le := hshort
  suffix := by rw [if_pos hnew]; exact List.suffix_rfl
  count := by
    rw [enqueue, Std.TreeMap.getElem?_insert_nat, if_pos rfl, countOf, isNewImage_iff.mp hnew]
    rfl
  others x hx count hget := by
    rwa [enqueue, Std.TreeMap.getElem?_insert_nat, if_neg hx] at hget

/-- An overflow drops the oldest image, which is not the new one. -/
theorem arrived_dropOldest (h : KeysOk q) (hlen : q.imageIdQueue.length ≤ sync.nImagesBuffer)
    (hbuffer : 1 ≤ sync.nImagesBuffer) (hnew : isNewImage q id = true)
    (hlong : sync.nImagesBuffer < (enqueue q id).imageIdQueue.length) :
    Arrived sync q id (dropOldestIncompleteImage (enqueue q id)) := by
  have hkeys := h.enqueue (isNewImage_iff.mp hnew)
  rw [enqueue, List.length_append, List.length_singleton] at hlong
  obtain ⟨front, rest, hqueue⟩ :=
    List.exists_cons_of_length_pos (by omega : 0 < q.imageIdQueue.length)
  have hdrop : dropOldestIncompleteImage (enqueue q id) =
      ⟨rest ++ [id], (enqueue q id).metaCache.erase front⟩ := by
    rw [dropOldestIncompleteImage, enqueue, hqueue]
    rfl
  have hne : front ≠ id := by
    rintro rfl
    exact h.not_mem_iff.mpr (isNewImage_iff.mp hnew) (hqueue ▸ List.mem_cons_self)
  refine ⟨hkeys.dropOldest, ?_, ?_, ?_, ?_, fun x hx count hget => ?_⟩
  · rw [hdrop]
    exact List.mem_append_right _ (List.mem_singleton.mpr rfl)
  · rw [hqueue, List.length_cons] at hlen
    rw [hdrop, List.length_append, List.length_singleton]
    exact hlen
  · rw [hdrop, if_pos hnew, hqueue]
    exact List.suffix_cons _ _
  · rw [hdrop, Std.TreeMap.getElem?_erase_nat, if_neg hne.symm, enqueue,
      Std.TreeMap.getElem?_insert_nat, if_pos rfl, countOf, isNewImage_iff.mp hnew]
    rfl
  · rw [hdrop, Std.TreeMap.getElem?_erase_nat] at hget
    split at hget
    · cases hget
    · rwa [enqueue, Std.TreeMap.getElem?_insert_nat, if_neg hx] at hget

/-- A message always finds an entry for its image. -/
theorem KeysOk.arrive (h : KeysOk q) (hlen : q.imageIdQueue.length ≤ sync.nImagesBuffer)
    (hbuffer : 1 ≤ sync.nImagesBuffer) (id : ℕ) : Arrived sync q id (sync.arrive q id).1 := by
  rw [StreamSynchronizer.arrive]
  by_cases hnew : isNewImage q id = true
  · rw [if_pos hnew, pushNewImageToQueue]
    by_cases hlong : sync.isQueueTooLong (StreamSynchronizer.enqueue q id) = true
    · rw [if_pos hlong]
      exact arrived_dropOldest h hlen hbuffer hnew (of_decide_eq_true hlong)
    · rw [if_neg hlong]
      refine arrived_enqueue h hnew (Nat.le_of_not_lt fun hlt => hlong ?_)
      exact decide_eq_true hlt
  · obtain ⟨count, hcount⟩ : ∃ count, q.metaCache[id]? = some count :=
      Option.ne_none_iff_exists'.mp fun hnone => hnew (isNewImage_iff.mpr hnone)
    rw [if_neg hnew]
    refine ⟨h, (h.mem_iff id).mpr ⟨count, hcount⟩, hlen, ?_, ?_,
      fun x _ count hget => hget⟩
    · rw [if_neg hnew]
    · rw [hcount, countOf, hcount, Option.getD_some]

theorem WellFormed.arrive (h : WellFormed sync q) (hbuffer : 1 ≤ sync.nImagesBuffer) (id : ℕ) :
    Arrived sync q id (sync.arrive q id).1 :=
  h.toKeysOk.arrive h.length_le hbuffer id

theorem WellFormed.countOf_lt (h : WellFormed sync q) (hparts : 1 ≤ sync.nParts) (id : ℕ) :
    countOf q id < sync.nParts := by
  rw [countOf]
  cases hget : q.metaCache[id]? with
  | none => exact hparts
  | some count => exact (h.counts id count hget).2

/-! ### What one message does -/

theorem getElem?_foldl_erase (cache : Std.TreeMap ℕ ℕ) (ids : List ℕ) (x : ℕ) :
    (ids.foldl (fun c y => c.erase y) cache)[x]? = if x ∈ ids then none else cache[x]? := by
  induction ids generalizing cache with
  | nil => simp
  | cons y ids ih =>
    rw [List.foldl_cons, ih, Std.TreeMap.getElem?_erase_nat]
    by_cases hxy : x = y <;> by_cases hx : x ∈ ids <;> simp [hxy, hx]

theorem discardLoop_append {stale rest : List ℕ} (hstale : id ∉ stale)
    (cache : Std.TreeMap ℕ ℕ) (n : ℕ) :
    discardLoop id (stale ++ id :: rest) cache n =
      (⟨id :: rest, stale.foldl (fun c y => c.erase y) cache⟩, n + stale.length) := by
  induction stale generalizing cache n with
  | nil => simp [discardLoop]
  | cons front stale ih =>
    rw [List.mem_cons, not_or] at hstale
    rw [List.cons_append, discardLoop, if_pos (Ne.symm hstale.1), ih hstale.2, List.foldl_cons,
      List.length_cons]
    congr 1
    omega

/-- A complete image that has an entry is returned, and what stood before it is discarded. -/
theorem getFullImage_of_mem (hnodup : q.imageIdQueue.Nodup) (hmem : id ∈ q.imageIdQueue) :
    ∃ stale rest cache, q.imageIdQueue = stale ++ id :: rest ∧
      getFullImage q id = .ok (⟨rest, cache⟩, ⟨id, stale.length⟩) ∧
      ∀ x : ℕ, cache[x]? = if x ∈ stale ∨ x = id then none else q.metaCache[x]? := by
  obtain ⟨stale, rest, hqueue⟩ := List.append_of_mem hmem
  have hstale : id ∉ stale := by
    rw [hqueue, List.nodup_append] at hnodup
    exact fun h => hnodup.2.2 id h id List.mem_cons_self rfl
  refine ⟨stale, rest, (stale.foldl (fun c y => c.erase y) q.metaCache).erase id, hqueue, ?_,
    fun x => ?_⟩
  · rw [getFullImage, discardStaleImages, hqueue, discardLoop_append hstale]
    simp only [Nat.zero_add]
  · rw [Std.TreeMap.getElem?_erase_nat, getElem?_foldl_erase]
    by_cases hx : x = id <;> by_cases hs : x ∈ stale <;> simp [hx, hs]

/-- The two outcomes of a message. The image becomes complete and is returned, and what stood
before it in the queue is discarded; or it goes on waiting with one message more. -/
theorem processImageMetadata_cases (ha : Arrived sync q id (sync.arrive q id).1) :
    (∃ stale rest cache,
      countOf q id + 1 = sync.nParts ∧
      (sync.arrive q id).1.imageIdQueue = stale ++ id :: rest ∧
      sync.processImageMetadata q id = .ok (⟨rest, cache⟩, ⟨id, stale.length⟩) ∧
      ∀ x : ℕ, cache[x]? =
        if x ∈ stale ∨ x = id then none else (sync.arrive q id).1.metaCache[x]?) ∨
    (∃ cache,
      countOf q id + 1 ≠ sync.nParts ∧
      sync.processImageMetadata q id =
        .ok (⟨(sync.arrive q id).1.imageIdQueue, cache⟩, ⟨invalidImageId, (sync.arrive q id).2⟩) ∧
      ∀ x : ℕ, cache[x]? =
        if x = id then some (countOf q id + 1) else (sync.arrive q id).1.metaCache[x]?) := by
  by_cases hfull : countOf q id + 1 = sync.nParts
  · left
    obtain ⟨stale, rest, cache, hqueue, hget, hcache⟩ := getFullImage_of_mem
      (q := { (sync.arrive q id).1 with
        metaCache := (sync.arrive q id).1.metaCache.insert id (countOf q id + 1) }) ha.nodup ha.mem
    refine ⟨stale, rest, cache, hfull, hqueue, ?_, fun x => ?_⟩
    · rw [processImageMetadata, ha.count]
      simp only [hfull, if_true]
      rw [← hfull]
      exact hget
    · rw [hcache, Std.TreeMap.getElem?_insert_nat]
      by_cases hx : x = id <;> simp [hx]
  · right
    refine ⟨_, hfull, ?_, fun x => Std.TreeMap.getElem?_insert_nat ..⟩
    rw [processImageMetadata, ha.count]
    simp only [hfull, if_false]

/-- A message keeps the keys and the bound on the queue, whatever the counts are. -/
theorem KeysOk.process (h : KeysOk q) (hlen : q.imageIdQueue.length ≤ sync.nImagesBuffer)
    (hbuffer : 1 ≤ sync.nImagesBuffer) (id : ℕ) :
    ∃ q' result, sync.processImageMetadata q id = .ok (q', result) ∧ KeysOk q' ∧
      q'.imageIdQueue.length ≤ sync.nImagesBuffer := by
  have ha := h.arrive hlen hbuffer id
  obtain ⟨stale, rest, cache, -, hqueue, hok, hcache⟩ | ⟨cache, -, hok, hcache⟩ :=
    processImageMetadata_cases ha
  · have hnodup := ha.nodup
    rw [hqueue, List.nodup_append, List.nodup_cons] at hnodup
    refine ⟨_, _, hok, ⟨hnodup.2.1.2, fun x => ?_⟩, ?_⟩
    · rw [hcache]
      have hmem := ha.mem_iff x
      rw [hqueue, List.mem_append, List.mem_cons] at hmem
      by_cases hx : x ∈ stale ∨ x = id
      · simp only [hx, if_true, reduceCtorEq, exists_false, iff_false]
        rintro hrest
        rcases hx with hx | rfl
        · exact hnodup.2.2 x hx x (List.mem_cons_of_mem _ hrest) rfl
        · exact hnodup.2.1.1 hrest
      · simp only [hx, if_false]
        rw [← hmem]
        tauto
    · have := ha.length_le
      rw [hqueue, List.length_append, List.length_cons] at this
      change rest.length ≤ _
      omega
  · refine ⟨_, _, hok, ⟨ha.nodup, fun x => ?_⟩, ha.length_le⟩
    change _ ↔ ∃ count, cache[x]? = some count
    rw [hcache]
    by_cases hx : x = id
    · subst hx
      simpa using ha.mem
    · rw [if_neg hx]
      exact ha.mem_iff x

/-- **No message fails.** From a well-formed state, `process_image_metadata` finds the entry it
looks for, does not throw, and leaves a well-formed state. -/
theorem WellFormed.process (h : WellFormed sync q) (hparts : 1 ≤ sync.nParts)
    (hbuffer : 1 ≤ sync.nImagesBuffer) (id : ℕ) :
    ∃ q' result, sync.processImageMetadata q id = .ok (q', result) ∧ WellFormed sync q' := by
  have ha := h.arrive hbuffer id
  have hothers : ∀ x ≠ id, ∀ count, (sync.arrive q id).1.metaCache[x]? = some count →
      1 ≤ count ∧ count < sync.nParts := fun x hx count hget =>
    h.counts x count (ha.others x hx count hget)
  obtain ⟨q', result, hok', hkeys, hlen⟩ := h.toKeysOk.process h.length_le hbuffer id
  refine ⟨q', result, hok', hkeys, hlen, fun x count hget => ?_⟩
  obtain ⟨stale, rest, cache, -, -, hok, hcache⟩ | ⟨cache, hwait, hok, hcache⟩ :=
    processImageMetadata_cases ha
  · obtain ⟨rfl, rfl⟩ := Prod.mk.inj (Except.ok.inj (hok'.symm.trans hok))
    rw [hcache] at hget
    split at hget
    · cases hget
    · next hx => exact hothers x (fun heq => hx (.inr heq)) count hget
  · obtain ⟨rfl, rfl⟩ := Prod.mk.inj (Except.ok.inj (hok'.symm.trans hok))
    rw [hcache] at hget
    split at hget
    · have := h.countOf_lt hparts id
      have := Option.some.inj hget
      omega
    · next hx => exact hothers x hx count hget

end StreamSynchronizer

/-! ## Runs -/

/-- A message of the main loop. The synchronizer sees only the id; which sender the message comes
from is part of the record. -/
structure StreamMessage where
  stream : ℕ
  imageId : ℕ
  deriving DecidableEq, Repr

/-- The service, and the record of the run that led to it. -/
structure StreamTrace where
  state : StreamSynchronizer.State
  /-- What stopped the service, if anything did. -/
  failure : Option StreamSynchronizer.SyncError
  /-- The messages received so far. -/
  delivered : List StreamMessage
  /-- The ids of the messages passed on to the image stream. -/
  sent : List ℕ
  /-- The sum of the numbers of corrupted images given to `QueueStatsCollector::process`. -/
  reported : ℕ
  /-- The number of queue entries removed without being passed on. -/
  removed : ℕ

namespace StreamTrace

open StreamSynchronizer

/-- A service that has just started. -/
def start : StreamTrace := ⟨State.empty, none, [], [], 0, 0⟩

/-- One turn of the main loop of `std_data_sync_stream`. A failure ends the service. -/
def step (sync : StreamSynchronizer) (t : StreamTrace) (m : StreamMessage) : StreamTrace :=
  match t.failure with
  | some _ => t
  | none =>
    match sync.processImageMetadata t.state m.imageId with
    | .error e => { t with failure := some e, delivered := t.delivered ++ [m] }
    | .ok (q, result) =>
      let created := if isNewImage t.state m.imageId then 1 else 0
      let gone := t.state.imageIdQueue.length + created - q.imageIdQueue.length
      if result.imageId ≠ invalidImageId then
        { t with
          state := q
          delivered := t.delivered ++ [m]
          sent := t.sent ++ [result.imageId]
          reported := t.reported + result.nCorruptedImages
          removed := t.removed + (gone - 1) }
      else
        { t with
          state := q
          delivered := t.delivered ++ [m]
          removed := t.removed + gone }

end StreamTrace

end StdDaq
