import StdDaq.Lib.Subsequence
import StdDaq.StreamSync.Output
import StdDaq.StreamTransfer.Services

/-!
# What the synchronizer counts

`std_data_sync_stream` does not look at who announces an image. When it passes an image on, it has
counted as many announcements as there are parts. If no service announces an image twice, then they
are the announcements of all services, whatever the order of the messages and the losses.

## Main results

* `Counting.step` — for each image, no announcement is counted twice
* `Counting.announced_of_sent` — what is passed on was announced for every part
-/

namespace StdDaq

namespace StreamTransfer

open StreamSync StreamSynchronizer

variable {sync : StreamSynchronizer} {t : StreamTrace}

/-- The announcements of an image are enough for all the times it was passed on, and for its entry
in the cache. -/
structure Counting (sync : StreamSynchronizer) (t : StreamTrace) : Prop extends Running sync t where
  counts : ∀ id,
    sync.nParts * t.sent.count id + countOf t.state id ≤ (senders t.delivered id).length

theorem counting_start : Counting sync .start where
  toRunning := running_start
  counts _ := le_rfl

theorem countOf_le {q q' : State} {x : ℕ}
    (h : ∀ count, q'.metaCache[x]? = some count → q.metaCache[x]? = some count) :
    countOf q' x ≤ countOf q x := by
  rw [countOf, countOf]
  cases hget : q'.metaCache[x]? with
  | none => exact Nat.zero_le _
  | some count => rw [h count hget]

theorem countOf_eq_zero {q : State} {x : ℕ} (h : q.metaCache[x]? = none) : countOf q x = 0 := by
  rw [countOf, h]
  rfl

theorem length_senders_snoc {messages : List StreamMessage} {m : StreamMessage} {id : ℕ} :
    (senders (messages ++ [m]) id).length =
      (senders messages id).length + if m.imageId = id then 1 else 0 := by
  rw [senders_snoc, List.length_append]
  split
  · rfl
  · rfl

/-- What the counts of a step have to be, for its own image and for the others. -/
theorem Counting.counts_of (h : Counting sync t) {m : StreamMessage} {t' : StreamTrace}
    (hdelivered : t'.delivered = t.delivered ++ [m])
    (hself : sync.nParts * t'.sent.count m.imageId + countOf t'.state m.imageId ≤
      sync.nParts * t.sent.count m.imageId + countOf t.state m.imageId + 1)
    (hothers : ∀ x ≠ m.imageId,
      t'.sent.count x = t.sent.count x ∧ countOf t'.state x ≤ countOf t.state x) (id : ℕ) :
    sync.nParts * t'.sent.count id + countOf t'.state id ≤ (senders t'.delivered id).length := by
  have hcounts := h.counts id
  rw [hdelivered, length_senders_snoc]
  by_cases hid : id = m.imageId
  · subst hid
    rw [if_pos rfl]
    omega
  · obtain ⟨hsent, hcount⟩ := hothers id hid
    rw [hsent, if_neg (Ne.symm hid)]
    omega

/-- What the trace becomes when the image is complete. -/
theorem step_of_complete (halive : t.failure = none) {m : StreamMessage} {rest : List ℕ}
    {cache : Std.TreeMap ℕ ℕ} {nCorrupted : ℕ}
    (hok : sync.processImageMetadata t.state m.imageId =
      .ok (⟨rest, cache⟩, ⟨m.imageId, nCorrupted⟩)) :
    (t.step sync m).state = ⟨rest, cache⟩ ∧ (t.step sync m).delivered = t.delivered ++ [m] ∧
      (t.step sync m).sent =
        if passesOn sync t m.imageId then t.sent ++ [m.imageId] else t.sent := by
  have hpasses : passesOn sync t m.imageId = decide (m.imageId ≠ invalidImageId) := by
    rw [passesOn, halive, hok]
  rw [hpasses, StreamTrace.step, halive, hok]
  by_cases hvalid : m.imageId ≠ invalidImageId
  · simp only [hvalid, if_true, ne_eq, not_false_eq_true, decide_true, and_self]
  · simp only [hvalid, if_false, decide_false, Bool.false_eq_true, and_self]

/-- And when it has to wait. -/
theorem step_of_wait (halive : t.failure = none) {m : StreamMessage} {queue : List ℕ}
    {cache : Std.TreeMap ℕ ℕ} {nCorrupted : ℕ}
    (hok : sync.processImageMetadata t.state m.imageId =
      .ok (⟨queue, cache⟩, ⟨invalidImageId, nCorrupted⟩)) :
    (t.step sync m).state = ⟨queue, cache⟩ ∧ (t.step sync m).delivered = t.delivered ++ [m] ∧
      (t.step sync m).sent = t.sent ∧ passesOn sync t m.imageId = false := by
  rw [passesOn, StreamTrace.step, halive, hok]
  dsimp only
  rw [if_neg (not_not_intro rfl)]
  exact ⟨rfl, rfl, rfl, decide_eq_false (not_not_intro rfl)⟩

/-- **One announcement**: either it makes its image complete, or the image waits. -/
theorem Counting.step (h : Counting sync t) (hbuffer : 1 ≤ sync.nImagesBuffer)
    (m : StreamMessage) :
    Counting sync (t.step sync m) ∧ (t.step sync m).delivered = t.delivered ++ [m] ∧
      (t.step sync m).sent =
        if passesOn sync t m.imageId then t.sent ++ [m.imageId] else t.sent := by
  have ha := h.toKeysOk.arrive h.length_le hbuffer m.imageId
  have hrunning := h.toRunning.step hbuffer (m := m)
  have hothers (x : ℕ) (hx : x ≠ m.imageId) :
      countOf (sync.arrive t.state m.imageId).1 x ≤ countOf t.state x := countOf_le (ha.others x hx)
  obtain ⟨stale, rest, cache, hfull, -, hok, hcache⟩ | ⟨cache, -, hok, hcache⟩ :=
    processImageMetadata_cases ha
  · obtain ⟨hstate, hdelivered, hsent⟩ := step_of_complete h.alive hok
    refine ⟨⟨hrunning, h.counts_of hdelivered ?_ fun x hx => ⟨?_, ?_⟩⟩, hdelivered, hsent⟩
    · have hle : (t.step sync m).sent.count m.imageId ≤ t.sent.count m.imageId + 1 := by
        rw [hsent]
        split
        · rw [List.count_append, List.count_singleton_self]
        · exact Nat.le_succ _
      have hmul := Nat.mul_le_mul_left sync.nParts hle
      rw [hstate, countOf_eq_zero ((hcache _).trans (if_pos (.inr rfl)))]
      rw [Nat.mul_succ] at hmul
      omega
    · rw [hsent]
      split
      · rw [List.count_append, List.count_singleton, beq_false_of_ne (Ne.symm hx)]
        rfl
      · rfl
    · rw [hstate]
      refine (countOf_le fun count hget => ?_).trans (hothers x hx)
      rw [hcache] at hget
      split at hget
      · cases hget
      · exact hget
  · obtain ⟨hstate, hdelivered, hsent, hpasses⟩ := step_of_wait h.alive hok
    refine ⟨⟨hrunning, h.counts_of hdelivered ?_ fun x hx => ⟨by rw [hsent], ?_⟩⟩, hdelivered,
      by rw [hsent, hpasses]; rfl⟩
    · have hcount : countOf ⟨(sync.arrive t.state m.imageId).1.imageIdQueue, cache⟩ m.imageId =
          countOf t.state m.imageId + 1 := by
        rw [countOf, hcache, if_pos rfl, Option.getD_some]
      rw [hstate, hsent, hcount]
      omega
    · rw [hstate]
      refine (countOf_le fun count hget => ?_).trans (hothers x hx)
      rwa [hcache, if_neg hx] at hget

section Once

variable {id : ℕ}

/-- A relation along every stream. -/
theorem pairwise_of_streams {messages : List StreamMessage} {R : ℕ → ℕ → Prop}
    (h : ∀ part, ((messages.filter fun m => m.stream = part).map
      StreamMessage.imageId).Pairwise R) :
    messages.Pairwise fun m m' => m.stream = m'.stream → R m.imageId m'.imageId := by
  rw [List.pairwise_iff_forall_sublist]
  intro m m' hsub hstream
  have hfilter := (hsub.filter fun x => x.stream = m'.stream).map StreamMessage.imageId
  rw [List.filter_cons_of_pos (by simpa using hstream),
    List.filter_cons_of_pos (by simp), List.filter_nil] at hfilter
  exact List.rel_of_pairwise_cons ((h m'.stream).sublist hfilter) List.mem_cons_self

/-- No service announces an image twice. -/
theorem nodup_of_streams
    (h : ∀ part, ((t.delivered.filter fun m => m.stream = part).map
      StreamMessage.imageId).Nodup) : (senders t.delivered id).Nodup := by
  rw [senders, List.Nodup, List.pairwise_map]
  refine ((pairwise_of_streams h).filter _).imp_of_mem fun {m m'} hm hm' hne hstream => ?_
  have hid : m.imageId = id := of_decide_eq_true (List.mem_filter.mp hm).2
  have hid' : m'.imageId = id := of_decide_eq_true (List.mem_filter.mp hm').2
  exact hne hstream (hid.trans hid'.symm)

/-- **What is passed on was announced for every part.** -/
theorem Counting.announced_of_sent (h : Counting sync t) {parts : List ℕ}
    (hparts : parts.length = sync.nParts) (hnodup : (senders t.delivered id).Nodup)
    (hsub : ∀ part, Announced t.delivered part id → part ∈ parts) (hid : id ∈ t.sent) :
    ∀ part ∈ parts, Announced t.delivered part id := by
  intro part hpart
  have hpos : 1 ≤ t.sent.count id := List.count_pos_iff.mpr hid
  have hle := Nat.mul_le_mul_left sync.nParts hpos
  have hcounts := h.counts id
  refine mem_senders.mp (Subsequence.mem_of_nodup_length hnodup
    (fun part hmem => hsub part (mem_senders.mp hmem)) ?_ hpart)
  omega

end Once

end StreamTransfer

end StdDaq
