import StdDaq.MetadataSync.Log

/-!
# Images that block the head

`get_next_received_image` returns the head of the cache when its id is the smallest of
`received_images`. An image whose metadata was lost, or dropped, has an id that will never be the
head. It is purged when it is smaller than the head, but only the next time an image is received:
if the head moves past it and no image comes after that, it stands in front of a head that could be
returned.

Metadata come in strictly increasing order here, and nothing is assumed of the received ids.

## Main results

* `head_returned_iff` — a head whose image has been received is returned unless an id is stranded
-/

namespace StdDaq

namespace MetadataSync

open Synchronizer SyncTrace

/-- The head that an image was received under. -/
def LogEntry.head? : LogEntry → Option ℕ
  | .received _ first => some first
  | _ => none

/-- The head of the cache when the last image was received. -/
def lastHead (log : List LogEntry) : Option ℕ := (log.filterMap LogEntry.head?).getLast?

theorem lastHead_snoc {log : List LogEntry} {entry : LogEntry} :
    lastHead (log ++ [entry]) = entry.head?.or (lastHead log) := by
  rw [lastHead, List.filterMap_append, List.getLast?_append]
  cases hentry : entry.head? with
  | none => simp [hentry, lastHead]
  | some first => simp [hentry]

/-- The image has been received and not been returned, and its id was not before the head when the
last image was received. -/
structure Kept (log : List LogEntry) (id : ℕ) : Prop where
  received : ∃ first, .received id first ∈ log
  not_returned : .returned id ∉ log
  not_purged : ∃ first ∈ lastHead log, first ≤ id

/-- A kept image that is before the present head. -/
def Stranded (log : List LogEntry) (head id : ℕ) : Prop := Kept log id ∧ id < head

/-- The metadata in the cache, and what is known of the ids of everything else. -/
structure HeadOk (t : LoggedTrace) : Prop where
  /-- Metadata are stored under their ids. -/
  cached : ∀ (id : ℕ) m, t.trace.state.metadataCache[id]? = some m →
    m ∈ t.trace.added ∧ m.imageId = id
  /-- What was returned is before everything in the cache. -/
  returned : ∀ id, .returned id ∈ t.log → (∃ m ∈ t.trace.added, m.imageId = id) ∧
    ∀ (k : ℕ) m, t.trace.state.metadataCache[k]? = some m → id < k
  /-- Heads do not go back. -/
  last : ∀ first ∈ lastHead t.log, (∃ m ∈ t.trace.added, m.imageId = first) ∧
    ∀ (k : ℕ) m, t.trace.state.metadataCache[k]? = some m → first ≤ k
  /-- `received_images` holds what is kept. -/
  kept : ∀ id, id ∈ t.trace.state.receivedImages ↔ Kept t.log id

theorem headOk_start : HeadOk LoggedTrace.start where
  cached id m h := by simp [LoggedTrace.start, SyncTrace.start] at h
  returned id h := by cases h
  last first h := by cases h
  kept id := by
    constructor
    · intro h
      cases h
    · rintro ⟨⟨first, h⟩, -, -⟩
      cases h

variable {t u : LoggedTrace} {sync : Synchronizer}

/-- Metadata come with strictly increasing image ids. -/
def Increasing (t : LoggedTrace) : Prop :=
  t.trace.added.Pairwise fun m m' => m.imageId < m'.imageId

theorem Increasing.of_logs (hinc : Increasing u) (hlogs : Logs t u) : Increasing t := by
  cases hlogs with
  | stored m => exact (List.pairwise_append.mp hinc).1
  | dropped hfirst => exact hinc
  | returned hfirst hmin => exact hinc
  | received id hfirst => exact hinc

/-- What was added before is before the metadata that is added now. -/
theorem Increasing.lt_last {m : ImageMetadata} {added : List ImageMetadata}
    (hinc : (added ++ [m]).Pairwise fun m m' => m.imageId < m'.imageId) {id : ℕ}
    (h : ∃ m' ∈ added, m'.imageId = id) : id < m.imageId := by
  obtain ⟨m', hm', rfl⟩ := h
  exact (List.pairwise_append.mp hinc).2.2 m' hm' m (List.mem_singleton.mpr rfl)

theorem kept_snoc {log : List LogEntry} {entry : LogEntry} {id : ℕ} (hhead : entry.head? = none) :
    Kept (log ++ [entry]) id ↔ Kept log id ∧ entry ≠ .returned id := by
  have hreceived : ∀ first, LogEntry.received id first ∈ log ++ [entry] ↔
      LogEntry.received id first ∈ log := by
    intro first
    rw [List.mem_append, List.mem_singleton, or_iff_left_iff_imp]
    rintro rfl
    cases hhead
  have hlast : lastHead (log ++ [entry]) = lastHead log := by
    rw [lastHead_snoc, hhead, Option.none_or]
  constructor
  · rintro ⟨⟨first, hfirst⟩, hreturned, hpurged⟩
    rw [List.mem_append, List.mem_singleton, not_or] at hreturned
    rw [hlast] at hpurged
    exact ⟨⟨⟨first, (hreceived first).mp hfirst⟩, hreturned.1, hpurged⟩, Ne.symm hreturned.2⟩
  · rintro ⟨⟨⟨first, hfirst⟩, hreturned, hpurged⟩, hne⟩
    refine ⟨⟨first, (hreceived first).mpr hfirst⟩, ?_, hlast ▸ hpurged⟩
    rw [List.mem_append, List.mem_singleton, not_or]
    exact ⟨hreturned, Ne.symm hne⟩

/-- An image is received: what is before the head is purged. What was returned is before the head,
and heads do not go back. -/
theorem kept_received {log : List LogEntry} {id first x : ℕ}
    (hreturned : .returned x ∈ log → x < first)
    (hlast : ∀ last, lastHead log = some last → last ≤ first) :
    Kept (log ++ [.received id first]) x ↔ (x = id ∨ Kept log x) ∧ first ≤ x := by
  have hhead : lastHead (log ++ [.received id first]) = some first := by
    rw [lastHead_snoc]
    rfl
  constructor
  · rintro ⟨⟨f, hf⟩, hnot, f', hf', hle⟩
    obtain rfl : first = f' := Option.some.inj (hhead.symm.trans hf')
    rw [List.mem_append, List.mem_singleton, not_or] at hnot
    refine ⟨?_, hle⟩
    rw [List.mem_append, List.mem_singleton] at hf
    rcases hf with hf | hf
    · -- an image has been received before, under a head that was not after this one
      obtain ⟨last, hold⟩ : ∃ last, lastHead log = some last := by
        refine Option.isSome_iff_exists.mp ?_
        rw [lastHead, List.getLast?_isSome]
        exact List.ne_nil_of_mem (List.mem_filterMap.mpr ⟨_, hf, rfl⟩)
      exact .inr ⟨⟨f, hf⟩, hnot.1, last, hold, (hlast last hold).trans hle⟩
    · exact .inl (LogEntry.received.inj hf).1
  · rintro ⟨hx, hle⟩
    refine ⟨?_, ?_, first, hhead, hle⟩
    · rcases hx with rfl | ⟨⟨f, hf⟩, -, -⟩
      · exact ⟨first, List.mem_append_right _ (List.mem_singleton.mpr rfl)⟩
      · exact ⟨f, List.mem_append_left _ hf⟩
    · rw [List.mem_append, List.mem_singleton, or_iff_left (by rintro ⟨⟩)]
      intro hmem
      exact absurd (hreturned hmem) (Nat.not_lt.mpr hle)

/-- Metadata that is newer than everything is stored. -/
theorem HeadOk.stored (h : HeadOk t) (m : ImageMetadata)
    (hinc : (t.trace.added ++ [m]).Pairwise fun m m' => m.imageId < m'.imageId) :
    HeadOk
      { trace := { t.trace with
          state := { t.trace.state with
            metadataCache := t.trace.state.metadataCache.insert m.imageId m }
          added := t.trace.added ++ [m] }
        log := t.log ++ [.stored m.imageId] } := by
  -- a key of the new cache is the new id or an old key
  have hkeys : ∀ (k : ℕ) m', (t.trace.state.metadataCache.insert m.imageId m)[k]? = some m' →
      (k = m.imageId ∧ m' = m) ∨ t.trace.state.metadataCache[k]? = some m' := by
    intro k m' hget
    rw [Std.TreeMap.getElem?_insert_nat] at hget
    split at hget
    · next hk => exact .inl ⟨hk, (Option.some.inj hget).symm⟩
    · exact .inr hget
  have hadded : ∀ {id : ℕ}, (∃ m' ∈ t.trace.added, m'.imageId = id) →
      ∃ m' ∈ t.trace.added ++ [m], m'.imageId = id := by
    rintro id ⟨m', hm', rfl⟩
    exact ⟨m', List.mem_append_left _ hm', rfl⟩
  refine ⟨fun id m' hget => ?_, fun id hid => ?_, fun first hfirst => ?_, fun id => ?_⟩
  · rcases hkeys id m' hget with ⟨rfl, rfl⟩ | hget
    · exact ⟨List.mem_append_right _ (List.mem_singleton.mpr rfl), rfl⟩
    · obtain ⟨hmem, rfl⟩ := h.cached id m' hget
      exact ⟨List.mem_append_left _ hmem, rfl⟩
  · rw [List.mem_append, List.mem_singleton, or_iff_left (by rintro ⟨⟩)] at hid
    obtain ⟨hmem, hlt⟩ := h.returned id hid
    refine ⟨hadded hmem, fun k m' hget => ?_⟩
    rcases hkeys k m' hget with ⟨rfl, -⟩ | hget
    · exact Increasing.lt_last hinc hmem
    · exact hlt k m' hget
  · rw [lastHead_snoc] at hfirst
    obtain ⟨hmem, hle⟩ := h.last first hfirst
    refine ⟨hadded hmem, fun k m' hget => ?_⟩
    rcases hkeys k m' hget with ⟨rfl, -⟩ | hget
    · exact (Increasing.lt_last hinc hmem).le
    · exact hle k m' hget
  · rw [kept_snoc rfl]
    simpa using h.kept id

/-- What is left when an entry is removed from the cache. -/
theorem getElem?_of_erase {cache : Std.TreeMap ℕ ImageMetadata} {first k : ℕ} {m : ImageMetadata}
    (hget : (cache.erase first)[k]? = some m) : k ≠ first ∧ cache[k]? = some m := by
  rw [Std.TreeMap.getElem?_erase_nat] at hget
  split at hget
  · cases hget
  · next hk => exact ⟨hk, hget⟩

theorem HeadOk.logs (h : HeadOk t) (hinc : Increasing u) (hlogs : Logs t u) : HeadOk u := by
  cases hlogs with
  | stored m => exact h.stored m hinc
  | @dropped first data hfirst =>
    refine ⟨fun id m hget => h.cached id m (getElem?_of_erase hget).2, fun id hid => ?_,
      fun f hf => ?_, fun id => ?_⟩
    · rw [List.mem_append, List.mem_singleton, or_iff_left (by rintro ⟨⟩)] at hid
      exact ⟨(h.returned id hid).1,
        fun k m hget => (h.returned id hid).2 k m (getElem?_of_erase hget).2⟩
    · rw [lastHead_snoc] at hf
      exact ⟨(h.last f hf).1, fun k m hget => (h.last f hf).2 k m (getElem?_of_erase hget).2⟩
    · rw [kept_snoc rfl]
      simpa using h.kept id
  | @returned first data hfirst hmin =>
    obtain ⟨hdata, hleast⟩ := Std.TreeMap.first?_eq_some hfirst
    refine ⟨fun id m hget => h.cached id m (getElem?_of_erase hget).2, fun id hid => ?_,
      fun f hf => ?_, fun id => ?_⟩
    · rw [List.mem_append, List.mem_singleton] at hid
      rcases hid with hid | hid
      · exact ⟨(h.returned id hid).1,
          fun k m hget => (h.returned id hid).2 k m (getElem?_of_erase hget).2⟩
      · obtain rfl := LogEntry.returned.inj hid
        obtain ⟨hmem, hid⟩ := h.cached id data hdata
        refine ⟨⟨data, hmem, hid⟩, fun k m hget => ?_⟩
        obtain ⟨hne, hget⟩ := getElem?_of_erase hget
        exact lt_of_le_of_ne (hleast k m hget) hne.symm
    · rw [lastHead_snoc] at hf
      exact ⟨(h.last f hf).1, fun k m hget => (h.last f hf).2 k m (getElem?_of_erase hget).2⟩
    · rw [kept_snoc rfl]
      change id ∈ t.trace.state.receivedImages.erase first ↔ _
      rw [Finset.mem_erase, h.kept, and_comm]
      simp [eq_comm]
  | @received id first data hfirst =>
    obtain ⟨hdata, hleast⟩ := Std.TreeMap.first?_eq_some hfirst
    refine ⟨h.cached, fun id' hid => ?_, fun f hf => ?_, fun x => ?_⟩
    · rw [List.mem_append, List.mem_singleton, or_iff_left (by rintro ⟨⟩)] at hid
      exact h.returned id' hid
    · rw [lastHead_snoc] at hf
      obtain rfl : first = f := Option.some.inj hf
      exact ⟨⟨data, (h.cached first data hdata).1, (h.cached first data hdata).2⟩, hleast⟩
    · change x ∈ (insert id t.trace.state.receivedImages).filter (first ≤ ·) ↔ _
      rw [Finset.mem_filter, Finset.mem_insert, h.kept]
      exact (kept_received (fun hx => (h.returned x hx).2 first data hdata)
        fun last hlast => (h.last last hlast).2 first data hdata).symm

theorem headOk_of_run {calls : List SyncCall}
    (hrun : Run (Steps.guarded (LoggedTrace.step sync)) LoggedTrace.start calls t)
    (hinc : Increasing t) : HeadOk t := by
  refine invariant_of_logs (P := fun t => Increasing t → HeadOk t) (fun h hlogs hinc => ?_) hrun
    (fun _ => headOk_start) hinc
  exact (h (hinc.of_logs hlogs)).logs hinc hlogs

/-- **When a ready head is returned**: in every reachable state whose metadata came in strictly
increasing order, the head whose image has been received is returned exactly when no id is stranded
in front of it. -/
theorem head_returned_iff (sync : Synchronizer) {calls : List SyncCall}
    (hrun : Run (Steps.guarded (LoggedTrace.step sync)) LoggedTrace.start calls t)
    (hinc : Increasing t) {head : ℕ} {data : ImageMetadata}
    (hfirst : t.trace.state.metadataCache.first? = some (head, data))
    (hready : head ∈ t.trace.state.receivedImages) :
    (getNextReceivedImage t.trace.state).2 = some data ↔ ∀ id, ¬ Stranded t.log head id := by
  have h := headOk_of_run hrun hinc
  have hmin : t.trace.state.receivedImages.min = (head : WithTop ℕ) ↔
      ∀ id, ¬ Stranded t.log head id := by
    constructor
    · rintro hmin id ⟨hkept, hlt⟩
      have hle := Finset.min_le ((h.kept id).mpr hkept)
      rw [hmin] at hle
      exact absurd hlt (Nat.not_lt.mpr (WithTop.coe_le_coe.mp hle))
    · intro hfree
      refine le_antisymm (Finset.min_le hready) (Finset.le_min fun id hid => ?_)
      refine WithTop.coe_le_coe.mpr (Nat.le_of_not_lt fun hlt => ?_)
      exact hfree id ⟨(h.kept id).mp hid, hlt⟩
  rw [getNextReceivedImage, hfirst, ← hmin]
  simp only
  split
  · next heq => exact iff_of_true rfl heq
  · next hne => exact iff_of_false (by simp) hne

/-- The head is the first image, and it has arrived. -/
theorem head_returned_first_image :
    ∃ t, Run (Steps.guarded (LoggedTrace.step serviceSynchronizer)) LoggedTrace.start
      [.addMetadata { imageId := 1 }, .addReceivedImage 1] t ∧
      (getNextReceivedImage t.trace.state).2 = some { imageId := 1 } := by
  obtain ⟨t, ht, hlog, hadded, hfirst, hready⟩ :
      ∃ t, exec (LoggedTrace.step serviceSynchronizer) LoggedTrace.start
        [.addMetadata { imageId := 1 }, .addReceivedImage 1] = some t ∧
        t.log = [.stored 1, .received 1 1] ∧ t.trace.added = [{ imageId := 1 }] ∧
        t.trace.state.metadataCache.first? = some (1, { imageId := 1 }) ∧
        1 ∈ t.trace.state.receivedImages :=
    ⟨_, rfl, rfl, rfl, by decide, by decide⟩
  have hrun := Run.of_exec ht
  have hinc : Increasing t := by
    rw [Increasing, hadded]
    exact List.pairwise_singleton _ _
  refine ⟨t, hrun, (head_returned_iff serviceSynchronizer hrun hinc hfirst hready).mpr ?_⟩
  rintro id ⟨⟨-, -, first, hhead, hle⟩, hlt⟩
  rw [hlog] at hhead
  obtain rfl : 1 = first := Option.some.inj hhead
  omega

/-- The metadata of image 3 is lost. When image 1 has been returned, image 3 stands in front of
image 5, which has arrived and whose metadata is the head. -/
theorem ready_head_withheld :
    ∃ t, Run (Steps.guarded (LoggedTrace.step serviceSynchronizer)) LoggedTrace.start
      [.addMetadata { imageId := 1 }, .addReceivedImage 1, .addReceivedImage 3,
        .addReceivedImage 5, .getNextReceivedImage, .addMetadata { imageId := 5 }] t ∧
      Increasing t ∧ t.trace.state.metadataCache.first? = some (5, { imageId := 5 }) ∧
      5 ∈ t.trace.state.receivedImages ∧ (getNextReceivedImage t.trace.state).2 = none := by
  refine ⟨_, Run.of_exec rfl, ?_, by decide, by decide, by decide⟩
  rw [Increasing]
  decide

end MetadataSync

end StdDaq
