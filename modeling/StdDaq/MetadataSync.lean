import StdDaq.ImageMetadata
import StdDaq.Lib.OrderedMap
import StdDaq.Lib.Run

/-!
# The metadata synchronizer

`std_data_sync_metadata` joins two streams: the metadata of every image, in order, and the ids of
the images that have arrived on this machine, in any order. An image is passed on when both are
there and nothing before it is missing (`std-data-sync-metadata/src/synchronizer.cpp`).

Three threads share the synchronizer, one for each public method. `add_metadata` and
`get_next_received_image` exclude one another, and so do `add_received_image` and
`get_next_received_image`; a call is one event here. (`add_received_image` looks at
`metadata_cache` without its mutex.)

`add_received_image` throws away every id that is smaller than the smallest one with metadata. The
point of the invariant is that this never takes anything: an id before the head of the cache has
its metadata behind it, so it was passed on, and the image it belongs to arrives once only. For the
same reason no old id stays at the front of `received_images` and blocks what comes after it.

## Main results

* `returned_exactly_received` — what the synchronizer returns, over every interleaving
-/

namespace StdDaq

namespace MetadataSync

/-- `Synchronizer`: its constant. -/
structure Synchronizer where
  nImagesBuffer : ℕ

/-- The containers of a synchronizer. -/
structure State where
  receivedImages : Finset ℕ
  metadataCache : Std.TreeMap ℕ ImageMetadata

namespace Synchronizer

/-- `Synchronizer::add_metadata`. The value tells whether something was dropped. -/
def addMetadata (sync : Synchronizer) (s : State) (metadata : ImageMetadata) : State × Bool :=
  let metadataCache := s.metadataCache.insert metadata.imageId metadata
  if metadataCache.size > sync.nImagesBuffer then
    ({ s with metadataCache := metadataCache.eraseFirst }, true)
  else
    ({ s with metadataCache }, false)

/-- `Synchronizer::add_received_image`. It dereferences `metadata_cache.begin()`: on an empty cache
nothing can be said about what it does. -/
def addReceivedImage (s : State) (id : ℕ) : Option State :=
  s.metadataCache.first?.map fun (first, _) =>
    { s with receivedImages := (insert id s.receivedImages).filter (first ≤ ·) }

/-- `Synchronizer::get_next_received_image`. The smallest element of the empty set is `⊤`, which is
no image id. -/
def getNextReceivedImage (s : State) : State × Option ImageMetadata :=
  match s.metadataCache.first? with
  | none => (s, none)
  | some (first, data) =>
    if s.receivedImages.min = (first : WithTop ℕ) then
      ({ receivedImages := s.receivedImages.erase first,
         metadataCache := s.metadataCache.eraseFirst }, some data)
    else (s, none)

end Synchronizer

open Synchronizer

/-! ### Runs -/

/-- The calls of the three threads. -/
inductive SyncCall where
  | addMetadata (metadata : ImageMetadata)
  | addReceivedImage (id : ℕ)
  | getNextReceivedImage

/-- A synchronizer together with what it was given and what it returned. -/
structure SyncTrace where
  state : State
  /-- The metadata that were added, in this order. -/
  added : List ImageMetadata
  /-- The ids of the received images, in this order. -/
  received : List ℕ
  /-- The metadata that were returned, in this order. -/
  returned : List ImageMetadata

namespace SyncTrace

/-- A new synchronizer. -/
def start : SyncTrace := ⟨⟨∅, ∅⟩, [], [], []⟩

/-- A call of `get_next_received_image`. -/
def next (t : SyncTrace) : SyncTrace :=
  { t with
    state := (getNextReceivedImage t.state).1
    returned := t.returned ++ (getNextReceivedImage t.state).2.toList }

/-- One call. -/
def step (sync : Synchronizer) (t : SyncTrace) : SyncCall → Option SyncTrace
  | .addMetadata metadata =>
    some { t with
      state := (sync.addMetadata t.state metadata).1
      added := t.added ++ [metadata] }
  | .addReceivedImage id =>
    (addReceivedImage t.state id).map fun state =>
      { t with state, received := t.received ++ [id] }
  | .getNextReceivedImage => some t.next

end SyncTrace

open SyncTrace

variable {sync : Synchronizer} {stream : List ImageMetadata} {t : SyncTrace}

/-- The call does not take the cache beyond `n_images_buffer`. -/
def Fits (sync : Synchronizer) (t : SyncTrace) : SyncCall → Prop
  | .addMetadata metadata =>
    (t.state.metadataCache.insert metadata.imageId metadata).size ≤ sync.nImagesBuffer
  | _ => True

instance (t : SyncTrace) (call : SyncCall) : Decidable (Fits sync t call) :=
  match call with
  | .addMetadata _ => inferInstanceAs (Decidable (_ ≤ _))
  | .addReceivedImage _ => inferInstanceAs (Decidable True)
  | .getNextReceivedImage => inferInstanceAs (Decidable True)

/-- The calls that keep the cache within `n_images_buffer`. -/
def FittingStep (sync : Synchronizer) : SyncTrace → SyncCall → SyncTrace → Prop :=
  Restrict (Fits sync) (Steps.guarded (SyncTrace.step sync))

/-- The metadata come from a stream with strictly increasing image ids, and every received image
belongs to the stream and is received once. -/
structure Deliveries (stream : List ImageMetadata) (t : SyncTrace) : Prop where
  increasing : stream.Pairwise fun m m' => m.imageId < m'.imageId
  added : t.added <+: stream
  received : ∀ id ∈ t.received, ∃ m ∈ stream, m.imageId = id
  once : t.received.Nodup

/-! ### What one call does -/

theorem step_addMetadata {m : ImageMetadata} {u : SyncTrace}
    (h : FittingStep sync t (.addMetadata m) u) :
    u = { t with
      state := { t.state with metadataCache := t.state.metadataCache.insert m.imageId m }
      added := t.added ++ [m] } := by
  obtain ⟨hfits, hstep⟩ := h
  obtain rfl := Option.some.inj hstep
  rw [addMetadata, if_neg (Nat.not_lt.mpr hfits)]

theorem step_addReceivedImage {id : ℕ} {u : SyncTrace}
    (h : FittingStep sync t (.addReceivedImage id) u) :
    ∃ first data, t.state.metadataCache.first? = some (first, data) ∧
      u = { t with
        state := { t.state with
          receivedImages := (insert id t.state.receivedImages).filter (first ≤ ·) }
        received := t.received ++ [id] } := by
  obtain ⟨state, hstate, rfl⟩ := Option.map_eq_some_iff.mp h.2
  obtain ⟨⟨first, data⟩, hfirst, rfl⟩ := Option.map_eq_some_iff.mp hstate
  exact ⟨first, data, hfirst, rfl⟩

theorem step_getNextReceivedImage {u : SyncTrace} :
    FittingStep sync t .getNextReceivedImage u ↔ u = t.next := by
  constructor
  · intro h
    exact (Option.some.inj h.2).symm
  · rintro rfl
    exact ⟨trivial, rfl⟩

/-- What is promised about a whole run is promised about its beginning. -/
theorem Deliveries.of_step {call : SyncCall} {u : SyncTrace} (hdel : Deliveries stream u)
    (hstep : FittingStep sync t call u) : Deliveries stream t := by
  obtain ⟨hinc, hadded, hreceived, honce⟩ := hdel
  cases call with
  | addMetadata m =>
    obtain rfl := step_addMetadata hstep
    exact ⟨hinc, (List.prefix_append _ _).trans hadded, hreceived, honce⟩
  | addReceivedImage id =>
    obtain ⟨first, data, -, rfl⟩ := step_addReceivedImage hstep
    exact ⟨hinc, hadded, fun id hid => hreceived id (List.mem_append_left _ hid),
      (List.nodup_append.mp honce).1⟩
  | getNextReceivedImage =>
    obtain rfl := step_getNextReceivedImage.mp hstep
    exact ⟨hinc, hadded, hreceived, honce⟩

/-! ### What ties the containers to the streams -/

/-- The metadata that were added and not yet returned, which are those in the cache. -/
structure Pending (t : SyncTrace) (pending : List ImageMetadata) : Prop where
  added : t.added = t.returned ++ pending
  cached : ∀ (id : ℕ) m, t.state.metadataCache[id]? = some m ↔ m ∈ pending ∧ m.imageId = id

/-- The invariant of a run in which the cache fits. -/
structure Synced (t : SyncTrace) : Prop where
  /-- Metadata leave in the order in which they came. -/
  pending : ∃ pending, Pending t pending
  /-- Nothing that is needed has been thrown away, and nothing old is kept. -/
  waiting : ∀ id, id ∈ t.state.receivedImages ↔
    id ∈ t.received ∧ ∀ m ∈ t.returned, m.imageId ≠ id
  /-- What was returned had been received. -/
  arrived : ∀ m ∈ t.returned, m.imageId ∈ t.received

theorem synced_start : Synced start where
  pending := ⟨[], rfl, by simp [start]⟩
  waiting := by simp [start]
  arrived := by simp [start]

section Step

variable {pending : List ImageMetadata}

theorem Deliveries.added_increasing (hdel : Deliveries stream t) :
    t.added.Pairwise fun m m' => m.imageId < m'.imageId :=
  hdel.increasing.sublist hdel.added.sublist

/-- An image id belongs to one metadata only. -/
theorem Deliveries.eq_of_imageId (hdel : Deliveries stream t) {m m' : ImageMetadata}
    (hm : m ∈ t.added) (hm' : m' ∈ t.added) (heq : m.imageId = m'.imageId) : m = m' := by
  have hnodup : (t.added.map ImageMetadata.imageId).Nodup :=
    List.pairwise_map.mpr (hdel.added_increasing.imp fun hlt => hlt.ne)
  exact List.inj_on_of_nodup_map hnodup hm hm' heq

theorem Deliveries.pending_increasing (hdel : Deliveries stream t) (hpending : Pending t pending) :
    pending.Pairwise fun m m' => m.imageId < m'.imageId := by
  have hinc := hdel.added_increasing
  rw [hpending.added] at hinc
  exact (List.pairwise_append.mp hinc).2.1

/-- Everything in the stream that was not returned comes no earlier than the head. -/
theorem Deliveries.head_le (hdel : Deliveries stream t) {m : ImageMetadata}
    (hpending : Pending t (m :: pending)) {id : ℕ} (hid : ∃ m' ∈ stream, m'.imageId = id)
    (hnot : ∀ m' ∈ t.returned, m'.imageId ≠ id) : m.imageId ≤ id := by
  obtain ⟨rest, hstream⟩ := hdel.added
  obtain ⟨m', hm', rfl⟩ := hid
  have hinc := hdel.increasing
  rw [← hstream, hpending.added, List.append_assoc] at hm' hinc
  rcases List.mem_append.mp hm' with hret | hlater
  · exact absurd rfl (hnot m' hret)
  · have htail := (List.pairwise_append.mp hinc).2.1
    rw [List.cons_append] at hlater htail
    rcases List.mem_cons.mp hlater with rfl | hin
    · exact le_rfl
    · exact ((List.pairwise_cons.mp htail).1 m' hin).le

/-- The first entry of the cache is the oldest of the pending metadata. -/
theorem Deliveries.head_of_first? (hdel : Deliveries stream t) (hpending : Pending t pending)
    {first : ℕ} {data : ImageMetadata}
    (hfirst : t.state.metadataCache.first? = some (first, data)) :
    data.imageId = first ∧ ∃ rest, pending = data :: rest := by
  obtain ⟨hget, hmin⟩ := Std.TreeMap.first?_eq_some hfirst
  obtain ⟨hmem, rfl⟩ := (hpending.cached first data).mp hget
  refine ⟨rfl, ?_⟩
  have hsorted := hdel.pending_increasing hpending
  cases pending with
  | nil => cases hmem
  | cons m ms =>
    rcases List.mem_cons.mp hmem with rfl | hin
    · exact ⟨ms, rfl⟩
    · have hle := hmin m.imageId m ((hpending.cached _ m).mpr ⟨List.mem_cons_self, rfl⟩)
      exact absurd ((List.pairwise_cons.mp hsorted).1 data hin) (Nat.not_lt.mpr hle)

theorem Pending.eq_nil_of_first? (hpending : Pending t pending)
    (hfirst : t.state.metadataCache.first? = none) : pending = [] := by
  refine List.eq_nil_iff_forall_not_mem.mpr fun m hm => ?_
  have hget := (hpending.cached m.imageId m).mpr ⟨hm, rfl⟩
  rw [Std.TreeMap.first?_eq_none_iff.mp hfirst] at hget
  cases hget

theorem Synced.addMetadata (h : Synced t) {m : ImageMetadata} {u : SyncTrace}
    (hdel : Deliveries stream u) (hstep : FittingStep sync t (.addMetadata m) u) : Synced u := by
  obtain ⟨pending, hpending⟩ := h.pending
  obtain rfl := step_addMetadata hstep
  -- the new metadata has a larger id than everything in the cache
  have hnew : ∀ m' ∈ pending, m'.imageId ≠ m.imageId := by
    intro m' hm'
    have hlast := (List.pairwise_append.mp hdel.added_increasing).2.2
    exact (hlast m' (by rw [hpending.added]; exact List.mem_append_right _ hm') m
      (List.mem_singleton.mpr rfl)).ne
  refine ⟨⟨pending ++ [m], ?_, fun id m' => ?_⟩, h.waiting, h.arrived⟩
  · show t.added ++ [m] = t.returned ++ (pending ++ [m])
    rw [hpending.added, List.append_assoc]
  · show (t.state.metadataCache.insert m.imageId m)[id]? = some m' ↔ _
    rw [Std.TreeMap.getElem?_insert_nat]
    split
    · next hid =>
      subst hid
      constructor
      · rintro ⟨⟩
        exact ⟨List.mem_append_right _ (List.mem_singleton.mpr rfl), rfl⟩
      · rintro ⟨hmem, heq⟩
        rcases List.mem_append.mp hmem with hold | hlast
        · exact absurd heq (hnew m' hold)
        · rw [List.mem_singleton.mp hlast]
    · next hid =>
      rw [hpending.cached, List.mem_append, List.mem_singleton]
      constructor
      · rintro ⟨hmem, heq⟩
        exact ⟨.inl hmem, heq⟩
      · rintro ⟨hmem | rfl, heq⟩
        · exact ⟨hmem, heq⟩
        · exact absurd heq.symm hid

/-- Receiving an image throws nothing away. -/
theorem Synced.addReceivedImage (h : Synced t) {id : ℕ} {u : SyncTrace}
    (hdel : Deliveries stream u) (hstep : FittingStep sync t (.addReceivedImage id) u) :
    Synced u := by
  obtain ⟨pending, hpending⟩ := h.pending
  obtain ⟨first, data, hfirst, rfl⟩ := step_addReceivedImage hstep
  have hbefore := hdel.of_step hstep
  obtain ⟨rfl, rest, rfl⟩ := hbefore.head_of_first? hpending hfirst
  have hfresh : id ∉ t.received := by
    intro hmem
    exact (List.nodup_append.mp hdel.once).2.2 id hmem id (List.mem_singleton.mpr rfl) rfl
  refine ⟨⟨data :: rest, hpending.added, hpending.cached⟩, fun id' => ?_, fun m hm => ?_⟩
  · have hwaiting : id' ∈ insert id t.state.receivedImages ↔
        id' ∈ t.received ++ [id] ∧ ∀ m ∈ t.returned, m.imageId ≠ id' := by
      rw [Finset.mem_insert, h.waiting, List.mem_append, List.mem_singleton]
      constructor
      · rintro (rfl | ⟨hmem, hnot⟩)
        · exact ⟨.inr rfl, fun m hm heq => hfresh (heq ▸ h.arrived m hm)⟩
        · exact ⟨.inl hmem, hnot⟩
      · rintro ⟨hmem | rfl, hnot⟩
        · exact .inr ⟨hmem, hnot⟩
        · exact .inl rfl
    show id' ∈ (insert id t.state.receivedImages).filter (data.imageId ≤ ·) ↔ _
    rw [Finset.mem_filter, hwaiting, and_iff_left_iff_imp]
    rintro ⟨hmem, hnot⟩
    exact hbefore.head_le hpending (hdel.received id' hmem) hnot
  · exact List.mem_append_left _ (h.arrived m hm)

/-- The image at the head is returned exactly when it has been received. -/
theorem getNextReceivedImage_cons (h : Synced t) (hdel : Deliveries stream t)
    {m : ImageMetadata} (hpending : Pending t (m :: pending)) :
    getNextReceivedImage t.state =
      if m.imageId ∈ t.received then
        ({ receivedImages := t.state.receivedImages.erase m.imageId,
           metadataCache := t.state.metadataCache.erase m.imageId }, some m)
      else (t.state, none) := by
  obtain ⟨⟨first, data⟩, hfirst⟩ : ∃ e, t.state.metadataCache.first? = some e := by
    refine Option.ne_none_iff_exists'.mp fun hnone => ?_
    cases hpending.eq_nil_of_first? hnone
  obtain ⟨rfl, rest, heq⟩ := hdel.head_of_first? hpending hfirst
  obtain ⟨rfl, rfl⟩ := List.cons.inj heq
  have hhead : ∀ m' ∈ t.returned, m'.imageId ≠ m.imageId := by
    intro m' hm'
    have hinc := hdel.added_increasing
    rw [hpending.added] at hinc
    exact ((List.pairwise_append.mp hinc).2.2 m' hm' m List.mem_cons_self).ne
  have hmin : t.state.receivedImages.min = (m.imageId : WithTop ℕ) ↔ m.imageId ∈ t.received := by
    constructor
    · intro hmin
      exact ((h.waiting _).mp (Finset.mem_of_min hmin)).1
    · intro hmem
      refine le_antisymm (Finset.min_le ((h.waiting _).mpr ⟨hmem, hhead⟩)) ?_
      refine Finset.le_min fun id hid => ?_
      obtain ⟨hrec, hnot⟩ := (h.waiting id).mp hid
      exact WithTop.coe_le_coe.mpr (hdel.head_le hpending (hdel.received id hrec) hnot)
  rw [getNextReceivedImage, hfirst]
  simp only [hmin, Std.TreeMap.eraseFirst, hfirst]

theorem getNextReceivedImage_nil (hpending : Pending t []) :
    getNextReceivedImage t.state = (t.state, none) := by
  have hnone : t.state.metadataCache.first? = none := by
    refine Std.TreeMap.first?_eq_none_iff.mpr fun k => ?_
    refine Option.eq_none_iff_forall_ne_some.mpr fun m hget => ?_
    cases ((hpending.cached k m).mp hget).1
  rw [getNextReceivedImage, hnone]

/-- What is left after the head was returned. -/
theorem Pending.next {m : ImageMetadata} (hpending : Pending t (m :: pending))
    (hdel : Deliveries stream t)
    (hnext : getNextReceivedImage t.state =
      ({ receivedImages := t.state.receivedImages.erase m.imageId,
         metadataCache := t.state.metadataCache.erase m.imageId }, some m)) :
    Pending t.next pending := by
  have hsorted := List.pairwise_cons.mp (hdel.pending_increasing hpending)
  rw [SyncTrace.next, hnext]
  refine ⟨?_, fun id m' => ?_⟩
  · show t.added = t.returned ++ [m] ++ pending
    rw [hpending.added, List.append_assoc, List.singleton_append]
  · show (t.state.metadataCache.erase m.imageId)[id]? = some m' ↔ _
    rw [Std.TreeMap.getElem?_erase_nat]
    split
    · next hid =>
      subst hid
      refine ⟨nofun, fun ⟨hm', heq⟩ => ?_⟩
      exact absurd heq (hsorted.1 m' hm').ne'
    · next hid =>
      rw [hpending.cached, List.mem_cons]
      constructor
      · rintro ⟨rfl | hm', heq⟩
        · exact absurd heq.symm hid
        · exact ⟨hm', heq⟩
      · rintro ⟨hm', heq⟩
        exact ⟨.inr hm', heq⟩

theorem SyncTrace.next_of_none (hnone : getNextReceivedImage t.state = (t.state, none)) :
    t.next = t := by
  rw [next, hnone, Option.toList_none, List.append_nil]

theorem Synced.next (h : Synced t) (hdel : Deliveries stream t) : Synced t.next := by
  obtain ⟨pending, hpending⟩ := h.pending
  cases pending with
  | nil =>
    rw [next_of_none (getNextReceivedImage_nil hpending)]
    exact h
  | cons m ms =>
    have hnext := getNextReceivedImage_cons h hdel hpending
    by_cases hmem : m.imageId ∈ t.received
    · rw [if_pos hmem] at hnext
      refine ⟨⟨ms, hpending.next hdel hnext⟩, fun id => ?_, fun m' hm' => ?_⟩
      · rw [SyncTrace.next, hnext]
        show id ∈ t.state.receivedImages.erase m.imageId ↔
          id ∈ t.received ∧ ∀ m' ∈ t.returned ++ [m], m'.imageId ≠ id
        rw [Finset.mem_erase, h.waiting, List.forall_mem_append, List.forall_mem_singleton]
        tauto
      · rw [SyncTrace.next, hnext] at hm'
        rcases List.mem_append.mp hm' with hold | hlast
        · exact h.arrived m' hold
        · rw [List.mem_singleton.mp hlast]
          exact hmem
    · rw [if_neg hmem] at hnext
      rw [next_of_none hnext]
      exact h

end Step

theorem synced_of_run {calls : List SyncCall} (hrun : Run (FittingStep sync) start calls t)
    (hdel : Deliveries stream t) : Synced t := by
  refine hrun.invariant (P := fun t => Deliveries stream t → Synced t) ?_
    (fun _ => synced_start) hdel
  intro t call u ih hstep hdel
  have hbefore := hdel.of_step hstep
  have h := ih hbefore
  cases call with
  | addMetadata m => exact h.addMetadata hdel hstep
  | addReceivedImage id => exact h.addReceivedImage hdel hstep
  | getNextReceivedImage =>
    obtain rfl := step_getNextReceivedImage.mp hstep
    exact h.next hbefore

/-! ### Emptying the synchronizer -/

/-- Calling `get_next_received_image` a number of times. -/
def Drained (sync : Synchronizer) (t u : SyncTrace) : Prop :=
  ∃ n, Run (FittingStep sync) t (List.replicate n .getNextReceivedImage) u

theorem Drained.deliveries {u : SyncTrace} (hdrained : Drained sync t u) :
    u.added = t.added ∧ u.received = t.received := by
  obtain ⟨n, hrun⟩ := hdrained
  induction n generalizing u with
  | zero =>
    obtain rfl := Run.nil_iff.mp hrun
    exact ⟨rfl, rfl⟩
  | succ n ih =>
    rw [List.replicate_succ'] at hrun
    obtain ⟨v, hv, hlast⟩ := Run.snoc_iff.mp hrun
    obtain rfl := step_getNextReceivedImage.mp hlast
    obtain ⟨hadded, hreceived⟩ := ih hv
    exact ⟨hadded, hreceived⟩

/-- After finitely many calls one returns nothing: each of the others takes something out of the
cache. -/
theorem exists_drained (h : Synced t) (hdel : Deliveries stream t) :
    ∃ u, Drained sync t u ∧ (getNextReceivedImage u.state).2 = none := by
  obtain ⟨pending, hpending⟩ := h.pending
  induction pending generalizing t with
  | nil => exact ⟨t, ⟨0, .nil⟩, by rw [getNextReceivedImage_nil hpending]⟩
  | cons m ms ih =>
    have hnext := getNextReceivedImage_cons h hdel hpending
    by_cases hmem : m.imageId ∈ t.received
    · rw [if_pos hmem] at hnext
      have hdel' : Deliveries stream t.next :=
        ⟨hdel.increasing, hdel.added, hdel.received, hdel.once⟩
      obtain ⟨u, ⟨n, hrun⟩, hnone⟩ := ih (h.next hdel) hdel' (hpending.next hdel hnext)
      refine ⟨u, ⟨n + 1, ?_⟩, hnone⟩
      rw [List.replicate_succ]
      exact Run.cons_iff.mpr ⟨t.next, step_getNextReceivedImage.mpr rfl, hrun⟩
    · exact ⟨t, ⟨0, .nil⟩, by rw [hnext, if_neg hmem]⟩

/-- When no call returns anything any more, what was returned is the longest prefix of the stream
that has been received. -/
theorem Synced.returned_eq (h : Synced t) (hdel : Deliveries stream t) (hall : t.added = stream)
    (hnone : (getNextReceivedImage t.state).2 = none) :
    t.returned = stream.takeWhile fun m => m.imageId ∈ t.received := by
  obtain ⟨pending, hpending⟩ := h.pending
  have harrived : ∀ m ∈ t.returned, decide (m.imageId ∈ t.received) = true :=
    fun m hm => decide_eq_true (h.arrived m hm)
  rw [← hall, hpending.added, List.takeWhile_append_of_pos harrived]
  cases pending with
  | nil => rw [List.takeWhile_nil, List.append_nil]
  | cons m ms =>
    rw [getNextReceivedImage_cons h hdel hpending] at hnone
    split at hnone
    · cases hnone
    · next hmem =>
      rw [List.takeWhile_cons_of_neg (by simpa using hmem), List.append_nil]

/-- **The metadata synchronizer returns the longest prefix of the stream that was received.** In
every interleaving of the calls in which the cache fits, a metadata is returned after it was added
and its image received, and ids leave in strictly increasing order. When everything has been added
and received, calling `get_next_received_image` comes to an end, and then nothing is missing. -/
theorem returned_exactly_received (sync : Synchronizer) {calls : List SyncCall}
    (hrun : Run (FittingStep sync) start calls t) (hdel : Deliveries stream t) :
    (∀ m, (getNextReceivedImage t.state).2 = some m →
      m ∈ t.added ∧ (∀ m' ∈ t.added, m'.imageId = m.imageId → m' = m) ∧
        m.imageId ∈ t.received) ∧
    (t.returned.map ImageMetadata.imageId).Pairwise (· < ·) ∧
    (t.added = stream →
      (∃ u, Drained sync t u ∧ (getNextReceivedImage u.state).2 = none) ∧
      ∀ u, Drained sync t u → (getNextReceivedImage u.state).2 = none →
        u.returned = stream.takeWhile fun m => m.imageId ∈ t.received) := by
  have h := synced_of_run hrun hdel
  obtain ⟨pending, hpending⟩ := h.pending
  refine ⟨fun m hm => ?_, ?_, fun hall => ⟨exists_drained h hdel, fun u hdrained hnone => ?_⟩⟩
  · cases pending with
    | nil =>
      rw [getNextReceivedImage_nil hpending] at hm
      cases hm
    | cons m' ms =>
      rw [getNextReceivedImage_cons h hdel hpending] at hm
      split at hm
      · next hmem =>
        obtain rfl : m' = m := Option.some.inj hm
        have hadded : m' ∈ t.added := by rw [hpending.added]; simp
        exact ⟨hadded, fun m hm => hdel.eq_of_imageId hm hadded, hmem⟩
      · cases hm
  · have hinc := hdel.added_increasing
    rw [hpending.added] at hinc
    exact List.pairwise_map.mpr (List.pairwise_append.mp hinc).1
  · obtain ⟨hadded, hreceived⟩ := hdrained.deliveries
    obtain ⟨n, hdrain⟩ := hdrained
    have hdel' : Deliveries stream u :=
      ⟨hdel.increasing, hadded ▸ hdel.added, hreceived ▸ hdel.received, hreceived ▸ hdel.once⟩
    rw [← hreceived]
    exact (synced_of_run (hrun.append hdrain) hdel').returned_eq hdel' (hadded.trans hall) hnone

/-- The buffer of the service. -/
def serviceSynchronizer : Synchronizer := ⟨10000⟩

/-- Image 3 never arrives; image 7 arrives before its metadata. -/
def missingImageCalls : List SyncCall :=
  [.addMetadata { imageId := 1 }, .addReceivedImage 7, .addMetadata { imageId := 3 },
    .addReceivedImage 1, .getNextReceivedImage, .addMetadata { imageId := 7 }]

/-- The metadata of images 1, 3 and 7. -/
def missingImageStream : List ImageMetadata :=
  [{ imageId := 1 }, { imageId := 3 }, { imageId := 7 }]

theorem returned_exactly_received_missingImage :
    ∃ t, Run (FittingStep serviceSynchronizer) start missingImageCalls t ∧
      Deliveries missingImageStream t ∧ t.added = missingImageStream ∧
      ∃ u, Drained serviceSynchronizer t u ∧ (getNextReceivedImage u.state).2 = none ∧
        u.returned = [{ imageId := 1 }] := by
  obtain ⟨t, ht, hadded, hreceived⟩ :
      ∃ t, exec (only (Fits serviceSynchronizer) (SyncTrace.step serviceSynchronizer)) start
        missingImageCalls = some t ∧ t.added = missingImageStream ∧ t.received = [7, 1] :=
    ⟨_, rfl, rfl, rfl⟩
  have hrun : Run (FittingStep serviceSynchronizer) start missingImageCalls t := .of_exec_only ht
  have hdel : Deliveries missingImageStream t := by
    refine ⟨by decide, hadded ▸ List.prefix_refl _, ?_, ?_⟩
    · rw [hreceived]; decide
    · rw [hreceived]; decide
  obtain ⟨-, -, hdone⟩ := returned_exactly_received serviceSynchronizer hrun hdel
  obtain ⟨⟨u, hdrained, hnone⟩, hexact⟩ := hdone hadded
  refine ⟨t, hrun, hdel, hadded, u, hdrained, hnone, ?_⟩
  rw [hexact u hdrained hnone, hreceived]
  decide

end MetadataSync

end StdDaq
