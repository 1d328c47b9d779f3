import Mathlib.Algebra.Order.BigOperators.Group.Finset
import StdDaq.Lib.Inevitable
import StdDaq.StreamTransfer.Intact

/-!
# What the receiving server is certain to publish

When no socket drops a message, every part brings the same identifiers in the same order. The
synchronizer keeps a queue of at most a thousand images, and an image that does not fit pushes out
one that is not complete yet, so as long as no more than a thousand images are on their way, every
image is published. Nothing is asked of the services but that they go on while there is something to
do.

## Main results

* `Deployment.range_isSome_iff_lt` — the parts that are sent are the first ones
* `Transfer.Delivering.step` — what every part has announced or is going to announce
* `inevitable_published` — everything is published, with its bytes and in order
-/

namespace StdDaq

namespace StreamTransfer

open Forwarding StreamSync

/-! ### The parts -/

/-- What fulfils a condition that smaller numbers fulfil as well. -/
theorem mem_filter_range_iff {F p : ℕ} {P : ℕ → Bool}
    (hP : ∀ i j, i ≤ j → P j = true → P i = true) :
    p ∈ (List.range F).filter P ↔ p < ((List.range F).filter P).length := by
  constructor
  · intro hp
    obtain ⟨hlt, hactive⟩ := List.mem_filter.mp hp
    rw [List.mem_range] at hlt
    have hsub : ∀ i ∈ List.range (p + 1), i ∈ (List.range F).filter P := by
      intro i hi
      rw [List.mem_range] at hi
      exact List.mem_filter.mpr ⟨List.mem_range.mpr (by omega), hP i p (by omega) hactive⟩
    have := (List.subperm_of_subset List.nodup_range hsub).length_le
    rw [List.length_range] at this
    omega
  · intro hp
    by_contra hnot
    have hF : ((List.range F).filter P).length ≤ F :=
      (List.length_filter_le _ _).trans_eq List.length_range
    have hsub : ∀ i ∈ (List.range F).filter P, i ∈ List.range p := by
      intro i hi
      refine List.mem_range.mpr (Nat.lt_of_not_le fun hle => hnot ?_)
      exact List.mem_filter.mpr
        ⟨List.mem_range.mpr (by omega), hP p i hle (List.mem_filter.mp hi).2⟩
    have := (List.subperm_of_subset (List.nodup_range.filter _) hsub).length_le
    rw [List.length_range] at this
    omega

namespace Deployment

variable (d : Deployment) {part : ℕ} {r : ℕ × ℕ}

theorem exists_cutsInto : ∃ B, CutsInto d.config B d.imageBytes :=
  cutsInto_of_imageSizeDefined d.defined d.in_parts d.forwarders d.imageBytes_eq d.largest

/-- The parts that are sent are the first ones. -/
theorem range_isSome_iff_lt (hcount : d.nParts = (activeParts d.config).length) :
    (d.range part).isSome ↔ part < d.nParts := by
  obtain ⟨B, h⟩ := d.exists_cutsInto
  have hfilter : activeParts d.config =
      (parts d.config).filter fun p => decide (FloorPartition.cut B
        (toSizeT d.config.maxNumberOfForwardersSpawned) p < d.imageBytes) := by
    refine List.filter_congr fun p hp => ?_
    rw [h.activeRange_eq (List.mem_range.mp hp)]
    split
    · next hin => rw [Option.isSome_some, decide_eq_true hin]
    · next hin => rw [Option.isSome_none, decide_eq_false hin]
  rw [range_isSome_iff, hcount, hfilter]
  exact mem_filter_range_iff fun i j hle hj => decide_eq_true
    ((FloorPartition.cut_mono hle).trans_lt (of_decide_eq_true hj))

theorem imageBytes_pos : 0 < d.imageBytes := by
  have hslots := d.slots_eq
  rw [slotsNumber, d.imageBytes_eq] at hslots
  change (if d.imageBytes = 0 then _ else _) = _ at hslots
  split at hslots
  · cases hslots
  · exact Nat.pos_of_ne_zero ‹_›

/-- No part is empty. -/
theorem range_pos (hwhole : ForwardsWhole d.config d.imageBytes) (hr : r ∈ d.range part) :
    0 < r.2 := by
  obtain ⟨B, h⟩ := d.exists_cutsInto
  have hrange : ∀ part, ∀ r ∈ d.range part, ∃ p,
      FloorPartition.cut B (toSizeT d.config.maxNumberOfForwardersSpawned) p < d.imageBytes ∧
        r = (FloorPartition.cut B (toSizeT d.config.maxNumberOfForwardersSpawned) p,
          min (d.imageBytes - FloorPartition.cut B
              (toSizeT d.config.maxNumberOfForwardersSpawned) p)
            (FloorPartition.width B (toSizeT d.config.maxNumberOfForwardersSpawned))) := by
    intro part r hr
    obtain ⟨hpart, hactive⟩ := d.mem_range_iff.mp hr
    rw [h.activeRange_eq (List.mem_range.mp hpart)] at hactive
    split at hactive
    · exact ⟨part, ‹_›, (Option.mem_some_iff.mp hactive).symm⟩
    · cases hactive
  -- some part holds the first byte, so the width of the parts is positive
  obtain ⟨first, s, hs, hle, hlt⟩ := d.exists_mem_range hwhole d.imageBytes_pos
  obtain ⟨p, -, rfl⟩ := hrange first s hs
  obtain ⟨q, hq, rfl⟩ := hrange part r hr
  dsimp only at hle hlt ⊢
  omega

end Deployment

/-- The turns of the services. The others are what happens around them. -/
def Event.IsTurn : Event → Prop
  | .send _ => True
  | .receive _ => True
  | .collect _ => True
  | _ => False

namespace Transfer

variable {d : Deployment} {t t' : Transfer} {part : ℕ} {m : ImageMetadata} {e : Event}

/-- Nothing is lost, the identifiers increase, and an image is announced only while fewer images
are on their way than the synchronizer can keep. -/
def Smooth (d : Deployment) (t : Transfer) (e : Event) : Prop :=
  Undisturbed d t e ∧
    match e with
    | .announce m => (∀ image ∈ t.sent, image.id < m.imageId) ∧ m.imageId ≠ invalidImageId ∧
        t.sent.length < t.published.length + d.synchronizer.nImagesBuffer
    | .loseRequest _ _ => False
    | .loseMessage _ _ => False
    | _ => True

instance (e : Event) : Decidable (Smooth d t e) :=
  match e with
  | .fill _ _ _ => inferInstanceAs (Decidable (_ ∧ True))
  | .announce _ => inferInstanceAs (Decidable (_ ∧ _ ∧ _ ∧ _))
  | .send _ => inferInstanceAs (Decidable (_ ∧ True))
  | .receive _ => inferInstanceAs (Decidable (_ ∧ True))
  | .collect _ => inferInstanceAs (Decidable (_ ∧ True))
  | .loseRequest _ _ => inferInstanceAs (Decidable (_ ∧ False))
  | .loseMessage _ _ => inferInstanceAs (Decidable (_ ∧ False))

/-- The invariant of a run without losses. -/
structure Delivering (d : Deployment) (t : Transfer) : Prop extends Faithful d t where
  /-- Every part has brought, or is going to bring, everything. -/
  complete : ∀ part, (d.range part).isSome → t.pipeline part = t.sent.map Image.id
  increasing : (t.sent.map Image.id).Pairwise (· < ·)
  valid : ∀ image ∈ t.sent, image.id ≠ invalidImageId
  room : t.sent.length ≤ t.published.length + d.synchronizer.nImagesBuffer
  merging : Merging d.synchronizer t.sync

theorem delivering_start (source destination : ℕ → UInt8) :
    Delivering d (.start source destination) where
  toFaithful := faithful_start source destination
  complete _ _ := rfl
  increasing := List.Pairwise.nil
  valid image hmem := by cases hmem
  room := Nat.zero_le _
  merging := merging_start

/-- What has been counted, as the synchronizer sees it. -/
theorem Ordered.interleaving (h : Ordered d t)
    (hcount : d.nParts = (activeParts d.config).length)
    (hincreasing : (t.sent.map Image.id).Pairwise (· < ·))
    (hvalid : ∀ image ∈ t.sent, image.id ≠ invalidImageId) :
    Interleaving d.synchronizer t.sync.delivered := by
  have hcounted : ∀ m ∈ t.sync.delivered, m.imageId ∈ t.pipeline m.stream := fun m hm =>
    (counted_sublist m.stream).subset (mem_counted.mpr ⟨m, hm, rfl, rfl⟩)
  refine ⟨fun m hm => ?_, fun m hm => ?_, pairwise_of_streams fun part => ?_⟩
  · exact (d.range_isSome_iff_lt hcount).mp (h.mem_parts (hcounted m hm)).2
  · obtain ⟨image, hmem, hid⟩ :=
      List.mem_map.mp ((h.subsequence m.stream).subset (hcounted m hm))
    exact hid ▸ hvalid image hmem
  · exact hincreasing.sublist ((counted_sublist part).trans (h.subsequence part))

theorem nParts_pos (hwhole : ForwardsWhole d.config d.imageBytes)
    (hcount : d.nParts = (activeParts d.config).length) : 1 ≤ d.nParts := by
  obtain ⟨part, r, hr, -⟩ := d.exists_mem_range hwhole d.imageBytes_pos
  have := (d.range_isSome_iff_lt hcount).mp (Option.isSome_of_mem hr)
  omega

/-- What stands in the queue of the synchronizer was announced, and has not been passed on. -/
theorem Delivering.queue_subset (h : Delivering d t)
    (hcount : d.nParts = (activeParts d.config).length) {id : ℕ}
    (hid : id ∈ t.sync.state.imageIdQueue) : id ∈ t.sent.map Image.id ∧ id ∉ t.sync.sent := by
  obtain ⟨count, hget⟩ := (h.merging.wellFormed.mem_iff id).mp hid
  obtain ⟨hpos, hlt⟩ := h.merging.wellFormed.counts id count hget
  have hlen := h.merging.counts id count hget
  constructor
  · obtain ⟨part, hpart⟩ := List.exists_mem_of_length_pos (hlen ▸ hpos)
    exact (h.ordered.subsequence part).subset
      ((counted_sublist part).subset (mem_counted.mpr (mem_senders.mp hpart)))
  · intro hsent
    have hall := (h.ordered.interleaving hcount h.increasing h.valid).length_senders_iff.mpr
      (h.merging.full id hsent)
    omega

/-- The queue has room for the next announcement. -/
theorem Delivering.queueFits (h : Delivering d t)
    (hcount : d.nParts = (activeParts d.config).length) {rest : List ImageMetadata}
    (hqueue : t.announcements part = m :: rest) :
    QueueFits d.synchronizer t.sync ⟨part, m.imageId⟩ := by
  intro hnew
  have hmem : m.imageId ∈ t.underWay part := by
    rw [underWay, hqueue]
    exact List.mem_cons_self
  have hpipeline : m.imageId ∈ t.pipeline part := List.mem_append_right _ hmem
  have hnot : m.imageId ∉ t.sync.sent := fun hsent =>
    (List.nodup_append.mp (h.ordered.nodup_pipeline part)).2.2 m.imageId
      (h.ordered.mem_counted_of_sent h.counting hcount hsent (h.ordered.mem_parts hpipeline).2)
      m.imageId hmem rfl
  have hout : m.imageId ∉ t.sync.state.imageIdQueue :=
    h.merging.wellFormed.not_mem_iff.mpr (StreamSynchronizer.isNewImage_iff.mp hnew)
  -- the queue, the new image and what was passed on are different announced images
  have hnodup : ((m.imageId :: t.sync.state.imageIdQueue) ++ t.sync.sent).Nodup := by
    refine List.nodup_append.mpr ⟨List.nodup_cons.mpr ⟨hout, h.merging.wellFormed.nodup⟩, ?_, ?_⟩
    · exact h.merging.increasing.imp fun hlt => hlt.ne
    · rintro id hid _ hsent rfl
      rcases List.mem_cons.mp hid with rfl | hid
      · exact hnot hsent
      · exact (h.queue_subset hcount hid).2 hsent
  have hsub : ∀ id ∈ (m.imageId :: t.sync.state.imageIdQueue) ++ t.sync.sent,
      id ∈ t.sent.map Image.id := by
    intro id hid
    rcases List.mem_append.mp hid with hid | hid
    · rcases List.mem_cons.mp hid with rfl | hid
      · exact (h.ordered.subsequence part).subset hpipeline
      · exact (h.queue_subset hcount hid).1
    · rw [← h.ids] at hid
      exact (h.published.map _).subset hid
  have hlen := (List.subperm_of_subset hnodup hsub).length_le
  have hroom := h.room
  rw [List.length_append, List.length_cons, List.length_map, ← h.ids, List.length_map] at hlen
  change t.sync.state.imageIdQueue.length + 1 ≤ d.synchronizer.nImagesBuffer
  omega

theorem Delivering.collect (h : Delivering d t) (hwhole : ForwardsWhole d.config d.imageBytes)
    (hcount : d.nParts = (activeParts d.config).length) {rest : List ImageMetadata}
    (hqueue : t.announcements part = m :: rest) :
    Delivering d (t.collectPart d part m rest) := by
  obtain ⟨-, hdelivered, -⟩ := h.counting.step d.nImagesBuffer_pos ⟨part, m.imageId⟩
  have hfaithful := h.toFaithful.collect hwhole hcount hqueue
  have hm := hfaithful.ordered.interleaving hcount h.increasing h.valid
  change Interleaving _ (t.sync.step d.synchronizer ⟨part, m.imageId⟩).delivered at hm
  rw [hdelivered] at hm
  refine ⟨hfaithful, fun q hq => ?_, h.increasing, h.valid, h.room.trans ?_,
    (h.merging.step (nParts_pos hwhole hcount) d.nImagesBuffer_pos hm
      (h.queueFits hcount hqueue)).1⟩
  · rw [pipeline_collectPart hqueue hdelivered]
    exact h.complete q hq
  · refine Nat.add_le_add_right ?_ _
    rw [Transfer.collectPart]
    split
    · rw [List.length_append]
      exact Nat.le_add_right _ _
    · exact le_rfl

/-- A message is not empty. -/
theorem Current.data_ne_nil (h : Current d t) (hwhole : ForwardsWhole d.config d.imageBytes)
    {r : ℕ × ℕ} {data : List UInt8} {later : List (ImageMetadata × List UInt8)}
    (hr : d.range part = some r) (hqueue : t.messages part = (m, data) :: later) : data ≠ [] := by
  obtain ⟨image, hnewest, -, hdata⟩ := h.travelling part (m, data) (hqueue ▸ List.mem_cons_self)
  have hsize := h.sizes image (newest_mem hnewest).1
  have hpos := d.range_pos hwhole hr
  have hend := d.lt_of_mem_range hwhole hr (b := r.1 + r.2 - 1) (by omega) (by omega)
  have hlen := congrArg List.length (hdata r hr)
  rw [List.length_take, List.length_drop] at hlen
  change data.length = _ at hlen
  exact List.ne_nil_of_length_pos (by omega)

theorem pipeline_receivePart_of_ne {r : ℕ × ℕ} {data : List UInt8}
    {later : List (ImageMetadata × List UInt8)} (hdata : data ≠ [])
    (h : t.messages part = (m, data) :: later) (q : ℕ) :
    (t.receivePart d part r m data later).pipeline q = t.pipeline q := by
  rw [receivePart_eq, if_neg hdata, pipeline, pipeline, underWay, underWay, counted, counted]
  by_cases hq : q = part
  · subst hq
    simp [h]
  · simp [Function.update_of_ne hq]

theorem Delivering.announce (h : Delivering d t) (hwhole : ForwardsWhole d.config d.imageBytes)
    (hcount : d.nParts = (activeParts d.config).length) (hsmooth : Smooth d t (.announce m))
    (hstep : t.step d (.announce m) = some t') : Delivering d t' := by
  obtain ⟨hundisturbed, hlarger, hvalid, hroom⟩ := hsmooth
  have hfaithful := h.toFaithful.step hwhole hcount hundisturbed hstep
  obtain rfl := Option.some.inj hstep
  refine ⟨hfaithful, fun q hq => ?_, ?_, fun image hmem => ?_, ?_, h.merging⟩
  · rw [pipeline_announce, h.complete q hq, if_pos hq, List.map_append]
    rfl
  · rw [List.map_append]
    refine List.pairwise_append.mpr ⟨h.increasing, List.pairwise_singleton _ _, ?_⟩
    intro id hid last hlast
    obtain ⟨image, hmem, rfl⟩ := List.mem_map.mp hid
    rw [List.mem_singleton.mp hlast]
    exact hlarger image hmem
  · rcases List.mem_append.mp hmem with hmem | hmem
    · exact h.valid image hmem
    · rw [List.mem_singleton.mp hmem]
      exact hvalid
  · rw [List.length_append]
    exact hroom

/-- The work that is left for a part. -/
def load (t : Transfer) (part : ℕ) : ℕ :=
  (t.announcements part).length + 2 * (t.messages part).length + 3 * (t.requests part).length

/-- **A turn.** Nothing is lost, and there is less to do. -/
theorem Delivering.turn (h : Delivering d t) (hwhole : ForwardsWhole d.config d.imageBytes)
    (hcount : d.nParts = (activeParts d.config).length) (hturn : e.IsTurn)
    (hstep : t.step d e = some t') :
    Delivering d t' ∧ t'.sent = t.sent ∧
      ∃ part ∈ parts d.config, t'.load part < t.load part ∧ ∀ q ≠ part, t'.load q = t.load q := by
  cases e with
  | send part =>
    have hfaithful := h.toFaithful.step hwhole hcount (e := .send part) trivial hstep
    rw [Transfer.step] at hstep
    split at hstep
    · next r m rest hr hqueue =>
      obtain rfl := Option.some.inj hstep
      have hpipeline := pipeline_sendPart (d := d) (r := r) hqueue
      rw [sendPart_eq] at hfaithful hpipeline ⊢
      refine ⟨⟨hfaithful, fun q hq => (hpipeline q).trans (h.complete q hq), h.increasing, h.valid,
        h.room, h.merging⟩, rfl, part, (d.mem_range_iff.mp hr).1, ?_, fun q hq => ?_⟩
      · simp only [load, Function.update_self, hqueue, List.length_append, List.length_cons,
          List.length_nil]
        omega
      · simp only [load, Function.update_of_ne hq]
    · cases hstep
  | receive part =>
    have hfaithful := h.toFaithful.step hwhole hcount (e := .receive part) trivial hstep
    rw [Transfer.step] at hstep
    split at hstep
    · next r m data later hr hqueue =>
      obtain rfl := Option.some.inj hstep
      have hdata := h.current.data_ne_nil hwhole hr hqueue
      have hpipeline := pipeline_receivePart_of_ne (d := d) (r := r) hdata hqueue
      rw [receivePart_eq, if_neg hdata] at hfaithful hpipeline ⊢
      refine ⟨⟨hfaithful, fun q hq => (hpipeline q).trans (h.complete q hq), h.increasing, h.valid,
        h.room, h.merging⟩, rfl, part, (d.mem_range_iff.mp hr).1, ?_, fun q hq => ?_⟩
      · simp only [load, Function.update_self, hqueue, List.length_append, List.length_cons,
          List.length_nil]
        omega
      · simp only [load, Function.update_of_ne hq]
    · cases hstep
  | collect part =>
    rw [Transfer.step] at hstep
    split at hstep
    · next m rest hqueue =>
      obtain rfl := Option.some.inj hstep
      have hmem : m.imageId ∈ t.pipeline part := by
        rw [pipeline, underWay, hqueue]
        exact List.mem_append_right _ List.mem_cons_self
      refine ⟨h.collect hwhole hcount hqueue, rfl, part, (h.ordered.mem_parts hmem).1, ?_,
        fun q hq => ?_⟩
      · simp only [load, collectPart, Function.update_self, hqueue, List.length_cons]
        omega
      · simp only [load, collectPart, Function.update_of_ne hq]
    · cases hstep
  | _ => exact hturn.elim

theorem Delivering.step (h : Delivering d t) (hwhole : ForwardsWhole d.config d.imageBytes)
    (hcount : d.nParts = (activeParts d.config).length) (hsmooth : Smooth d t e)
    (hstep : t.step d e = some t') : Delivering d t' := by
  cases e with
  | fill id offset data =>
    have hfaithful := h.toFaithful.step hwhole hcount hsmooth.1 hstep
    obtain rfl := Option.some.inj hstep
    exact ⟨hfaithful, h.complete, h.increasing, h.valid, h.room, h.merging⟩
  | announce m => exact h.announce hwhole hcount hsmooth hstep
  | send part => exact (h.turn hwhole hcount (e := .send part) trivial hstep).1
  | receive part => exact (h.turn hwhole hcount (e := .receive part) trivial hstep).1
  | collect part => exact (h.turn hwhole hcount (e := .collect part) trivial hstep).1
  | loseRequest part index => exact hsmooth.2.elim
  | loseMessage part index => exact hsmooth.2.elim

theorem delivering_of_run (hwhole : ForwardsWhole d.config d.imageBytes)
    (hcount : d.nParts = (activeParts d.config).length) {source destination : ℕ → UInt8}
    {events : List Event}
    (hrun : Run (Restrict (Smooth d) (Steps.guarded (Transfer.step d)))
      (.start source destination) events t) : Delivering d t :=
  hrun.invariant (fun _ _ _ h hstep => h.step hwhole hcount hstep.1 hstep.2)
    (delivering_start source destination)

/-! ### The end of the work -/

/-- When nothing is under way, everything has been published. -/
theorem Delivering.published_eq (h : Delivering d t)
    (hwhole : ForwardsWhole d.config d.imageBytes)
    (hcount : d.nParts = (activeParts d.config).length)
    (hempty : ∀ part, (d.range part).isSome → t.underWay part = []) : t.published = t.sent := by
  refine h.published.eq_of_length_le ?_
  have hsub : ∀ id ∈ t.sent.map Image.id, id ∈ t.published.map Image.id := by
    intro id hid
    rw [h.ids, h.merging.mem_sent_iff (nParts_pos hwhole hcount)
      (h.ordered.interleaving hcount h.increasing h.valid)]
    intro part hpart
    have hsome := (d.range_isSome_iff_lt hcount).mpr hpart
    rw [← h.complete part hsome, pipeline, hempty part hsome, List.append_nil] at hid
    exact mem_counted.mp hid
  have hlen := (List.subperm_of_subset h.ordered.distinct hsub).length_le
  rwa [List.length_map, List.length_map] at hlen

/-- A service that has something to read can do a turn. -/
theorem exists_turn (hpart : (d.range part).isSome) (hne : t.underWay part ≠ []) :
    ∃ e t', Event.IsTurn e ∧ t.step d e = some t' := by
  obtain ⟨r, hr⟩ := Option.isSome_iff_exists.mp hpart
  cases hannouncements : t.announcements part with
  | cons m rest => exact ⟨.collect part, _, trivial, by rw [Transfer.step, hannouncements]⟩
  | nil =>
    cases hmessages : t.messages part with
    | cons x later =>
      exact ⟨.receive part, t.receivePart d part r x.1 x.2 later, trivial,
        by simp only [Transfer.step, hr, hmessages]⟩
    | nil =>
      cases hrequests : t.requests part with
      | cons m rest =>
        exact ⟨.send part, t.sendPart d part r m rest, trivial,
          by simp only [Transfer.step, hr, hrequests]⟩
      | nil =>
        rw [underWay, hannouncements, hmessages, hrequests] at hne
        exact absurd rfl hne

end Transfer

open Transfer in
/-- **Without losses everything is published.** Whatever the order in which the services have worked
so far, and whatever it will be: when they go on, they publish all announced images, in order, with
their metadata and their bytes. -/
theorem inevitable_published {d : Deployment} (hwhole : ForwardsWhole d.config d.imageBytes)
    (hcount : d.nParts = (activeParts d.config).length) {source destination : ℕ → UInt8}
    {events : List Event} {t : Transfer}
    (hrun : Run (Restrict (Smooth d) (Steps.guarded (Transfer.step d)))
      (.start source destination) events t) :
    Inevitable (Restrict (fun _ e => e.IsTurn) (Steps.guarded (Transfer.step d)))
      (fun t' => t'.published = t.sent) t := by
  have h := delivering_of_run hwhole hcount hrun
  by_cases hdone : t.published = t.sent
  · exact .now hdone
  refine Inevitable.of_rank
    (P := fun s => (Delivering d s ∧ s.sent = t.sent) ∧ s.published ≠ t.sent)
    (fun s => ∑ part ∈ (parts d.config).toFinset, s.load part) ?_ ?_ ⟨⟨h, rfl⟩, hdone⟩
  · rintro s e s' ⟨⟨hs, hsent⟩, -⟩ ⟨hturn, hstep⟩
    obtain ⟨hs', hsame, part, hpart, hless, hothers⟩ := hs.turn hwhole hcount hturn hstep
    by_cases hdone' : s'.published = t.sent
    · exact .inl hdone'
    · refine .inr ⟨⟨⟨hs', hsame.trans hsent⟩, hdone'⟩, ?_⟩
      refine Finset.sum_lt_sum (fun q _ => ?_) ⟨part, List.mem_toFinset.mpr hpart, hless⟩
      by_cases hq : q = part
      · exact hq ▸ hless.le
      · exact (hothers q hq).le
  · rintro s ⟨⟨hs, hsent⟩, hopen⟩
    by_contra hstuck
    refine hopen ((hs.published_eq hwhole hcount fun part hpart => ?_).trans hsent)
    by_contra hne
    obtain ⟨e, s', hturn, hstep⟩ := exists_turn hpart hne
    exact hstuck ⟨e, s', hturn, hstep⟩

/-- Two images are announced, and the first part of one of them is on its way. -/
def busyRun : List Event :=
  [.fill 7 0 [1, 2, 3, 4], .announce { imageId := 7 }, .fill 8 0 [5, 6, 7, 8], .send 0,
    .announce { imageId := 8 }, .receive 0]

theorem inevitable_published_busy :
    ∃ t : Transfer, t.sent = [⟨{ imageId := 7 }, [1, 2, 3, 4]⟩, ⟨{ imageId := 8 }, [5, 6, 7, 8]⟩] ∧
      Inevitable (Restrict (fun _ e => Event.IsTurn e) (Steps.guarded (Transfer.step pair)))
        (fun t' => t'.published = t.sent) t := by
  obtain ⟨t, hrun, hsent⟩ : ∃ t : Transfer,
      exec (only (Transfer.Smooth pair) (Transfer.step pair))
        (.start (fun _ => 0) fun _ => 0) busyRun = some t ∧
        t.sent = [⟨{ imageId := 7 }, [1, 2, 3, 4]⟩, ⟨{ imageId := 8 }, [5, 6, 7, 8]⟩] :=
    Option.map_eq_some_iff.mp (by decide +kernel)
  exact ⟨t, hsent, inevitable_published pair_whole pair_nParts (Run.of_exec_only hrun)⟩

end StreamTransfer

end StdDaq
