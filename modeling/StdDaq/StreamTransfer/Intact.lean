import StdDaq.StreamTransfer.Counting

/-!
# What the receiving server publishes

The parts of an image travel on their own, some of them may be lost, and the synchronizer sees
nothing but identifiers. An image that it passes on is nevertheless whole, and it is the one that
was announced under this identifier, as long as no slot is used again too early: no image is
announced while another one of its slot is under way, and nobody writes into the slot of an image
that some `std_stream_send` still has to read.

What is under way for a part, with what has already been counted, is at every moment a subsequence
of what was announced. A message that is under way belongs to the newest image of its slot, and what
has arrived of the newest image of a slot stands in the slot of the other buffer.

## Main results

* `Transfer.Current.slot_eq` — an image of which all parts were counted stands in its slot
* `Transfer.Faithful.step` — every step keeps the queues in order and the slots current
* `published_sublist` — the published images are a subsequence of the announced ones
-/

namespace StdDaq

namespace StreamTransfer

open Forwarding StreamSync

variable {d : Deployment} {t : Transfer} {part : ℕ} {m : ImageMetadata}

namespace Transfer

/-- What `std_data_sync_stream` has counted for a part. -/
def counted (t : Transfer) (part : ℕ) : List ℕ :=
  (t.sync.delivered.filter fun m => m.stream = part).map StreamMessage.imageId

/-- What is under way for a part, the oldest first. -/
def underWay (t : Transfer) (part : ℕ) : List ℕ :=
  (t.announcements part).map ImageMetadata.imageId ++
    (((t.messages part).map fun x => x.1.imageId) ++
      (t.requests part).map ImageMetadata.imageId)

/-- All that has been heard of a part, and that may still be heard of it. -/
def pipeline (t : Transfer) (part : ℕ) : List ℕ := t.counted part ++ t.underWay part

/-- The newest image of a slot. -/
def newest (d : Deployment) (sent : List Image) (slot : ℕ) : Option Image :=
  sent.reverse.find? fun image => d.slotOf image.id = slot

/-- What happens does not disturb an image that is under way. -/
def Undisturbed (d : Deployment) (t : Transfer) : Event → Prop
  | .fill id offset data => offset + data.length ≤ d.imageBytes ∧
      ∀ part ∈ parts d.config, ∀ m ∈ t.requests part, d.slotOf m.imageId ≠ d.slotOf id
  | .announce m => (∀ image ∈ t.sent, image.id ≠ m.imageId) ∧
      ∀ part ∈ parts d.config, ∀ id ∈ t.underWay part, d.slotOf id ≠ d.slotOf m.imageId
  | _ => True

instance (e : Event) : Decidable (Undisturbed d t e) :=
  match e with
  | .fill _ _ _ => inferInstanceAs (Decidable (_ ∧ _))
  | .announce _ => inferInstanceAs (Decidable (_ ∧ _))
  | .send _ => inferInstanceAs (Decidable True)
  | .receive _ => inferInstanceAs (Decidable True)
  | .collect _ => inferInstanceAs (Decidable True)
  | .loseRequest _ _ => inferInstanceAs (Decidable True)
  | .loseMessage _ _ => inferInstanceAs (Decidable True)

theorem newest_snoc (sent : List Image) (image : Image) (slot : ℕ) :
    newest d (sent ++ [image]) slot =
      if d.slotOf image.id = slot then some image else newest d sent slot := by
  rw [newest, List.reverse_append, List.reverse_singleton, List.singleton_append, List.find?_cons]
  split
  · next h => rw [if_pos (of_decide_eq_true h)]
  · next h =>
    rw [if_neg (of_decide_eq_false h)]
    rfl

theorem newest_mem {sent : List Image} {slot : ℕ} {image : Image}
    (h : newest d sent slot = some image) : image ∈ sent ∧ d.slotOf image.id = slot :=
  ⟨List.mem_reverse.mp (List.mem_of_find?_eq_some h),
    of_decide_eq_true (List.find?_some (p := fun image : Image => d.slotOf image.id = slot) h)⟩

theorem mem_counted {id : ℕ} : id ∈ t.counted part ↔ Announced t.sync.delivered part id := by
  simp only [counted, Announced, List.mem_map, List.mem_filter, decide_eq_true_eq, and_assoc]

/-! ### The turns of the services -/

theorem sendPart_eq (r : ℕ × ℕ) (rest : List ImageMetadata) :
    t.sendPart d part r m rest = { t with
      requests := Function.update t.requests part rest
      messages := Function.update t.messages part (t.messages part ++
        [(m, Memory.slice t.source (d.getData m.imageId + r.1) r.2)]) } := by
  rw [sendPart, if_pos (d.sends_eq part m.imageId)]

section Turns

variable {r : ℕ × ℕ} {data : List UInt8} {rest : List ImageMetadata}
  {later : List (ImageMetadata × List UInt8)}

theorem pipeline_sendPart (h : t.requests part = m :: rest) (q : ℕ) :
    (t.sendPart d part r m rest).pipeline q = t.pipeline q := by
  rw [sendPart_eq, pipeline, pipeline, underWay, underWay, counted, counted]
  by_cases hq : q = part
  · subst hq
    simp [h]
  · simp [Function.update_of_ne hq]

theorem pipeline_receivePart (h : t.messages part = (m, data) :: later) (q : ℕ) :
    ((t.receivePart d part r m data later).pipeline q).Sublist (t.pipeline q) := by
  rw [receivePart, pipeline, pipeline, underWay, underWay, counted, counted]
  by_cases hq : q = part
  · subst hq
    split
    · simp [h]
    · simp [h]
  · split
    · simp [Function.update_of_ne hq]
    · simp [Function.update_of_ne hq]

theorem counted_collectPart
    (h : (t.sync.step d.synchronizer ⟨part, m.imageId⟩).delivered =
      t.sync.delivered ++ [⟨part, m.imageId⟩]) (q : ℕ) :
    (t.collectPart d part m rest).counted q =
      t.counted q ++ if q = part then [m.imageId] else [] := by
  rw [collectPart, counted, counted, h, List.filter_append, List.map_append]
  by_cases hq : q = part
  · simp [hq]
  · simp [hq, Ne.symm hq]

/-- An announcement that is counted has been under way before. -/
theorem counted_announcements_collectPart (h : t.announcements part = m :: rest)
    (hdelivered : (t.sync.step d.synchronizer ⟨part, m.imageId⟩).delivered =
      t.sync.delivered ++ [⟨part, m.imageId⟩]) (q : ℕ) :
    (t.collectPart d part m rest).counted q ++
        ((t.collectPart d part m rest).announcements q).map ImageMetadata.imageId =
      t.counted q ++ (t.announcements q).map ImageMetadata.imageId := by
  rw [counted_collectPart hdelivered, collectPart]
  by_cases hq : q = part
  · subst hq
    simp [h]
  · simp [hq]

theorem pipeline_collectPart (h : t.announcements part = m :: rest)
    (hdelivered : (t.sync.step d.synchronizer ⟨part, m.imageId⟩).delivered =
      t.sync.delivered ++ [⟨part, m.imageId⟩]) (q : ℕ) :
    (t.collectPart d part m rest).pipeline q = t.pipeline q := by
  simp only [pipeline, underWay, ← List.append_assoc,
    counted_announcements_collectPart h hdelivered]
  rfl

theorem pipeline_announce (q : ℕ) :
    ({ t with
      requests := fun part =>
        if (d.range part).isSome then t.requests part ++ [m] else t.requests part
      sent := t.sent ++ [⟨m, d.slot t.source m.imageId⟩] } : Transfer).pipeline q =
      t.pipeline q ++ if (d.range q).isSome then [m.imageId] else [] := by
  rw [pipeline, pipeline, underWay, underWay, counted, counted]
  by_cases hq : (d.range q).isSome = true
  · simp [hq]
  · simp [hq]

end Turns

/-! ### The order of the queues -/

/-- The invariant of the queues. -/
structure Ordered (d : Deployment) (t : Transfer) : Prop where
  /-- No identifier is announced twice. -/
  distinct : (t.sent.map Image.id).Nodup
  /-- What is heard of a part keeps the order, and may have gaps. -/
  subsequence : ∀ part, (t.pipeline part).Sublist (t.sent.map Image.id)
  /-- A part without services is silent. -/
  idle : ∀ part, d.range part = none → t.pipeline part = []

theorem ordered_start (source destination : ℕ → UInt8) : Ordered d (.start source destination) where
  distinct := List.nodup_nil
  subsequence _ := List.Sublist.refl _
  idle _ _ := rfl

/-- Nothing new is announced, and what is under way may get lost. -/
theorem Ordered.of_sublist (h : Ordered d t) {t' : Transfer} (hsent : t'.sent = t.sent)
    (hsub : ∀ part, (t'.pipeline part).Sublist (t.pipeline part)) : Ordered d t' where
  distinct := hsent ▸ h.distinct
  subsequence part := hsent ▸ (hsub part).trans (h.subsequence part)
  idle part hpart := List.sublist_nil.mp (h.idle part hpart ▸ hsub part)

theorem Ordered.announce (h : Ordered d t) (hnew : ∀ image ∈ t.sent, image.id ≠ m.imageId)
    {t' : Transfer} (hstep : t.step d (.announce m) = some t') : Ordered d t' := by
  obtain rfl := Option.some.inj hstep
  refine ⟨?_, fun part => ?_, fun part hpart => ?_⟩
  · rw [List.map_append]
    refine List.nodup_append.mpr ⟨h.distinct, List.nodup_singleton _, ?_⟩
    rintro _ hid _ hlast rfl
    obtain ⟨image, hmem, hid⟩ := List.mem_map.mp hid
    exact hnew image hmem (hid.trans (List.mem_singleton.mp hlast))
  · rw [pipeline_announce, List.map_append]
    refine (h.subsequence part).append ?_
    split
    · exact List.Sublist.refl _
    · exact List.nil_sublist _
  · rw [pipeline_announce, h.idle part hpart, hpart]
    rfl

/-- A part whose queues hold something has services. -/
theorem Ordered.mem_parts (h : Ordered d t) {id : ℕ} (hid : id ∈ t.pipeline part) :
    part ∈ parts d.config ∧ (d.range part).isSome := by
  have hsome : (d.range part).isSome := by
    rw [Option.isSome_iff_ne_none]
    exact fun hnone => List.ne_nil_of_mem hid (h.idle part hnone)
  exact ⟨(List.mem_filter.mp (d.range_isSome_iff.mp hsome)).1, hsome⟩

theorem Ordered.nodup_pipeline (h : Ordered d t) (part : ℕ) : (t.pipeline part).Nodup :=
  h.distinct.sublist (h.subsequence part)

theorem counted_sublist (part : ℕ) : (t.counted part).Sublist (t.pipeline part) :=
  List.sublist_append_left _ _

/-- What `std_data_sync_stream` has counted for different parts does not repeat. -/
theorem Ordered.nodup_senders (h : Ordered d t) (id : ℕ) : (senders t.sync.delivered id).Nodup :=
  nodup_of_streams fun part => (h.nodup_pipeline part).sublist (counted_sublist part)

/-- **An image that was passed on has been counted for every part.** -/
theorem Ordered.mem_counted_of_sent (h : Ordered d t) (hcounting : Counting d.synchronizer t.sync)
    (hcount : d.nParts = (activeParts d.config).length) {id : ℕ} (hid : id ∈ t.sync.sent)
    (hpart : (d.range part).isSome) : id ∈ t.counted part := by
  refine mem_counted.mpr (hcounting.announced_of_sent hcount.symm (h.nodup_senders id)
    (fun q hq => ?_) hid part (d.range_isSome_iff.mp hpart))
  exact d.range_isSome_iff.mp
    (h.mem_parts ((counted_sublist q).subset (mem_counted.mpr hq))).2

/-! ### The bytes -/

/-- The invariant of the bytes. -/
structure Current (d : Deployment) (t : Transfer) : Prop where
  sizes : ∀ image ∈ t.sent, image.bytes.length = d.imageBytes
  /-- An image that a `std_stream_send` has to read is the one in the slot. -/
  requested : ∀ part, ∀ m ∈ t.requests part, ∃ image,
    newest d t.sent (d.slotOf m.imageId) = some image ∧ image.metadata = m ∧
      d.slot t.source m.imageId = image.bytes
  /-- A message carries its part of the newest image of the slot. -/
  travelling : ∀ part, ∀ x ∈ t.messages part, ∃ image,
    newest d t.sent (d.slotOf x.1.imageId) = some image ∧ image.metadata = x.1 ∧
      ∀ r ∈ d.range part, x.2 = (image.bytes.drop r.1).take r.2
  /-- So does an announcement. -/
  arrived : ∀ part, ∀ m ∈ t.announcements part, ∃ image,
    newest d t.sent (d.slotOf m.imageId) = some image ∧ image.metadata = m
  /-- What was announced of the newest image stands in its slot. -/
  shown : ∀ slot image, newest d t.sent slot = some image → ∀ part, ∀ r ∈ d.range part,
    image.id ∈ t.counted part ++ (t.announcements part).map ImageMetadata.imageId →
      ∀ b, r.1 ≤ b → b < r.1 + r.2 →
        image.bytes[b]? = some (t.destination (d.getData image.id + b))

theorem current_start (source destination : ℕ → UInt8) :
    Current d (.start source destination) where
  sizes image hmem := by cases hmem
  requested part m hmem := by cases hmem
  travelling part x hmem := by cases hmem
  arrived part m hmem := by cases hmem
  shown slot image h := by cases h

section Bytes

variable {t' : Transfer} {r : ℕ × ℕ} {data : List UInt8}

theorem mem_pipeline_of_request (hm : m ∈ t.requests part) : m.imageId ∈ t.pipeline part :=
  List.mem_append_right _ (List.mem_append_right _ (List.mem_append_right _
    (List.mem_map_of_mem hm)))

/-- Nobody writes into a slot that still has to be read. -/
theorem Current.fill (h : Current d t) (ho : Ordered d t) {id offset : ℕ}
    (hdata : offset + data.length ≤ d.imageBytes)
    (hfree : ∀ part ∈ parts d.config, ∀ m ∈ t.requests part, d.slotOf m.imageId ≠ d.slotOf id) :
    Current d { t with source := Memory.blit t.source (d.getData id + offset) data } where
  sizes := h.sizes
  requested part m hm := by
    obtain ⟨image, hnewest, hmeta, hslot⟩ := h.requested part m hm
    have hne := hfree part (ho.mem_parts (mem_pipeline_of_request hm)).1 m hm
    refine ⟨image, hnewest, hmeta, hslot ▸ ?_⟩
    exact Memory.slice_congr fun b hb =>
      d.blit_of_ne hne (fun b _ hlt => hlt.trans_le hdata) hb
  travelling := h.travelling
  arrived := h.arrived
  shown := h.shown

/-- The announcement of an image whose slot nothing else is on the way to. -/
theorem Current.announce (h : Current d t) (ho : Ordered d t)
    (hnew : ∀ image ∈ t.sent, image.id ≠ m.imageId)
    (hfree : ∀ part ∈ parts d.config, ∀ id ∈ t.underWay part, d.slotOf id ≠ d.slotOf m.imageId)
    (hstep : t.step d (.announce m) = some t') : Current d t' := by
  have hold : ∀ part, ∀ id ∈ t.underWay part,
      newest d (t.sent ++ [⟨m, d.slot t.source m.imageId⟩]) (d.slotOf id) =
        newest d t.sent (d.slotOf id) := by
    intro part id hid
    rw [newest_snoc, if_neg]
    exact (hfree part (ho.mem_parts (List.mem_append_right _ hid)).1 id hid).symm
  obtain rfl := Option.some.inj hstep
  refine ⟨?_, fun part m' hm' => ?_, fun part x hx => ?_, fun part m' hm' => ?_, ?_⟩
  · intro image hmem
    rcases List.mem_append.mp hmem with hmem | hmem
    · exact h.sizes image hmem
    · rw [List.mem_singleton.mp hmem]
      exact d.length_slot t.source
  · change m' ∈ (if (d.range part).isSome then t.requests part ++ [m] else t.requests part) at hm'
    have hcases : m' ∈ t.requests part ∨ m' = m := by
      split at hm'
      · exact (List.mem_append.mp hm').imp_right List.mem_singleton.mp
      · exact .inl hm'
    rcases hcases with hmem | rfl
    · obtain ⟨image, hnewest, hrest⟩ := h.requested part m' hmem
      refine ⟨image, (hold part m'.imageId ?_).trans hnewest, hrest⟩
      exact List.mem_append_right _ (List.mem_append_right _ (List.mem_map_of_mem hmem))
    · exact ⟨_, (newest_snoc _ _ _).trans (if_pos rfl), rfl, rfl⟩
  · obtain ⟨image, hnewest, hrest⟩ := h.travelling part x hx
    refine ⟨image, (hold part x.1.imageId ?_).trans hnewest, hrest⟩
    exact List.mem_append_right _ (List.mem_append_left _
      (List.mem_map_of_mem (f := fun x : ImageMetadata × List UInt8 => x.1.imageId) hx))
  · obtain ⟨image, hnewest, hrest⟩ := h.arrived part m' hm'
    refine ⟨image, (hold part m'.imageId ?_).trans hnewest, hrest⟩
    exact List.mem_append_left _ (List.mem_map_of_mem hm')
  · intro slot image hnewest part r hr hmem b hle hlt
    change newest d (t.sent ++ _) slot = _ at hnewest
    rw [newest_snoc] at hnewest
    split at hnewest
    · -- nothing of the new image can have arrived
      obtain rfl := Option.some.inj hnewest
      have hid : m.imageId ∈ t.pipeline part := by
        rw [pipeline, underWay, ← List.append_assoc]
        exact List.mem_append_left _ hmem
      obtain ⟨image, hsent, hsame⟩ := List.mem_map.mp ((ho.subsequence part).subset hid)
      exact absurd hsame (hnew image hsent)
    · exact h.shown slot image hnewest part r hr hmem b hle hlt

theorem Current.sendPart (h : Current d t) (hwhole : ForwardsWhole d.config d.imageBytes)
    (hr : d.range part = some r) {rest : List ImageMetadata}
    (hqueue : t.requests part = m :: rest) :
    Current d (t.sendPart d part r m rest) := by
  rw [sendPart_eq]
  refine ⟨h.sizes, fun q m' hm' => ?_, fun q x hx => ?_, h.arrived, h.shown⟩
  · refine h.requested q m' ?_
    by_cases hq : q = part
    · subst hq
      change m' ∈ Function.update t.requests q rest q at hm'
      rw [Function.update_self] at hm'
      rw [hqueue]
      exact List.mem_cons_of_mem _ hm'
    · change m' ∈ Function.update t.requests part rest q at hm'
      rwa [Function.update_of_ne hq] at hm'
  · change x ∈ Function.update t.messages part _ q at hx
    by_cases hq : q = part
    · subst hq
      rw [Function.update_self] at hx
      rcases List.mem_append.mp hx with hx | hx
      · exact h.travelling q x hx
      · obtain ⟨image, hnewest, hmeta, hslot⟩ :=
          h.requested q m (hqueue ▸ List.mem_cons_self)
        rw [List.mem_singleton.mp hx]
        refine ⟨image, hnewest, hmeta, fun r' hr' => ?_⟩
        obtain rfl := Option.some.inj (hr.symm.trans hr')
        rw [← hslot]
        rcases Nat.eq_zero_or_pos r.2 with hzero | hpos
        · rw [hzero, List.take_zero, Memory.slice_zero]
        · have hend := d.lt_of_mem_range hwhole hr' (b := r.1 + r.2 - 1) (by omega) (by omega)
          exact (Memory.take_drop_slice (by omega)).symm
    · rw [Function.update_of_ne hq] at hx
      exact h.travelling q x hx

theorem receivePart_eq {later : List (ImageMetadata × List UInt8)} :
    t.receivePart d part r m data later = { t with
      messages := Function.update t.messages part later
      destination := Memory.blit t.destination (d.getData m.imageId + r.1) (data.take r.2)
      announcements := if data = [] then t.announcements else
        Function.update t.announcements part (t.announcements part ++ [m]) } := by
  rw [receivePart]
  split
  · rfl
  · rfl

/-- A byte of the part that is written. -/
theorem blit_part {memory : ℕ → UInt8} {bytes : List UInt8} {address b : ℕ} {x : UInt8}
    (hx : bytes[b]? = some x) (hle : r.1 ≤ b) (hlt : b < r.1 + r.2) :
    Memory.blit memory (address + r.1) ((bytes.drop r.1).take r.2) (address + b) = x := by
  obtain ⟨i, rfl⟩ := Nat.exists_eq_add_of_le hle
  rw [← Nat.add_assoc]
  refine Memory.blit_of_getElem? ?_
  rw [List.getElem?_take_of_lt (by omega), List.getElem?_drop]
  exact hx

theorem mem_announcements_receivePart {later : List (ImageMetadata × List UInt8)} {q : ℕ}
    {m' : ImageMetadata} (hm' : m' ∈ (t.receivePart d part r m data later).announcements q) :
    m' ∈ t.announcements q ∨ q = part ∧ m' = m := by
  rw [receivePart_eq] at hm'
  dsimp only at hm'
  split at hm'
  · exact .inl hm'
  · by_cases hq : q = part
    · subst hq
      rw [Function.update_self] at hm'
      exact (List.mem_append.mp hm').imp_right fun hm' => ⟨rfl, List.mem_singleton.mp hm'⟩
    · rw [Function.update_of_ne hq] at hm'
      exact .inl hm'

/-- The part of an image that is written shows what it should, and the others are as before. -/
theorem Current.shown_receivePart (h : Current d t) (hwhole : ForwardsWhole d.config d.imageBytes)
    (hr : d.range part = some r) {image other : Image}
    (hnewest : newest d t.sent (d.slotOf m.imageId) = some image) (hmeta : image.metadata = m)
    {slot : ℕ} (hother : newest d t.sent slot = some other) {q : ℕ} {s : ℕ × ℕ}
    (hs : d.range q = some s)
    (hcases : other.id ∈ t.counted q ++ (t.announcements q).map ImageMetadata.imageId ∨
      q = part ∧ other.id = m.imageId) {b : ℕ} (hle : s.1 ≤ b) (hlt : b < s.1 + s.2) :
    other.bytes[b]? = some (Memory.blit t.destination (d.getData m.imageId + r.1)
      ((image.bytes.drop r.1).take r.2) (d.getData other.id + b)) := by
  have hb := d.lt_of_mem_range hwhole hs hle hlt
  have hid : image.id = m.imageId := congrArg ImageMetadata.imageId hmeta
  by_cases hslot : d.slotOf other.id = d.slotOf m.imageId
  · -- the message belongs to the newest image of the slot, and this is the image
    obtain rfl : other = image := by
      rw [← (newest_mem hother).2, hslot] at hother
      exact Option.some.inj (hother.symm.trans hnewest)
    have hsize := h.sizes other (newest_mem hnewest).1
    have hbyte : other.bytes[b]? = some (other.bytes.get ⟨b, by omega⟩) :=
      List.getElem?_eq_getElem (by omega)
    rw [hid]
    by_cases hin : r.1 ≤ b ∧ b < r.1 + r.2
    · rw [blit_part hbyte hin.1 hin.2, hbyte]
    · have hne : q ≠ part := by
        rintro rfl
        obtain rfl := Option.some.inj (hr.symm.trans hs)
        exact hin ⟨hle, hlt⟩
      rw [Memory.blit_of_not_mem]
      · rw [← hid]
        exact h.shown slot other hother q s hs (hcases.resolve_right fun hq => hne hq.1) b hle hlt
      · rw [List.length_take, List.length_drop]
        omega
  · rw [d.blit_of_ne hslot ?_ hb]
    · refine h.shown slot other hother q s hs (hcases.resolve_right fun hq => ?_) b hle hlt
      exact hslot (congrArg d.slotOf hq.2)
    · intro b hle hlt
      rw [List.length_take] at hlt
      exact d.lt_of_mem_range hwhole hr hle (by omega)

theorem Current.receivePart (h : Current d t) (hwhole : ForwardsWhole d.config d.imageBytes)
    {later : List (ImageMetadata × List UInt8)} (hr : d.range part = some r)
    (hqueue : t.messages part = (m, data) :: later) :
    Current d (t.receivePart d part r m data later) := by
  obtain ⟨image, hnewest, hmeta, hpart⟩ :=
    h.travelling part (m, data) (hqueue ▸ List.mem_cons_self)
  have htake : data.take r.2 = (image.bytes.drop r.1).take r.2 := by
    have hdata : data = (image.bytes.drop r.1).take r.2 := hpart r hr
    rw [hdata, List.take_take, Nat.min_self]
  have hnew : ∀ q, ∀ m' ∈ (t.receivePart d part r m data later).announcements q,
      m' ∈ t.announcements q ∨ q = part ∧ m' = m := fun _ _ => mem_announcements_receivePart
  rw [receivePart_eq] at hnew ⊢
  refine ⟨h.sizes, h.requested, fun q x hx => ?_, fun q m' hm' => ?_, ?_⟩
  · refine h.travelling q x ?_
    by_cases hq : q = part
    · subst hq
      change x ∈ Function.update t.messages q later q at hx
      rw [Function.update_self] at hx
      rw [hqueue]
      exact List.mem_cons_of_mem _ hx
    · change x ∈ Function.update t.messages part later q at hx
      rwa [Function.update_of_ne hq] at hx
  · rcases hnew q m' hm' with hold | ⟨rfl, rfl⟩
    · exact h.arrived q m' hold
    · exact ⟨image, hnewest, hmeta⟩
  · intro slot other hother q s hs hmem b hle hlt
    change other.bytes[b]? = some (Memory.blit t.destination _ _ _)
    rw [htake]
    refine h.shown_receivePart hwhole hr hnewest hmeta hother hs ?_ hle hlt
    rcases List.mem_append.mp hmem with hmem | hmem
    · exact .inl (List.mem_append_left _ hmem)
    · obtain ⟨m', hm', hid⟩ := List.mem_map.mp hmem
      refine (hnew q m' hm').imp (fun hold => ?_) fun ⟨hq, heq⟩ => ⟨hq, heq ▸ hid.symm⟩
      exact List.mem_append_right _ (List.mem_map.mpr ⟨m', hold, hid⟩)

theorem Current.collectPart (h : Current d t) {rest : List ImageMetadata}
    (hqueue : t.announcements part = m :: rest)
    (hdelivered : (t.sync.step d.synchronizer ⟨part, m.imageId⟩).delivered =
      t.sync.delivered ++ [⟨part, m.imageId⟩]) :
    Current d (t.collectPart d part m rest) := by
  refine ⟨h.sizes, h.requested, h.travelling, fun q m' hm' => ?_,
    fun slot image hnewest q r hr hmem => ?_⟩
  · refine h.arrived q m' ?_
    change m' ∈ Function.update t.announcements part rest q at hm'
    by_cases hq : q = part
    · subst hq
      rw [Function.update_self] at hm'
      rw [hqueue]
      exact List.mem_cons_of_mem _ hm'
    · rwa [Function.update_of_ne hq] at hm'
  · rw [counted_announcements_collectPart hqueue hdelivered] at hmem
    exact h.shown slot image hnewest q r hr hmem

/-- Messages may get lost. -/
theorem Current.lose (h : Current d t) {requests : ℕ → List ImageMetadata}
    {messages : ℕ → List (ImageMetadata × List UInt8)}
    (hrequests : ∀ part, ∀ m ∈ requests part, m ∈ t.requests part)
    (hmessages : ∀ part, ∀ x ∈ messages part, x ∈ t.messages part) :
    Current d { t with requests := requests, messages := messages } where
  sizes := h.sizes
  requested part m hm := h.requested part m (hrequests part m hm)
  travelling part x hx := h.travelling part x (hmessages part x hx)
  arrived := h.arrived
  shown := h.shown

/-- **The slot of the newest image**, once every part of it has been counted. -/
theorem Current.slot_eq (h : Current d t) (hwhole : ForwardsWhole d.config d.imageBytes)
    {slot : ℕ} {image : Image} (hnewest : newest d t.sent slot = some image)
    (hall : ∀ part, (d.range part).isSome → image.id ∈ t.counted part) :
    d.slot t.destination image.id = image.bytes := by
  have hsize := h.sizes image (newest_mem hnewest).1
  refine List.ext_getElem? fun b => ?_
  rcases Nat.lt_or_ge b d.imageBytes with hlt | hge
  · obtain ⟨part, r, hr, hin⟩ := d.exists_mem_range hwhole hlt
    rw [d.getElem?_slot hlt, h.shown slot image hnewest part r hr
      (List.mem_append_left _ (hall part (Option.isSome_of_mem hr))) b hin.1 hin.2]
  · rw [List.getElem?_eq_none (by rw [d.length_slot]; exact hge),
      List.getElem?_eq_none (by rw [hsize]; exact hge)]

end Bytes

/-! ### Whole runs -/

/-- The invariant of every run that nothing disturbs. -/
structure Faithful (d : Deployment) (t : Transfer) : Prop where
  ordered : Ordered d t
  current : Current d t
  counting : Counting d.synchronizer t.sync
  /-- The record of the published images is that of the synchronizer. -/
  ids : t.published.map Image.id = t.sync.sent
  /-- What is published was announced, with the same metadata and the same bytes. -/
  published : t.published.Sublist t.sent

theorem faithful_start (source destination : ℕ → UInt8) :
    Faithful d (.start source destination) where
  ordered := ordered_start source destination
  current := current_start source destination
  counting := counting_start
  ids := rfl
  published := List.Sublist.refl _

theorem Faithful.collect (h : Faithful d t) (hwhole : ForwardsWhole d.config d.imageBytes)
    (hcount : d.nParts = (activeParts d.config).length) {rest : List ImageMetadata}
    (hqueue : t.announcements part = m :: rest) :
    Faithful d (t.collectPart d part m rest) := by
  obtain ⟨hcounting, hdelivered, hsent⟩ := h.counting.step d.nImagesBuffer_pos ⟨part, m.imageId⟩
  have hordered : Ordered d (t.collectPart d part m rest) :=
    h.ordered.of_sublist rfl fun q => by rw [pipeline_collectPart hqueue hdelivered]
  have hcurrent := h.current.collectPart hqueue hdelivered
  obtain ⟨image, hnewest, hmeta⟩ :=
    h.current.arrived part m (hqueue ▸ List.mem_cons_self)
  have hid : image.id = m.imageId := congrArg ImageMetadata.imageId hmeta
  by_cases hpasses : passesOn d.synchronizer t.sync m.imageId = true
  · rw [if_pos hpasses] at hsent
    -- the image is complete, and its slot shows it
    have hslot : d.slot t.destination image.id = image.bytes :=
      hcurrent.slot_eq hwhole hnewest fun q hq =>
        hordered.mem_counted_of_sent hcounting hcount (hsent ▸ hid ▸ List.mem_append_right _
          List.mem_cons_self) hq
    have himage : (⟨m, d.slot t.destination m.imageId⟩ : Image) = image := by
      rw [← hid, hslot, ← hmeta]
    have hpublished : (t.collectPart d part m rest).published = t.published ++ [image] := by
      rw [Transfer.collectPart, if_pos hpasses, himage]
    refine ⟨hordered, hcurrent, hcounting, ?_, ?_⟩
    · rw [hpublished, List.map_append, h.ids]
      change _ = (t.sync.step d.synchronizer ⟨part, m.imageId⟩).sent
      rw [hsent, List.map_singleton, hid]
    · rw [hpublished]
      have hunderWay : t.underWay part = m.imageId :: (rest.map ImageMetadata.imageId ++
          (((t.messages part).map fun x => x.1.imageId) ++
            (t.requests part).map ImageMetadata.imageId)) := by
        rw [underWay, hqueue]
        rfl
      have hheard : (t.counted part ++ [image.id]).Sublist (t.pipeline part) := by
        rw [pipeline, hunderWay, hid]
        exact (List.Sublist.refl _).append (List.cons_sublist_cons.mpr (List.nil_sublist _))
      refine Subsequence.sublist_snoc h.ordered.distinct h.published (newest_mem hnewest).1
        (hheard.trans (h.ordered.subsequence part)) fun y hy => ?_
      refine h.ordered.mem_counted_of_sent h.counting hcount ?_
        (h.ordered.mem_parts (hheard.subset (List.mem_append_right _ List.mem_cons_self))).2
      rw [← h.ids]
      exact List.mem_map_of_mem hy
  · rw [if_neg hpasses] at hsent
    have hpublished : (t.collectPart d part m rest).published = t.published := by
      rw [Transfer.collectPart, if_neg hpasses]
    refine ⟨hordered, hcurrent, hcounting, ?_, hpublished ▸ h.published⟩
    rw [hpublished, h.ids]
    exact hsent.symm

theorem eraseIdx_sublist_update {α : Type*} (queues : ℕ → List α) (part index q : ℕ) :
    (Function.update queues part ((queues part).eraseIdx index) q).Sublist (queues q) := by
  by_cases hq : q = part
  · rw [hq, Function.update_self]
    exact List.eraseIdx_sublist _ _
  · rw [Function.update_of_ne hq]

theorem Faithful.step (h : Faithful d t) (hwhole : ForwardsWhole d.config d.imageBytes)
    (hcount : d.nParts = (activeParts d.config).length) {e : Event} {t' : Transfer}
    (hundisturbed : Undisturbed d t e) (hstep : t.step d e = some t') : Faithful d t' := by
  cases e with
  | fill id offset data =>
    obtain rfl := Option.some.inj hstep
    exact ⟨h.ordered.of_sublist rfl fun _ => List.Sublist.refl _,
      h.current.fill h.ordered hundisturbed.1 hundisturbed.2, h.counting, h.ids, h.published⟩
  | announce m =>
    have hordered := h.ordered.announce hundisturbed.1 hstep
    have hcurrent := h.current.announce h.ordered hundisturbed.1 hundisturbed.2 hstep
    obtain rfl := Option.some.inj hstep
    exact ⟨hordered, hcurrent, h.counting, h.ids,
      h.published.trans (List.sublist_append_left _ _)⟩
  | send part =>
    rw [Transfer.step] at hstep
    split at hstep
    · next r m rest hr hqueue =>
      obtain rfl := Option.some.inj hstep
      refine ⟨h.ordered.of_sublist ?_ fun q => ?_, h.current.sendPart hwhole hr hqueue, ?_, ?_, ?_⟩
      · rw [sendPart_eq]
      · rw [pipeline_sendPart hqueue]
      · rw [sendPart_eq]
        exact h.counting
      · rw [sendPart_eq]
        exact h.ids
      · rw [sendPart_eq]
        exact h.published
    · cases hstep
  | receive part =>
    rw [Transfer.step] at hstep
    split at hstep
    · next r m data later hr hqueue =>
      obtain rfl := Option.some.inj hstep
      refine ⟨h.ordered.of_sublist ?_ (pipeline_receivePart hqueue),
        h.current.receivePart hwhole hr hqueue, ?_, ?_, ?_⟩
      · rw [receivePart_eq]
      · rw [receivePart_eq]
        exact h.counting
      · rw [receivePart_eq]
        exact h.ids
      · rw [receivePart_eq]
        exact h.published
    · cases hstep
  | collect part =>
    rw [Transfer.step] at hstep
    split at hstep
    · next m rest hqueue =>
      obtain rfl := Option.some.inj hstep
      exact h.collect hwhole hcount hqueue
    · cases hstep
  | loseRequest part index =>
    obtain rfl := Option.some.inj hstep
    have hsub := eraseIdx_sublist_update t.requests part index
    refine ⟨h.ordered.of_sublist rfl fun q => ?_,
      h.current.lose (fun q m hm => (hsub q).subset hm) fun _ _ hx => hx,
      h.counting, h.ids, h.published⟩
    exact (List.Sublist.refl _).append ((List.Sublist.refl _).append
      ((List.Sublist.refl _).append ((hsub q).map _)))
  | loseMessage part index =>
    obtain rfl := Option.some.inj hstep
    have hsub := eraseIdx_sublist_update t.messages part index
    refine ⟨h.ordered.of_sublist rfl fun q => ?_,
      h.current.lose (fun _ _ hm => hm) fun q x hx => (hsub q).subset hx,
      h.counting, h.ids, h.published⟩
    exact (List.Sublist.refl _).append ((List.Sublist.refl _).append
      (((hsub q).map _).append (List.Sublist.refl _)))

theorem faithful_of_run (hwhole : ForwardsWhole d.config d.imageBytes)
    (hcount : d.nParts = (activeParts d.config).length) {source destination : ℕ → UInt8}
    {events : List Event}
    (hrun : Run (Restrict (Undisturbed d) (Steps.guarded (Transfer.step d)))
      (.start source destination) events t) : Faithful d t :=
  hrun.invariant (fun _ _ _ h hstep => h.step hwhole hcount hstep.1 hstep.2)
    (faithful_start source destination)

end Transfer

open Transfer in
/-- **Published images are whole.** The parts are moved by services that know nothing of each other,
in any order and with any losses. What `std_data_sync_stream` publishes is, with its metadata and
its bytes, a subsequence of what was announced on the sending server, and the image stays in the
buffer of the receiving server until another one of its slot is announced. -/
theorem published_sublist (hwhole : ForwardsWhole d.config d.imageBytes)
    (hcount : d.nParts = (activeParts d.config).length) {source destination : ℕ → UInt8}
    {events : List Event}
    (hrun : Run (Restrict (Undisturbed d) (Steps.guarded (Transfer.step d)))
      (.start source destination) events t) :
    t.published.Sublist t.sent ∧
      ∀ image ∈ t.published, newest d t.sent (d.slotOf image.id) = some image →
        d.slot t.destination image.id = image.bytes := by
  have h := faithful_of_run hwhole hcount hrun
  refine ⟨h.published, fun image hmem hnewest => ?_⟩
  refine h.current.slot_eq hwhole hnewest fun part hpart => ?_
  refine h.ordered.mem_counted_of_sent h.counting hcount ?_ hpart
  rw [← h.ids]
  exact List.mem_map_of_mem hmem

/-- Image 7 and image 8. The second part of image 7 is lost. -/
def lossyRun : List Event :=
  [.fill 7 0 [1, 2, 3, 4], .announce { imageId := 7 }, .send 0, .fill 8 0 [5, 6],
    .fill 8 2 [7, 8], .announce { imageId := 8 }, .send 1, .send 1, .loseMessage 1 0, .send 0,
    .receive 1, .receive 0, .collect 0, .collect 1, .receive 0, .collect 0]

theorem published_sublist_lossy :
    ∃ t : Transfer, t.published = [⟨{ imageId := 8 }, [5, 6, 7, 8]⟩] ∧
      t.published.Sublist t.sent := by
  obtain ⟨t, hrun, hpublished⟩ : ∃ t : Transfer,
      exec (only (Transfer.Undisturbed pair) (Transfer.step pair))
        (.start (fun _ => 0) fun _ => 0) lossyRun = some t ∧
        t.published = [⟨{ imageId := 8 }, [5, 6, 7, 8]⟩] :=
    Option.map_eq_some_iff.mp (by decide +kernel)
  exact ⟨t, hpublished,
    (published_sublist pair_whole pair_nParts (Run.of_exec_only hrun)).1⟩

end StreamTransfer

end StdDaq
