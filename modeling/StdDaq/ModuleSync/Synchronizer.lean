import StdDaq.ImageMetadata
import StdDaq.Lib.OrderedMap
import StdDaq.Lib.Run

/-!
# The module synchronizer

The class template `Synchronizer<FrameType>` of `std_data_sync_module`. It collects the frames of
one image from the modules of a detector and hands the image on when the last module has
arrived. Two threads share it, one that receives frames and one that publishes images, and both
public operations hold the same mutex from beginning to end, so a run is a sequence of whole
operations.

An image that is being collected has an entry in `cache`: the modules that are still missing, as
a bit mask, and the frame that created the entry.

## The record of a run

The specifications are about histories: which frames arrived, which of them arrived since the
entry of an image was created, which images were returned. `Trace` keeps these next to the cache.
Nothing in the synchronizer reads them.

## Main definitions

* `Synchronizer` — the constants of the class, with what its constructor guarantees
* `Synchronizer.processImageMetadata`, `popNextFullImage` — the operations
* `Trace.step` — one operation, on the cache and on the record of the run
-/

namespace StdDaq

/-- `std::bitset<128>`. -/
abbrev ModulesMask : Type := BitVec 128

namespace ModulesMask

/-- `bitset::set(i)`. -/
def set (mask : ModulesMask) (i : ℕ) : ModulesMask := mask ||| 1#128 <<< i

/-- `bitset::reset(i)`. -/
def reset (mask : ModulesMask) (i : ℕ) : ModulesMask := mask &&& ~~~(1#128 <<< i)

/-- `bitset::test(i)`. -/
def test (mask : ModulesMask) (i : ℕ) : Bool := mask.getLsbD i

theorem test_of_ge {mask : ModulesMask} {i : ℕ} (hi : 128 ≤ i) : mask.test i = false :=
  BitVec.getLsbD_of_ge mask i hi

theorem test_reset (mask : ModulesMask) {i : ℕ} (hi : i < 128) (j : ℕ) :
    (mask.reset i).test j = (mask.test j && !decide (j = i)) := by
  rcases Nat.lt_or_ge j 128 with hj | hj
  · simp only [test, reset, BitVec.getLsbD_and, BitVec.getLsbD_not, BitVec.getLsbD_shiftLeft,
      BitVec.getLsbD_one, hj, decide_true, Bool.true_and]
    by_cases hji : j = i
    · subst hji; simp
    · have : j < i ∨ ¬ (j - i = 0) := by omega
      rcases this with h | h <;> simp [h, hji]
  · simp [test_of_ge hj]

theorem test_set (mask : ModulesMask) {i : ℕ} (hi : i < 128) (j : ℕ) :
    (mask.set i).test j = (mask.test j || decide (j = i)) := by
  rcases Nat.lt_or_ge j 128 with hj | hj
  · simp only [test, set, BitVec.getLsbD_or, BitVec.getLsbD_shiftLeft, BitVec.getLsbD_one, hj,
      decide_true, Bool.true_and]
    by_cases hji : j = i
    · subst hji; simp
    · have : j < i ∨ ¬ (j - i = 0) := by omega
      rcases this with h | h <;> simp [h, hji]
  · have hji : j ≠ i := by omega
    simp [test_of_ge hj, hji]

theorem eq_zero_iff {mask : ModulesMask} : mask = 0#128 ↔ ∀ j, mask.test j = false := by
  constructor
  · rintro rfl j
    simp [test]
  · intro h
    refine BitVec.eq_of_getLsbD_eq fun j _ => ?_
    rw [BitVec.getLsbD_zero]
    exact h j

/-- `set_all`: the `n` lowest bits. -/
def setAll (n : ℕ) : ModulesMask := (List.range n).foldl set 0#128

theorem test_setAll {n : ℕ} (hn : n ≤ 128) (j : ℕ) : (setAll n).test j = decide (j < n) := by
  induction n with
  | zero => simp [setAll, test]
  | succ n ih =>
    have hstep : setAll (n + 1) = (setAll n).set n := by
      simp [setAll, List.range_succ]
    rw [hstep, test_set _ (by omega), ih (by omega), ← Bool.decide_or]
    exact decide_eq_decide.mpr (by omega)

end ModulesMask

/-- The constants of a synchronizer. A slot is a residue modulo `nModules`; it is configured
when its bit is set in `newImageMask`. The constructor leaves no mask empty. -/
structure Synchronizer where
  nModules : ℕ
  nImagesBuffer : ℕ
  newImageMask : ModulesMask
  nModules_pos : 0 < nModules
  nModules_le : nModules ≤ 128
  newImageMask_ne : newImageMask ≠ 0#128

namespace Synchronizer

/-- The constructor. An empty mask stands for all modules. -/
def create (nModules nImagesBuffer : ℕ) (mask : ModulesMask) (hpos : 0 < nModules)
    (hle : nModules ≤ 128) : Synchronizer where
  nModules := nModules
  nImagesBuffer := nImagesBuffer
  newImageMask := if mask = 0#128 then ModulesMask.setAll nModules else mask
  nModules_pos := hpos
  nModules_le := hle
  newImageMask_ne := by
    split
    · intro h0
      have := ModulesMask.eq_zero_iff.mp h0 0
      rw [ModulesMask.test_setAll hle] at this
      simp [hpos] at this
    · assumption

/-- The synchronizer of a detector with one module. -/
def ofOne (nImagesBuffer : ℕ) (mask : ModulesMask) : Synchronizer :=
  create 1 nImagesBuffer mask Nat.one_pos (Nat.le_of_ble_eq_true rfl)

/-- And of one with two modules. -/
def ofTwo (nImagesBuffer : ℕ) (mask : ModulesMask) : Synchronizer :=
  create 2 nImagesBuffer mask Nat.two_pos (Nat.le_of_ble_eq_true rfl)

/-- `std::map<image_id, std::pair<modules_mask, FrameType>>`. -/
abbrev Cache (F : Type) : Type := Std.TreeMap ℕ (ModulesMask × F)

variable {F : Type} [FrameType F] (sync : Synchronizer)

/-- The slot of a frame. -/
def slot (frame : F) : ℕ := (common frame).moduleId % sync.nModules

/-- `is_new_image`. -/
def isNewImage (cache : Cache F) (id : ℕ) : Bool := cache[id]?.isNone

/-- `is_queue_too_long`. -/
def isQueueTooLong (cache : Cache F) : Bool := decide (sync.nImagesBuffer < cache.size)

/-- The part of `push_new_image_to_queue` before the new entry: make room by dropping the image
with the smallest id. -/
def makeRoom (cache : Cache F) : Cache F :=
  if sync.isQueueTooLong cache then cache.eraseFirst else cache

/-- `push_new_image_to_queue`. -/
def pushNewImageToQueue (cache : Cache F) (frame : F) : Cache F × ℕ :=
  let mask := sync.newImageMask.reset (sync.slot frame)
  let cache' := (sync.makeRoom cache).insertIfNew (imageId frame) (mask, frame)
  (cache', if sync.isQueueTooLong cache' then 1 else 0)

/-- `update_module_mask_for_image`, on the entry it finds. A module that arrives twice drops the
image. -/
def updateModuleMaskForImage (cache : Cache F) (entry : ModulesMask × F) (id slot : ℕ) :
    Cache F × ℕ :=
  if entry.1.test slot then (cache.insert id (entry.1.reset slot, entry.2), 0)
  else (cache.erase id, 1)

/-- `process_image_metadata`: the new cache and the number of corrupted images. -/
def processImageMetadata (cache : Cache F) (frame : F) : Cache F × ℕ :=
  match cache[imageId frame]? with
  | none => sync.pushNewImageToQueue cache frame
  | some entry =>
    updateModuleMaskForImage cache entry (imageId frame) (sync.slot frame)

/-- `pop_next_full_image`: only the image with the smallest id is looked at. -/
def popNextFullImage (cache : Cache F) : Cache F × Option F :=
  match cache.first? with
  | none => (cache, none)
  | some (id, mask, frame) => if mask = 0#128 then (cache.erase id, some frame) else (cache, none)

theorem slot_lt (frame : F) : sync.slot frame < 128 :=
  (Nat.mod_lt _ sync.nModules_pos).trans_le sync.nModules_le

/-- Some slot is configured. -/
theorem exists_configured : ∃ j, sync.newImageMask.test j = true := by
  by_contra hnone
  refine sync.newImageMask_ne (ModulesMask.eq_zero_iff.mpr fun j => ?_)
  exact Bool.eq_false_iff.mpr fun hj => hnone ⟨j, hj⟩

/-! ### What one operation does to the cache -/

section Effects

variable {sync} {cache : Cache F} {frame : F}

omit [FrameType F] in
theorem makeRoom_of_not_tooLong (h : sync.isQueueTooLong cache = false) :
    sync.makeRoom cache = cache := by
  rw [makeRoom, h, if_neg Bool.false_ne_true]

omit [FrameType F] in
/-- Making room only removes. -/
theorem makeRoom_getElem? {id : ℕ} {entry : ModulesMask × F}
    (h : (sync.makeRoom cache)[id]? = some entry) : cache[id]? = some entry := by
  rw [makeRoom] at h
  split at h
  · rw [Std.TreeMap.eraseFirst] at h
    split at h
    · exact h
    · rw [Std.TreeMap.getElem?_erase_nat] at h
      split at h
      · cases h
      · exact h
  · exact h

/-- A frame of an image without an entry creates one. -/
theorem processImageMetadata_new (h : cache[imageId frame]? = none) (id : ℕ) :
    (sync.processImageMetadata cache frame).1[id]? =
      if id = imageId frame then
        some (sync.newImageMask.reset (sync.slot frame), frame)
      else (sync.makeRoom cache)[id]? := by
  have hroom : (sync.makeRoom cache)[imageId frame]? = none := by
    refine Option.eq_none_iff_forall_not_mem.mpr fun entry hentry => ?_
    rw [makeRoom_getElem? hentry] at h
    cases h
  rw [processImageMetadata, h]
  simp only [pushNewImageToQueue]
  rw [Std.TreeMap.getElem?_insertIfNew_nat]
  simp only [hroom, and_true]

/-- A frame from a slot that is still missing clears its bit. -/
theorem processImageMetadata_update {mask : ModulesMask} {first : F}
    (h : cache[imageId frame]? = some (mask, first))
    (hbit : mask.test (sync.slot frame) = true) (id : ℕ) :
    (sync.processImageMetadata cache frame).1[id]? =
      if id = imageId frame then some (mask.reset (sync.slot frame), first)
      else cache[id]? := by
  rw [processImageMetadata, h]
  simp only [updateModuleMaskForImage, hbit, if_true]
  exact Std.TreeMap.getElem?_insert_nat ..

/-- A frame from a slot that is not missing removes the entry. -/
theorem processImageMetadata_drop {mask : ModulesMask} {first : F}
    (h : cache[imageId frame]? = some (mask, first))
    (hbit : mask.test (sync.slot frame) = false) (id : ℕ) :
    (sync.processImageMetadata cache frame).1[id]? =
      if id = imageId frame then none else cache[id]? := by
  rw [processImageMetadata, h]
  simp only [updateModuleMaskForImage, hbit, Bool.false_eq_true, if_false]
  exact Std.TreeMap.getElem?_erase_nat ..

omit [FrameType F] in
/-- `pop_next_full_image` returns the first image, when its mask is empty, and removes it. -/
theorem popNextFullImage_some (h : (popNextFullImage cache).2 = some frame) :
    ∃ id : ℕ, cache[id]? = some (0#128, frame) ∧
      (∀ (id' : ℕ) entry, cache[id']? = some entry → id ≤ id') ∧
      ∀ id' : ℕ, (popNextFullImage cache).1[id']? = if id' = id then none else cache[id']? := by
  rw [popNextFullImage] at h ⊢
  split at h
  · cases h
  · next id mask first hfirst =>
    obtain ⟨hget, hmin⟩ := Std.TreeMap.first?_eq_some hfirst
    split at h
    · next hmask =>
      subst hmask
      obtain rfl := Option.some.inj h
      simp only [if_true]
      exact ⟨id, hget, hmin, fun id' => Std.TreeMap.getElem?_erase_nat cache id id'⟩
    · cases h

omit [FrameType F] in
/-- `pop_next_full_image` returns nothing when there is no image or the first is incomplete. -/
theorem popNextFullImage_none (h : (popNextFullImage cache).2 = none) :
    (popNextFullImage cache).1 = cache ∧ ∀ (id : ℕ) entry, cache[id]? = some entry →
      ∃ (id' : ℕ) (entry' : ModulesMask × F),
        id' ≤ id ∧ cache[id']? = some entry' ∧ entry'.1 ≠ 0#128 := by
  rw [popNextFullImage] at h ⊢
  split at h
  · next hnone =>
    refine ⟨rfl, fun id entry hget => ?_⟩
    rw [Std.TreeMap.first?_eq_none_iff.mp hnone id] at hget
    cases hget
  · next id mask first hfirst =>
    obtain ⟨hget, hmin⟩ := Std.TreeMap.first?_eq_some hfirst
    split at h
    · cases h
    · next hmask =>
      simp only [hmask, if_false]
      exact ⟨trivial, fun id' entry' hget' =>
        ⟨id, (mask, first), hmin id' entry' hget', hget, hmask⟩⟩

end Effects

end Synchronizer

/-! ## Runs -/

/-- One operation under the mutex. -/
inductive SyncEvent (F : Type) where
  | process (frame : F)
  | pop
  deriving DecidableEq, Repr

/-- The cache, and the record of the run that led to it. -/
structure SyncTrace (F : Type) where
  cache : Synchronizer.Cache F
  /-- The frames processed so far. -/
  delivered : List F
  /-- For each image with an entry, the frames processed since the entry was created. -/
  entryFrames : ℕ → List F
  /-- The frames returned by `pop_next_full_image`. -/
  returned : List F
  /-- The sum of the numbers returned by `process_image_metadata`. -/
  corrupted : ℕ
  /-- The number of entries removed, other than by `pop_next_full_image`. -/
  dropped : ℕ

namespace SyncTrace

variable {F : Type} [FrameType F] (sync : Synchronizer)

/-- A synchronizer that has just been constructed. -/
def start : SyncTrace F := ⟨∅, [], fun _ => [], [], 0, 0⟩

/-- Record a processed frame: the entry of its image gains it, and images without an entry have
no frames. -/
def recordFrame (cache' : Synchronizer.Cache F) (entryFrames : ℕ → List F) (frame : F) (id : ℕ) :
    List F :=
  if cache'[id]?.isNone then []
  else if id = imageId frame then entryFrames id ++ [frame]
  else entryFrames id

/-- One operation. -/
def step (t : SyncTrace F) : SyncEvent F → SyncTrace F
  | .process frame =>
    let result := sync.processImageMetadata t.cache frame
    let created := if Synchronizer.isNewImage t.cache (imageId frame) then 1 else 0
    { t with
      cache := result.1
      delivered := t.delivered ++ [frame]
      entryFrames := recordFrame result.1 t.entryFrames frame
      corrupted := t.corrupted + result.2
      dropped := t.dropped + (t.cache.size + created - result.1.size) }
  | .pop =>
    let result := Synchronizer.popNextFullImage t.cache
    { t with
      cache := result.1
      entryFrames := fun id => if result.1[id]?.isNone then [] else t.entryFrames id
      returned := t.returned ++ result.2.toList }

/-! ### Entries and the frames behind them -/

variable {sync}

/-- What an entry of the cache says about the frames processed since it was created: they are
frames of its image from distinct slots, the first of them is the stored frame, the others come
from configured slots, and the mask is the configured slots that have not arrived. -/
structure EntryOf (sync : Synchronizer) (id : ℕ) (entry : ModulesMask × F) (frames : List F) :
    Prop where
  /-- The stored frame is the one that created the entry. -/
  head : ∃ rest, frames = entry.2 :: rest ∧
    ∀ frame ∈ rest, sync.newImageMask.test (sync.slot frame) = true
  /-- All frames are of the image. -/
  image : ∀ frame ∈ frames, imageId frame = id
  /-- No slot arrived twice. -/
  slots : (frames.map sync.slot).Nodup
  /-- The mask is what is missing. -/
  mask : ∀ j, entry.1.test j = true ↔
    sync.newImageMask.test j = true ∧ j ∉ frames.map sync.slot

/-- Every entry of the cache stands for its frames, and an image without an entry has none. -/
structure EntriesOk (sync : Synchronizer) (t : SyncTrace F) : Prop where
  entries : ∀ id entry, t.cache[id]? = some entry → EntryOf sync id entry (t.entryFrames id)
  absent : ∀ id : ℕ, t.cache[id]? = none → t.entryFrames id = []

theorem EntryOf.create (frame : F) :
    EntryOf sync (imageId frame) (sync.newImageMask.reset (sync.slot frame), frame)
      [frame] where
  head := ⟨[], rfl, by simp⟩
  image := by simp
  slots := by simp
  mask j := by
    rw [ModulesMask.test_reset _ (sync.slot_lt frame)]
    simp

theorem EntryOf.update {id : ℕ} {mask : ModulesMask} {first frame : F} {frames : List F}
    (h : EntryOf sync id (mask, first) frames) (himage : imageId frame = id)
    (hbit : mask.test (sync.slot frame) = true) :
    EntryOf sync id (mask.reset (sync.slot frame), first) (frames ++ [frame]) := by
  obtain ⟨hconf, hnew⟩ := (h.mask _).mp hbit
  obtain ⟨rest, hrest, hrestConf⟩ := h.head
  refine ⟨⟨rest ++ [frame], by simp [hrest], ?_⟩, ?_, ?_, fun j => ?_⟩
  · intro f hf
    rcases List.mem_append.mp hf with hf | hf
    · exact hrestConf f hf
    · rw [List.mem_singleton.mp hf]; exact hconf
  · intro f hf
    rcases List.mem_append.mp hf with hf | hf
    · exact h.image f hf
    · rw [List.mem_singleton.mp hf]; exact himage
  · rw [List.map_append, List.map_singleton, List.nodup_append_comm, List.singleton_append,
      List.nodup_cons]
    exact ⟨hnew, h.slots⟩
  · rw [ModulesMask.test_reset _ (sync.slot_lt frame)]
    have := h.mask j
    simp only [Bool.and_eq_true, this, List.map_append, List.map_singleton, List.mem_append,
      List.mem_singleton, Bool.not_eq_true', decide_eq_false_iff_not, not_or, and_assoc]

/-- An entry with an empty mask has heard from every configured slot. -/
theorem EntryOf.complete {id : ℕ} {first : F} {frames : List F}
    (h : EntryOf sync id (0#128, first) frames) {j : ℕ}
    (hj : sync.newImageMask.test j = true) : ∃ frame ∈ frames, sync.slot frame = j := by
  by_contra hnone
  have hmiss : j ∉ frames.map sync.slot := by
    intro hmem
    obtain ⟨frame, hframe, hslot⟩ := List.mem_map.mp hmem
    exact hnone ⟨frame, hframe, hslot⟩
  have := (h.mask j).mpr ⟨hj, hmiss⟩
  rw [ModulesMask.eq_zero_iff.mp rfl j] at this
  cases this

/-- What `pop_next_full_image` returns is the stored frame of the first entry, which is complete. -/
theorem EntriesOk.popped {t : SyncTrace F} (h : EntriesOk sync t) {frame : F}
    (hpop : (Synchronizer.popNextFullImage t.cache).2 = some frame) :
    EntryOf sync (imageId frame) (0#128, frame) (t.entryFrames (imageId frame)) ∧
      t.cache[imageId frame]? = some (0#128, frame) ∧
      (∀ (id : ℕ) entry, t.cache[id]? = some entry → imageId frame ≤ id) ∧
      ∀ id : ℕ, (Synchronizer.popNextFullImage t.cache).1[id]?
        = if id = imageId frame then none else t.cache[id]? := by
  obtain ⟨id, hget, hmin, hrest⟩ := Synchronizer.popNextFullImage_some hpop
  have hentry := h.entries id _ hget
  have hid : imageId frame = id := by
    obtain ⟨rest, hframes, -⟩ := hentry.head
    exact hentry.image frame (by rw [hframes]; exact List.mem_cons_self)
  subst hid
  exact ⟨hentry, hget, hmin, hrest⟩

theorem returned_pop_none (sync : Synchronizer) {t : SyncTrace F}
    (h : (Synchronizer.popNextFullImage t.cache).2 = none) :
    (t.step sync .pop).returned = t.returned := by
  change t.returned ++ (Synchronizer.popNextFullImage t.cache).2.toList = _
  rw [h, Option.toList_none, List.append_nil]

theorem returned_pop_some (sync : Synchronizer) {t : SyncTrace F} {frame : F}
    (h : (Synchronizer.popNextFullImage t.cache).2 = some frame) :
    (t.step sync .pop).returned.map imageId = t.returned.map imageId ++ [imageId frame] := by
  change (t.returned ++ (Synchronizer.popNextFullImage t.cache).2.toList).map imageId = _
  rw [h, Option.toList_some, List.map_append, List.map_singleton]

theorem mem_recordFrame {cache' : Synchronizer.Cache F} {entryFrames : ℕ → List F} {frame f : F}
    {id : ℕ} (h : f ∈ recordFrame cache' entryFrames frame id) :
    f ∈ entryFrames id ∨ (f = frame ∧ id = imageId frame) := by
  rw [recordFrame] at h
  split at h
  · cases h
  · split at h
    · next hid =>
      rcases List.mem_append.mp h with h | h
      · exact .inl h
      · exact .inr ⟨List.mem_singleton.mp h, hid⟩
    · exact .inl h

theorem entriesOk_start : EntriesOk sync (start : SyncTrace F) :=
  ⟨fun id entry h => by simp [start] at h, fun _ _ => rfl⟩

theorem EntriesOk.process {t : SyncTrace F} (h : EntriesOk sync t) (frame : F) :
    EntriesOk sync (t.step sync (.process frame)) := by
  refine ⟨fun id entry hget => ?_, fun id hget => ?_⟩
  · change (sync.processImageMetadata t.cache frame).1[id]? = some entry at hget
    change EntryOf sync id entry (recordFrame _ t.entryFrames frame id)
    rw [recordFrame, hget, Option.isNone_some, if_neg Bool.false_ne_true]
    cases hold : t.cache[imageId frame]? with
    | none =>
      rw [Synchronizer.processImageMetadata_new hold] at hget
      by_cases hid : id = imageId frame
      · subst hid
        rw [if_pos rfl] at hget ⊢
        obtain rfl := Option.some.inj hget
        rw [h.absent _ hold]
        exact EntryOf.create frame
      · rw [if_neg hid] at hget ⊢
        exact h.entries id entry (Synchronizer.makeRoom_getElem? hget)
    | some old =>
      obtain ⟨mask, first⟩ := old
      cases hbit : mask.test (sync.slot frame) with
      | true =>
        rw [Synchronizer.processImageMetadata_update hold hbit] at hget
        by_cases hid : id = imageId frame
        · subst hid
          rw [if_pos rfl] at hget ⊢
          obtain rfl := Option.some.inj hget
          exact (h.entries _ _ hold).update rfl hbit
        · rw [if_neg hid] at hget ⊢
          exact h.entries id entry hget
      | false =>
        rw [Synchronizer.processImageMetadata_drop hold hbit] at hget
        by_cases hid : id = imageId frame
        · rw [if_pos hid] at hget; cases hget
        · rw [if_neg hid] at hget ⊢
          exact h.entries id entry hget
  · change (sync.processImageMetadata t.cache frame).1[id]? = none at hget
    change recordFrame _ t.entryFrames frame id = []
    rw [recordFrame, hget, Option.isNone_none, if_pos rfl]

theorem EntriesOk.pop {t : SyncTrace F} (h : EntriesOk sync t) :
    EntriesOk sync (t.step sync .pop) := by
  refine ⟨fun id entry hget => ?_, fun id hget => ?_⟩
  · change (Synchronizer.popNextFullImage t.cache).1[id]? = some entry at hget
    change EntryOf sync id entry (if _ then [] else t.entryFrames id)
    rw [hget, Option.isNone_some, if_neg Bool.false_ne_true]
    cases hpop : (Synchronizer.popNextFullImage t.cache).2 with
    | none =>
      rw [(Synchronizer.popNextFullImage_none hpop).1] at hget
      exact h.entries id entry hget
    | some frame =>
      obtain ⟨first, -, -, hrest⟩ := Synchronizer.popNextFullImage_some hpop
      rw [hrest] at hget
      split at hget
      · cases hget
      · exact h.entries id entry hget
  · change (Synchronizer.popNextFullImage t.cache).1[id]? = none at hget
    change (if _ then [] else t.entryFrames id) = []
    rw [hget, Option.isNone_none, if_pos rfl]

theorem EntriesOk.step {t : SyncTrace F} (h : EntriesOk sync t) (e : SyncEvent F) :
    EntriesOk sync (t.step sync e) := by
  cases e with
  | process frame => exact h.process frame
  | pop => exact h.pop

/-- **In every run, entries and frames agree.** -/
theorem entriesOk_of_run {es : List (SyncEvent F)} {t : SyncTrace F}
    (h : Run (Steps.total (SyncTrace.step sync)) start es t) : EntriesOk sync t :=
  h.invariant (P := EntriesOk sync) (fun t e u hok hstep => by
    obtain rfl : t.step sync e = u := hstep
    exact hok.step e) entriesOk_start

end SyncTrace

end StdDaq
