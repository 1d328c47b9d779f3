import StdDaq.Buffer.BufferHandler

/-!
# The next image of a replay

What `get_image` should return is the metadata of the first image from the requested id on, and
nothing only if there is no such image. This module says so, says which buffers can be replayed, and
shows what the loader brings for a request on such a buffer.

The loader loads whole files, and `get_image` looks only at the front of what is loaded. If the file
has images before the requested id, the front is one of these and the replay ends. This happens at
the start of a replay in the middle of a file, and also when the last image of a file has been
returned and is not the one with the last id of the file: the next request loads the same file
again.

Ids that are so large that their scores are rounded can be found with a file they do not belong to,
and the ids of the last block of 64 bits are never found.

## Main results

* `fetchNextMetadatas_spec` — the loader fetches the first images from the requested id on
* `readSingleImage_spec` — and pushes the metadata to hand out for them
-/

namespace StdDaq

namespace Buffer

/-- The ids of the images that were written. -/
def BufferTrace.ids (t : BufferTrace) : Set ℕ := {i | (t.lastWritten i).isSome}

/-- The metadata that is handed out for an image: that of its last write, for the image as it is
after decompression. -/
def IsImageOf (t : BufferTrace) (i : ℕ) (image : ImageMetadata) : Prop :=
  ∃ written size, t.lastWritten i = some written ∧ calculateSize written = .ok size ∧
    image = { written with size := size, compression := .none }

/-- What `get_image` should return for an id. -/
def IsAnswer (t : BufferTrace) (imageId : ℕ) : Option ImageMetadata → Prop
  | some image => ∃ i, IsLeast {j | j ∈ t.ids ∧ imageId ≤ j} i ∧ IsImageOf t i image
  | none => ∀ i ∈ t.ids, i < imageId

/-- The file of `x` has no image before `x`, or there is no image from `x` on at all. -/
def CleanStart (ids : Set ℕ) (x : ℕ) : Prop :=
  (∀ i ∈ ids, i < x) ∨ ∀ i ∈ ids, x / 1000 * 1000 ≤ i → x ≤ i

/-- The image is in the range of a replay, or is the first one behind it. -/
structure Reached (ids : Set ℕ) (start endImageId i : ℕ) : Prop where
  mem : i ∈ ids
  start_le : start ≤ i
  before : ∀ j ∈ ids, start ≤ j → j < i → j < endImageId

/-- The stored ids can be replayed from `start` to `endImageId`. -/
structure Replayable (ids : Set ℕ) (start endImageId : ℕ) : Prop where
  /-- The replay starts with the first image of a file. -/
  clean : CleanStart ids start
  /-- The last image of a file has the last id of the file, or is the last image of all. -/
  next : ∀ i ∈ ids, start ≤ i → i < endImageId → (∃ j ∈ ids, i < j) →
    i % 1000 = 999 ∨ ∃ j ∈ ids, i < j ∧ j / 1000 = i / 1000
  /-- No id has a score that belongs to the file of another. -/
  alone : ∀ i, Reached ids start endImageId i → ∀ j ∈ ids,
    toDouble (i / 1000 * 1000) ≤ toDouble j → toDouble j ≤ toDouble (i / 1000 * 1000 + 999) →
      j / 1000 * 1000 = i / 1000 * 1000
  /-- No id is in the last block. -/
  last : ∀ i, Reached ids start endImageId i → i / 1000 * 1000 + 999 < 2 ^ 64

/-- Below `2 ^ 53` scores are exact. -/
theorem Replayable.of_small {ids : Set ℕ} {start endImageId : ℕ} (hstart : CleanStart ids start)
    (hnext : ∀ i ∈ ids, start ≤ i → i < endImageId → (∃ j ∈ ids, i < j) →
      i % 1000 = 999 ∨ ∃ j ∈ ids, i < j ∧ j / 1000 = i / 1000)
    (hsmall : ∀ i ∈ ids, i < 2 ^ 52) : Replayable ids start endImageId where
  clean := hstart
  next := hnext
  alone i hi j hj hlower hupper := by
    have hi := hsmall i hi.mem
    have hj := hsmall j hj
    rw [toDouble_eq (by omega), toDouble_eq (by omega)] at hlower hupper
    omega
  last i hi := by
    have hi := hsmall i hi.mem
    omega

/-- What is returned for an id of the replay. -/
theorem reached_of_isLeast {ids : Set ℕ} {start endImageId x i : ℕ}
    (hx : x ∈ Set.Icc start endImageId) (h : IsLeast {j | j ∈ ids ∧ x ≤ j} i) :
    Reached ids start endImageId i where
  mem := h.1.1
  start_le := hx.1.trans h.1.2
  before j hj _ hlt := by
    refine Nat.lt_of_lt_of_le ?_ hx.2
    by_contra hle
    exact absurd (h.2 ⟨hj, not_lt.mp hle⟩) (Nat.not_le.mpr hlt)

/-! ### The images of a file -/

/-- The ids `l` are the first ones from `x` on, in order, and with an id they have all that are
behind it in its file. -/
structure Segment (ids : Set ℕ) (x : ℕ) (l : List ℕ) : Prop where
  sorted : l.Pairwise (· < ·)
  mem : ∀ i ∈ l, i ∈ ids ∧ x ≤ i
  initial : ∀ i ∈ ids, x ≤ i → i ∉ l → ∀ j ∈ l, j < i
  whole : ∀ j ∈ l, ∀ i ∈ ids, j < i → i / 1000 = j / 1000 → i ∈ l

variable {ids : Set ℕ} {x start endImageId : ℕ} {l : List ℕ}

theorem segment_nil (ids : Set ℕ) (x : ℕ) : Segment ids x [] where
  sorted := .nil
  mem := List.forall_mem_nil _
  initial _ _ _ _ := List.forall_mem_nil _
  whole := List.forall_mem_nil _

/-- The first of them is the image to return. -/
theorem Segment.isLeast {a : ℕ} (h : Segment ids x (a :: l)) :
    IsLeast {j | j ∈ ids ∧ x ≤ j} a := by
  refine ⟨h.mem a List.mem_cons_self, fun i hi => ?_⟩
  by_cases hin : i ∈ a :: l
  · rcases List.mem_cons.mp hin with rfl | hlater
    · exact le_rfl
    · exact ((List.pairwise_cons.mp h.sorted).1 i hlater).le
  · exact (h.initial i hi.1 hi.2 hin a List.mem_cons_self).le

/-- What is left after the first one. -/
theorem Segment.tail {a : ℕ} (h : Segment ids x (a :: l)) : Segment ids (a + 1) l where
  sorted := (List.pairwise_cons.mp h.sorted).2
  mem i hi := ⟨(h.mem i (List.mem_cons_of_mem a hi)).1, (List.pairwise_cons.mp h.sorted).1 i hi⟩
  initial i hi hle hnot j hj := by
    have hxa := (h.mem a List.mem_cons_self).2
    refine h.initial i hi (by omega) (fun hin => ?_) j (List.mem_cons_of_mem a hj)
    rcases List.mem_cons.mp hin with rfl | hin
    · omega
    · exact hnot hin
  whole j hj i hi hlt hblock := by
    have haj := (List.pairwise_cons.mp h.sorted).1 j hj
    rcases List.mem_cons.mp (h.whole j (List.mem_cons_of_mem a hj) i hi hlt hblock) with rfl | hin
    · omega
    · exact hin

/-- After the last image of a file, the next file begins. -/
theorem Segment.cleanStart {a : ℕ} (h : Segment ids x [a]) (hr : Replayable ids start endImageId)
    (hx : start ≤ x) (hend : a < endImageId) : CleanStart ids (a + 1) := by
  obtain ⟨ha, hxa⟩ := h.mem a List.mem_cons_self
  by_cases hlater : ∃ j ∈ ids, a < j
  · rcases hr.next a ha (hx.trans hxa) hend hlater with hlast | ⟨j, hj, hlt, hblock⟩
    · exact .inr fun i _ hle => by omega
    · have hin := h.whole a List.mem_cons_self j hj hlt hblock
      exact absurd (List.mem_singleton.mp hin) hlt.ne'
  · refine .inl fun i hi => ?_
    by_contra hge
    exact hlater ⟨i, hi, by omega⟩

/-- What the loader has brought for `x`: the first images, unless there are none from `x` on. -/
def Loaded (ids : Set ℕ) (x : ℕ) (l : List ℕ) : Prop := Segment ids x l ∨ ∀ i ∈ ids, i < x

variable {b : BufferTrace}

theorem Consistent.stored_eq (h : Consistent b) : b.storage.redis.stored = b.ids :=
  Set.ext h.stored

theorem getMetadata_of_mem_range (h : Consistent b) {base : ℕ} {message : BufferedMetadata}
    (hmem : message ∈ b.storage.redis.getMetadatasInFileRange base) :
    b.storage.redis.getMetadata message.metadata.imageId = some message := by
  obtain ⟨i, -, hi⟩ := List.mem_filterMap.mp hmem
  rw [h.redis.values i message hi, hi]

/-- The images of the file that is found for `x` are the first ones from `x` on. -/
theorem segment_of_isFirstBlock (h : Consistent b) (hr : Replayable b.ids start endImageId)
    (hx : x ∈ Set.Icc start endImageId) (hclean : ∀ i ∈ b.ids, x / 1000 * 1000 ≤ i → x ≤ i)
    {base : ℕ} (hfirst : IsFirstBlock b.ids x (some base)) :
    b.storage.redis.getMetadatasInFileRange base ≠ [] ∧
      Segment b.ids x
        ((b.storage.redis.getMetadatasInFileRange base).map (·.metadata.imageId)) := by
  obtain ⟨⟨hle, k, hk, hbase⟩, hleast⟩ := hfirst
  -- The first image of the block is the first one from `x` on.
  obtain ⟨i, hfront⟩ : ∃ i, IsLeast {j | j ∈ b.ids ∧ x ≤ j} i :=
    ⟨_, Nat.sInf_mem ⟨k, hk, hclean k hk (by omega)⟩, fun _ => Nat.sInf_le⟩
  obtain ⟨hi, hxi⟩ := hfront.1
  obtain rfl : i / 1000 * 1000 = base := by
    have hik : i ≤ k := hfront.2 ⟨hk, hclean k hk (by omega)⟩
    refine le_antisymm (hbase ▸ Nat.mul_le_mul_right _ (Nat.div_le_div_right hik)) (hleast ?_)
    exact ⟨Nat.mul_le_mul_right _ (Nat.div_le_div_right hxi), i, hi, rfl⟩
  have hreached := reached_of_isLeast hx hfront
  obtain ⟨hsorted, hmem⟩ := getMetadatasInFileRange_spec h.redis h.fits
    (hr.last i hreached) (h.stored_eq ▸ hr.alone i hreached)
  rw [h.stored_eq] at hmem
  refine ⟨fun hnil => ?_, hsorted, fun j hj => ?_, fun j hj hxj hnot k hk => ?_,
    fun j hj k hk _ hblock => ?_⟩
  · have := (hmem i).mpr ⟨hi, rfl⟩
    rw [hnil] at this
    exact absurd this List.not_mem_nil
  · obtain ⟨hj, hblock⟩ := (hmem j).mp hj
    exact ⟨hj, hclean j hj (by omega)⟩
  · obtain ⟨-, hblock⟩ := (hmem k).mp hk
    have hge : i / 1000 * 1000 ≤ j / 1000 * 1000 := hleast
      ⟨Nat.mul_le_mul_right _ (Nat.div_le_div_right hxj), j, hj, rfl⟩
    have hne : j / 1000 * 1000 ≠ i / 1000 * 1000 := fun heq => hnot ((hmem j).mpr ⟨hj, heq⟩)
    omega
  · exact (hmem k).mpr ⟨hk, hblock ▸ ((hmem j).mp hj).2⟩

/-- **What the loader fetches**: the first images from `x` on; nothing only if there are none. -/
theorem fetchNextMetadatas_spec (h : Consistent b) (hr : Replayable b.ids start endImageId)
    (hx : x ∈ Set.Icc start endImageId) (hclean : CleanStart b.ids x) :
    ∃ fetched, BufferHandler.fetchNextMetadatas b.storage x = .ok fetched ∧
      (fetched = none → ∀ i ∈ b.ids, i < x) ∧
      ∀ metadatas, fetched = some metadatas → metadatas ≠ [] ∧
        (∀ m ∈ metadatas, b.storage.redis.getMetadata m.metadata.imageId = some m) ∧
        Loaded b.ids x (metadatas.map (·.metadata.imageId)) := by
  have hlayout := h.layout
  rw [h.stored_eq] at hlayout
  obtain ⟨r, hfound, hfirst⟩ := getFirstMatchingRootId_spec hlayout (h.stored_eq ▸ h.fits) x
  rw [BufferHandler.fetchNextMetadatas, hfound]
  cases r with
  | none =>
    refine ⟨none, rfl, fun _ i hi => ?_, nofun⟩
    have := hfirst i hi
    omega
  | some base =>
    by_cases hnil : b.storage.redis.getMetadatasInFileRange base = []
    · refine ⟨none, by simp [Except.map, hnil], fun _ => ?_, nofun⟩
      rcases hclean with hnone | hclean
      · exact hnone
      · exact absurd hnil (segment_of_isFirstBlock h hr hx hclean hfirst).1
    · refine ⟨some (b.storage.redis.getMetadatasInFileRange base), by simp [Except.map, hnil],
        nofun, ?_⟩
      rintro metadatas heq
      obtain rfl := Option.some.inj heq
      refine ⟨hnil, fun m hm => getMetadata_of_mem_range h hm, ?_⟩
      rcases hclean with hnone | hclean
      · exact .inr hnone
      · exact .inl (segment_of_isFirstBlock h hr hx hclean hfirst).2

/-! ### The images that are pushed -/

theorem getUncompressedSize_eq_calculateSize (metadata : ImageMetadata) :
    getUncompressedSize metadata = calculateSize metadata := by
  rw [getUncompressedSize, calculateSize, Nat.mul_comm metadata.width]

/-- **What the loader pushes** is the metadata to hand out for the image. -/
theorem readSingleImage_spec (h : Consistent b) (blosc : Blosc) (nSlots : ℕ)
    (handler : BufferHandler) {message : BufferedMetadata}
    (hmessage : b.storage.redis.getMetadata message.metadata.imageId = some message) :
    ∃ image fileHandler slots,
      handler.readSingleImage blosc nSlots b.storage message =
        .ok { handler with
          metadatas := handler.metadatas ++ [image]
          loaderActive := !handler.metadatas.isEmpty && handler.loaderActive
          fileHandler := fileHandler
          slots := slots } ∧
      image.imageId = message.metadata.imageId ∧ IsImageOf b message.metadata.imageId image := by
  obtain ⟨written, size, hlast, hmetadata, hsome⟩ := h.metadata _ message hmessage
  obtain ⟨n, hn⟩ : ∃ n, calculateSize written = .ok n := by
    cases hsize : calculateSize written with
    | error e => simp [hsize, Except.toOption] at hsome
    | ok n => exact ⟨n, rfl⟩
  have hsize : getUncompressedSize message.metadata = .ok n := by
    rw [getUncompressedSize_eq_calculateSize, hmetadata]
    exact hn
  rw [BufferHandler.readSingleImage, hsize]
  refine ⟨{ message.metadata with size := n, compression := .none }, _, _, rfl, rfl,
    written, n, hlast, hn, ?_⟩
  rw [hmetadata]

end Buffer

end StdDaq
