import StdDaq.Buffer.Lookup
import StdDaq.ImageMetadata
import StdDaq.Lib.Binary64

/-!
# The metadata of the image buffer in Redis

`sbc::RedisHandler`. The metadata of an image is stored under a key made of its id, and the id is
added to a sorted set whose scores are binary64 values: the member is the decimal form of the id,
its score the id as a `double`. The ids of a file are found by their scores, between those of the
first and of the last id of the file.

A value is the message itself: what protobuf writes, it reads back. Nothing expires here, and the
prefix of all keys of one camera is left out. A sorted set is ordered by score, and members of one
score by their bytes.

Rounding makes scores of different ids equal from `2 ^ 53` on. The ids of a block come out complete
and in order all the same, but not always alone: an id of the next block may have the score of the
last id of this one.

## Main results

* `getMetadatasInFileRange_spec` — the metadata of a block, unless a foreign id has a score of it
-/

namespace StdDaq

namespace Buffer

/-- The message `BufferedMetadata`. -/
structure BufferedMetadata where
  metadata : ImageMetadata := {}
  offset : ℕ := 0
  deriving DecidableEq, Repr

/-- The keys of one camera. -/
structure Redis where
  /-- The values, under the ids. -/
  values : AList (fun _ : Name => BufferedMetadata) := ∅
  /-- The sorted set `ids`: members with their scores. -/
  ids : AList (fun _ : Name => ℕ) := ∅

/-- The order of a sorted set, on scores and members. -/
def Before (p q : ℕ × Name) : Prop := p.1 < q.1 ∨ p.1 = q.1 ∧ ¬ q.2 < p.2

instance : DecidableRel Before := fun p q =>
  inferInstanceAs (Decidable (p.1 < q.1 ∨ p.1 = q.1 ∧ ¬ q.2 < p.2))

/-- `parse_uint64`. -/
def parseUint64 (text : Name) : Option ℕ :=
  match stoull text with
  | .ok (value, []) => some value
  | _ => none

namespace Redis

/-- `send`. -/
def send (redis : Redis) (message : BufferedMetadata) : Redis where
  values := redis.values.insert (toText message.metadata.imageId) message
  ids := redis.ids.insert (toText message.metadata.imageId) (toDouble message.metadata.imageId)

/-- `get_metadata`. -/
def getMetadata (redis : Redis) (imageId : ℕ) : Option BufferedMetadata :=
  redis.values.lookup (toText imageId)

/-- The command `ZRANGEBYSCORE` with closed bounds. -/
def zrangebyscore (redis : Redis) (lower upper : ℕ) : List Name :=
  let entries := redis.ids.entries.map fun entry => (entry.2, entry.1)
  let range := entries.filter fun entry => lower ≤ entry.1 ∧ entry.1 ≤ upper
  (range.insertionSort Before).map Prod.snd

/-- `get_image_ids_in_file_range`. The last id is computed in 64 bits. -/
def getImageIdsInFileRange (redis : Redis) (fileBaseId : ℕ) : List ℕ :=
  (redis.zrangebyscore (toDouble fileBaseId) (toDouble ((fileBaseId + 999) % 2 ^ 64))).filterMap
    parseUint64

/-- `get_metadatas_in_file_range`. -/
def getMetadatasInFileRange (redis : Redis) (fileBaseId : ℕ) : List BufferedMetadata :=
  (redis.getImageIdsInFileRange fileBaseId).filterMap redis.getMetadata

/-- The ids that have metadata. -/
def stored (redis : Redis) : Set ℕ := {i | (redis.getMetadata i).isSome}

/-- What `send` keeps: the sorted set has the ids of the values, each value under its own. -/
structure WellFormed (redis : Redis) : Prop where
  ids : ∀ name score, redis.ids.lookup name = some score ↔
    ∃ i ∈ redis.stored, toText i = name ∧ toDouble i = score
  values : ∀ i message, redis.getMetadata i = some message → message.metadata.imageId = i

variable {redis : Redis} {message : BufferedMetadata}

/-! ### Sending -/

theorem getMetadata_send (i : ℕ) : (redis.send message).getMetadata i =
    if i = message.metadata.imageId then some message else redis.getMetadata i := by
  rw [getMetadata, send]
  split
  next h => rw [h, AList.lookup_insert]
  next h =>
    have hne : toText i ≠ toText message.metadata.imageId := fun htext => h (toText_injective htext)
    rw [AList.lookup_insert_ne hne]
    rfl

theorem mem_stored_send {i : ℕ} : i ∈ (redis.send message).stored ↔
    i = message.metadata.imageId ∨ i ∈ redis.stored := by
  rw [stored, Set.mem_ofPred_eq, getMetadata_send]
  split
  next h => simp [h]
  next h => simp [h, stored]

theorem wellFormed_empty : WellFormed {} where
  ids name score := by
    simp [stored, getMetadata]
  values i message h := by simp [getMetadata] at h

theorem WellFormed.send (h : WellFormed redis) : WellFormed (redis.send message) where
  ids name score := by
    simp only [mem_stored_send, exists_eq_or_imp]
    by_cases hname : name = toText message.metadata.imageId
    · subst hname
      rw [Redis.send, AList.lookup_insert, Option.some.injEq]
      refine ⟨fun hscore => .inl ⟨rfl, hscore⟩, ?_⟩
      rintro (⟨-, hscore⟩ | ⟨i, -, hname, hscore⟩)
      · exact hscore
      · exact toText_injective hname ▸ hscore
    · rw [Redis.send, AList.lookup_insert_ne hname, h.ids]
      simp [Ne.symm hname]
  values i m hm := by
    rw [getMetadata_send] at hm
    split at hm
    next hi => rw [← Option.some.inj hm, hi]
    next => exact h.values i m hm

end Redis

/-! ### The order of scores -/

instance : Std.Total Before where
  total p q := by
    rcases lt_trichotomy p.1 q.1 with hlt | heq | hgt
    · exact .inl (.inl hlt)
    · by_cases hlt : q.2 < p.2
      · exact .inr (.inr ⟨heq.symm, List.lt_asymm hlt⟩)
      · exact .inl (.inr ⟨heq, hlt⟩)
    · exact .inr (.inl hgt)

instance : IsTrans (ℕ × Name) Before where
  trans p q r hpq hqr := by
    rcases hpq with hpq | ⟨hpq, hle⟩
    · rcases hqr with hqr | ⟨hqr, -⟩
      · exact .inl (hpq.trans hqr)
      · exact .inl (hqr ▸ hpq)
    · rcases hqr with hqr | ⟨hqr, hle'⟩
      · exact .inl (hpq ▸ hqr)
      · have hword := List.le_trans (List.not_lt.mp hle) (List.not_lt.mp hle')
        exact .inr ⟨hpq.trans hqr, List.not_lt.mpr hword⟩

/-- Within a block, the order of the sorted set is that of the ids, whatever the rounding does. -/
theorem lt_of_before {i j : ℕ} (hblock : i / 1000 = j / 1000) (hne : i ≠ j)
    (h : Before (toDouble i, toText i) (toDouble j, toText j)) : i < j := by
  refine lt_of_le_of_ne (Nat.not_lt.mp fun hji => ?_) hne
  have hle : toDouble j ≤ toDouble i := toDouble_mono hji.le
  rcases h with hlt | ⟨heq, hword⟩
  · exact absurd hlt (Nat.not_lt.mpr hle)
  have heq : toDouble i = toDouble j := heq
  -- Small ids have different scores, and large ones numerals of the same length.
  by_cases hsmall : j < 1000
  · have hi : i < 1000 := by omega
    rw [toDouble_eq (by omega), toDouble_eq (by omega)] at heq
    exact hne heq
  · refine hword (Decimal.toDigits_lt_toDigits hji ?_)
    exact Decimal.length_toDigits_eq (k := 3) hblock.symm (Nat.not_lt.mp hsmall)

theorem parseUint64_toText {i : ℕ} (h : i < 2 ^ 64) : parseUint64 (toText i) = some i := by
  have hvalue : Nat.ofDigitChars 10 (toText i) 0 = i := Nat.ofDigitChars_ten_toDigits
  have hstoull : stoull (toText i) = .ok (i, []) := by
    have hne : toText i ≠ [] := Nat.toDigits_ne_nil
    rw [stoull_of_digits hne (fun c hc => Decimal.isDigit_of_mem_toDigits hc) (hvalue.trans_lt h),
      hvalue]
  rw [parseUint64, hstoull]

/-! ### The ids of a file -/

section Range

variable {redis : Redis} (h : redis.WellFormed) (hfits : ∀ i ∈ redis.stored, i < 2 ^ 64)

include h

/-- The entries of the sorted set within some bounds. -/
theorem mem_range_iff {lower upper : ℕ} {entry : ℕ × Name} :
    entry ∈ (redis.ids.entries.map fun entry => (entry.2, entry.1)).filter
        (fun entry => lower ≤ entry.1 ∧ entry.1 ≤ upper) ↔
      ∃ i ∈ redis.stored, lower ≤ toDouble i ∧ toDouble i ≤ upper ∧
        entry = (toDouble i, toText i) := by
  obtain ⟨score, name⟩ := entry
  have hmem : (score, name) ∈ redis.ids.entries.map (fun entry => (entry.2, entry.1)) ↔
      redis.ids.lookup name = some score := by
    rw [← Option.mem_def, AList.mem_lookup_iff, List.mem_map]
    constructor
    · rintro ⟨⟨name', score'⟩, hin, heq⟩
      obtain ⟨rfl, rfl⟩ := Prod.mk.inj heq
      exact hin
    · exact fun hin => ⟨⟨name, score⟩, hin, rfl⟩
  rw [List.mem_filter, hmem, h.ids]
  constructor
  · rintro ⟨⟨i, hi, rfl, rfl⟩, hbounds⟩
    obtain ⟨hlower, hupper⟩ := of_decide_eq_true hbounds
    exact ⟨i, hi, hlower, hupper, rfl⟩
  · rintro ⟨i, hi, hlower, hupper, heq⟩
    obtain ⟨rfl, rfl⟩ := Prod.mk.inj heq
    exact ⟨⟨i, hi, rfl, rfl⟩, decide_eq_true ⟨hlower, hupper⟩⟩

omit h in
theorem nodup_range (lower upper : ℕ) :
    ((redis.ids.entries.map fun entry => (entry.2, entry.1)).filter
      (fun entry => lower ≤ entry.1 ∧ entry.1 ≤ upper)).Nodup := by
  refine List.Nodup.filter _ (List.Nodup.of_map Prod.snd ?_)
  rw [List.map_map]
  exact redis.ids.keys_nodup

include hfits

/-- The ids between the scores of the first and the last id of a block: the stored ids of the block,
in order, if no other id has such a score. -/
theorem getImageIdsInFileRange_spec {base : ℕ} (hend : base + 999 < 2 ^ 64)
    (halone : ∀ i ∈ redis.stored, toDouble base ≤ toDouble i → toDouble i ≤ toDouble (base + 999) →
      i / 1000 * 1000 = base) :
    (redis.getImageIdsInFileRange base).Pairwise (· < ·) ∧
      ∀ i, i ∈ redis.getImageIdsInFileRange base ↔ i ∈ redis.stored ∧ i / 1000 * 1000 = base := by
  rw [Redis.getImageIdsInFileRange, Nat.mod_eq_of_lt hend, Redis.zrangebyscore]
  set range := (redis.ids.entries.map fun entry => (entry.2, entry.1)).filter
    (fun entry => toDouble base ≤ entry.1 ∧ entry.1 ≤ toDouble (base + 999)) with hrange
  have hmem : ∀ entry ∈ range.insertionSort Before,
      ∃ i ∈ redis.stored, i / 1000 * 1000 = base ∧ entry = (toDouble i, toText i) := by
    intro entry hentry
    obtain ⟨i, hi, hlower, hupper, rfl⟩ :=
      (mem_range_iff h).mp ((List.mem_insertionSort _).mp hentry)
    exact ⟨i, hi, halone i hi hlower hupper, rfl⟩
  rw [List.filterMap_map]
  refine ⟨List.pairwise_filterMap.mpr ?_, fun i => ?_⟩
  · have hsorted := List.pairwise_insertionSort Before range
    have hnodup := (List.perm_insertionSort Before range).nodup_iff.mpr (nodup_range _ _)
    refine (hsorted.and hnodup).imp_of_mem ?_
    rintro a b ha hb ⟨hbefore, hne⟩ i hi j hj
    obtain ⟨i', hi', hib, rfl⟩ := hmem a ha
    obtain ⟨j', hj', hjb, rfl⟩ := hmem b hb
    have hii : some i' = some i := (parseUint64_toText (hfits i' hi')).symm.trans hi
    have hjj : some j' = some j := (parseUint64_toText (hfits j' hj')).symm.trans hj
    obtain rfl := Option.some.inj hii
    obtain rfl := Option.some.inj hjj
    exact lt_of_before (by omega) (fun heq => hne (by rw [heq])) hbefore
  · rw [List.mem_filterMap]
    constructor
    · rintro ⟨entry, hentry, hparse⟩
      obtain ⟨j, hj, hjb, rfl⟩ := hmem entry hentry
      have hjj : some j = some i := (parseUint64_toText (hfits j hj)).symm.trans hparse
      obtain rfl := Option.some.inj hjj
      exact ⟨hj, hjb⟩
    · rintro ⟨hi, hib⟩
      refine ⟨(toDouble i, toText i), (List.mem_insertionSort _).mpr ((mem_range_iff h).mpr ?_),
        parseUint64_toText (hfits i hi)⟩
      exact ⟨i, hi, toDouble_mono (by omega), toDouble_mono (by omega), rfl⟩

/-- **The metadata of a file**: that of the stored ids of the block, in order. -/
theorem getMetadatasInFileRange_spec {base : ℕ} (hend : base + 999 < 2 ^ 64)
    (halone : ∀ i ∈ redis.stored, toDouble base ≤ toDouble i → toDouble i ≤ toDouble (base + 999) →
      i / 1000 * 1000 = base) :
    ((redis.getMetadatasInFileRange base).map (·.metadata.imageId)).Pairwise (· < ·) ∧
      ∀ i, i ∈ (redis.getMetadatasInFileRange base).map (·.metadata.imageId) ↔
        i ∈ redis.stored ∧ i / 1000 * 1000 = base := by
  obtain ⟨hsorted, hmem⟩ := getImageIdsInFileRange_spec h hfits hend halone
  have hids : (redis.getMetadatasInFileRange base).map (·.metadata.imageId) =
      redis.getImageIdsInFileRange base := by
    rw [Redis.getMetadatasInFileRange, List.map_filterMap]
    refine (List.filterMap_congr fun i hi => ?_).trans List.filterMap_some
    obtain ⟨message, hmessage⟩ := Option.isSome_iff_exists.mp ((hmem i).mp hi).1
    rw [hmessage, Option.map_some, h.values i message hmessage]
  rw [hids]
  exact ⟨hsorted, hmem⟩

end Range

end Buffer

end StdDaq
