import Mathlib.Data.Nat.ModEq
import StdDaq.DetectorConfig
import StdDaq.Lib.KeyedStore
import StdDaq.Lib.Overlay

/-!
# The RAM ring buffer

`RamBuffer` of `core_buffer`: the shared memory where a service leaves its images for the others. It
has `n_slots` slots of `data_n_bytes` bytes each, and the image with the identifier `id` is in the
slot `id % n_slots`. There is no head and no tail, and nobody asks whether a slot is free: an image
is there until another one takes its place.

The memory is mapped in pages of 2 MiB. The object may have been there before, so that the bytes are
arbitrary at first. A `write` without data is what a service does that has filled the slot itself;
it only announces the image. Addresses are offsets from the start of the mapping, and a copy outside
of it, or behind the data of the caller, is undefined behaviour in the source: here the write then
has no value.

## Main definitions

* `RamBuffer.write`, `RamBuffer.getData` — the operations of the class
* `RamBuffer.slot` — what a reader sees at `get_data(id)`

## Main results

* `RamBuffer.getData_inside` — every slot is inside of the mapping
* `RamBuffer.writeAll_slots` — every slot shows the last image that was written for it
-/

namespace StdDaq

/-- The members of a `RamBuffer`, with the memory behind `buffer_`. -/
structure RamBuffer where
  nSlots : ℕ
  dataBytes : ℕ
  bufferBytes : ℕ
  buffer : List UInt8
  /-- As many bytes are mapped as `mmap` was asked for. -/
  mapped : buffer.length = bufferBytes

namespace RamBuffer

/-- `alignment`. -/
def alignment : ℕ := 2 * 1024 * 1024

/-- `align_to_2mb`. -/
def alignTo2Mb (size : ℕ) : ℕ :=
  (size + alignment - 1) % sizeTBound / alignment * alignment % sizeTBound

/-- The constructor, with the bytes that the shared memory object holds. -/
def create (dataNBytes nSlots : ℕ) (initial : ℕ → UInt8) : RamBuffer where
  nSlots := nSlots
  dataBytes := dataNBytes
  bufferBytes := alignTo2Mb (dataNBytes * nSlots % sizeTBound)
  buffer := (List.range (alignTo2Mb (dataNBytes * nSlots % sizeTBound))).map initial
  mapped := by rw [List.length_map, List.length_range]

/-- `get_data`, as an offset from `buffer_`. -/
def getData (b : RamBuffer) (id : ℕ) : ℕ := id % b.nSlots * b.dataBytes % sizeTBound

/-- `write`. The null pointer is `none`. -/
def write (b : RamBuffer) (id : ℕ) (srcData : Option (List UInt8)) : Option RamBuffer :=
  match srcData with
  | none => some b
  | some data =>
    match h : Copy.run data b.buffer { src := 0, dst := b.getData id, len := b.dataBytes } with
    | some buffer => some { b with buffer := buffer, mapped := (Copy.length_run h).trans b.mapped }
    | none => none

/-- A sequence of writes. -/
def writeAll (b : RamBuffer) (writes : List (ℕ × Option (List UInt8))) : Option RamBuffer :=
  writes.foldlM (fun b w => b.write w.1 w.2) b

/-- The `data_n_bytes` bytes at an offset. -/
def bytesAt (b : RamBuffer) (offset : ℕ) : List UInt8 := (b.buffer.drop offset).take b.dataBytes

/-- What a reader sees at `get_data(id)`. -/
def slot (b : RamBuffer) (id : ℕ) : List UInt8 := b.bytesAt (b.getData id)

theorem le_alignTo2Mb {size : ℕ} (h : size + alignment < sizeTBound) : size ≤ alignTo2Mb size := by
  rw [sizeTBound, alignment] at h
  rw [alignTo2Mb, sizeTBound, alignment]
  omega

/-! ### The slots -/

/-- A buffer with these sizes whose slots all fit into the mapping. -/
structure Fits (d n : ℕ) (b : RamBuffer) : Prop where
  slots : b.nSlots = n
  bytes : b.dataBytes = d
  room : n * d ≤ b.bufferBytes
  noWrap : n * d < sizeTBound

section Slots

variable {d n : ℕ} {b : RamBuffer}

theorem fits_create (hsize : d * n + alignment < sizeTBound) (initial : ℕ → UInt8) :
    Fits d n (create d n initial) where
  slots := rfl
  bytes := rfl
  room := by
    rw [Nat.mul_comm]
    change d * n ≤ alignTo2Mb (d * n % sizeTBound)
    rw [Nat.mod_eq_of_lt (by omega)]
    exact le_alignTo2Mb hsize
  noWrap := by
    rw [Nat.mul_comm]
    omega

/-- A slot ends where the next one starts. -/
theorem slot_end_le {i j : ℕ} (h : i < j) : i * d + d ≤ j * d := by
  have := Nat.mul_le_mul_right d h
  rwa [Nat.succ_mul] at this

namespace Fits

theorem getData_eq (h : Fits d n b) (hn : 1 ≤ n) (id : ℕ) : b.getData id = id % n * d := by
  have hlt := slot_end_le (d := d) (Nat.mod_lt id hn)
  have := h.noWrap
  rw [getData, h.slots, h.bytes, Nat.mod_eq_of_lt (by omega)]

/-- Every slot is inside of the mapping. -/
theorem getData_inside (h : Fits d n b) (hn : 1 ≤ n) (id : ℕ) :
    b.getData id + d ≤ b.bufferBytes := by
  rw [h.getData_eq hn]
  exact (slot_end_le (Nat.mod_lt id hn)).trans h.room

end Fits

/-- Bytes that are read one by one. -/
theorem bytesAt_eq {offset : ℕ} {l : List UInt8}
    (h : ∀ i < b.dataBytes, b.buffer[offset + i]? = l[i]?) :
    b.bytesAt offset = l.take b.dataBytes := by
  refine List.ext_getElem? fun i => ?_
  rw [bytesAt, List.getElem?_take, List.getElem?_take]
  split
  · next hi => rw [List.getElem?_drop, h i hi]
  · rfl

/-- The range of another slot. -/
theorem not_in_slot {i s s' : ℕ} (hi : i < d) (hs : s ≠ s') :
    ¬ (s' * d ≤ s * d + i ∧ s * d + i < s' * d + d) := by
  rcases Nat.lt_or_gt_of_ne hs with hlt | hgt
  · have := slot_end_le (d := d) hlt
    omega
  · have := slot_end_le (d := d) hgt
    omega

/-- **A write changes one slot.** The slot of the identifier shows the data, the others what they
did. -/
theorem write_slots (h : Fits d n b) (hn : 1 ≤ n) (id : ℕ) {data : List UInt8}
    (hdata : d ≤ data.length) :
    ∃ b', b.write id (some data) = some b' ∧ Fits d n b' ∧
      b'.bytesAt (id % n * d) = data.take d ∧
      ∀ s, s ≠ id % n → b'.bytesAt (s * d) = b.bytesAt (s * d) := by
  have hsrc : 0 + b.dataBytes ≤ data.length := by
    rw [h.bytes]
    omega
  have hdst : b.getData id + b.dataBytes ≤ b.buffer.length := by
    rw [h.bytes, b.mapped]
    exact h.getData_inside hn id
  obtain ⟨buffer, hrun, hin, hout⟩ := Copy.run_cells
    { src := 0, dst := b.getData id, len := b.dataBytes } hsrc hdst
  have hwrite : b.write id (some data)
      = some { b with buffer := buffer, mapped := (Copy.length_run hrun).trans b.mapped } := by
    simp only [write]
    split
    · next buffer' hrun' =>
      rw [hrun] at hrun'
      cases hrun'
      rfl
    · next hnone =>
      rw [hrun] at hnone
      cases hnone
  have hbytes := h.bytes
  have hoffset := h.getData_eq hn id
  subst hbytes
  simp only [Copy.cells, Set.mem_ofPred_eq, hoffset, Nat.zero_add] at hin hout
  refine ⟨_, hwrite, ⟨h.slots, rfl, h.room, h.noWrap⟩, bytesAt_eq hin, fun s hs => ?_⟩
  -- the other slots are not in the range of the copy
  exact bytesAt_eq fun i hi => (hout _ (not_in_slot hi hs)).trans List.getElem?_drop.symm

/-- The slots are the cells of a store that is written with identifiers. -/
theorem stores (hn : 1 ≤ n) :
    KeyedStore.Stores (fun id => id % n) (List.take d) (fun b s => b.bytesAt (s * d)) (Fits d n)
      (fun data => d ≤ data.length) write where
  skip _ _ := rfl
  store _ id _ hb hdata := write_slots hb hn id hdata

end Slots

open KeyedStore in
/-- What a sequence of writes leaves in the buffer that it found as `initial`. -/
structure ShowsLastWrites (d n : ℕ) (initial b : RamBuffer)
    (writes : List (ℕ × Option (List UInt8))) : Prop where
  /-- Every slot is inside of the mapping. -/
  inside : ∀ id, b.getData id + d ≤ b.bufferBytes
  /-- It shows the last data that were written for it, and what it showed at first without any. -/
  slot : ∀ id, b.slot id =
    ((lastWrite (fun id' => id' ≡ id [MOD n]) writes).map (List.take d)).getD (initial.slot id)
  /-- An image is there until an identifier is written that differs by a multiple of `n`. -/
  survives : ∀ before id data after, writes = before ++ (id, some data) :: after →
    (∀ w ∈ after, w.1 ≠ id → ¬ w.1 ≡ id [MOD n]) →
      b.slot id = ((lastWrite (fun id' => id' = id) after).getD data).take d

/-- **Every slot shows the last image that was written for it**, whatever the identifiers are, and
no write leaves the mapping. The sizes are those of a buffer whose bytes can be counted. -/
theorem writeAll_slots {d n : ℕ} (hn : 1 ≤ n) (hsize : d * n + alignment < sizeTBound)
    (initial : ℕ → UInt8) (writes : List (ℕ × Option (List UInt8)))
    (hdata : ∀ w ∈ writes, ∀ data, w.2 = some data → d ≤ data.length) :
    ∃ b, (create d n initial).writeAll writes = some b ∧
      ShowsLastWrites d n (create d n initial) b writes := by
  have hfits := fits_create hsize initial
  obtain ⟨b, hrun, hb, hview⟩ := (stores hn).run hfits writes hdata
  have hslot : ∀ id, b.slot id = ((KeyedStore.lastWrite (fun id' => id' ≡ id [MOD n]) writes).map
      (List.take d)).getD ((create d n initial).slot id) := by
    intro id
    rw [slot, slot, hb.getData_eq hn, hfits.getData_eq hn]
    exact hview (id % n)
  refine ⟨b, hrun, hb.getData_inside hn, hslot, ?_⟩
  rintro before id data after rfl hrival
  have hlast := KeyedStore.lastWrite_of_no_rival (fun id => id % n) before (x := data) hrival
  rw [hslot]
  exact congrArg (fun last => (Option.map (List.take d) last).getD _) hlast

/-- Two slots of two bytes, and three images: the third takes the place of the first. -/
theorem writeAll_slots_three :
    ∃ b, (create 2 2 fun _ => 0).writeAll [(7, some [1, 2]), (8, some [3, 4]), (9, some [5, 6])]
        = some b ∧
      ShowsLastWrites 2 2 (create 2 2 fun _ => 0) b
        [(7, some [1, 2]), (8, some [3, 4]), (9, some [5, 6])] :=
  writeAll_slots (by decide) (by decide) _ _ (by simp)

end RamBuffer

end StdDaq
