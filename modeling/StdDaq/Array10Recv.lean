import StdDaq.ImageMetadata
import StdDaq.Lib.Json
import StdDaq.Lib.OrderedMap
import StdDaq.RamBuffer

/-!
# Receiving an external stream

`std_array10_recv` takes images from several connections to a camera server, which deals them out in
no particular order. In each turn it reads a message from every socket and copies the data to the
slot of their image; then it announces what has come in this turn, in the order of a `std::map`.

The header of a message is a JSON text, and when it cannot be read the error is swallowed: the data
then belong to the identifier of the message before. Two images of a turn may share a slot, and two
messages an identifier. What is announced is in any case the set of identifiers of the turn, and
what a slot shows then is the last of the data that were copied to it.

## Main definitions

* `Array10Recv.turn` — a turn of the main loop
* `images` — the images of a turn, each with the identifier it is given
* `Announces` — what a turn should announce

## Main results

* `store_overlaps` — a message that is a little too long reaches into the next slot
* `run_announces` — every turn of every run announces its images
-/

namespace StdDaq

/-- The constants of `main`. -/
structure Array10Recv where
  /-- The fields of `meta` that are set once. -/
  metadata : ImageMetadata
  /-- `max_byte_size`, the size of a slot. -/
  maxByteSize : ℕ
  slots : ℕ

namespace Array10Recv

open KeyedStore RamBuffer

/-- What the two calls of `zmq_recv` for a socket bring: the header, if it is JSON, with its number
of bytes, and the data. There are none when the second call fails. -/
structure Message where
  headerBytes : ℕ
  header : Option Json
  data : List UInt8

/-- The variables of the main loop. -/
structure State where
  /-- The identifier in `meta`. -/
  imageId : ℕ
  ram : RamBuffer
  imageOrder : Std.TreeMap ℕ ImageMetadata

/-- `json["frame"].get<uint64_t>()`. The subscript throws unless there is an object, and a missing
member is null, which is no number. -/
def frame (j : Json) : Option ℕ := (j.member? "frame").bind fun value => value.getUInt64.toOption

/-- The identifier in `meta` after a message. -/
def nextId (id : ℕ) (m : Message) : ℕ := (m.header.bind frame).getD id

/-- `std::memcpy` of the data to the slot. The vector they are read into has eight bytes more than
an image. -/
def store (b : RamBuffer) (id : ℕ) (data : List UInt8) : Option RamBuffer :=
  if data.length ≤ b.dataBytes + 8 then
    match h : Copy.run data b.buffer { src := 0, dst := b.getData id, len := data.length } with
    | some buffer => some { b with buffer := buffer, mapped := (Copy.length_run h).trans b.mapped }
    | none => none
  else none

/-- The constants for a configuration. -/
def ofConfig (config : DetectorConfig) : Except String Array10Recv := do
  let maxByteSize := toSizeT
    ((config.imagePixelWidth * config.imagePixelHeight * config.bitDepth).tdiv 8)
  let slots ← slotsNumber config
  let dtype ← getMetadataDtype config
  .ok
    { metadata :=
        { height := toSizeT config.imagePixelHeight, width := toSizeT config.imagePixelWidth
          size := maxByteSize, dtype, status := .goodImage }
      maxByteSize, slots }

section Service

variable (c : Array10Recv)

/-- `meta`, with an identifier. -/
def metadataOf (id : ℕ) : ImageMetadata := { c.metadata with imageId := id }

/-- What is done for a socket, unless its first `zmq_recv` fails. The header is read into the same
vector as the data, and parsed there even if it is cut off. -/
def receive (s : State) : Option Message → Option State
  | none => some s
  | some m =>
    let id := nextId s.imageId m
    if c.maxByteSize + 8 < m.headerBytes then none
    else if m.data = [] then some { s with imageId := id }
    else do
      let ram ← store s.ram id m.data
      some ⟨id, ram, s.imageOrder.insertIfNew id (c.metadataOf id)⟩

/-- **A turn of the main loop**, with what is announced and what the slots show then. A `send`
without data writes nothing. -/
def turn (s : State) (messages : List (Option Message)) :
    Option (State × List (ImageMetadata × List UInt8)) := do
  let s ← messages.foldlM c.receive s
  some ({ s with imageOrder := ∅ }, s.imageOrder.toList.map fun x => (x.2, s.ram.slot x.1))

/-- A sequence of turns, with the announcements of each. -/
def run : State → List (List (Option Message)) →
    Option (State × List (List (ImageMetadata × List UInt8)))
  | s, [] => some (s, [])
  | s, messages :: turns => do
    let (s, out) ← c.turn s messages
    let (s, outs) ← run s turns
    some (s, out :: outs)

/-- The memory as the service finds it. -/
def start (initial : ℕ → UInt8) : State where
  imageId := c.metadata.imageId
  ram := .create c.maxByteSize c.slots initial
  imageOrder := ∅

end Service

/-! ### The images of a turn -/

/-- The identifier in `meta` after a turn. -/
def lastId (id : ℕ) : List (Option Message) → ℕ
  | [] => id
  | none :: messages => lastId id messages
  | some m :: messages => lastId (nextId id m) messages

/-- The images of a turn. A header that cannot be read leaves the identifier as it is. -/
def images (id : ℕ) : List (Option Message) → List (ℕ × List UInt8)
  | [] => []
  | none :: messages => images id messages
  | some m :: messages =>
    if m.data = [] then images (nextId id m) messages
    else (nextId id m, m.data) :: images (nextId id m) messages

/-- The images of every turn. -/
def imagesOf (id : ℕ) : List (List (Option Message)) → List (List (ℕ × List UInt8))
  | [] => []
  | messages :: turns => images id messages :: imagesOf (lastId id messages) turns

/-- The images as writes to the slots. -/
def writes (arrived : List (ℕ × List UInt8)) : List (ℕ × Option (List UInt8)) :=
  arrived.map fun x => (x.1, some x.2)

/-- What a turn should announce. -/
structure Announces (c : Array10Recv) (arrived : List (ℕ × List UInt8))
    (out : List (ImageMetadata × List UInt8)) : Prop where
  /-- Nothing is announced twice, and the smaller identifiers come first. -/
  increasing : (out.map fun x => x.1.imageId).Pairwise (· < ·)
  ids : ∀ id, id ∈ out.map (fun x => x.1.imageId) ↔ id ∈ arrived.map Prod.fst
  metadata : ∀ x ∈ out, x.1 = c.metadataOf x.1.imageId
  /-- The slot shows the last of the data that were copied to it. -/
  bytes : ∀ x ∈ out,
    lastWrite (fun id => id ≡ x.1.imageId [MOD c.slots]) (writes arrived) = some x.2
  /-- Images with slots of their own are announced as they came. -/
  intact : (arrived.map fun x => x.1 % c.slots).Nodup →
    (out.map fun x => (x.1.imageId, x.2)).Perm arrived

/-! ### Storing -/

section Store

variable {d n : ℕ} {b : RamBuffer}

/-- Data of the size of a slot are written as `RamBuffer::write` would. -/
theorem store_eq_write (id : ℕ) {data : List UInt8} (hdata : data.length = b.dataBytes) :
    store b id data = b.write id (some data) := by
  obtain ⟨nSlots, dataBytes, bufferBytes, buffer, mapped⟩ := b
  obtain rfl : data.length = dataBytes := hdata
  rw [store, if_pos (Nat.le_add_right _ _)]
  rfl

/-- A store that may bring no data. -/
def storeOption (b : RamBuffer) (id : ℕ) (data : Option (List UInt8)) : Option RamBuffer :=
  data.elim (some b) (store b id)

/-- The slots are the cells of a store that is written with identifiers. -/
theorem stores (hn : 1 ≤ n) :
    Stores (fun id => id % n) id (fun b s => b.bytesAt (s * d)) (Fits d n)
      (fun data => data.length = d) storeOption where
  skip _ _ := rfl
  store b id data hb hdata := by
    obtain ⟨b', hwrite, hfits, hbytes, hother⟩ := write_slots hb hn id hdata.ge
    refine ⟨b', ?_, hfits, ?_, hother⟩
    · exact (store_eq_write id (hdata.trans hb.bytes.symm)).trans hwrite
    · rw [hbytes, ← hdata, List.take_length]
      rfl

theorem store_of_run {id : ℕ} {data buffer : List UInt8} (hroom : data.length ≤ b.dataBytes + 8)
    (hrun : Copy.run data b.buffer { src := 0, dst := b.getData id, len := data.length } =
      some buffer) :
    store b id data
      = some { b with buffer := buffer, mapped := (Copy.length_run hrun).trans b.mapped } := by
  rw [store, if_pos hroom]
  split
  · next buffer' hrun' =>
    rw [hrun] at hrun'
    cases hrun'
    rfl
  · next hnone =>
    rw [hrun] at hnone
    cases hnone

/-- **Too long a message** is stored too, as long as it has no more than eight bytes too many. The
first of them is then the first byte of the next slot, whatever image was there. -/
theorem store_overlaps (h : Fits d n b) (hd : 8 ≤ d) {id : ℕ} (hid : id % n + 1 < n)
    {data : List UInt8} (hmore : d < data.length) (hless : data.length ≤ d + 8) :
    ∃ b', store b id data = some b' ∧ (b'.slot (id + 1)).head? = data[d]? := by
  have hn : 1 ≤ n := by omega
  have hnext : (id + 1) % n = id % n + 1 := by
    rw [Nat.add_mod, Nat.mod_eq_of_lt (by omega : 1 < n), Nat.mod_eq_of_lt hid]
  have hoffset : b.getData (id + 1) = b.getData id + d := by
    rw [h.getData_eq hn, h.getData_eq hn, hnext, Nat.succ_mul]
  have hdst : b.getData id + data.length ≤ b.buffer.length := by
    have hinside := h.getData_inside hn (id + 1)
    rw [hoffset] at hinside
    rw [b.mapped]
    omega
  have hsrc : 0 + data.length ≤ data.length := (Nat.zero_add _).le
  obtain ⟨buffer, hrun, hin, -⟩ := Copy.run_cells
    { src := 0, dst := b.getData id, len := data.length } hsrc hdst
  refine ⟨_, store_of_run (h.bytes ▸ hless) hrun, ?_⟩
  have hbyte := hin d hmore
  rw [Nat.zero_add, ← hoffset] at hbyte
  change ((buffer.drop (b.getData (id + 1))).take b.dataBytes).head? = data[d]?
  rw [List.head?_take, if_neg (by rw [h.bytes]; omega), List.head?_drop]
  exact hbyte

theorem store_overlaps_one :
    ∃ b', store (RamBuffer.create 8 2 fun _ => 0) 0 [1, 2, 3, 4, 5, 6, 7, 8, 9] = some b' ∧
      (b'.slot (0 + 1)).head? = ([1, 2, 3, 4, 5, 6, 7, 8, 9] : List UInt8)[8]? :=
  store_overlaps (fits_create (n := 2) (by decide) _) le_rfl (by decide) (by decide) (by decide)

end Store

/-! ### A turn -/

section Turn

variable {c : Array10Recv} {messages : List (Option Message)}

/-- The identifiers that have come, with the metadata of each. -/
def order (c : Array10Recv) (arrived : List (ℕ × List UInt8)) (o : Std.TreeMap ℕ ImageMetadata) :
    Std.TreeMap ℕ ImageMetadata :=
  arrived.foldl (fun o x => o.insertIfNew x.1 (c.metadataOf x.1)) o

/-- **What the messages of a turn do**: their images are copied to the slots and noted. -/
theorem receive_messages (hheaders : ∀ m, some m ∈ messages → m.headerBytes ≤ c.maxByteSize + 8)
    (s : State) :
    messages.foldlM c.receive s =
      ((writes (images s.imageId messages)).foldlM (fun b w => storeOption b w.1 w.2) s.ram).map
        fun ram =>
          ⟨lastId s.imageId messages, ram, c.order (images s.imageId messages) s.imageOrder⟩ := by
  induction messages generalizing s with
  | nil => rfl
  | cons message messages ih =>
    have hrest := ih fun m hm => hheaders m (List.mem_cons_of_mem _ hm)
    rw [List.foldlM_cons]
    cases message with
    | none => exact hrest s
    | some m =>
      have hheader := Nat.not_lt.mpr (hheaders m List.mem_cons_self)
      by_cases hdata : m.data = []
      · have hreceive : c.receive s (some m) = some { s with imageId := nextId s.imageId m } := by
          rw [receive, if_neg hheader, if_pos hdata]
        rw [hreceive, images, if_pos hdata, lastId]
        exact hrest _
      · have hreceive : c.receive s (some m) = (store s.ram (nextId s.imageId m) m.data).bind
            fun ram => some ⟨nextId s.imageId m, ram,
              s.imageOrder.insertIfNew (nextId s.imageId m)
                (c.metadataOf (nextId s.imageId m))⟩ := by
          rw [receive, if_neg hheader, if_neg hdata]
          rfl
        rw [hreceive, images, if_neg hdata, lastId, writes, List.map_cons, List.foldlM_cons]
        change _ = Option.map _ ((store s.ram (nextId s.imageId m) m.data).bind _)
        cases store s.ram (nextId s.imageId m) m.data with
        | none => rfl
        | some ram => exact hrest _

theorem getElem?_order {arrived : List (ℕ × List UInt8)} {o : Std.TreeMap ℕ ImageMetadata}
    {ids : List ℕ} (ho : ∀ k, o[k]? = if k ∈ ids then some (c.metadataOf k) else none) (k : ℕ) :
    (c.order arrived o)[k]? =
      if k ∈ ids ++ arrived.map Prod.fst then some (c.metadataOf k) else none := by
  induction arrived generalizing o ids with
  | nil => rw [List.map_nil, List.append_nil]; exact ho k
  | cons x arrived ih =>
    have hinsert : ∀ k, (o.insertIfNew x.1 (c.metadataOf x.1))[k]? =
        if k ∈ ids ++ [x.1] then some (c.metadataOf k) else none := by
      intro k
      rw [Std.TreeMap.getElem?_insertIfNew_nat, ho, ho]
      by_cases hk : k = x.1
      · subst hk
        by_cases hmem : x.1 ∈ ids <;> simp [hmem]
      · simp [hk]
    rw [List.map_cons, List.append_cons]
    exact ih hinsert

/-- The images with slots of their own are those that are announced. -/
theorem perm_of_bytes {arrived : List (ℕ × List UInt8)}
    {out : List (ImageMetadata × List UInt8)} {n : ℕ}
    (hincreasing : (out.map fun x => x.1.imageId).Pairwise (· < ·))
    (hids : ∀ id, id ∈ out.map (fun x => x.1.imageId) ↔ id ∈ arrived.map Prod.fst)
    (hbytes : ∀ x ∈ out,
      lastWrite (fun id => id ≡ x.1.imageId [MOD n]) (writes arrived) = some x.2)
    (hslots : (arrived.map fun x => x.1 % n).Nodup) :
    (out.map fun x => (x.1.imageId, x.2)).Perm arrived := by
  have hsame : ∀ x ∈ out, ∀ data, (x.1.imageId, data) ∈ arrived → data = x.2 := by
    intro x hx data hdata
    obtain ⟨w, hw, hcell, hval⟩ := mem_of_lastWrite (hbytes x hx)
    obtain ⟨⟨id, bytes⟩, harrived, rfl⟩ := List.mem_map.mp hw
    have heq := List.inj_on_of_nodup_map hslots harrived hdata hcell
    obtain ⟨-, rfl⟩ := Prod.mk.injEq .. ▸ heq
    exact Option.some.inj hval
  have hnodup : (out.map fun x => (x.1.imageId, x.2)).Nodup := by
    refine List.Nodup.of_map Prod.fst ?_
    rw [List.map_map]
    exact hincreasing.imp Nat.ne_of_lt
  refine (List.perm_ext_iff_of_nodup hnodup hslots.of_map).mpr ?_
  rintro ⟨id, data⟩
  constructor
  · intro hmem
    obtain ⟨x, hx, heq⟩ := List.mem_map.mp hmem
    obtain ⟨rfl, rfl⟩ := Prod.mk.injEq .. ▸ heq
    obtain ⟨⟨id, data⟩, harrived, hid⟩ :=
      List.mem_map.mp ((hids x.1.imageId).mp (List.mem_map_of_mem hx))
    obtain rfl : id = x.1.imageId := hid
    rwa [← hsame x hx data harrived]
  · intro harrived
    obtain ⟨x, hx, rfl⟩ := List.mem_map.mp ((hids id).mpr (List.mem_map_of_mem harrived))
    rw [hsame x hx data harrived]
    exact List.mem_map_of_mem hx

theorem mem_order {arrived : List (ℕ × List UInt8)} {x : ℕ × ImageMetadata} :
    x ∈ (c.order arrived ∅).toList ↔ x.1 ∈ arrived.map Prod.fst ∧ x.2 = c.metadataOf x.1 := by
  have hempty : ∀ k, (∅ : Std.TreeMap ℕ ImageMetadata)[k]? =
      if k ∈ ([] : List ℕ) then some (c.metadataOf k) else none := by
    intro k
    rw [Std.TreeMap.getElem?_emptyc, if_neg List.not_mem_nil]
  have hnoted : (c.order arrived ∅)[x.1]? =
      if x.1 ∈ arrived.map Prod.fst then some (c.metadataOf x.1) else none :=
    getElem?_order hempty x.1
  rw [Std.TreeMap.mem_toList_iff_getElem?_eq_some, hnoted]
  split
  · next hmem => exact ⟨fun h => ⟨hmem, (Option.some.inj h).symm⟩, fun h => congrArg some h.2.symm⟩
  · next hmem => exact iff_of_false (fun h => by cases h) fun h => hmem h.1

/-- What is announced, when the slots show the images. -/
theorem announces_of_slots {arrived : List (ℕ × List UInt8)} {ram : RamBuffer}
    (hslots : ∀ id ∈ arrived.map Prod.fst,
      lastWrite (fun id' => id' ≡ id [MOD c.slots]) (writes arrived) = some (ram.slot id)) :
    c.Announces arrived ((c.order arrived ∅).toList.map fun x => (x.2, ram.slot x.1)) := by
  have hids : ((c.order arrived ∅).toList.map fun x => (x.2, ram.slot x.1)).map
      (fun x => x.1.imageId) = (c.order arrived ∅).toList.map Prod.fst := by
    rw [List.map_map]
    exact List.map_congr_left fun x hx => congrArg ImageMetadata.imageId (mem_order.mp hx).2
  have hincreasing : (((c.order arrived ∅).toList.map fun x => (x.2, ram.slot x.1)).map
      fun x => x.1.imageId).Pairwise (· < ·) := by
    rw [hids, List.pairwise_map]
    exact Std.TreeMap.ordered_keys_toList.imp Nat.compare_eq_lt.mp
  have hmem : ∀ id, id ∈ ((c.order arrived ∅).toList.map fun x => (x.2, ram.slot x.1)).map
      (fun x => x.1.imageId) ↔ id ∈ arrived.map Prod.fst := by
    intro id
    rw [hids]
    constructor
    · intro h
      obtain ⟨x, hx, rfl⟩ := List.mem_map.mp h
      exact (mem_order.mp hx).1
    · exact fun h => List.mem_map_of_mem (f := Prod.fst)
        (mem_order.mpr ⟨h, rfl⟩ : (id, c.metadataOf id) ∈ _)
  have hbytes : ∀ x ∈ (c.order arrived ∅).toList.map fun x => (x.2, ram.slot x.1),
      lastWrite (fun id => id ≡ x.1.imageId [MOD c.slots]) (writes arrived) = some x.2 := by
    intro x hx
    obtain ⟨⟨id, m⟩, hnoted, rfl⟩ := List.mem_map.mp hx
    obtain rfl : m = c.metadataOf id := (mem_order.mp hnoted).2
    exact hslots id (mem_order.mp hnoted).1
  refine ⟨hincreasing, hmem, fun x hx => ?_, hbytes, perm_of_bytes hincreasing hmem hbytes⟩
  obtain ⟨⟨id, m⟩, hnoted, rfl⟩ := List.mem_map.mp hx
  obtain rfl : m = c.metadataOf id := (mem_order.mp hnoted).2
  rfl

/-- **A turn announces its images.** -/
theorem turn_announces (hn : 1 ≤ c.slots) {s : State} (hfits : Fits c.maxByteSize c.slots s.ram)
    (horder : s.imageOrder = ∅)
    (hheaders : ∀ m, some m ∈ messages → m.headerBytes ≤ c.maxByteSize + 8)
    (hdata : ∀ x ∈ images s.imageId messages, x.2.length = c.maxByteSize) :
    ∃ s' out, c.turn s messages = some (s', out) ∧
      Fits c.maxByteSize c.slots s'.ram ∧ s'.imageOrder = ∅ ∧
      s'.imageId = lastId s.imageId messages ∧ c.Announces (images s.imageId messages) out := by
  have hok : ∀ w ∈ writes (images s.imageId messages), ∀ data, w.2 = some data →
      data.length = c.maxByteSize := by
    intro w hw data hval
    obtain ⟨x, hx, rfl⟩ := List.mem_map.mp hw
    exact Option.some.inj hval ▸ hdata x hx
  obtain ⟨ram, hrun, hram, hview⟩ := (stores hn).run hfits _ hok
  have hturn : c.turn s messages = some (⟨lastId s.imageId messages, ram, ∅⟩,
      (c.order (images s.imageId messages) ∅).toList.map fun x => (x.2, ram.slot x.1)) := by
    rw [turn, receive_messages hheaders, hrun, horder]
    rfl
  refine ⟨_, _, hturn, hram, rfl, rfl, announces_of_slots fun id hid => ?_⟩
  obtain ⟨x, hx, rfl⟩ := List.mem_map.mp hid
  have hwrite : (x.1, some x.2) ∈ writes (images s.imageId messages) := List.mem_map_of_mem hx
  obtain ⟨data, hlast⟩ :=
    exists_lastWrite (p := fun id => id ≡ x.1 [MOD c.slots]) hwrite rfl rfl
  have hshown := hview (x.1 % c.slots)
  rw [slot, hram.getData_eq hn, hshown]
  change _ = some ((Option.map _ (lastWrite (fun id => id ≡ x.1 [MOD c.slots]) _)).getD _)
  rw [hlast]
  rfl

end Turn

/-! ### Runs -/

section Run

variable {c : Array10Recv}

/-- The header of every message fits the vector it is read into, and the data have the size of an
image, unless there are none. -/
def WholeImages (c : Array10Recv) (messages : List (Option Message)) : Prop :=
  ∀ m, some m ∈ messages → m.headerBytes ≤ c.maxByteSize + 8 ∧
    (m.data ≠ [] → m.data.length = c.maxByteSize)

theorem length_of_mem_images {messages : List (Option Message)} (h : c.WholeImages messages)
    {id : ℕ} {x : ℕ × List UInt8} (hx : x ∈ images id messages) : x.2.length = c.maxByteSize := by
  induction messages generalizing id with
  | nil => cases hx
  | cons message messages ih =>
    have hrest : c.WholeImages messages := fun m hm => h m (List.mem_cons_of_mem _ hm)
    cases message with
    | none => exact ih hrest hx
    | some m =>
      rw [images] at hx
      split at hx
      · exact ih hrest hx
      · next hdata =>
        rcases List.mem_cons.mp hx with rfl | hx
        · exact (h m List.mem_cons_self).2 hdata
        · exact ih hrest hx

section Config

variable {config : DetectorConfig}

theorem of_ofConfig (hconfig : ofConfig config = .ok c) :
    slotsNumber config = .ok c.slots ∧ c.maxByteSize =
      toSizeT ((config.imagePixelWidth * config.imagePixelHeight * config.bitDepth).tdiv 8) := by
  rw [ofConfig] at hconfig
  cases hslots : slotsNumber config with
  | error e =>
    rw [hslots] at hconfig
    cases hconfig
  | ok slots =>
    rw [hslots] at hconfig
    cases hdtype : getMetadataDtype config with
    | error e =>
      rw [hdtype] at hconfig
      cases hconfig
    | ok dtype =>
      rw [hdtype] at hconfig
      cases hconfig
      exact ⟨rfl, rfl⟩

theorem one_le_slots (hconfig : ofConfig config = .ok c) : 1 ≤ c.slots :=
  (by decide : 1 ≤ 1000).trans (le_slotsNumber (of_ofConfig hconfig).1)

theorem cast_maxByteSize (hdef : config.ImageSizeDefined) (hconfig : ofConfig config = .ok c) :
    (c.maxByteSize : ℤ) =
      config.imagePixelWidth * config.imagePixelHeight * config.bitDepth / 8 := by
  have hpixels := Int.mul_nonneg hdef.width hdef.height
  have hbits := Int.mul_nonneg hpixels hdef.depth
  have hlt := hdef.bits
  rw [(of_ofConfig hconfig).2, Int.tdiv_eq_ediv_of_nonneg hbits]
  exact toSizeT_of_nonneg (by omega) (by omega)

/-- A slot is at most twice as large as the converted image, whose size determines their number. -/
theorem maxByteSize_le (hdef : config.ImageSizeDefined) (hdepth : config.bitDepth ≤ 32)
    (hconfig : ofConfig config = .ok c) {C : ℕ} (hC : convertedImageNBytes config = .ok C) :
    c.maxByteSize ≤ 2 * C := by
  have hpixels := Int.mul_nonneg hdef.width hdef.height
  have hpixels_lt := hdef.pixels
  have hbits := Int.mul_le_mul_of_nonneg_left hdepth hpixels
  have hbytes := cast_maxByteSize hdef hconfig
  rw [Int.mul_comm] at hpixels_lt
  have hsame : Except.ok (ε := String)
      (toSizeT ((config.imagePixelWidth * config.imagePixelHeight * config.bitDepth).tdiv 8)) =
        .ok C → c.maxByteSize ≤ 2 * C := by
    intro h
    rw [(of_ofConfig hconfig).2, Except.ok.inj h]
    exact Nat.le_mul_of_pos_left C Nat.two_pos
  rw [convertedImageNBytes] at hC
  split at hC
  · next hgigafrost =>
    obtain rfl := Except.ok.inj hC
    have hdoubled := hdef.doubled hgigafrost
    rw [Int.mul_comm config.imagePixelHeight] at hdoubled ⊢
    have hconverted := toSizeT_of_nonneg
      (x := config.imagePixelWidth * config.imagePixelHeight * 2) (by omega) (by omega)
    omega
  · exact hsame hC
  · exact hsame hC
  · exact hsame hC
  · obtain rfl := Except.ok.inj hC
    have hconverted := toSizeT_of_nonneg hpixels (by omega)
    rw [sizeTBound]
    omega
  · cases hC

/-- The slots together, with the last page. -/
theorem size_lt (hdef : config.ImageSizeDefined) (hdepth : config.bitDepth ≤ 32)
    (hgb : config.ramBufferGb < 2 ^ 32) (hconfig : ofConfig config = .ok c) :
    c.maxByteSize * c.slots + alignment < sizeTBound := by
  have hslots := (of_ofConfig hconfig).1
  rw [slotsNumber] at hslots
  cases hC : convertedImageNBytes config with
  | error e =>
    rw [hC] at hslots
    cases hslots
  | ok C =>
    have htwice := maxByteSize_le hdef hdepth hconfig hC
    have hbytes := cast_maxByteSize hdef hconfig
    have hbits := hdef.bits
    rw [hC] at hslots
    change (if C = 0 then _ else _) = _ at hslots
    split at hslots
    · cases hslots
    · rw [← Except.ok.inj hslots, ← Nat.mul_max_mul_left, alignment]
      have hgb' : c.maxByteSize * (config.ramBufferGb * 1024 * 1024 * 1024 % sizeTBound / C) ≤
          2 * (config.ramBufferGb * 1024 * 1024 * 1024) := by
        refine (Nat.mul_le_mul_right _ htwice).trans ?_
        rw [Nat.mul_assoc]
        exact Nat.mul_le_mul_left 2 ((Nat.mul_div_le _ _).trans (Nat.mod_le _ _))
      generalize c.maxByteSize * (_ / C) = product at hgb' ⊢
      rw [sizeTBound]
      omega

end Config

theorem run_announces_from (hn : 1 ≤ c.slots) {turns : List (List (Option Message))}
    (hwhole : ∀ messages ∈ turns, c.WholeImages messages) {s : State}
    (hfits : Fits c.maxByteSize c.slots s.ram) (horder : s.imageOrder = ∅) :
    ∃ s' outs, c.run s turns = some (s', outs) ∧
      List.Forall₂ c.Announces (imagesOf s.imageId turns) outs := by
  induction turns generalizing s with
  | nil => exact ⟨s, [], rfl, .nil⟩
  | cons messages turns ih =>
    rw [List.forall_mem_cons] at hwhole
    obtain ⟨s₁, out, hturn, hfits₁, horder₁, hid, hout⟩ :=
      turn_announces hn hfits horder (fun m hm => (hwhole.1 m hm).1) fun x hx =>
        length_of_mem_images hwhole.1 hx
    obtain ⟨s', outs, hrun, houts⟩ := ih hwhole.2 hfits₁ horder₁
    refine ⟨s', out :: outs, ?_, .cons hout (hid ▸ houts)⟩
    rw [run, hturn]
    change Option.bind (c.run s₁ turns) _ = _
    rw [hrun]
    rfl

/-- An image of four pixels, with a byte each. -/
def fourPixels : Array10Recv where
  metadata :=
    { height := 2, width := 2, size := 4, dtype := .uint8, status := .goodImage }
  maxByteSize := 4
  slots := 1000

def fourPixelsConfig : DetectorConfig where
  detectorType := .pco
  nModules := 1
  bitDepth := 8
  imagePixelHeight := 2
  imagePixelWidth := 2

theorem ofConfig_fourPixels : ofConfig fourPixelsConfig = .ok fourPixels := by
  rw [fourPixelsConfig]
  rfl

/-- The header `{"frame":5}` has eleven bytes. -/
def frameMessage (id : ℕ) (data : List UInt8) : Message :=
  ⟨11, some (.object [("frame", .unsigned id)]), data⟩

/-- **Every turn of every run announces its images.** The messages may come in any order over the
sockets, identifiers may come again, and headers may be unreadable. -/
theorem run_announces {config : DetectorConfig} (hconfig : ofConfig config = .ok c)
    (hdef : config.ImageSizeDefined) (hdepth : config.bitDepth ≤ 32)
    (hgb : config.ramBufferGb < 2 ^ 32) (initial : ℕ → UInt8)
    {turns : List (List (Option Message))} (hwhole : ∀ messages ∈ turns, c.WholeImages messages) :
    ∃ s outs, c.run (c.start initial) turns = some (s, outs) ∧
      List.Forall₂ c.Announces (imagesOf c.metadata.imageId turns) outs :=
  run_announces_from (one_le_slots hconfig) hwhole
    (fits_create (size_lt hdef hdepth hgb hconfig) initial) rfl

/-- The header of the last message is no JSON. -/
theorem run_announces_unreadable :
    ∃ s outs, fourPixels.run (fourPixels.start fun _ => 0)
        [[some (frameMessage 5 [1, 2, 3, 4]), none, some (frameMessage 4 [5, 6, 7, 8])],
          [some ⟨3, none, [9, 8, 7, 6]⟩]] = some (s, outs) ∧
      List.Forall₂ fourPixels.Announces
        [[(5, [1, 2, 3, 4]), (4, [5, 6, 7, 8])], [(4, [9, 8, 7, 6])]] outs :=
  run_announces ofConfig_fourPixels
    ⟨by decide, by decide, by decide, by decide, nofun, by decide, by decide⟩ (by decide)
    (by decide) (fun _ => 0) (by simp [WholeImages, fourPixels, frameMessage])

end Run

end Array10Recv

end StdDaq
