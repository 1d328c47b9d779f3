import Mathlib

/-!
# Recording and replaying packets

`std_udp_dump` writes the packets of a module to a file, each behind its length, and
`std_udp_replay` reads the file and sends the packets again. The recorder gives up at a packet that
fills its buffer, since the rest of it might be missing.

The replay does not look at the state of its file. When it has sent everything, it reads nothing
into a length that is zero, and goes on with packets without data until somebody stops it.

## Main definitions

* `dump` — the file that is recorded
* `Replay.next` — a turn of the loop that reads and sends

## Main results

* `replay_dump` — the replay sends what was recorded, and then empty packets
-/

namespace StdDaq

namespace UdpTools

/-- `UDP_BUFFER_MAX_SIZE`. -/
def udpBufferMaxSize : ℕ := 1024 * 10

/-- The bytes of an unsigned number, the lowest first. -/
def toLittle : ℕ → ℕ → List UInt8
  | 0, _ => []
  | k + 1, num => UInt8.ofNat num :: toLittle k (num / 256)

/-- The number behind the bytes, where missing bytes are zero. -/
def ofLittle : List UInt8 → ℕ
  | [] => 0
  | b :: bytes => b.toNat + 256 * ofLittle bytes

/-- What is written for a packet: a `uint64_t` and the data. -/
def entry (p : List UInt8) : List UInt8 := toLittle 8 p.length ++ p

/-- `receive_and_dump`, which throws when `recv` has filled the buffer. -/
def dump : List (List UInt8) → List UInt8
  | [] => []
  | p :: packets =>
    if min p.length udpBufferMaxSize = udpBufferMaxSize then [] else entry p ++ dump packets

/-- A `std::ifstream`: what is left of the file, and `good()`. -/
structure InputFile where
  rest : List UInt8
  good : Bool

/-- `read`. A stream that has failed reads nothing more. -/
def InputFile.read (file : InputFile) (n : ℕ) : List UInt8 × InputFile :=
  if file.good then (file.rest.take n, ⟨file.rest.drop n, decide (n ≤ file.rest.length)⟩)
  else ([], file)

/-- The variables of `read_and_send`. -/
structure Replay where
  file : InputFile
  buffer : List UInt8

namespace Replay

/-- **A turn of `read_and_send`**, with the packet that is sent. A length that is larger than the
buffer is undefined behaviour. -/
def next (r : Replay) : Option (List UInt8 × Replay) :=
  let (size, file) := r.file.read 8
  let nPacketBytes := ofLittle size
  if nPacketBytes ≤ udpBufferMaxSize then
    let (data, file) := file.read nPacketBytes
    let buffer := data ++ r.buffer.drop data.length
    some (buffer.take nPacketBytes, ⟨file, buffer⟩)
  else none

/-- What is sent in the first `k` turns. -/
def run : ℕ → Replay → Option (List (List UInt8))
  | 0, _ => some []
  | k + 1, r => do
    let (p, r) ← r.next
    let packets ← run k r
    some (p :: packets)

/-- The replay of a file, with a buffer that nobody has cleared. -/
def start (file buffer : List UInt8) : Replay := ⟨⟨file, true⟩, buffer⟩

end Replay

/-- The packets that are recorded. -/
def recorded (packets : List (List UInt8)) : List (List UInt8) :=
  packets.takeWhile fun p => p.length < udpBufferMaxSize

/-! ### Numbers and entries -/

@[simp] theorem length_toLittle (k num : ℕ) : (toLittle k num).length = k := by
  induction k generalizing num with
  | zero => rfl
  | succ k ih => rw [toLittle, List.length_cons, ih]

theorem ofLittle_toLittle (k num : ℕ) : ofLittle (toLittle k num) = num % 256 ^ k := by
  induction k generalizing num with
  | zero => rw [toLittle, ofLittle, Nat.pow_zero, Nat.mod_one]
  | succ k ih =>
    have hbyte : (UInt8.ofNat num).toNat = num % 256 := UInt8.toNat_ofNat'
    have hpow : 256 ^ (k + 1) = 256 * 256 ^ k := Nat.pow_succ'
    rw [toLittle, ofLittle, ih, hbyte, hpow, Nat.mod_mul]

theorem dump_eq (packets : List (List UInt8)) :
    dump packets = (recorded packets).flatMap entry := by
  induction packets with
  | nil => rfl
  | cons p packets ih =>
    by_cases hp : p.length < udpBufferMaxSize
    · rw [dump, if_neg (by omega), recorded, List.takeWhile_cons_of_pos (by simpa using hp),
        List.flatMap_cons, ih]
      rfl
    · rw [dump, if_pos (by omega), recorded, List.takeWhile_cons_of_neg (by simpa using hp)]
      rfl

theorem lt_of_mem_recorded {packets : List (List UInt8)} {p : List UInt8}
    (hp : p ∈ recorded packets) : p.length < udpBufferMaxSize := by
  simpa using List.mem_takeWhile_imp hp

/-! ### The replay -/

namespace Replay

/-- An entry is read and sent. -/
theorem next_entry {p : List UInt8} (hp : p.length < udpBufferMaxSize)
    (rest buffer : List UInt8) :
    (start (entry p ++ rest) buffer).next = some (p, start rest (p ++ buffer.drop p.length)) := by
  have hsize : (⟨entry p ++ rest, true⟩ : InputFile).read 8 =
      (toLittle 8 p.length, ⟨p ++ rest, true⟩) := by
    rw [InputFile.read, if_pos rfl, entry, List.append_assoc,
      List.take_left' (length_toLittle 8 _), List.drop_left' (length_toLittle 8 _)]
    simp
  have hlength : ofLittle (toLittle 8 p.length) = p.length := by
    rw [ofLittle_toLittle, Nat.mod_eq_of_lt (hp.trans (by decide))]
  have hdata : (⟨p ++ rest, true⟩ : InputFile).read p.length = (p, ⟨rest, true⟩) := by
    rw [InputFile.read, if_pos rfl, List.take_left, List.drop_left]
    simp
  rw [next, start]
  simp only [hsize, hlength, hdata, if_pos hp.le, List.take_left]
  rfl

/-- Behind the end, an empty packet is sent. -/
theorem next_end (good : Bool) (buffer : List UInt8) :
    (⟨⟨[], good⟩, buffer⟩ : Replay).next = some ([], ⟨⟨[], false⟩, buffer⟩) := by
  cases good <;> rfl

theorem run_end (k : ℕ) (good : Bool) (buffer : List UInt8) :
    run k ⟨⟨[], good⟩, buffer⟩ = some (List.replicate k []) := by
  induction k generalizing good with
  | zero => rfl
  | succ k ih =>
    rw [run, next_end]
    change Option.bind (run k _) _ = _
    rw [ih]
    rfl

/-- The entries at the beginning of a file are sent, whatever follows them. -/
theorem run_entries {packets : List (List UInt8)}
    (hpackets : ∀ p ∈ packets, p.length < udpBufferMaxSize) (rest buffer : List UInt8) (k : ℕ) :
    ∃ buffer', run (packets.length + k) (start (packets.flatMap entry ++ rest) buffer) =
      (run k (start rest buffer')).map (packets ++ ·) := by
  induction packets generalizing buffer with
  | nil => exact ⟨buffer, by rw [List.length_nil, Nat.zero_add]; exact Option.map_id'.symm⟩
  | cons p packets ih =>
    rw [List.forall_mem_cons] at hpackets
    obtain ⟨buffer', hrun⟩ := ih hpackets.2 (p ++ buffer.drop p.length)
    refine ⟨buffer', ?_⟩
    rw [List.length_cons, Nat.add_right_comm, run, List.flatMap_cons, List.append_assoc,
      next_entry hpackets.1]
    change Option.bind (run _ _) _ = _
    rw [hrun, Option.bind_map]
    cases run k (start rest buffer') <;> rfl

end Replay

/-- **What is recorded is sent again**, in order and unchanged, and nothing but empty packets after
it. -/
theorem replay_dump (packets : List (List UInt8)) (buffer : List UInt8) (k : ℕ) :
    (Replay.start (dump packets) buffer).run k =
      some ((recorded packets).take k ++ List.replicate (k - (recorded packets).length) []) := by
  have hrecorded : ∀ p ∈ recorded packets, p.length < udpBufferMaxSize :=
    fun _ => lt_of_mem_recorded
  rw [dump_eq]
  rcases Nat.le_total k (recorded packets).length with hk | hk
  · obtain ⟨buffer', hrun⟩ := Replay.run_entries
      (fun p hp => hrecorded p (List.mem_of_mem_take hp) : ∀ p ∈ (recorded packets).take k, _)
      (((recorded packets).drop k).flatMap entry) buffer 0
    rw [← List.flatMap_append, List.take_append_drop, List.length_take, Nat.min_eq_left hk] at hrun
    rw [Nat.sub_eq_zero_of_le hk]
    exact hrun
  · obtain ⟨j, rfl⟩ := Nat.exists_eq_add_of_le hk
    obtain ⟨buffer', hrun⟩ := Replay.run_entries hrecorded [] buffer j
    rw [List.append_nil] at hrun
    rw [hrun, Replay.start, Replay.run_end, Nat.add_sub_cancel_left,
      List.take_of_length_le (Nat.le_add_right _ _)]
    rfl

end UdpTools

end StdDaq
