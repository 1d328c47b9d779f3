import StdDaq.ImageMetadata
import StdDaq.Lib.RingBuffer
import StdDaq.Lib.Run

/-!
# The delay filter

`std_delay_filter` holds back the metadata of the images for a time, or for a number of images if
these come first. What is held back is kept in a `meta_buffer`, a ring of entries with the time at
which they came in (`std-delay-filter/src/meta_buffer.cpp`).

The ring keeps both its ends modulo its size and nothing else, so equal ends mean an empty ring or a
full one. `pop` takes them for a full one. That is right because of the loop it is called in: each
turn pushes once and then pops at most once, so the ring is never empty when `pop` looks at it, and
never full when `push` does.

Times are the readings of `steady_clock`, in nanoseconds. Nothing is asked of them. The entry that
`pop` returns is moved out of its cell, and what stays there is an empty message.

## Main results

* `delayed_in_order` — what leaves the filter, and when
-/

namespace StdDaq

namespace DelayFilter

/-- `min_history_needed_for_operation`. -/
def minHistoryNeededForOperation : ℕ := 998

/-- `meta_buffer`. -/
structure MetaBuffer where
  /-- In seconds. -/
  period : ℤ
  buffer : List (ℤ × ImageMetadata)
  begin_ : ℕ := 0
  end_ : ℕ := 0

namespace MetaBuffer

/-- `meta_buffer::meta_buffer`. -/
def create (slots : ℕ) (period : ℤ) : MetaBuffer where
  period := period
  buffer := List.replicate (slots - minHistoryNeededForOperation) (0, {})

/-- `meta_buffer::increment`. -/
def increment (b : MetaBuffer) (index : ℕ) : ℕ := (index + 1) % b.buffer.length

/-- `meta_buffer::push`, at the time `now`. -/
def push (b : MetaBuffer) (now : ℤ) (metadata : ImageMetadata) : MetaBuffer :=
  { b with
    buffer := b.buffer.set b.end_ (now, metadata)
    end_ := b.increment b.end_ }

/-- `meta_buffer::pop`, at the time `now`. -/
def pop (b : MetaBuffer) (now : ℤ) : MetaBuffer × Option ImageMetadata :=
  let entry := b.buffer[b.begin_]?.getD (0, {})
  if b.begin_ = b.end_ ∨ b.period * 1000000000 < now - entry.1 then
    ({ b with
        buffer := b.buffer.set b.begin_ (entry.1, {})
        begin_ := b.increment b.begin_ }, some entry.2)
  else (b, none)

end MetaBuffer

/-! ### Runs -/

/-- A metadata message, with the times at which `push` and `pop` read the clock. -/
structure Received where
  metadata : ImageMetadata
  pushedAt : ℤ
  poppedAt : ℤ

/-- The filter together with what it was given and what it sent. -/
structure Trace where
  buffer : MetaBuffer
  /-- What was pushed, and when. -/
  pushed : List (ℤ × ImageMetadata) := []
  /-- What was sent on. -/
  sent : List ImageMetadata := []

namespace Trace

/-- One turn of the loop: push what was received, then send what `pop` returns. -/
def step (t : Trace) (r : Received) : Trace :=
  let popped := (t.buffer.push r.pushedAt r.metadata).pop r.poppedAt
  { buffer := popped.1
    pushed := t.pushed ++ [(r.pushedAt, r.metadata)]
    sent := t.sent ++ popped.2.toList }

/-- What a turn sends on, if anything. -/
def released (t : Trace) (r : Received) : Option ImageMetadata :=
  ((t.buffer.push r.pushedAt r.metadata).pop r.poppedAt).2

/-- The filter before its loop. -/
def start (slots : ℕ) (period : ℤ) : Trace := { buffer := .create slots period }

end Trace

open Trace

variable {slots : ℕ} {period : ℤ} {t : Trace} {r : Received}

/-- A turn that sends `m`: it is the oldest entry that was held back, it is old enough or the ring
was full, and few have come in behind it. -/
structure InTime (slots : ℕ) (period : ℤ) (t : Trace) (r : Received) (m : ImageMetadata) :
    Prop where
  oldest : ∃ time, (t.step r).pushed[t.sent.length]? = some (time, m) ∧
    (period * 1000000000 < r.poppedAt - time ∨
      (t.step r).pushed.length = t.sent.length + (slots - 998))
  newer : (t.step r).pushed.length - (t.sent.length + 1) ≤ slots - 999
  /-- While image ids are consecutive, nothing newer goes into the slot of its image. -/
  slot : ((t.step r).pushed.IsChain fun p q => q.2.imageId = p.2.imageId + 1) →
    ∀ p ∈ (t.step r).pushed.drop (t.sent.length + 1), p.2.imageId % slots ≠ m.imageId % slots

/-! ### The ring -/

/-- A ring of `size` cells holds what was pushed but for the first `sent` entries, with both ends
where these numbers say. -/
structure RingOf (size : ℕ) (b : MetaBuffer) (pushed : List (ℤ × ImageMetadata)) (sent : ℕ) :
    Prop where
  length : b.buffer.length = size
  holds : RingBuffer.Holds b.buffer pushed sent
  begin_ : b.begin_ = sent % size
  end_ : b.end_ = pushed.length % size

namespace RingOf

variable {size sent : ℕ} {b : MetaBuffer} {pushed : List (ℤ × ImageMetadata)}

theorem push (h : RingOf size b pushed sent) (hroom : pushed.length < sent + size) (now : ℤ)
    (m : ImageMetadata) : RingOf size (b.push now m) (pushed ++ [(now, m)]) sent where
  length := by rw [MetaBuffer.push, List.length_set, h.length]
  holds := by
    rw [MetaBuffer.push, h.end_, ← h.length]
    exact h.holds.push (by rwa [h.length]) (now, m)
  begin_ := h.begin_
  end_ := by
    rw [MetaBuffer.push, MetaBuffer.increment, h.end_, h.length, Nat.mod_add_mod,
      List.length_append, List.length_singleton]

/-- In a ring that is not empty `pop` looks at the oldest entry, and takes it when the ring is full
or the entry is old. -/
theorem pop (h : RingOf size b pushed sent) {entry : ℤ × ImageMetadata}
    (hentry : pushed[sent]? = some entry) (now : ℤ) :
    (pushed.length = sent + size ∨ b.period * 1000000000 < now - entry.1 →
      (b.pop now).2 = some entry.2 ∧ RingOf size (b.pop now).1 pushed (sent + 1)) ∧
    (¬ (pushed.length = sent + size ∨ b.period * 1000000000 < now - entry.1) →
      b.pop now = (b, none)) := by
  have hlt : sent < pushed.length := (List.getElem?_eq_some_iff.mp hentry).1
  have hcell : b.buffer[b.begin_]? = some entry := by
    rw [h.begin_, ← hentry, ← h.length]
    exact h.holds.head hlt
  -- the ends fall together when the ring is full, and it is not empty
  have hfull : b.begin_ = b.end_ ↔ pushed.length = sent + size := by
    have hfits := h.holds.fits
    rw [h.length] at hfits
    rw [h.begin_, h.end_, RingBuffer.mod_eq_iff hlt.le hfits]
    omega
  rw [MetaBuffer.pop, hcell, Option.getD_some, ← hfull]
  constructor
  · intro hcond
    rw [if_pos hcond]
    refine ⟨rfl, ?_, ?_, ?_, h.end_⟩
    · rw [List.length_set, h.length]
    · rw [h.begin_, ← h.length]
      exact h.holds.drop hlt _
    · rw [MetaBuffer.increment, h.begin_, h.length, Nat.mod_add_mod]
  · intro hcond
    rw [if_neg hcond]

end RingOf

/-- After a turn the ring holds what was pushed and not sent, what was sent are the oldest, and
there is room for one more. -/
structure Buffered (slots : ℕ) (period : ℤ) (t : Trace) : Prop where
  period : t.buffer.period = period
  ring : RingOf (slots - 998) t.buffer t.pushed t.sent.length
  sent : t.sent = (t.pushed.take t.sent.length).map Prod.snd
  room : t.pushed.length < t.sent.length + (slots - 998)

theorem ringOf_create (slots : ℕ) (period : ℤ) :
    RingOf (slots - 998) (.create slots period) [] 0 where
  length := by rw [MetaBuffer.create, List.length_replicate, minHistoryNeededForOperation]
  holds := RingBuffer.holds_nil _
  begin_ := by rw [Nat.zero_mod, MetaBuffer.create]
  end_ := by rw [List.length_nil, Nat.zero_mod, MetaBuffer.create]

theorem buffered_start (hS : 2 ≤ slots - 998) : Buffered slots period (start slots period) where
  period := rfl
  ring := ringOf_create slots period
  sent := rfl
  room := by
    rw [start, List.length_nil, List.length_nil]
    omega

/-! ### A turn -/

/-- The entry that `pop` looks at. -/
theorem exists_oldest (h : Buffered slots period t) (r : Received) :
    ∃ entry, (t.step r).pushed[t.sent.length]? = some entry := by
  have hlt : t.sent.length < (t.step r).pushed.length := by
    rw [step, List.length_append, List.length_singleton]
    exact Nat.lt_succ_of_le h.ring.holds.le
  exact ⟨_, List.getElem?_eq_getElem hlt⟩

/-- A turn releases the oldest entry when the ring is full or the entry is old, and nothing
otherwise. -/
theorem turn (h : Buffered slots period t) {entry : ℤ × ImageMetadata}
    (hentry : (t.step r).pushed[t.sent.length]? = some entry) :
    let full := (t.step r).pushed.length = t.sent.length + (slots - 998)
    let old := period * 1000000000 < r.poppedAt - entry.1
    (full ∨ old → t.released r = some entry.2 ∧
      RingOf (slots - 998) (t.step r).buffer (t.step r).pushed (t.sent.length + 1)) ∧
    (¬ (full ∨ old) → t.released r = none ∧
      RingOf (slots - 998) (t.step r).buffer (t.step r).pushed t.sent.length) := by
  have hring := h.ring.push h.room r.pushedAt r.metadata
  obtain ⟨htake, hkeep⟩ := hring.pop hentry r.poppedAt
  have hperiod : (t.buffer.push r.pushedAt r.metadata).period = period := h.period
  rw [hperiod] at htake hkeep
  refine ⟨htake, fun hcond => ?_⟩
  have hpop := hkeep hcond
  rw [released, step, hpop]
  exact ⟨rfl, hring⟩

theorem step_sent (t : Trace) (r : Received) :
    (t.step r).sent = t.sent ++ (t.released r).toList := rfl

theorem Buffered.step (h : Buffered slots period t) (r : Received) :
    Buffered slots period (t.step r) := by
  obtain ⟨entry, hentry⟩ := exists_oldest h r
  obtain ⟨htake, hkeep⟩ := turn h hentry
  have hle := h.ring.holds.le
  have hroom := h.room
  have hlength : (t.step r).pushed.length = t.pushed.length + 1 := by
    rw [Trace.step, List.length_append, List.length_singleton]
  have hold : ((t.step r).pushed.take t.sent.length).map Prod.snd = t.sent := by
    rw [Trace.step, List.take_append_of_le_length hle, ← h.sent]
  have hperiod : (t.step r).buffer.period = period := by
    rw [← h.period, Trace.step, MetaBuffer.pop]
    split <;> rfl
  by_cases hcond : (t.step r).pushed.length = t.sent.length + (slots - 998) ∨
      period * 1000000000 < r.poppedAt - entry.1
  · obtain ⟨hreleased, hring⟩ := htake hcond
    have hsent : (t.step r).sent = t.sent ++ [entry.2] := by
      rw [step_sent, hreleased, Option.toList_some]
    have hcount : (t.step r).sent.length = t.sent.length + 1 := by
      rw [hsent, List.length_append, List.length_singleton]
    refine ⟨hperiod, by rwa [hcount], ?_, by omega⟩
    rw [hcount, List.take_add_one, hentry, List.map_append, hold, hsent]
    rfl
  · obtain ⟨hreleased, hring⟩ := hkeep hcond
    have hsent : (t.step r).sent = t.sent := by
      rw [step_sent, hreleased, Option.toList_none, List.append_nil]
    -- the ring is not full, so there is room for the next entry
    refine ⟨hperiod, by rwa [hsent], by rw [hsent, hold], ?_⟩
    have hfull := not_or.mp hcond
    rw [hsent]
    omega

/-- Consecutive image ids count the entries. -/
theorem imageId_of_consecutive {pushed : List (ℤ × ImageMetadata)}
    (h : pushed.IsChain fun p q => q.2.imageId = p.2.imageId + 1) {i k : ℕ}
    {p q : ℤ × ImageMetadata} (hp : pushed[i]? = some p) (hq : pushed[i + k]? = some q) :
    q.2.imageId = p.2.imageId + k := by
  induction k generalizing q with
  | zero =>
    rw [Nat.add_zero, hp] at hq
    rw [← Option.some.inj hq, Nat.add_zero]
  | succ k ih =>
    obtain ⟨hlt, rfl⟩ := List.getElem?_eq_some_iff.mp hq
    have hlast := ih (List.getElem?_eq_getElem
      (show i + k < pushed.length from Nat.lt_of_succ_lt hlt))
    have hstep := h.getElem (i + k) hlt
    exact hstep.trans (by rw [hlast, Nat.add_assoc])

theorem inTime_of_released (h : Buffered slots period t) (hS : 2 ≤ slots - 998)
    {m : ImageMetadata} (hm : t.released r = some m) : InTime slots period t r m := by
  obtain ⟨entry, hentry⟩ := exists_oldest h r
  obtain ⟨htake, hkeep⟩ := turn h hentry
  have hroom := h.room
  have hlength : (t.step r).pushed.length = t.pushed.length + 1 := by
    rw [Trace.step, List.length_append, List.length_singleton]
  by_cases hcond : (t.step r).pushed.length = t.sent.length + (slots - 998) ∨
      period * 1000000000 < r.poppedAt - entry.1
  · have hreleased := (htake hcond).1
    rw [hm] at hreleased
    obtain rfl := Option.some.inj hreleased
    refine ⟨⟨entry.1, hentry, hcond.symm⟩, by omega, fun hids p hp => ?_⟩
    -- a newer image is between one and `slots - 999` ids ahead
    obtain ⟨k, hk⟩ := List.mem_iff_getElem?.mp hp
    rw [List.getElem?_drop, Nat.add_assoc] at hk
    have hlt := (List.getElem?_eq_some_iff.mp hk).1
    rw [imageId_of_consecutive hids hentry hk]
    exact (RingBuffer.mod_ne (by omega) (by omega)).symm
  · rw [(hkeep hcond).1] at hm
    cases hm

/-! ### Whole runs -/

theorem buffered_of_run {rs : List Received} (hS : 2 ≤ slots - 998)
    (hrun : Run (Steps.total Trace.step) (start slots period) rs t) : Buffered slots period t := by
  refine hrun.invariant (fun t r u ht hstep => ?_) (buffered_start hS)
  obtain rfl : t.step r = u := hstep
  exact ht.step r

/-- Each message that is received is pushed once. -/
theorem pushed_of_run {rs : List Received}
    (hrun : Run (Steps.total Trace.step) (start slots period) rs t) :
    t.pushed.map Prod.snd = rs.map Received.metadata := by
  induction hrun with
  | nil => rfl
  | @snoc rs t u r _ hstep ih =>
    obtain rfl : t.step r = u := hstep
    rw [Trace.step, List.map_append, List.map_append, ih]
    rfl

/-- The ring that `std_delay_filter` makes has at least two entries. -/
theorem two_le_of_slotsNumber {config : DetectorConfig} (h : slotsNumber config = .ok slots) :
    2 ≤ slots - 998 := by
  have := le_slotsNumber h
  omega

/-- **The delay filter keeps the order and holds back a bounded number.** In every run: what was
sent is the beginning of what was received, at most `slots - 999` messages are held back after a
turn, and whatever the next turn sends, it sends in time. -/
theorem delayed_in_order {rs : List Received} (hS : 2 ≤ slots - 998)
    (hrun : Run (Steps.total Trace.step) (start slots period) rs t) :
    t.sent <+: rs.map Received.metadata ∧ rs.length - t.sent.length ≤ slots - 999 ∧
      ∀ r m, t.released r = some m → InTime slots period t r m := by
  have h := buffered_of_run hS hrun
  have hpushed := pushed_of_run hrun
  have hlength : t.pushed.length = rs.length := by
    simpa using congrArg List.length hpushed
  refine ⟨?_, ?_, fun r m hm => inTime_of_released h hS hm⟩
  · rw [h.sent, ← hpushed]
    exact (List.take_prefix _ _).map _
  · have := h.room
    omega

/-- Two images at once, in a ring of two. -/
def burst : List Received := [⟨{ imageId := 5 }, 0, 1⟩, ⟨{ imageId := 6 }, 2, 3⟩]

/-- The ring for a small image is the smallest one. -/
theorem slotsNumber_small :
    slotsNumber { detectorType := .pco, nModules := 1, bitDepth := 8, imagePixelHeight := 2,
                  imagePixelWidth := 1 } = .ok 1000 := rfl

theorem delayed_in_order_burst :
    ∃ t, Run (Steps.total Trace.step) (start 1000 10) burst t ∧
      t.sent = [{ imageId := 5 }] ∧ t.sent <+: burst.map Received.metadata ∧
      InTime 1000 10 t ⟨{ imageId := 7 }, 4, 5⟩ { imageId := 6 } := by
  have hrun : Run (Steps.total Trace.step) (start 1000 10) burst
      (burst.foldl Trace.step (start 1000 10)) := run_total_iff.mpr rfl
  obtain ⟨hsent, -, hreleased⟩ := delayed_in_order (two_le_of_slotsNumber slotsNumber_small) hrun
  exact ⟨_, hrun, rfl, hsent, hreleased _ _ rfl⟩

end DelayFilter

end StdDaq
