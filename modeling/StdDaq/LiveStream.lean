import Mathlib.Data.List.Induction
import StdDaq.DetectorConfig
import StdDaq.Lib.Bursts

/-!
# The live stream

`std_live_stream` shows the images of a detector to whoever listens, and it can be told to show only
some of them: `Y` images every `N` images, or `Y` images with the frequency `N`. The choice is made
by the predicate that `select_sending_condition` returns. It is a closure that changes the values it
has captured, and so it is a state here that is called with an image and returns its successor.

The periodic predicate counts the images of a burst within a condition that is cut short, and when
the burst is over it goes on to the test of the clock in the same call. It reads the clock only
there. Here every image comes with the reading that the clock would have, in nanoseconds.

The division of a second by the frequency is one of integers. A frequency that is zero as an `int`,
or a batch of every zero images, is a division by zero in the source, and nothing is said about it.

## Main definitions

* `selectSendingCondition`, `SendingCondition.call` — the predicate
* `SendingCondition.answers` — what it answers for a sequence of images

## Main results

* `periodic_bursts` — a periodic live stream sends bursts
-/

namespace StdDaq

namespace LiveStream

/-- `live_stream_config::Type`. -/
inductive StreamType where
  | forward
  | periodic
  | batch
  deriving DecidableEq, Repr

/-- `utils::live_stream_config`. -/
structure LiveStreamConfig where
  type : StreamType
  first : ℕ
  second : ℕ
  deriving DecidableEq, Repr

/-- The predicates, with the values that they have captured. -/
inductive SendingCondition where
  /-- All images. -/
  | always
  /-- The first images of every so many. -/
  | batch (first second : ℕ)
  /-- Bursts of images. -/
  | periodic (first : ℕ) (dataPeriod nextTime : ℤ) (count : ℕ)
  deriving DecidableEq, Repr

/-- `data_period` in milliseconds. -/
def dataPeriodMs (second : ℕ) : ℤ := Int.tdiv 1000 (toInt second)

/-- A number of milliseconds on the clock. -/
def milliseconds (n : ℤ) : ℤ := n * 1000000

/-- `select_sending_condition`, at a reading of the clock. -/
def selectSendingCondition (conf : LiveStreamConfig) (now : ℤ) : SendingCondition :=
  match conf.type with
  | .periodic =>
    let dataPeriod := milliseconds (dataPeriodMs conf.second)
    .periodic conf.first dataPeriod (now + dataPeriod) 0
  | .batch => .batch conf.first conf.second
  | .forward => .always

namespace SendingCondition

/-- The answer for the image `id`, and the predicate afterwards. -/
def call (c : SendingCondition) (id : ℕ) (now : ℤ) : Bool × SendingCondition :=
  match c with
  | .always => (true, .always)
  | .batch first second => (decide (id % second < first), .batch first second)
  | .periodic first dataPeriod nextTime count =>
    -- the count goes up whenever it is not zero, and is set again unless the answer is here
    if 0 < count ∧ count < first then
      (true, .periodic first dataPeriod nextTime ((count + 1) % 2 ^ 32))
    else if nextTime < now then (true, .periodic first dataPeriod (now + dataPeriod) 1)
    else (false, .periodic first dataPeriod nextTime 0)

/-- The predicate after a sequence of images with their readings of the clock. -/
def after (c : SendingCondition) (images : List (ℕ × ℤ)) : SendingCondition :=
  images.foldl (fun c image => (c.call image.1 image.2).2) c

/-- The answers for a sequence of images. -/
def answers (c : SendingCondition) (images : List (ℕ × ℤ)) : List Bool :=
  match images with
  | [] => []
  | image :: images => (c.call image.1 image.2).1 :: (c.call image.1 image.2).2.answers images

/-- The captured `next_time`. -/
def nextTime? (c : SendingCondition) : Option ℤ :=
  match c with
  | .periodic _ _ nextTime _ => some nextTime
  | _ => none

theorem after_concat (c : SendingCondition) (images : List (ℕ × ℤ)) (image : ℕ × ℤ) :
    c.after (images ++ [image]) = ((c.after images).call image.1 image.2).2 := by
  rw [after, List.foldl_append]
  rfl

theorem answers_concat (c : SendingCondition) (images : List (ℕ × ℤ)) (image : ℕ × ℤ) :
    c.answers (images ++ [image])
      = c.answers images ++ [((c.after images).call image.1 image.2).1] := by
  induction images generalizing c with
  | nil => rfl
  | cons first images ih => exact congrArg _ (ih _)

end SendingCondition

/-! ### Periodic sending -/

section Periodic

variable {burst count : ℕ} {gap nextTime now : ℤ}

open SendingCondition

/-- Within a burst. -/
theorem call_within (gap nextTime : ℤ) (id : ℕ) (now : ℤ) (hpos : 0 < count) (hlt : count < burst)
    (hword : burst < 2 ^ 32) :
    (periodic burst gap nextTime count).call id now
      = (true, periodic burst gap nextTime (count + 1)) := by
  rw [call, if_pos ⟨hpos, hlt⟩, Nat.mod_eq_of_lt (by omega)]

/-- Between two bursts, or at the end of one, when the time has come. -/
theorem call_due (gap : ℤ) (id : ℕ) (hover : count = 0 ∨ burst ≤ count) (hdue : nextTime < now) :
    (periodic burst gap nextTime count).call id now
      = (true, periodic burst gap (now + gap) 1) := by
  rw [call, if_neg (by omega), if_pos hdue]

/-- And when it has not. -/
theorem call_early (gap : ℤ) (id : ℕ) (hover : count = 0 ∨ burst ≤ count)
    (hearly : now ≤ nextTime) :
    (periodic burst gap nextTime count).call id now
      = (false, periodic burst gap nextTime 0) := by
  rw [call, if_neg (by omega), if_neg (by omega)]

/-- The images that are sent come in bursts, and each burst starts as soon as its time has come. -/
structure SendsBursts (burst : ℕ) (gap : ℤ) (c : SendingCondition) (images : List (ℕ × ℤ))
    (starts : List ℕ) : Prop where
  /-- The bursts have `burst` images each, unless the images end, and start more than `gap`
  apart. -/
  bursts : Bursts burst gap (images.map Prod.snd) (c.answers images) starts
  /-- A burst starts at a reading past `next_time`. -/
  due : ∀ s ∈ starts, ∃ reading nextTime, (images.map Prod.snd)[s]? = some reading ∧
    (c.after (images.take s)).nextTime? = some nextTime ∧ nextTime < reading
  /-- An image is left out only at a reading that is not. -/
  early : ∀ i, (c.answers images)[i]? = some false → ∃ reading nextTime,
    (images.map Prod.snd)[i]? = some reading ∧
      (c.after (images.take i)).nextTime? = some nextTime ∧ reading ≤ nextTime

namespace SendsBursts

variable {c : SendingCondition} {images : List (ℕ × ℤ)} {image : ℕ × ℤ} {starts : List ℕ}
  {p : ℤ → ℤ → Prop}

/-- What an image was answered at does not change when another one comes. -/
theorem reading_append {i : ℕ}
    (h : ∃ reading nextTime, (images.map Prod.snd)[i]? = some reading ∧
      (c.after (images.take i)).nextTime? = some nextTime ∧ p reading nextTime) :
    ∃ reading nextTime, ((images ++ [image]).map Prod.snd)[i]? = some reading ∧
      (c.after ((images ++ [image]).take i)).nextTime? = some nextTime ∧ p reading nextTime := by
  obtain ⟨reading, nextTime, hreading, hnext, hp⟩ := h
  have hlt : i < (images.map Prod.snd).length := (List.getElem?_eq_some_iff.mp hreading).1
  refine ⟨reading, nextTime, ?_, ?_, hp⟩
  · rw [List.map_append, List.getElem?_append_left hlt, hreading]
  · rw [List.length_map] at hlt
    rw [List.take_append_of_le_length hlt.le, hnext]

/-- The image that comes is answered at its reading. -/
theorem reading_last (hafter : (c.after images).nextTime? = some nextTime)
    (hp : p image.2 nextTime) :
    ∃ reading nextTime, ((images ++ [image]).map Prod.snd)[images.length]? = some reading ∧
      (c.after ((images ++ [image]).take images.length)).nextTime? = some nextTime ∧
        p reading nextTime := by
  refine ⟨image.2, nextTime, ?_, ?_, hp⟩
  · have hlen : (images.map Prod.snd).length = images.length := List.length_map _
    rw [List.map_append, ← hlen]
    exact List.getElem?_concat_length
  · rw [List.take_left, hafter]

end SendsBursts

/-- The counter and the time between two images, against the bursts so far. -/
structure Phase (burst : ℕ) (gap : ℤ) (readings : List ℤ) (starts : List ℕ) (nextTime : ℤ)
    (count : ℕ) : Prop where
  /-- The counter has counted the images of a burst that goes on. -/
  within : 0 < count → Bursts.Within burst starts readings.length count
  /-- It is zero between the bursts. -/
  finished : count = 0 → Bursts.Over burst starts readings.length
  /-- The next burst is to start later than all others. -/
  later : ∀ s ∈ starts, ∀ u, readings[s]? = some u → u + gap ≤ nextTime

section Steps

variable {c : SendingCondition} {images : List (ℕ × ℤ)} {image : ℕ × ℤ} {starts : List ℕ}

/-- The last phase gives the next one, and the images so far the next ones. -/
theorem early_concat (h : SendsBursts burst gap c images starts) (nextTime : ℤ) {answer : Bool}
    (hcall : ((c.after images).call image.1 image.2).1 = answer)
    (hanswer : answer = false → (c.after images).nextTime? = some nextTime ∧ image.2 ≤ nextTime)
    (i : ℕ) (hi : (c.answers (images ++ [image]))[i]? = some false) :
    ∃ reading nextTime, ((images ++ [image]).map Prod.snd)[i]? = some reading ∧
      (c.after ((images ++ [image]).take i)).nextTime? = some nextTime ∧ reading ≤ nextTime := by
  have hlen : (c.answers images).length = images.length := by
    rw [h.bursts.length_eq, List.length_map]
  rw [answers_concat, hcall] at hi
  rcases Nat.lt_or_ge i (c.answers images).length with hlt | hge
  · rw [List.getElem?_append_left hlt] at hi
    exact SendsBursts.reading_append (h.early i hi)
  · have hlast : i = (c.answers images).length := by
      have := (List.getElem?_eq_some_iff.mp hi).1
      rw [List.length_append, List.length_singleton] at this
      omega
    rw [hlast, List.getElem?_concat_length, Option.some.injEq] at hi
    obtain ⟨hnext, hle⟩ := hanswer hi
    rw [hlast, hlen]
    exact SendsBursts.reading_last hnext hle

/-- An image that starts no burst. -/
theorem SendsBursts.append (h : SendsBursts burst gap c images starts) (nextTime : ℤ)
    (answer : Bool)
    (hcall : ((c.after images).call image.1 image.2).1 = answer)
    (hanswer : answer = false → (c.after images).nextTime? = some nextTime ∧ image.2 ≤ nextTime)
    (hbursts : Bursts burst gap (images.map Prod.snd ++ [image.2]) (c.answers images ++ [answer])
      starts) : SendsBursts burst gap c (images ++ [image]) starts where
  bursts := by
    rw [answers_concat, hcall, List.map_append]
    exact hbursts
  due s hs := SendsBursts.reading_append (h.due s hs)
  early := early_concat h nextTime hcall hanswer

/-- An image that starts one. -/
theorem SendsBursts.start (h : SendsBursts burst gap c images starts)
    (hcall : ((c.after images).call image.1 image.2).1 = true)
    (hnext : (c.after images).nextTime? = some nextTime) (hdue : nextTime < image.2)
    (hbursts : Bursts burst gap (images.map Prod.snd ++ [image.2]) (c.answers images ++ [true])
      (starts ++ [images.length])) :
    SendsBursts burst gap c (images ++ [image]) (starts ++ [images.length]) where
  bursts := by
    rw [answers_concat, hcall, List.map_append]
    exact hbursts
  due s hs := by
    rcases List.mem_append.mp hs with hs | hs
    · exact SendsBursts.reading_append (h.due s hs)
    · rw [List.mem_singleton.mp hs]
      exact SendsBursts.reading_last hnext hdue
  early := early_concat h nextTime hcall fun hfalse => nomatch hfalse

end Steps

section Run

variable {c : SendingCondition} {images : List (ℕ × ℤ)} {starts : List ℕ} {readings : List ℤ}

/-- The times of the starts so far remain what they are when a reading is added. -/
theorem Phase.later_append (h : Phase burst gap readings starts nextTime count)
    (hlt : ∀ s ∈ starts, s < readings.length) (reading : ℤ) :
    ∀ s ∈ starts, ∀ u, (readings ++ [reading])[s]? = some u → u + gap ≤ nextTime := by
  intro s hs u hu
  rw [List.getElem?_append_left (hlt s hs)] at hu
  exact h.later s hs u hu

/-- The predicate has counted the bursts that were sent so far. -/
structure Counting (burst : ℕ) (gap : ℤ) (c : SendingCondition) (images : List (ℕ × ℤ))
    (starts : List ℕ) (nextTime : ℤ) (count : ℕ) : Prop where
  /-- Where the predicate is. -/
  after : c.after images = periodic burst gap nextTime count
  /-- The images that were sent are bursts. -/
  sends : SendsBursts burst gap c images starts
  /-- The counter and the time belong to them. -/
  phase : Phase burst gap (images.map Prod.snd) starts nextTime count

namespace Counting

variable {image : ℕ × ℤ}

theorem nextTime? (h : Counting burst gap c images starts nextTime count) :
    (c.after images).nextTime? = some nextTime := by
  rw [h.after]
  rfl

theorem length_concat (images : List (ℕ × ℤ)) (image : ℕ × ℤ) :
    ((images ++ [image]).map Prod.snd).length = (images.map Prod.snd).length + 1 := by
  rw [List.map_append, List.length_append]
  rfl

/-- The times that the phase is about, with one more reading. -/
theorem later (h : Counting burst gap c images starts nextTime count) (image : ℕ × ℤ) :
    ∀ s ∈ starts, ∀ u, ((images ++ [image]).map Prod.snd)[s]? = some u → u + gap ≤ nextTime := by
  rw [List.map_append]
  exact h.phase.later_append h.sends.bursts.start_lt _

/-- A counter that is zero or full stands for no burst that goes on. -/
theorem isOver (h : Counting burst gap c images starts nextTime count)
    (hover : count = 0 ∨ burst ≤ count) :
    Bursts.Over burst starts (images.map Prod.snd).length := by
  rcases Nat.eq_zero_or_pos count with h0 | hcount
  · exact h.phase.finished h0
  · -- the burst has had all its images
    have hlast := h.phase.within hcount
    have hall : count = burst := Nat.le_antisymm hlast.le (by omega)
    rw [hall] at hlast
    exact hlast.finished

/-- The burst goes on. -/
theorem goOn (h : Counting burst gap c images starts nextTime count) (hpos : 0 < count)
    (hlt : count < burst) (hword : burst < 2 ^ 32) (image : ℕ × ℤ) :
    Counting burst gap c (images ++ [image]) starts nextTime (count + 1) := by
  have hcall := call_within gap nextTime image.1 image.2 hpos hlt hword
  have hwithin := h.phase.within hpos
  refine ⟨?_, ?_, ⟨fun _ => ?_, fun h0 => absurd h0 (Nat.succ_ne_zero _), h.later image⟩⟩
  · rw [after_concat, h.after, hcall]
  · refine h.sends.append nextTime true ?_ (fun hfalse => nomatch hfalse)
      (h.sends.bursts.go_on hwithin hlt _)
    rw [h.after, hcall]
  · rw [length_concat]
    exact hwithin.succ hlt

/-- A burst starts. -/
theorem start (h : Counting burst gap c images starts nextTime count) (hpos : 0 < burst)
    (hover : count = 0 ∨ burst ≤ count) (hgap : 0 ≤ gap) (hdue : nextTime < image.2) :
    Counting burst gap c (images ++ [image]) (starts ++ [images.length]) (image.2 + gap) 1 := by
  have hcall := call_due gap image.1 hover hdue
  have hisOver := h.isOver hover
  have hbursts := h.sends.bursts.start hpos hisOver (t := image.2) fun s hs u hu =>
    (h.phase.later s hs u hu).trans_lt hdue
  rw [List.length_map] at hbursts hisOver
  refine ⟨?_, ?_, ⟨fun _ => ?_, fun h0 => absurd h0 Nat.one_ne_zero, fun s hs u hu => ?_⟩⟩
  · rw [after_concat, h.after, hcall]
  · refine h.sends.start ?_ h.nextTime? hdue hbursts
    rw [h.after, hcall]
  · rw [length_concat, List.length_map]
    exact hisOver.start hpos
  · rcases List.mem_append.mp hs with hs | hs
    · have := h.later image s hs u hu
      omega
    · have hcount : (images.map Prod.snd).length = images.length := List.length_map _
      rw [List.mem_singleton.mp hs, ← hcount, List.map_append] at hu
      have hu' : some image.2 = some u := List.getElem?_concat_length.symm.trans hu
      cases hu'
      exact le_refl _

/-- No burst goes on and none starts. -/
theorem idle (h : Counting burst gap c images starts nextTime count)
    (hover : count = 0 ∨ burst ≤ count) (hearly : image.2 ≤ nextTime) :
    Counting burst gap c (images ++ [image]) starts nextTime 0 := by
  have hcall := call_early gap image.1 hover hearly
  have hisOver := h.isOver hover
  refine ⟨?_, ?_, ⟨fun h0 => absurd h0 (Nat.lt_irrefl 0), fun _ => ?_, h.later image⟩⟩
  · rw [after_concat, h.after, hcall]
  · refine h.sends.append nextTime false ?_ (fun _ => ⟨h.nextTime?, hearly⟩)
      (h.sends.bursts.idle hisOver _)
    rw [h.after, hcall]
  · rw [length_concat]
    exact hisOver.succ

end Counting

/-- **One image.** Whatever its reading is, the images remain in bursts and the counter counts
them. -/
theorem counting_step (hpos : 0 < burst) (hword : burst < 2 ^ 32) (hgap : 0 ≤ gap)
    (h : Counting burst gap c images starts nextTime count) (image : ℕ × ℤ) :
    ∃ starts' nextTime' count',
      Counting burst gap c (images ++ [image]) starts' nextTime' count' := by
  by_cases hwithin : 0 < count ∧ count < burst
  · exact ⟨_, _, _, h.goOn hwithin.1 hwithin.2 hword image⟩
  · have hover : count = 0 ∨ burst ≤ count := by omega
    by_cases hdue : nextTime < image.2
    · exact ⟨_, _, _, h.start hpos hover hgap hdue⟩
    · exact ⟨_, _, _, h.idle hover (Int.not_lt.mp hdue)⟩

/-- All images. -/
theorem counting_run (hpos : 0 < burst) (hword : burst < 2 ^ 32) (hgap : 0 ≤ gap) (first : ℤ)
    (images : List (ℕ × ℤ)) : ∃ starts nextTime count,
      Counting burst gap (periodic burst gap first 0) images starts nextTime count := by
  induction images using List.reverseRecOn with
  | nil =>
    refine ⟨[], first, 0, rfl, ⟨Bursts.nil burst gap, ?_, ?_⟩, ?_⟩
    · exact fun s hs => absurd hs List.not_mem_nil
    · exact fun i hi => nomatch hi
    · exact ⟨fun h0 => absurd h0 (Nat.lt_irrefl 0), fun _ s hs => absurd hs List.not_mem_nil,
        fun s hs => absurd hs List.not_mem_nil⟩
  | append_singleton images image ih =>
    obtain ⟨starts, nextTime, count, h⟩ := ih
    exact counting_step hpos hword hgap h image

end Run

end Periodic

/-- The division of a second by a frequency of at most one kilohertz. -/
theorem dataPeriodMs_eq {second : ℕ} (hle : second ≤ 1000) :
    dataPeriodMs second = 1000 / (second : ℤ) := by
  rw [dataPeriodMs, toInt_of_lt (by omega), Int.tdiv_eq_ediv_of_nonneg (by decide)]

/-- **A periodic live stream sends bursts of exactly `Y` images**, each as soon as the time has come
and more than `1000 ms / N` after the one before, whatever the images and the readings of the clock
are. -/
theorem periodic_bursts (conf : LiveStreamConfig) (htype : conf.type = .periodic)
    (hfirst : 1 ≤ conf.first) (hword : conf.first < 2 ^ 32) (hsecond : 1 ≤ conf.second)
    (hle : conf.second ≤ 1000) (now : ℤ) (images : List (ℕ × ℤ)) :
    ∃ starts, SendsBursts conf.first (milliseconds (1000 / (conf.second : ℤ)))
      (selectSendingCondition conf now) images starts := by
  have hperiod : 0 ≤ milliseconds (1000 / (conf.second : ℤ)) := by
    have hpos : 0 < (conf.second : ℤ) := by omega
    have hdiv : 0 ≤ 1000 / (conf.second : ℤ) := Int.ediv_nonneg (by decide) hpos.le
    rw [milliseconds]
    omega
  have hcond : selectSendingCondition conf now = .periodic conf.first
      (milliseconds (1000 / (conf.second : ℤ)))
      (now + milliseconds (1000 / (conf.second : ℤ))) 0 := by
    rw [selectSendingCondition, htype, ← dataPeriodMs_eq hle]
  obtain ⟨starts, _, _, hcounting⟩ := counting_run hfirst hword hperiod
    (now + milliseconds (1000 / (conf.second : ℤ))) images
  exact ⟨starts, hcond ▸ hcounting.sends⟩

/-- Two images with 5 Hz: a burst that follows the one before without a break. -/
theorem periodic_bursts_five_hertz : ∃ starts, SendsBursts 2 (milliseconds (1000 / 5))
    (selectSendingCondition { type := .periodic, first := 2, second := 5 } 0)
    [(1, 200000001), (2, 300000000), (3, 400000002), (4, 400000003), (5, 400000004)] starts :=
  periodic_bursts ⟨.periodic, 2, 5⟩ rfl (by decide) (by decide) (by decide) (by decide) 0 _

end LiveStream

end StdDaq
