import StdDaq.Replayer.Replayer

/-!
# The hand-shake of the two threads

`control_reader` asks for the next image when `last_sent_id` has reached the one that was
acknowledged. For this to mean that the image has been handled, `last_sent_id` has to be smaller
before, and `forward_images` has to store it. Neither is checked. `last_sent_id` begins with 0 and
keeps its value from one replay to the next, so that an earlier range is not waited for at all; and
an image beyond the end of the range is never stored, so that it is waited for without end.

The notification can get lost as well: `forward_images` does not hold the mutex when it stores and
notifies, and does so unheard between the look at the predicate and the sleep.

## Main results

* `hand_shake` — when the ids go up and stay in the range, the wait is for the image
-/

namespace StdDaq

namespace Replayer

variable {t u v : Process} {k : ℕ} {r r' : Replay} {earlier : List Replay}

/-- The image that `control_reader` waits for. -/
def Replay.waitsFor (r : Replay) : Option ℕ :=
  match r.control with
  | .look waitForId _ | .sleep waitForId _ | .asleep waitForId _ => some waitForId
  | _ => none

/-- `control_reader` has found the predicate false. -/
def Replay.isDozing (r : Replay) : Bool := r.isFallingAsleep || r.isAsleep

/-- What the wait is meant to achieve: its predicate is true exactly when `forward_images` has
processed the image in the same replay, and once it has, `control_reader` does not sleep without a
notification that is still to come. -/
def HandShake (t : Process) : Prop :=
  ∀ (k : ℕ) (r : Replay), t.replays[k]? = some r → ∀ w, r.waitsFor = some w →
    (w ≤ t.lastSentId ↔ w ∈ r.processed) ∧
      (r.isDozing = true → w ∈ r.processed → ∃ nImages, r.forward = .notify nImages)

/-- The step keeps the threads in step. An image that is acknowledged is positive, larger than every
image that has been pushed so far or is on its way, and in the range of the replay; a replay is
started when the threads of all earlier ones have returned; and no notification comes between a look
at the predicate and the sleep. -/
def InStep (t : Process) : Event → Prop
  | .read (some id) _ => 0 < id ∧ (∀ r ∈ t.replays, ∀ i ∈ r.pushed, i < id) ∧
      (∀ i ∈ t.published, i < id) ∧ ∀ r ∈ t.replays.getLast?, r.settings.reaches id = true
  | .start => ∀ r ∈ t.replays, r.Returned
  | .notify _ _ => ∀ r ∈ t.replays, r.isFallingAsleep = false
  | .read none _ | .connect | .request _ | .stop | .control _ | .forward _ | .timeout _ | .observe _
  | .reset _ => True

instance (t : Process) (e : Event) : Decidable (InStep t e) :=
  match e with
  | .read (some id) _ => inferInstanceAs (Decidable (0 < id ∧
      (∀ r ∈ t.replays, ∀ i ∈ r.pushed, i < id) ∧ (∀ i ∈ t.published, i < id) ∧
        ∀ r ∈ t.replays.getLast?, r.settings.reaches id = true))
  | .start => inferInstanceAs (Decidable (∀ r ∈ t.replays, r.Returned))
  | .notify _ _ => inferInstanceAs (Decidable (∀ r ∈ t.replays, r.isFallingAsleep = false))
  | .read none _ | .connect | .request _ | .stop | .control _ | .forward _ | .timeout _ | .observe _
  | .reset _ => inferInstanceAs (Decidable True)

/-- The steps of such a run. -/
def InStepStep : Process → Event → Process → Prop :=
  Restrict InStep (Steps.guarded Process.step)

/-- What holds of the last replay. An acknowledged image is larger than everything that is on its
way before it. -/
structure LastInStep (t : Process) (r : Replay) : Prop where
  quiet : (∀ imageId, r.control ≠ .receive imageId) → t.request = none ∧ t.response = none
  one : t.request = none ∨ t.response = none
  answered : ∀ w, (t.response = some (.ack w) ∨ r.waitsFor = some w) →
    r.settings.reaches w = true ∧ (w ≤ t.lastSentId ↔ w ∈ r.processed) ∧ ∀ i ∈ t.published, i ≤ w
  dozing : ∀ w, r.waitsFor = some w → r.isDozing = true → w ∈ r.processed →
    ∃ nImages, r.forward = .notify nImages

/-- What holds of the queue: it goes up, and `last_sent_id` is behind it. -/
structure QueueInStep (t : Process) : Prop where
  sent : t.lastSentId = 0 ∨ ∃ r ∈ t.replays, t.lastSentId ∈ r.pushed
  queue : t.published.Pairwise (· < ·)
  ahead : ∀ i ∈ t.published, t.lastSentId < i
  pushed : ∀ r ∈ t.replays, ∀ i ∈ r.processed, r.settings.reaches i = true → i ∈ r.pushed

/-- The invariant: only the last replay is at work. -/
structure AllInStep (t : Process) : Prop where
  queue : QueueInStep t
  replays : t.replays = [] ∧ t.request = none ∧ t.response = none ∨
    ∃ earlier r, t.replays = earlier ++ [r] ∧ (∀ s ∈ earlier, s.Returned) ∧ LastInStep t r

theorem allInStep_start : AllInStep {} where
  queue := ⟨.inl rfl, .nil, by simp, by simp⟩
  replays := .inl ⟨rfl, rfl, rfl⟩

/-- A thread that has not returned is of the last replay. -/
theorem eq_last (hall : ∀ s ∈ earlier, s.Returned) (hk : (earlier ++ [r])[k]? = some r')
    (halive : ¬ r'.Returned) : k = earlier.length ∧ r' = r := by
  rcases getElem?_concat_eq_some hk with hk | hlast
  · exact absurd (hall r' (List.mem_of_getElem? hk)) halive
  · exact hlast

theorem set_concat (earlier : List Replay) (r r' : Replay) :
    (earlier ++ [r]).set earlier.length r' = earlier ++ [r'] := by
  rw [List.set_append_right _ _ (Nat.le_refl _), Nat.sub_self, List.set_cons_zero]

/-- The replay of a thread that takes a step is the last one. -/
theorem AllInStep.of_alive (h : AllInStep t) (hr : t.replays[k]? = some r) (halive : ¬ r.Returned) :
    ∃ earlier, t.replays = earlier ++ [r] ∧ k = earlier.length ∧ (∀ s ∈ earlier, s.Returned) ∧
      LastInStep t r := by
  rcases h.replays with ⟨hnil, -⟩ | ⟨earlier, last, hreplays, hall, hlast⟩
  · rw [hnil] at hr
    cases hr
  · rw [hreplays] at hr
    obtain ⟨rfl, rfl⟩ := eq_last hall hr halive
    exact ⟨earlier, hreplays, rfl, hall, hlast⟩

/-! ### The steps -/

/-- Nothing is asked of a replay that neither receives nor waits. -/
theorem LastInStep.of_quiet (hrequest : t.request = none) (hresponse : t.response = none)
    (hwaits : r.waitsFor = none) : LastInStep t r where
  quiet _ := ⟨hrequest, hresponse⟩
  one := .inl hrequest
  answered := by simp [hresponse, hwaits]
  dozing := by simp [hwaits]

theorem LastInStep.control (h : LastInStep t r) {pc : ControlPc}
    (hcontrol : Process.ControlStep r.settings t r.control v pc) :
    LastInStep v { r with control := pc } := by
  obtain ⟨settings, pc₀, forward, processed, pushed⟩ := r
  cases hcontrol with
  | ask hreaches hstate =>
    obtain ⟨hrequest, hresponse⟩ := h.quiet (by simp)
    rw [Process.send, if_pos (by simp [hrequest, hresponse])]
    exact ⟨fun hquiet => absurd rfl (hquiet _), .inr hresponse,
      by simp [hresponse, Replay.waitsFor], by simp [Replay.waitsFor]⟩
  | leave hleave =>
    obtain ⟨hrequest, hresponse⟩ := h.quiet (by simp)
    exact .of_quiet hrequest hresponse rfl
  | @ack imageId id hresponse =>
    have hrequest : t.request = none := h.one.resolve_right (by simp [hresponse])
    refine ⟨fun _ => ⟨hrequest, rfl⟩, .inl hrequest, fun w hw => ?_, fun w _ hdozing => ?_⟩
    · obtain rfl : id = w := by simpa [Replay.waitsFor] using hw
      exact h.answered id (.inl hresponse)
    · cases hdozing
  | noImage hresponse =>
    exact .of_quiet (h.one.resolve_right (by simp [hresponse])) rfl rfl
  | retry hresponse hrequest => exact .of_quiet hrequest hresponse rfl
  | pass hsent =>
    obtain ⟨hrequest, hresponse⟩ := h.quiet (by simp)
    exact .of_quiet hrequest hresponse rfl
  | @wait waitForId imageId hsent =>
    refine ⟨fun _ => h.quiet (by simp), h.one, h.answered, fun w hw _ hprocessed => ?_⟩
    -- the image is not sent, so it has not been processed
    obtain rfl : waitForId = w := Option.some.inj hw
    have := (h.answered waitForId (.inr rfl)).2.1.mpr hprocessed
    omega
  | sleep => exact ⟨fun _ => h.quiet (by simp), h.one, h.answered, h.dozing⟩
  | finish =>
    obtain ⟨hrequest, hresponse⟩ := h.quiet (by simp)
    exact .of_quiet hrequest hresponse rfl

/-- What `forward_images` receives is the oldest image on its way. -/
theorem LastInStep.forward (h : LastInStep t r) (hqueue : QueueInStep t)
    (hforward : Process.ForwardStep t r v r') : LastInStep v r' := by
  cases hforward with
  | again hpc | leave hpc | finish hpc =>
    refine ⟨h.quiet, h.one, h.answered, fun w hw hdozing hprocessed => ?_⟩
    obtain ⟨nImages, hnotify⟩ := h.dozing w hw hdozing hprocessed
    cases hpc.symm.trans hnotify
  | @push nImages id rest hpc hpublished hreaches =>
    refine ⟨h.quiet, h.one, fun w hw => ?_, fun _ _ _ _ => ⟨_, rfl⟩⟩
    obtain ⟨hw, hiff, hbehind⟩ := h.answered w hw
    have hle : id ≤ w := hbehind id (by simp [hpublished])
    have hlt : t.lastSentId < id := hqueue.ahead id (by simp [hpublished])
    refine ⟨hw, ?_, fun i hi => hbehind i (by simp [hpublished, hi])⟩
    simp only [List.mem_append, List.mem_singleton]
    constructor
    · intro hsent
      exact .inr (Nat.le_antisymm hsent hle)
    · rintro (hprocessed | rfl)
      · have := hiff.mpr hprocessed
        omega
      · exact Nat.le_refl _
  | @skip nImages id rest hpc hpublished hreaches =>
    refine ⟨h.quiet, h.one, fun w hw => ?_, fun _ _ _ _ => ⟨_, rfl⟩⟩
    obtain ⟨hin, hiff, hbehind⟩ := h.answered w hw
    have hne : w ≠ id := by
      rintro rfl
      rw [hreaches] at hin
      cases hin
    refine ⟨hin, ?_, fun i hi => hbehind i (by simp [hpublished, hi])⟩
    simp [hiff, hne]

/-- The queue is about what has been processed and pushed. -/
theorem QueueInStep.replace (h : QueueInStep t) (hreplays : t.replays = earlier ++ [r])
    (hreplays' : u.replays = earlier ++ [r']) (hsettings : r'.settings = r.settings)
    (hprocessed : r'.processed = r.processed) (hpushed : r'.pushed = r.pushed)
    (hpublished : u.published = t.published) (hsent : u.lastSentId = t.lastSentId) :
    QueueInStep u := by
  refine ⟨?_, hpublished ▸ h.queue, ?_, ?_⟩
  · have := h.sent
    simp only [hreplays, hreplays', hsent, List.mem_append, List.mem_singleton, or_and_right,
      exists_or, exists_eq_left, hpushed] at this ⊢
    exact this
  · rw [hpublished, hsent]
    exact h.ahead
  · have := h.pushed
    simp only [hreplays, hreplays', List.forall_mem_append, List.forall_mem_singleton, hsettings,
      hprocessed, hpushed] at this ⊢
    exact this

/-- Receiving an image takes the first one from the queue. -/
theorem QueueInStep.forward (h : QueueInStep t) (hreplays : t.replays = earlier ++ [r])
    (hforward : Process.ForwardStep t r v r') :
    QueueInStep { v with replays := earlier ++ [r'] } := by
  have hprocessed := h.pushed
  rw [hreplays, List.forall_mem_append, List.forall_mem_singleton] at hprocessed
  cases hforward with
  | again | leave | finish => exact h.replace hreplays rfl rfl rfl rfl rfl rfl
  | @push nImages id rest hpc hpublished hreaches =>
    have hqueue := h.queue
    rw [hpublished, List.pairwise_cons] at hqueue
    refine ⟨.inr ⟨_, List.mem_append_right _ (List.mem_singleton.mpr rfl), by simp⟩, hqueue.2,
      hqueue.1, ?_⟩
    refine List.forall_mem_append.mpr ⟨hprocessed.1, List.forall_mem_singleton.mpr ?_⟩
    intro i hi hin
    rcases List.mem_append.mp hi with hi | hi
    · exact List.mem_append_left _ (hprocessed.2 i hi hin)
    · exact List.mem_append_right _ hi
  | @skip nImages id rest hpc hpublished hreaches =>
    have hqueue := h.queue
    rw [hpublished, List.pairwise_cons] at hqueue
    have hsent := h.sent
    simp only [hreplays, List.mem_append, List.mem_singleton, or_and_right, exists_or,
      exists_eq_left] at hsent
    refine ⟨?_, hqueue.2, fun i hi => h.ahead i (by simp [hpublished, hi]), ?_⟩
    · simpa only [List.mem_append, List.mem_singleton, or_and_right, exists_or,
        exists_eq_left] using hsent
    · refine List.forall_mem_append.mpr ⟨hprocessed.1, List.forall_mem_singleton.mpr ?_⟩
      intro i hi hin
      rcases List.mem_append.mp hi with hi | hi
      · exact hprocessed.2 i hi hin
      · rw [List.mem_singleton.mp hi, hreaches] at hin
        cases hin

theorem AllInStep.control (h : AllInStep t) (hstep : t.step (.control k) = some u) :
    AllInStep u := by
  obtain ⟨r, v, pc, hr, hcontrol, rfl⟩ := Process.step_control_iff.mp hstep
  obtain ⟨earlier, hreplays, rfl, hall, hlast⟩ :=
    h.of_alive hr fun hret => hcontrol.not_returned hret.1
  rw [hreplays, set_concat]
  have hlast' := hlast.control hcontrol
  refine ⟨h.queue.replace hreplays rfl rfl rfl rfl hcontrol.published hcontrol.lastSentId,
    .inr ⟨earlier, _, rfl, hall, hlast'.quiet, hlast'.one, hlast'.answered, hlast'.dozing⟩⟩

theorem AllInStep.forward (h : AllInStep t) (hstep : t.step (.forward k) = some u) :
    AllInStep u := by
  obtain ⟨r, v, r', hr, hforward, rfl⟩ := Process.step_forward_iff.mp hstep
  obtain ⟨earlier, hreplays, rfl, hall, hlast⟩ :=
    h.of_alive hr fun hret => hforward.not_returned hret.2
  rw [hreplays, set_concat]
  have hlast' := hlast.forward h.queue hforward
  exact ⟨h.queue.forward hreplays hforward,
    .inr ⟨earlier, _, rfl, hall, hlast'.quiet, hlast'.one, hlast'.answered, hlast'.dozing⟩⟩

/-- A time-out handles nothing, and there is no notification that was to come. -/
theorem LastInStep.timeout (h : LastInStep t r) {nImages : ℕ} (hpc : r.forward = .receive nImages) :
    LastInStep t { r with forward := .test nImages } := by
  refine ⟨h.quiet, h.one, h.answered, fun w hw hdozing hprocessed => ?_⟩
  obtain ⟨n, hnotify⟩ := h.dozing w hw hdozing hprocessed
  cases hpc.symm.trans hnotify

theorem AllInStep.timeout (h : AllInStep t) (hstep : t.step (.timeout k) = some u) :
    AllInStep u := by
  obtain ⟨r, nImages, hr, hpc, rfl⟩ := Process.step_timeout_iff.mp hstep
  obtain ⟨earlier, hreplays, rfl, hall, hlast⟩ :=
    h.of_alive hr fun hret => nomatch hpc.symm.trans hret.2
  rw [hreplays, set_concat]
  have hlast' := hlast.timeout hpc
  exact ⟨h.queue.replace hreplays rfl rfl rfl rfl rfl rfl,
    .inr ⟨earlier, _, rfl, hall, hlast'.quiet, hlast'.one, hlast'.answered, hlast'.dozing⟩⟩

theorem AllInStep.notify (h : AllInStep t) {woken : Option ℕ}
    (hin : InStep t (.notify k woken)) (hstep : t.step (.notify k woken) = some u) :
    AllInStep u := by
  obtain ⟨r, nImages, replays, hr, hpc, hnotify, rfl⟩ := Process.step_notify hstep
  obtain ⟨earlier, hreplays, rfl, hall, hlast⟩ :=
    h.of_alive hr fun hret => by cases hpc.symm.trans hret.2
  rw [hreplays, set_concat] at hnotify
  rcases Process.notifyOne_eq_some hnotify with ⟨hnone, rfl⟩ | ⟨j, s, hs, hasleep, rfl⟩
  · refine ⟨h.queue.replace hreplays rfl rfl rfl rfl rfl rfl, .inr ⟨earlier, _, rfl, hall,
      hlast.quiet, hlast.one, hlast.answered, fun w hw hdozing _ => ?_⟩⟩
    -- nobody sleeps, and nobody is about to
    exfalso
    obtain ⟨settings, pc, forward, processed, pushed⟩ := r
    cases pc with
    | sleep waitForId imageId =>
      cases hin _ (hreplays ▸ List.mem_append_right _ (List.mem_singleton.mpr rfl))
    | asleep waitForId imageId => simp [Replay.isAsleep] at hnone
    | test | receive | look | finish | returned => cases hdozing
  · obtain ⟨waitForId, imageId, hcontrol⟩ := Replay.isAsleep_iff.mp hasleep
    obtain ⟨rfl, rfl⟩ := eq_last hall hs fun hret => by cases hcontrol.symm.trans hret.1
    obtain ⟨settings, pc, forward, processed, pushed⟩ := r
    obtain rfl : pc = .asleep waitForId imageId := hcontrol
    rw [set_concat]
    refine ⟨h.queue.replace hreplays rfl rfl rfl rfl rfl rfl, .inr ⟨earlier, _, rfl, hall,
      fun _ => hlast.quiet (by simp), hlast.one, hlast.answered, fun w _ hdozing => ?_⟩⟩
    cases hdozing

theorem AllInStep.read (h : AllInStep t) {answer : Option ℕ} {delivered : Bool}
    (hin : InStep t (.read answer delivered)) (hstep : t.step (.read answer delivered) = some u) :
    AllInStep u := by
  obtain ⟨hrequest, rfl⟩ := Process.step_read hstep
  rcases h.replays with ⟨-, hnone, -⟩ | ⟨earlier, r, hreplays, hall, hlast⟩
  · rw [hnone] at hrequest
    cases hrequest
  obtain ⟨imageId, hreceive⟩ : ∃ imageId, r.control = .receive imageId := by
    by_contra hquiet
    rw [(hlast.quiet (not_exists.mp hquiet)).1] at hrequest
    cases hrequest
  have hwaits : r.waitsFor = none := by rw [Replay.waitsFor, hreceive]
  cases answer with
  | none =>
    refine ⟨⟨h.queue.sent, h.queue.queue, h.queue.ahead, h.queue.pushed⟩,
      .inr ⟨earlier, r, hreplays, hall, ?_⟩⟩
    exact ⟨fun hquiet => absurd hreceive (hquiet imageId), .inl rfl,
      by simp [hwaits, Process.answer], by simp [hwaits]⟩
  | some id =>
    obtain ⟨hpos, hpushed, hpublished, hreaches⟩ := hin
    have hreaches : r.settings.reaches id = true := hreaches r (by simp [hreplays])
    have hmem : r ∈ t.replays := by simp [hreplays]
    have hsent : t.lastSentId < id := by
      rcases h.queue.sent with hzero | ⟨s, hs, hin⟩
      · omega
      · exact hpushed s hs _ hin
    have hnew : id ∉ r.processed := by
      intro hprocessed
      have := hpushed r hmem id (h.queue.pushed r hmem id hprocessed hreaches)
      omega
    have hmemPublished : ∀ i ∈ (t.answer (some id) delivered).published,
        i ∈ t.published ∨ i = id := by
      intro i hi
      cases delivered with
      | false => exact .inl hi
      | true => simpa [Process.answer] using hi
    refine ⟨⟨h.queue.sent, ?_, fun i hi => ?_, h.queue.pushed⟩,
      .inr ⟨earlier, r, hreplays, hall, ?_⟩⟩
    · cases delivered with
      | false => exact h.queue.queue
      | true =>
        refine List.pairwise_append.mpr ⟨h.queue.queue, List.pairwise_singleton _ _, ?_⟩
        simpa using hpublished
    · rcases hmemPublished i hi with hi | rfl
      · exact h.queue.ahead i hi
      · exact hsent
    · refine ⟨fun hquiet => absurd hreceive (hquiet imageId), .inl rfl, fun w hw => ?_,
        by simp [hwaits]⟩
      obtain rfl : id = w := by simpa [Process.answer, hwaits] using hw
      refine ⟨hreaches, ⟨fun hle => ?_, fun hprocessed => absurd hprocessed hnew⟩, fun i hi => ?_⟩
      · have hle : id ≤ t.lastSentId := hle
        omega
      · rcases hmemPublished i hi with hi | rfl
        · exact Nat.le_of_lt (hpublished i hi)
        · exact Nat.le_refl _

theorem AllInStep.start (h : AllInStep t) (hin : InStep t .start) (hstep : t.step .start = some u) :
    AllInStep u := by
  obtain ⟨settings, -, rfl⟩ := Process.step_start hstep
  have hquiet : t.request = none ∧ t.response = none := by
    rcases h.replays with ⟨-, hnone⟩ | ⟨earlier, r, hreplays, -, hlast⟩
    · exact hnone
    · refine hlast.quiet fun imageId hreceive => ?_
      have hreturned := hin r (by simp [hreplays])
      exact nomatch hreturned.1.symm.trans hreceive
  refine ⟨⟨?_, h.queue.queue, h.queue.ahead, ?_⟩,
    .inr ⟨t.replays, _, rfl, hin, .of_quiet hquiet.1 hquiet.2 rfl⟩⟩
  · rcases h.queue.sent with hzero | ⟨r, hr, hsent⟩
    · exact .inl hzero
    · exact .inr ⟨r, List.mem_append_left _ hr, hsent⟩
  · refine List.forall_mem_append.mpr ⟨h.queue.pushed, ?_⟩
    simp [Replay.fresh]

/-- Steps of the io thread and of the monitors are about the driver state. -/
theorem AllInStep.of_eq (h : AllInStep t) (hsent : u.lastSentId = t.lastSentId)
    (hrequest : u.request = t.request) (hresponse : u.response = t.response)
    (hpublished : u.published = t.published) (hreplays : u.replays = t.replays) : AllInStep u := by
  obtain ⟨⟨hsent', hqueue, hahead, hpushed⟩, hlast⟩ := h
  refine ⟨⟨?_, ?_, ?_, ?_⟩, ?_⟩
  · rwa [hsent, hreplays]
  · rwa [hpublished]
  · rwa [hsent, hpublished]
  · rwa [hreplays]
  · rw [hreplays, hrequest, hresponse]
    rcases hlast with hnone | ⟨earlier, r, heq, hall, ⟨hquiet, hone, hanswered, hdozing⟩⟩
    · exact .inl hnone
    · refine .inr ⟨earlier, r, heq, hall, ?_, ?_, ?_, hdozing⟩
      · rwa [hrequest, hresponse]
      · rwa [hrequest, hresponse]
      · rwa [hresponse, hsent, hpublished]

theorem AllInStep.step (h : AllInStep t) {e : Event} (hstep : InStepStep t e u) : AllInStep u := by
  obtain ⟨hin, hstep⟩ := hstep
  cases e with
  | connect =>
    obtain rfl := Option.some.inj hstep
    exact h.of_eq rfl rfl rfl rfl rfl
  | request cmd =>
    obtain ⟨-, rfl⟩ := Process.step_request hstep
    exact h.of_eq rfl rfl rfl rfl rfl
  | start => exact h.start hin hstep
  | stop =>
    obtain ⟨-, rfl⟩ := Process.step_stop hstep
    exact h.of_eq rfl rfl rfl rfl rfl
  | control k => exact h.control hstep
  | forward k => exact h.forward hstep
  | timeout k => exact h.timeout hstep
  | notify k woken => exact h.notify hin hstep
  | read answer delivered => exact h.read hin hstep
  | observe j =>
    rcases Process.step_observe hstep with rfl | ⟨-, rfl⟩
    · exact h
    · exact h.of_eq rfl rfl rfl rfl rfl
  | reset j =>
    obtain ⟨-, rfl⟩ := Process.step_reset hstep
    exact h.of_eq rfl rfl rfl rfl rfl

theorem AllInStep.handShake (h : AllInStep t) : HandShake t := by
  intro k r hr w hw
  have halive : ¬ r.Returned := by
    rintro ⟨hreturned, -⟩
    rw [Replay.waitsFor, hreturned] at hw
    cases hw
  obtain ⟨earlier, -, -, -, hlast⟩ := h.of_alive hr halive
  exact ⟨(hlast.answered w (.inr hw)).2.1, hlast.dozing w hw⟩

/-- **The hand-shake.** In every run that stays in step, over any sequence of replays, whether
messages are delivered or not, however often the receive times out, and however the threads are
interleaved: what `control_reader` waits for is true exactly when `forward_images` has processed the
acknowledged image in the same replay, and it is not left asleep then. -/
theorem hand_shake {es : List Event} (hrun : Run InStepStep {} es t) : HandShake t :=
  (hrun.invariant (P := AllInStep) (fun _ _ _ hpre hstep => hpre.step hstep)
    allInStep_start).handShake

/-- Image 5 is acknowledged, waited for, and sent; then image 8 is acknowledged and sent before it
is waited for. There is no more, and `forward_images` is in its receive when the replay ends. -/
def twoImages : List Event :=
  [.connect, .request { command := "start", startImageId := some 5, endImageId := some 9 }, .start,
    .control 0, .read (some 5) true, .control 0, .control 0, .control 0, .forward 0, .forward 0,
    .notify 0 (some 0), .control 0, .control 0, .read (some 8) true, .forward 0, .forward 0,
    .control 0, .notify 0 none, .forward 0, .control 0, .control 0, .read none true, .control 0,
    .control 0, .timeout 0, .forward 0, .forward 0]

/-- The end is reported, and a second replay waits for image 12. -/
def secondReplay : List Event :=
  [.observe 0, .reset 0,
    .request { command := "start", startImageId := some 10, endImageId := some 20 }, .start,
    .control 1, .read (some 12) true, .control 1, .forward 1, .timeout 1, .forward 1, .forward 1]

theorem hand_shake_twoReplays :
    ∃ t, Run InStepStep {} (twoImages ++ secondReplay) t ∧
      t.replays.map Replay.processed = [[5, 8], [12]] ∧
      t.replays.map Replay.waitsFor = [none, some 12] ∧ t.lastSentId = 12 ∧ HandShake t :=
  have hrun : Run InStepStep {} (twoImages ++ secondReplay) _ := .of_exec_only rfl
  ⟨_, hrun, rfl, rfl, rfl, hand_shake hrun⟩

/-- The reader answers with an image beyond the end of the range. -/
def imageBeyondEnd : List Event :=
  [.request { command := "start", startImageId := some 5, endImageId := some 9 }, .start,
    .control 0, .read (some 12) true, .control 0, .forward 0, .forward 0]

/-- `forward_images` has processed the image, and `control_reader` waits for it all the same. -/
theorem not_hand_shake_imageBeyondEnd :
    ∃ t, Run (Steps.guarded Process.step) {} imageBeyondEnd t ∧
      t.replays.map Replay.waitsFor = [some 12] ∧ t.replays.map Replay.processed = [[12]] ∧
      ¬ HandShake t := by
  refine ⟨_, .of_exec rfl, rfl, rfl, fun h => ?_⟩
  exact absurd (h 0 _ rfl 12 rfl).1 (by decide)

end Replayer

end StdDaq
