import StdDaq.Lib.Between
import StdDaq.Lib.Inevitable
import StdDaq.Replayer.Replayer

/-!
# One undisturbed replay

A replay that is left alone: there is no stop request, no other replay and no monitor that changes
the driver state. The reader answers with the first stored image from the requested one on, and what
it publishes is delivered.

What the replayer did before it shows in one place, `last_sent_id`, which can have any value when
the replay is started.

Notifications are heard here: none comes between a look at the predicate and the sleep. One that
does can end a replay early, see `replay_stalls_unheard`.

While `forward_images` has nothing to do it receives, times out, and tests the state again. These
steps change nothing that is shared, and there is no bound on their number. So what has to happen
is said of the other steps, with any number of these in between.

## Main definitions

* `requested` — the stored ids in the range, which are to be pushed
* `ReplaysRange` — what is pushed is always the beginning of that, and all of it in the end
* `SoloStep` — what a step can do when there is only one replay
-/

namespace StdDaq

namespace Replayer

/-- The ids of the stored images. -/
structure StoredIds where
  ids : Finset ℕ
  lt : ∀ i ∈ ids, i < 2 ^ 64

/-- What the reader answers when it is asked for `x`: the first image from `x` on. -/
def StoredIds.IsNext (stored : StoredIds) (x : ℕ) : Option ℕ → Prop
  | some id => id ∈ stored.ids ∧ x ≤ id ∧ ∀ i ∈ stored.ids, x ≤ i → id ≤ i
  | none => ∀ i ∈ stored.ids, i < x

instance (stored : StoredIds) (x : ℕ) (answer : Option ℕ) : Decidable (stored.IsNext x answer) :=
  match answer with
  | some id => inferInstanceAs
      (Decidable (id ∈ stored.ids ∧ x ≤ id ∧ ∀ i ∈ stored.ids, x ≤ i → id ≤ i))
  | none => inferInstanceAs (Decidable (∀ i ∈ stored.ids, i < x))

/-- There is always an answer. -/
theorem StoredIds.exists_isNext (stored : StoredIds) (x : ℕ) :
    ∃ answer, stored.IsNext x answer := by
  by_cases h : (stored.ids.filter (x ≤ ·)).Nonempty
  · have hmem := Finset.mem_filter.mp (Finset.min'_mem _ h)
    refine ⟨some ((stored.ids.filter (x ≤ ·)).min' h), hmem.1, hmem.2, fun i hi hx => ?_⟩
    exact Finset.min'_le _ _ (Finset.mem_filter.mpr ⟨hi, hx⟩)
  · refine ⟨none, fun i hi => ?_⟩
    by_contra hx
    exact h ⟨i, Finset.mem_filter.mpr ⟨hi, Nat.le_of_not_lt hx⟩⟩

/-- The range of a replay; without an end it has no upper bound. -/
def ReplaySettings.InRange (settings : ReplaySettings) (i : ℕ) : Prop :=
  settings.startImageId ≤ i ∧ ∀ last ∈ settings.endImageId, i ≤ last

instance (settings : ReplaySettings) : DecidablePred settings.InRange := fun i =>
  inferInstanceAs (Decidable (settings.startImageId ≤ i ∧ ∀ last ∈ settings.endImageId, i ≤ last))

/-- The stored ids in the range, in ascending order. -/
def requested (stored : StoredIds) (settings : ReplaySettings) : List ℕ :=
  (stored.ids.filter settings.InRange).sort (· ≤ ·)

theorem mem_requested {stored : StoredIds} {settings : ReplaySettings} {i : ℕ} :
    i ∈ requested stored settings ↔ i ∈ stored.ids ∧ settings.InRange i := by
  rw [requested, Finset.mem_sort, Finset.mem_filter]

theorem requested_some (stored : StoredIds) (start last : ℕ) :
    requested stored ⟨start, some last⟩ = stored.ids.between start (last + 1) := by
  refine Finset.eq_between (Finset.sortedLT_sort _).pairwise fun i => ?_
  rw [mem_requested]
  simp only [ReplaySettings.InRange, Option.mem_some_iff, forall_eq', Nat.lt_succ_iff]

/-- A replay that has just been started. -/
def Process.replaying (settings : ReplaySettings) (lastSentId : ℕ) : Process where
  manager := { state := .replaying }
  lastSentId := lastSentId
  replays := [.fresh settings]

/-- The step is one of the replay or of the reader, the reader is right and what it publishes is
delivered, and no notification comes between a look at the predicate and the sleep. -/
def Undisturbed (stored : StoredIds) (t : Process) : Event → Prop
  | .control _ | .forward _ | .timeout _ => True
  | .notify _ _ => ∀ r ∈ t.replays, r.isFallingAsleep = false
  | .read answer delivered =>
    delivered = true ∧ ∀ request ∈ t.request, stored.IsNext request.imageId answer
  | .connect | .request _ | .start | .stop | .observe _ | .reset _ => False

instance (stored : StoredIds) (t : Process) (e : Event) : Decidable (Undisturbed stored t e) :=
  match e with
  | .control _ | .forward _ | .timeout _ => inferInstanceAs (Decidable True)
  | .notify _ _ => inferInstanceAs (Decidable (∀ r ∈ t.replays, r.isFallingAsleep = false))
  | .read answer delivered => inferInstanceAs (Decidable
      (delivered = true ∧ ∀ request ∈ t.request, stored.IsNext request.imageId answer))
  | .connect | .request _ | .start | .stop | .observe _ | .reset _ =>
    inferInstanceAs (Decidable False)

/-- The steps of an undisturbed replay. -/
def UndisturbedStep (stored : StoredIds) : Process → Event → Process → Prop :=
  Restrict (Undisturbed stored) (Steps.guarded Process.step)

/-- `forward_images` waits for an image: its receive times out, or the test of the loop finds that
the replay goes on. -/
def Idles (t : Process) : Event → Prop
  | .timeout _ => True
  | .forward k => t.manager.state = .replaying ∧
      ∃ r ∈ t.replays[k]?, ∃ nImages, r.forward = .test nImages
  | _ => False

/-- A step of an undisturbed replay that goes on, after `forward_images` has waited for a while. -/
def GoingOn (stored : StoredIds) : Process → Event → Process → Prop :=
  Delayed Idles (UndisturbedStep stored)

/-- All that was asked for has been pushed, and nothing else. -/
def PushedAll (stored : StoredIds) (settings : ReplaySettings) (t : Process) : Prop :=
  ∃ r, t.replays = [r] ∧ r.pushed = requested stored settings

/-- **Exactly the requested range is forwarded**: whatever the threads and the reader do when, the
ids that are pushed are at all times the first ones of the stored ids in the range, in ascending
order and each once, and it cannot be avoided that all of them are pushed, unless `forward_images`
does nothing but wait for good. -/
structure ReplaysRange (stored : StoredIds) (settings : ReplaySettings) (lastSentId : ℕ) :
    Prop where
  beginning : ∀ es t, Run (UndisturbedStep stored) (.replaying settings lastSentId) es t →
    ∃ r, t.replays = [r] ∧ r.pushed <+: requested stored settings
  all : ∀ es t, Run (UndisturbedStep stored) (.replaying settings lastSentId) es t →
    Inevitable (GoingOn stored) (PushedAll stored settings) t

/-! ### Steps when there is one replay -/

variable {stored : StoredIds} {t u v : Process} {r r' : Replay}

/-- What a step does to the process and to the only replay. -/
inductive SoloStep (stored : StoredIds) (t : Process) (r : Replay) : Process → Replay → Prop where
  | control {v : Process} {pc : ControlPc}
      (hcontrol : Process.ControlStep r.settings t r.control v pc) :
      SoloStep stored t r v { r with control := pc }
  | forward {v : Process} {r' : Replay} (hforward : Process.ForwardStep t r v r') :
      SoloStep stored t r v r'
  | timeout {nImages : ℕ} (hpc : r.forward = .receive nImages) :
      SoloStep stored t r t { r with forward := .test nImages }
  | notify {nImages : ℕ} (hpc : r.forward = .notify nImages) (hheard : r.isFallingAsleep = false) :
      SoloStep stored t r t { r with forward := .test nImages }.wake
  | read {request : RequestNextImage} {answer : Option ℕ} (hrequest : t.request = some request)
      (hnext : stored.IsNext request.imageId answer) : SoloStep stored t r (t.answer answer true) r

theorem eq_of_getElem?_singleton {k : ℕ} (h : [r][k]? = some r') : k = 0 ∧ r' = r := by
  cases k with
  | zero => exact ⟨rfl, (Option.some.inj h).symm⟩
  | succ k => cases h

theorem Replay.wake_of_not_asleep (h : r.isAsleep = false) : r.wake = r := by
  rw [wake]
  split
  · next hpc => rw [isAsleep, hpc] at h; cases h
  · rfl

theorem soloStep_of_step (hr : t.replays = [r]) {e : Event} (h : UndisturbedStep stored t e u) :
    ∃ v r', SoloStep stored t r v r' ∧ u = { v with replays := [r'] } := by
  obtain ⟨hundisturbed, hstep⟩ := h
  cases e with
  | control k =>
    obtain ⟨r₀, v, pc, hk, hcontrol, rfl⟩ := Process.step_control_iff.mp hstep
    rw [hr] at hk ⊢
    obtain ⟨rfl, rfl⟩ := eq_of_getElem?_singleton hk
    exact ⟨v, _, .control hcontrol, rfl⟩
  | forward k =>
    obtain ⟨r₀, v, r', hk, hforward, rfl⟩ := Process.step_forward_iff.mp hstep
    rw [hr] at hk ⊢
    obtain ⟨rfl, rfl⟩ := eq_of_getElem?_singleton hk
    exact ⟨v, r', .forward hforward, rfl⟩
  | timeout k =>
    obtain ⟨r₀, nImages, hk, hpc, rfl⟩ := Process.step_timeout_iff.mp hstep
    rw [hr] at hk ⊢
    obtain ⟨rfl, rfl⟩ := eq_of_getElem?_singleton hk
    exact ⟨t, _, .timeout hpc, rfl⟩
  | notify k woken =>
    have hheard : r.isFallingAsleep = false := hundisturbed r (by simp [hr])
    obtain ⟨r₀, nImages, replays, hk, hpc, hnotify, rfl⟩ := Process.step_notify hstep
    rw [hr] at hk hnotify
    obtain ⟨rfl, rfl⟩ := eq_of_getElem?_singleton hk
    refine ⟨t, _, .notify hpc hheard, ?_⟩
    rcases Process.notifyOne_eq_some hnotify with ⟨hnone, rfl⟩ | ⟨j, s, hs, -, rfl⟩
    · rw [Replay.wake_of_not_asleep (by simpa using hnone)]
      rfl
    · obtain ⟨rfl, rfl⟩ := eq_of_getElem?_singleton hs
      rfl
  | read answer delivered =>
    obtain ⟨hrequest, rfl⟩ := Process.step_read hstep
    obtain ⟨request, hrequest⟩ := Option.isSome_iff_exists.mp hrequest
    obtain ⟨rfl, hnext⟩ := hundisturbed
    refine ⟨_, r, .read hrequest (hnext request hrequest), ?_⟩
    cases answer <;> simp [Process.answer, hr]
  | connect | request | start | stop | observe | reset => cases hundisturbed

theorem SoloStep.exists_step (hr : t.replays = [r]) (h : SoloStep stored t r v r') :
    ∃ e, UndisturbedStep stored t e { v with replays := [r'] } := by
  cases h with
  | control hcontrol =>
    refine ⟨.control 0, trivial, ?_⟩
    exact Process.step_control_iff.mpr ⟨r, v, _, by simp [hr], hcontrol, by simp [hr]⟩
  | forward hforward =>
    refine ⟨.forward 0, trivial, ?_⟩
    exact Process.step_forward_iff.mpr ⟨r, v, r', by simp [hr], hforward, by simp [hr]⟩
  | @timeout nImages hpc =>
    refine ⟨.timeout 0, trivial, ?_⟩
    exact Process.step_timeout_iff.mpr ⟨r, nImages, by simp [hr], hpc, by simp [hr]⟩
  | @notify nImages hpc hheard =>
    -- the notification wakes the only thread that can sleep
    refine ⟨.notify 0 (if r.isAsleep then some 0 else none), by simp [Undisturbed, hr, hheard], ?_⟩
    change t.step _ = some _
    have hasleep : { r with forward := .test nImages }.isAsleep = r.isAsleep := rfl
    cases hcase : r.isAsleep with
    | true =>
      rw [hcase] at hasleep
      simp [Process.step, hr, hpc, Process.notifyOne, hasleep]
    | false =>
      rw [hcase] at hasleep
      simp [Process.step, hr, hpc, Process.notifyOne, hasleep, Replay.wake_of_not_asleep hasleep]
  | @read request answer hrequest hnext =>
    refine ⟨.read answer true, ⟨rfl, by simpa [hrequest] using hnext⟩, ?_⟩
    change t.step _ = some _
    cases answer <;> simp [Process.step, hrequest, Process.answer, hr]

/-- Where `forward_images` is before and after a step in which it waits. -/
def Replay.IdlesTo (r r' : Replay) : Prop :=
  ∃ nImages, r.forward = .receive nImages ∧ r'.forward = .test nImages ∨
    r.forward = .test nImages ∧ r'.forward = .receive nImages

theorem Replay.not_idlesTo_of_eq (h : r'.forward = r.forward) : ¬ r.IdlesTo r' := by
  rintro ⟨nImages, ⟨hbefore, hafter⟩ | ⟨hbefore, hafter⟩⟩ <;>
    cases hafter.symm.trans (h.trans hbefore)

theorem Replay.not_idlesTo_notify {nImages : ℕ} (h : r.forward = .notify nImages) :
    ¬ r.IdlesTo r' := by
  rintro ⟨n, ⟨hbefore, -⟩ | ⟨hbefore, -⟩⟩ <;> cases h.symm.trans hbefore

theorem idles_forward_iff (hr : t.replays = [r]) (hforward : Process.ForwardStep t r v r') :
    Idles t (.forward 0) ↔ r.IdlesTo r' := by
  simp only [Idles, Replay.IdlesTo, hr, List.getElem?_cons_zero, Option.mem_some_iff,
    exists_eq_left']
  cases hforward with
  | again hpc hstate | leave hpc hstate => simp [hpc, hstate]
  | push hpc | skip hpc | finish hpc => simp [hpc]

/-- The steps in which `forward_images` waits. -/
theorem idles_iff {e : Event} (hr : t.replays = [r]) (h : UndisturbedStep stored t e u)
    (hr' : u.replays = [r']) : Idles t e ↔ r.IdlesTo r' := by
  obtain ⟨hundisturbed, hstep⟩ := h
  cases e with
  | control k =>
    obtain ⟨r₀, v, pc, hk, -, rfl⟩ := Process.step_control_iff.mp hstep
    rw [hr] at hk
    obtain ⟨rfl, rfl⟩ := eq_of_getElem?_singleton hk
    obtain rfl : { r₀ with control := pc } = r' := by simpa [hr] using hr'
    exact iff_of_false id (Replay.not_idlesTo_of_eq rfl)
  | forward k =>
    obtain ⟨r₀, v, r₁, hk, hforward, rfl⟩ := Process.step_forward_iff.mp hstep
    rw [hr] at hk
    obtain ⟨rfl, rfl⟩ := eq_of_getElem?_singleton hk
    obtain rfl : r₁ = r' := by simpa [hr] using hr'
    exact idles_forward_iff hr hforward
  | timeout k =>
    obtain ⟨r₀, nImages, hk, hpc, rfl⟩ := Process.step_timeout_iff.mp hstep
    rw [hr] at hk
    obtain ⟨rfl, rfl⟩ := eq_of_getElem?_singleton hk
    obtain rfl : { r₀ with forward := .test nImages } = r' := by simpa [hr] using hr'
    exact iff_of_true trivial ⟨nImages, .inl ⟨hpc, rfl⟩⟩
  | notify k woken =>
    obtain ⟨r₀, nImages, replays, hk, hpc, -, rfl⟩ := Process.step_notify hstep
    rw [hr] at hk
    obtain ⟨rfl, rfl⟩ := eq_of_getElem?_singleton hk
    exact iff_of_false id (Replay.not_idlesTo_notify hpc)
  | read answer delivered =>
    obtain ⟨-, rfl⟩ := Process.step_read hstep
    have hreplays : (t.answer answer delivered).replays = t.replays := by cases answer <;> rfl
    rw [hreplays, hr] at hr'
    obtain rfl : r = r' := by simpa using hr'
    exact iff_of_false id (Replay.not_idlesTo_of_eq rfl)
  | connect | request | start | stop | observe | reset => cases hundisturbed

/-! ### When nothing is pushed -/

/-- Where no stored image is in front of the end, nothing is pushed: what is received is passed
over. In particular when there is no end, which nothing is in front of. -/
theorem pushed_eq_nil_of_run {settings : ReplaySettings} {lastSentId : ℕ} {es : List Event}
    (hbeyond : ∀ i ∈ stored.ids, settings.reaches i = false)
    (hrun : Run (UndisturbedStep stored) (.replaying settings lastSentId) es t) :
    ∃ r, t.replays = [r] ∧ r.pushed = [] := by
  have hinv : ∃ r, t.replays = [r] ∧ r.settings = settings ∧ r.pushed = [] ∧
      ∀ i ∈ t.published, i ∈ stored.ids := by
    refine hrun.invariant (P := fun t => ∃ r, t.replays = [r] ∧ r.settings = settings ∧
      r.pushed = [] ∧ ∀ i ∈ t.published, i ∈ stored.ids) ?_ ⟨_, rfl, rfl, rfl, nofun⟩
    rintro t e u ⟨r, hr, hsettings, hpushed, hpublished⟩ hstep
    obtain ⟨v, r', hsolo, rfl⟩ := soloStep_of_step hr hstep
    refine ⟨r', rfl, ?_⟩
    cases hsolo with
    | control hcontrol => exact ⟨hsettings, hpushed, hcontrol.published ▸ hpublished⟩
    | forward hforward =>
      cases hforward with
      | again | leave | finish => exact ⟨hsettings, hpushed, hpublished⟩
      | @push nImages id rest _ hfirst hreaches =>
        have hid := hbeyond id (hpublished id (by simp [hfirst]))
        rw [hsettings, hid] at hreaches
        cases hreaches
      | skip _ hfirst =>
        exact ⟨hsettings, hpushed, fun i hi => hpublished i (by simp [hfirst, hi])⟩
    | timeout => exact ⟨hsettings, hpushed, hpublished⟩
    | notify =>
      rw [Replay.wake]
      split <;> exact ⟨hsettings, hpushed, hpublished⟩
    | @read request answer hrequest hnext =>
      cases answer with
      | none => exact ⟨hsettings, hpushed, hpublished⟩
      | some id =>
        refine ⟨hsettings, hpushed, fun i hi => ?_⟩
        rcases List.mem_append.mp hi with hi | hi
        · exact hpublished i hi
        · exact List.mem_singleton.mp hi ▸ hnext.1
  obtain ⟨r, hr, -, hpushed, -⟩ := hinv
  exact ⟨r, hr, hpushed⟩

/-! ### A notification that nobody hears -/

/-- Image 5 is sent after `control_reader` has looked and before it sleeps. -/
def unheardNotification : List Event :=
  [.control 0, .read (some 5) true, .control 0, .control 0, .forward 0, .forward 0, .notify 0 none,
    .control 0, .forward 0]

/-- `control_reader` sleeps and there is nothing that could lead to a notification. -/
structure Unheard (pushed : List ℕ) (t : Process) (r : Replay) : Prop where
  asleep : r.isAsleep = true
  state : t.manager.state = .replaying
  request : t.request = none
  published : t.published = []
  waiting : ∃ nImages, r.forward = .test nImages ∨ r.forward = .receive nImages
  pushed : r.pushed = pushed

theorem Unheard.step {pushed : List ℕ} (h : Unheard pushed t r)
    (hsolo : SoloStep stored t r v r') : Unheard pushed { v with replays := [r'] } r' := by
  obtain ⟨waitForId, imageId, hcontrol⟩ := Replay.isAsleep_iff.mp h.asleep
  obtain ⟨n, hwaiting⟩ := h.waiting
  cases hsolo with
  | control hstep =>
    rw [hcontrol] at hstep
    cases hstep
  | forward hstep =>
    cases hstep with
    | @again nImages hpc =>
      exact ⟨h.asleep, h.state, h.request, h.published, ⟨nImages, .inr rfl⟩, h.pushed⟩
    | leave _ hstate => exact absurd h.state hstate
    | push _ hfirst | skip _ hfirst => cases h.published.symm.trans hfirst
    | finish hpc => rcases hwaiting with hwaiting | hwaiting <;> cases hpc.symm.trans hwaiting
  | @timeout nImages =>
    exact ⟨h.asleep, h.state, h.request, h.published, ⟨nImages, .inl rfl⟩, h.pushed⟩
  | notify hpc => rcases hwaiting with hwaiting | hwaiting <;> cases hpc.symm.trans hwaiting
  | read hrequest => cases h.request.symm.trans hrequest

/-- The image that `control_reader` waits for has been sent, and the replay waits for good: whatever
its threads and the reader do, no request is made and nothing more is pushed. What comes after image
5 is never asked for. -/
theorem replay_stalls_unheard :
    ∃ t, Run (Steps.guarded Process.step) (.replaying ⟨5, some 9⟩ 0) unheardNotification t ∧
      ∀ stored es u, Run (UndisturbedStep stored) t es u →
        u.request = none ∧ u.replays.map Replay.pushed = [[5]] := by
  refine ⟨_, .of_exec rfl, fun stored es u hrun => ?_⟩
  obtain ⟨r, hr, hunheard⟩ : ∃ r, u.replays = [r] ∧ Unheard [5] u r := by
    refine hrun.invariant (P := fun u => ∃ r, u.replays = [r] ∧ Unheard [5] u r) ?_
      ⟨_, rfl, rfl, rfl, rfl, rfl, ⟨1, .inr rfl⟩, rfl⟩
    rintro t e u ⟨r, hr, h⟩ hstep
    obtain ⟨v, r', hsolo, rfl⟩ := soloStep_of_step hr hstep
    exact ⟨r', rfl, h.step hsolo⟩
  exact ⟨hunheard.request, by rw [hr, List.map_singleton, hunheard.pushed]⟩

end Replayer

end StdDaq
