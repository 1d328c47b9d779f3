import StdDaq.Replayer.Replayer

/-!
# How a replay ends

`control_reader` stores `finishing` when it returns, and `forward_images` stores `finished`. Both
store without looking. When the images run out, `control_reader` is first: its store is what ends
the loop of the other, which finds it when its receive has timed out. After a stop request, however,
both loops end on their own, and when `control_reader` is the slower one, it overwrites `finished`
with `finishing`, where the driver stays. A monitor that is slow to report the end of one replay
makes the state `idle` in the middle of the next, and a stop request that was tested while a replay
was on can be stored after its end.

When none of this happens a replay hands the driver back.

## Main results

* `replay_hands_back` — the state after the threads have returned, and that it is left alone
-/

namespace StdDaq

namespace Replayer

variable {t u : Process} {k : ℕ} {r r' : Replay}

/-- The driver is free, or will be when the end of the last replay is reported. -/
def ReaderState.IsFree (state : ReaderState) : Prop := state = .finished ∨ state = .idle

instance (state : ReaderState) : Decidable state.IsFree :=
  inferInstanceAs (Decidable (state = .finished ∨ state = .idle))

/-- A replay whose threads have returned has handed the driver back: it is free, or it belongs to a
later replay. And the threads of an earlier replay leave the state of a later one alone. -/
structure HandsBack (t : Process) : Prop where
  returned : ∀ (k : ℕ) (r : Replay), t.replays[k]? = some r → r.Returned →
    t.manager.state.IsFree ∨ k + 1 < t.replays.length
  later : ∀ e k, e.replay? = some k → k + 1 < t.replays.length →
    ∀ u, t.step e = some u → u.manager.state = t.manager.state

/-- The step is not late: `forward_images` stores `finished` after `control_reader` has stored
`finishing`, a monitor stores `idle` before the next replay is started, and a stop is stored before
`finished` is. -/
def Prompt (t : Process) : Event → Prop
  | .forward k => ∀ r, t.replays[k]? = some r → r.forward = .finish → r.control = .returned
  | .reset _ => t.manager.state.IsFree
  | .stop => ¬ t.manager.state.IsFree
  | .connect | .request _ | .start | .control _ | .timeout _ | .notify _ _ | .read _ _
  | .observe _ => True

instance (t : Process) (e : Event) : Decidable (Prompt t e) :=
  match e with
  | .forward k => inferInstanceAs
      (Decidable (∀ r ∈ t.replays[k]?, r.forward = .finish → r.control = .returned))
  | .reset _ => inferInstanceAs (Decidable t.manager.state.IsFree)
  | .stop => inferInstanceAs (Decidable (¬ t.manager.state.IsFree))
  | .connect | .request _ | .start | .control _ | .timeout _ | .notify _ _ | .read _ _
  | .observe _ => inferInstanceAs (Decidable True)

/-- The steps of a prompt run. -/
def PromptStep : Process → Event → Process → Prop :=
  Restrict Prompt (Steps.guarded Process.step)

/-- The invariant of prompt runs: the state says whether a thread is at work, and only the last
replay has one. -/
structure Settled (t : Process) : Prop where
  free : t.manager.state.IsFree ↔ ∀ (k : ℕ) (r : Replay), t.replays[k]? = some r → r.Returned
  earlier : ∀ (k : ℕ) (r : Replay), t.replays[k]? = some r → k + 1 < t.replays.length → r.Returned
  order : ∀ (k : ℕ) (r : Replay), t.replays[k]? = some r → r.forward = .returned →
    r.control = .returned
  starting : ∀ settings, t.io = .starting settings → t.manager.state = .idle

theorem settled_start : Settled {} where
  free := by simp [ReaderState.IsFree]
  earlier := by simp
  order := by simp
  starting := by simp

/-- A thread that has not returned is of the last replay. -/
theorem Settled.last (h : Settled t) (hr : t.replays[k]? = some r) (halive : ¬ r.Returned) :
    k + 1 = t.replays.length := by
  obtain ⟨hk, -⟩ := List.getElem?_eq_some_iff.mp hr
  by_contra hne
  exact halive (h.earlier k r hr (by omega))

theorem Settled.not_free (h : Settled t) (hr : t.replays[k]? = some r) (halive : ¬ r.Returned) :
    ¬ t.manager.state.IsFree :=
  fun hfree => halive (h.free.mp hfree k r hr)

/-- A step of a thread replaces its replay, which is the last one. -/
theorem Settled.replace (h : Settled t) (hr : t.replays[k]? = some r) (halive : ¬ r.Returned)
    (hreplays : u.replays = t.replays.set k r') (hio : u.io = t.io)
    (hfree : u.manager.state.IsFree ↔ r'.Returned)
    (horder : r'.forward = .returned → r'.control = .returned) : Settled u := by
  have hlast := h.last hr halive
  have hget : ∀ i s, u.replays[i]? = some s →
      i = k ∧ s = r' ∨ i ≠ k ∧ t.replays[i]? = some s := by
    intro i s hs
    rw [hreplays, List.getElem?_set] at hs
    split at hs
    · next heq =>
      rw [if_pos (by omega)] at hs
      exact .inl ⟨heq.symm, (Option.some.inj hs).symm⟩
    · next hne => exact .inr ⟨fun heq => hne heq.symm, hs⟩
  have hself : u.replays[k]? = some r' := by
    rw [hreplays, List.getElem?_set, if_pos rfl, if_pos (by omega)]
  refine ⟨⟨fun hu i s hs => ?_, fun hall => hfree.mpr (hall k r' hself)⟩, fun i s hs hi => ?_,
    fun i s hs => ?_, fun settings hstarting => ?_⟩
  · rcases hget i s hs with ⟨-, rfl⟩ | ⟨hne, hs⟩
    · exact hfree.mp hu
    · obtain ⟨hi, -⟩ := List.getElem?_eq_some_iff.mp hs
      exact h.earlier i s hs (by omega)
  · rw [hreplays, List.length_set] at hi
    rcases hget i s hs with ⟨rfl, -⟩ | ⟨-, hs⟩
    · omega
    · exact h.earlier i s hs hi
  · rcases hget i s hs with ⟨-, rfl⟩ | ⟨-, hs⟩
    · exact horder
    · exact h.order i s hs
  · -- no replay is being started while a thread is at work
    rw [hio] at hstarting
    exact absurd (.inr (h.starting settings hstarting)) (h.not_free hr halive)

theorem Settled.control (h : Settled t) (hstep : t.step (.control k) = some u) : Settled u := by
  obtain ⟨r, v, pc, hr, hcontrol, rfl⟩ := Process.step_control_iff.mp hstep
  have halive : ¬ r.Returned := fun hret => hcontrol.not_returned hret.1
  have hnotFree := h.not_free hr halive
  have hforward : r.forward ≠ .returned := by
    intro hforward
    exact halive ⟨h.order k r hr hforward, hforward⟩
  generalize r.control = pc₀ at hcontrol
  refine h.replace hr halive rfl ?_ ?_ (fun hreturned => absurd hreturned hforward)
  · cases hcontrol with
    | ask => exact Process.io_send ..
    | leave | ack | noImage | retry | pass | wait | sleep | finish => rfl
  · refine ⟨fun hfree => ?_, fun hreturned => absurd hreturned.2 hforward⟩
    cases hcontrol with
    | ask =>
      rw [Process.manager_send] at hfree
      exact absurd hfree hnotFree
    | leave | ack | noImage | retry | pass | wait | sleep => exact absurd hfree hnotFree
    | finish => exact absurd hfree (by simp [ReaderState.IsFree])

theorem Settled.forward (h : Settled t) (hprompt : Prompt t (.forward k))
    (hstep : t.step (.forward k) = some u) : Settled u := by
  obtain ⟨r, v, r', hr, hforward, rfl⟩ := Process.step_forward_iff.mp hstep
  have halive : ¬ r.Returned := fun hret => hforward.not_returned hret.2
  have hnotFree := h.not_free hr halive
  cases hforward with
  | again | leave | skip =>
    exact h.replace hr halive rfl rfl
      ⟨fun hfree => absurd hfree hnotFree, fun hret => nomatch hret.2⟩ nofun
  | push =>
    exact h.replace hr halive rfl rfl
      ⟨fun hfree => absurd hfree hnotFree, fun hret => nomatch hret.2⟩ nofun
  | finish hpc =>
    have hcontrol := hprompt r hr hpc
    exact h.replace hr halive rfl rfl ⟨fun _ => ⟨hcontrol, rfl⟩, fun _ => .inl rfl⟩
      fun _ => hcontrol

theorem Settled.timeout (h : Settled t) (hstep : t.step (.timeout k) = some u) : Settled u := by
  obtain ⟨r, nImages, hr, hpc, rfl⟩ := Process.step_timeout_iff.mp hstep
  have halive : ¬ r.Returned := fun hret => nomatch hpc.symm.trans hret.2
  exact h.replace hr halive rfl rfl
    ⟨fun hfree => absurd hfree (h.not_free hr halive), fun hret => nomatch hret.2⟩ nofun

theorem Settled.notify (h : Settled t) {woken : Option ℕ}
    (hstep : t.step (.notify k woken) = some u) : Settled u := by
  obtain ⟨r, nImages, replays, hr, hpc, hnotify, rfl⟩ := Process.step_notify hstep
  have halive : ¬ r.Returned := fun hret => nomatch hpc.symm.trans hret.2
  have hnotified : Settled
      { t with replays := t.replays.set k { r with forward := .test nImages } } :=
    h.replace hr halive rfl rfl
      ⟨fun hfree => absurd hfree (h.not_free hr halive), fun hret => nomatch hret.2⟩ nofun
  rcases Process.notifyOne_eq_some hnotify with ⟨-, rfl⟩ | ⟨j, s, hs, hasleep, rfl⟩
  · exact hnotified
  · obtain ⟨waitForId, imageId, hcontrol⟩ := Replay.isAsleep_iff.mp hasleep
    have hsleeps : ¬ s.Returned := fun hret => nomatch hcontrol.symm.trans hret.1
    have hwake : s.wake.control ≠ .returned := by
      rw [Replay.wake, hcontrol]
      exact nofun
    have hforward : s.wake.forward = s.forward := by
      rw [Replay.wake, hcontrol]
    refine hnotified.replace hs hsleeps rfl rfl
      ⟨fun hfree => absurd hfree (hnotified.not_free hs hsleeps), fun hret => absurd hret.1 hwake⟩
      fun hret => ?_
    rw [hforward] at hret
    exact nomatch (hnotified.order j s hs hret).symm.trans hcontrol

theorem Settled.start (h : Settled t) (hstep : t.step .start = some u) : Settled u := by
  obtain ⟨settings, hio, rfl⟩ := Process.step_start hstep
  have hall := h.free.mp (.inr (h.starting settings hio))
  refine ⟨⟨fun hfree => absurd hfree (by simp [ReaderState.IsFree]), fun hret => ?_⟩,
    fun i s hs hi => ?_, fun i s hs hforward => ?_, nofun⟩
  · exact nomatch (hret t.replays.length _ List.getElem?_concat_length).1
  · rcases getElem?_concat_eq_some hs with hs | ⟨rfl, -⟩
    · exact hall i s hs
    · rw [List.length_append, List.length_singleton] at hi
      omega
  · rcases getElem?_concat_eq_some hs with hs | ⟨-, rfl⟩
    · exact (hall i s hs).1
    · exact nomatch hforward

/-- Every step of a prompt run keeps the invariant. -/
theorem Settled.step (h : Settled t) {e : Event} (hstep : PromptStep t e u) : Settled u := by
  obtain ⟨hprompt, hstep⟩ := hstep
  cases e with
  | connect =>
    obtain rfl := Option.some.inj hstep
    exact ⟨h.free, h.earlier, h.order, h.starting⟩
  | request cmd =>
    obtain ⟨-, rfl⟩ := Process.step_request hstep
    exact ⟨h.free, h.earlier, h.order, fun settings => Process.idle_of_starting⟩
  | start => exact h.start hstep
  | stop =>
    obtain ⟨hio, rfl⟩ := Process.step_stop hstep
    refine ⟨⟨fun hfree => absurd hfree (by simp [ReaderState.IsFree]), fun hall => ?_⟩, h.earlier,
      h.order, nofun⟩
    exact absurd (h.free.mpr hall) hprompt
  | control k => exact h.control hstep
  | forward k => exact h.forward hprompt hstep
  | timeout k => exact h.timeout hstep
  | notify k woken => exact h.notify hstep
  | read answer delivered =>
    obtain ⟨-, rfl⟩ := Process.step_read hstep
    cases answer <;> exact ⟨h.free, h.earlier, h.order, h.starting⟩
  | observe j =>
    rcases Process.step_observe hstep with rfl | ⟨-, rfl⟩
    · exact h
    · exact ⟨h.free, h.earlier, h.order, h.starting⟩
  | reset j =>
    obtain ⟨-, rfl⟩ := Process.step_reset hstep
    exact ⟨⟨fun _ => h.free.mp hprompt, fun _ => .inr rfl⟩, h.earlier, h.order, fun _ _ => rfl⟩

/-- **A replay hands the driver back.** In every prompt run, whatever the reader answers and however
the threads of the replays, the monitors and the io thread are interleaved: when both threads of a
replay have returned, the driver is free or belongs to a later replay, and threads of earlier
replays leave the state alone. -/
theorem replay_hands_back {es : List Event} (hrun : Run PromptStep {} es t) : HandsBack t := by
  have h := hrun.invariant (P := Settled) (fun _ _ _ hpre hstep => hpre.step hstep) settled_start
  refine ⟨fun k r hr hret => ?_, fun e k hk hearlier u hstep => ?_⟩
  · by_cases hlast : k + 1 < t.replays.length
    · exact .inr hlast
    · refine .inl (h.free.mpr fun i s hs => ?_)
      by_cases hi : i + 1 < t.replays.length
      · exact h.earlier i s hs hi
      · obtain ⟨hik, -⟩ := List.getElem?_eq_some_iff.mp hs
        obtain ⟨hkk, -⟩ := List.getElem?_eq_some_iff.mp hr
        obtain rfl : i = k := by omega
        rw [hr] at hs
        exact Option.some.inj hs ▸ hret
  · -- the threads of an earlier replay have returned
    cases e with
    | control i =>
      obtain ⟨r, v, pc, hr, hcontrol, -⟩ := Process.step_control_iff.mp hstep
      obtain rfl := Option.some.inj hk
      exact absurd (h.earlier i r hr hearlier).1 hcontrol.not_returned
    | forward i =>
      obtain ⟨r, v, r', hr, hforward, -⟩ := Process.step_forward_iff.mp hstep
      obtain rfl := Option.some.inj hk
      exact absurd (h.earlier i r hr hearlier).2 hforward.not_returned
    | timeout i =>
      obtain ⟨r, nImages, -, -, rfl⟩ := Process.step_timeout_iff.mp hstep
      rfl
    | notify i woken =>
      obtain ⟨r, nImages, replays, -, -, -, rfl⟩ := Process.step_notify hstep
      rfl
    | connect | request | start | stop | read | observe | reset => cases hk

/-- A request to replay the images from 5 to 9. -/
def startCommand : Command := { command := "start", startImageId := some 5, endImageId := some 9 }

/-- A replay for which the reader has no image while `forward_images` is in its receive, the report
of its end, and a second replay that is stopped. -/
def twoReplays : List Event :=
  [.connect, .request startCommand, .start, .forward 0, .control 0, .timeout 0, .forward 0,
    .read none true, .control 0, .control 0, .timeout 0, .forward 0, .forward 0, .observe 0,
    .reset 0, .request startCommand, .start, .request { command := "stop" }, .stop, .control 1,
    .control 1, .forward 1, .forward 1]

theorem replay_hands_back_twoReplays :
    ∃ t, Run PromptStep {} twoReplays t ∧ t.replays.length = 2 ∧ t.manager.state = .finished ∧
      HandsBack t :=
  have hrun : Run PromptStep {} twoReplays _ := .of_exec_only rfl
  ⟨_, hrun, rfl, rfl, replay_hands_back hrun⟩

/-- A stopped replay whose `forward_images` is the first to return. -/
def stoppedReplay : List Event :=
  [.connect, .request startCommand, .start, .request { command := "stop" }, .stop, .forward 0,
    .forward 0, .control 0, .control 0]

/-- The driver stays in `finishing`. -/
theorem replay_not_handed_back :
    ∃ t, Run (Steps.guarded Process.step) {} stoppedReplay t ∧ t.manager.state = .finishing ∧
      ¬ HandsBack t := by
  refine ⟨_, .of_exec rfl, rfl, fun h => ?_⟩
  exact absurd (h.returned 0 _ rfl ⟨rfl, rfl⟩) (by decide)

end Replayer

end StdDaq
