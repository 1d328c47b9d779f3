import StdDaq.Driver.Sessions

/-!
# Back to idle

A monitor that sees `file_saved` or `error` tells its client about it and then stores `idle`,
without looking at the state again. With one session this is right: no start is accepted before the
store, so the state is still that of the recording the monitor has seen the end of.

With two sessions both monitors can see the end of the same recording. The first one stores `idle`,
a start is accepted, and the second one stores `idle` into the new recording.

## Main results

* `reset_hits_reported` — when the store hits the recording that was reported
* `reset_hits_newer` — the store of a second monitor hits a newer recording
-/

namespace StdDaq

namespace Driver

/-- The step leaves a monitor alone that is about to store `idle`: no other monitor sees the end of
a recording and no stop is stored meanwhile. And no valid start request is handled before an
accepted worker has stored `creating_file`. -/
def Undisturbed (t : DriverSystem) : DriverEvent → Prop
  | .startRequest nImages =>
    nImages.isSome → t.manager.state = .idle → ∀ w ∈ t.workers, w.pc ≠ .createFile
  | .observe _ => t.manager.state.IsEnd → Unreported t
  | .stopStore => Unreported t
  | .connect | .stopRequest | .worker _ _ | .reset _ => True

instance (t : DriverSystem) (e : DriverEvent) : Decidable (Undisturbed t e) :=
  match e with
  | .startRequest nImages => inferInstanceAs (Decidable
      (nImages.isSome → t.manager.state = .idle → ∀ w ∈ t.workers, w.pc ≠ .createFile))
  | .observe _ => inferInstanceAs (Decidable (t.manager.state.IsEnd → Unreported t))
  | .stopStore => inferInstanceAs (Decidable (Unreported t))
  | .connect | .stopRequest | .worker _ _ | .reset _ => isTrue trivial

/-- The steps of an undisturbed run. -/
def UndisturbedStep (d : WriterDriver) : DriverSystem → DriverEvent → DriverSystem → Prop :=
  Restrict Undisturbed (Steps.guarded (DriverSystem.step d))

/-- The invariant of undisturbed runs. -/
structure Reported (t : DriverSystem) : Prop extends Exclusive t where
  /-- An end state belongs to a recording that is over. -/
  returned : t.manager.state.IsEnd → ∀ w ∈ t.workers, w.pc = .finished
  /-- A monitor that is about to store `idle` is alone, and the state is what it has seen. -/
  seen : ∀ j : ℕ, t.monitors[j]? = some Monitor.reporting →
    t.manager.state.IsEnd ∧ ∀ k : ℕ, t.monitors[k]? = some Monitor.reporting → k = j

variable {d : WriterDriver} {t u : DriverSystem}

theorem reported_start (sessions : ℕ) :
    Reported { monitors := List.replicate sessions .watching : DriverSystem } where
  toExclusive := exclusive_start _
  returned := nofun
  seen j hj := by
    have hmem := List.mem_of_getElem? hj
    cases (List.mem_replicate.mp hmem).2

/-- While a worker is at work, no monitor is about to store `idle`. -/
theorem Reported.unreported (h : Reported t) (hend : ¬ t.manager.state.IsEnd) : Unreported t := by
  intro hmem
  obtain ⟨j, hj⟩ := List.mem_iff_getElem?.mp hmem
  exact hend (h.seen j hj).1

theorem Reported.of_unreported (hex : Exclusive t)
    (hreturned : t.manager.state.IsEnd → ∀ w ∈ t.workers, w.pc = .finished) (h : Unreported t) :
    Reported t where
  toExclusive := hex
  returned := hreturned
  seen j hj := absurd hj (h.getElem?_ne j)

/-- A worker stores an end state in its last step only. -/
theorem finished_of_isEnd {nImages : ℕ} {isRecording : Bool} {pc pc' : WorkerPc}
    {received : Received} {effect : Effect} {manager : StateManager}
    (h : d.WorkerStep nImages isRecording pc received pc' effect) (hend : ¬ manager.state.IsEnd)
    (hend' : (effect.onManager manager).state.IsEnd) : pc' = .finished := by
  cases h with
  | fileSaved | fail => rfl
  | createFile | waitForFirstImage | recordState | saveFile =>
    exact absurd hend' (by simp [Effect.onManager, DriverState.IsEnd])
  | sendCommand | sentAll | timeout | refused | acknowledged | collected | goOn | endRecording
  | noImage | firstImage | nextImage | recordForward => exact absurd hend' hend

theorem Reported.worker (h : Reported t) {k : ℕ} {received : Received}
    (hstep : t.step d (.worker k received) = some u) : Reported u := by
  have hex := h.toExclusive.worker hstep
  obtain ⟨w, pc, effect, hw, hworker, rfl⟩ := DriverSystem.step_worker hstep
  have hpc := workerStep_ne_finished hworker
  have hend : ¬ t.manager.state.IsEnd :=
    fun hend => hpc (h.returned hend w (List.mem_of_getElem? hw))
  refine .of_unreported hex (fun hend' v hv => ?_) (h.unreported hend)
  change v ∈ t.workers.set k _ at hv
  rw [set_last (h.last_of_unfinished hw hpc)] at hv
  rcases List.mem_append.mp hv with hold | hnew
  · exact h.one v hold
  · rw [List.mem_singleton.mp hnew]
    exact finished_of_isEnd hworker hend hend'

theorem Reported.startRequest (h : Reported t) {nImages : Option ℕ}
    (hok : Undisturbed t (.startRequest nImages))
    (hstep : t.step d (.startRequest nImages) = some u) : Reported u := by
  have hex := h.toExclusive.startRequest hok hstep
  obtain rfl := DriverSystem.step_startRequest hstep
  split at hex
  · next hidle =>
    have hend : ¬ t.manager.state.IsEnd := by
      rw [hidle]
      decide
    have hstate : (t.startRecording nImages).manager.state = t.manager.state := by
      cases nImages <;> rfl
    have hmonitors : (t.startRecording nImages).monitors = t.monitors := by
      cases nImages <;> rfl
    rw [if_pos hidle]
    refine .of_unreported hex (fun hend' => ?_) ?_
    · rw [hstate] at hend'
      exact absurd hend' hend
    · rw [Unreported, hmonitors]
      exact h.unreported hend
  · next hbusy =>
    rw [if_neg hbusy]
    exact h

/-- A monitor that sees the end of a recording is the only one. -/
theorem Reported.observe (h : Reported t) {j : ℕ} (hok : Undisturbed t (.observe j))
    (hstep : t.step d (.observe j) = some u) : Reported u := by
  obtain ⟨hwatching, ⟨hend, rfl⟩ | ⟨-, rfl⟩⟩ := DriverSystem.step_observe hstep
  · have hone : ∀ k : ℕ, (t.monitors.set j .reporting)[k]? = some .reporting → k = j := by
      intro k hk
      by_contra hne
      rw [List.getElem?_set_ne (Ne.symm hne)] at hk
      exact (hok hend).getElem?_ne k hk
    refine ⟨⟨h.one, h.busy⟩, h.returned, fun k hk => ⟨hend, fun k' hk' => ?_⟩⟩
    rw [hone k hk, hone k' hk']
  · exact h

theorem Reported.reset (h : Reported t) {j : ℕ} (hstep : t.step d (.reset j) = some u) :
    Reported u := by
  obtain ⟨hreporting, rfl⟩ := DriverSystem.step_reset hstep
  obtain ⟨hend, hone⟩ := h.seen j hreporting
  refine .of_unreported ⟨h.one, fun w hw hactive => ?_⟩ (fun hend' => ?_) fun hmem => ?_
  · exact absurd (h.returned hend w hw) hactive.2
  · exact absurd hend' (by simp [DriverState.IsEnd])
  · obtain ⟨k, hk⟩ := List.mem_iff_getElem?.mp hmem
    by_cases hkj : k = j
    · subst hkj
      change (t.monitors.set k .watching)[k]? = _ at hk
      rw [List.getElem?_set_self (List.getElem?_eq_some_iff.mp hreporting).1] at hk
      cases hk
    · change (t.monitors.set j .watching)[k]? = _ at hk
      rw [List.getElem?_set_ne (Ne.symm hkj)] at hk
      exact hkj (hone k hk)

/-- Every step of an undisturbed run keeps the invariant. -/
theorem Reported.step (h : Reported t) {e : DriverEvent} (hstep : UndisturbedStep d t e u) :
    Reported u := by
  obtain ⟨hok, hstep⟩ := hstep
  cases e with
  | connect =>
    obtain rfl := Option.some.inj hstep
    have hold : ∀ k : ℕ, (t.monitors ++ [.watching])[k]? = some Monitor.reporting →
        t.monitors[k]? = some .reporting := by
      intro k hk
      rw [List.getElem?_append] at hk
      split at hk
      · exact hk
      · cases List.mem_singleton.mp (List.mem_of_getElem? hk)
    refine ⟨⟨h.one, h.busy⟩, h.returned, fun j hj => ?_⟩
    obtain ⟨hend, hone⟩ := h.seen j (hold j hj)
    exact ⟨hend, fun k hk => hone k (hold k hk)⟩
  | startRequest nImages => exact h.startRequest hok hstep
  | stopRequest =>
    obtain rfl := DriverSystem.step_stopRequest hstep
    exact ⟨⟨h.one, h.busy⟩, h.returned, h.seen⟩
  | stopStore =>
    obtain rfl := DriverSystem.step_stopStore hstep
    refine .of_unreported ⟨h.one, fun _ _ _ => DriverState.noConfusion⟩ (fun hend => ?_) hok
    exact absurd hend (by simp [DriverState.IsEnd])
  | worker k received => exact h.worker hstep
  | observe j => exact h.observe hok hstep
  | reset j => exact h.reset hstep

/-- While a monitor is about to store `idle`, the state stays as it is, and no recording begins. -/
theorem Reported.step_of_reporting (h : Reported t) {j : ℕ}
    (hreporting : t.monitors[j]? = some .reporting) {e : DriverEvent}
    (hstep : UndisturbedStep d t e u) (he : e ≠ .reset j) :
    u.monitors[j]? = some .reporting ∧ u.manager.state = t.manager.state ∧
      u.workers = t.workers := by
  obtain ⟨hend, hone⟩ := h.seen j hreporting
  have hmem : Monitor.reporting ∈ t.monitors := List.mem_of_getElem? hreporting
  obtain ⟨hok, hstep⟩ := hstep
  cases e with
  | connect =>
    obtain rfl := Option.some.inj hstep
    refine ⟨?_, rfl, rfl⟩
    show (t.monitors ++ [.watching])[j]? = _
    rw [List.getElem?_append_left (List.getElem?_eq_some_iff.mp hreporting).1]
    exact hreporting
  | startRequest nImages =>
    have hbusy : t.manager.state ≠ .idle := by
      rintro hidle
      rw [hidle] at hend
      exact absurd hend (by decide)
    obtain rfl := DriverSystem.step_startRequest hstep
    rw [if_neg hbusy]
    exact ⟨hreporting, rfl, rfl⟩
  | stopRequest =>
    obtain rfl := DriverSystem.step_stopRequest hstep
    exact ⟨hreporting, rfl, rfl⟩
  | stopStore => exact absurd hmem hok
  | worker k received =>
    obtain ⟨w, pc, effect, hw, hworker, -⟩ := DriverSystem.step_worker hstep
    exact absurd (h.returned hend w (List.mem_of_getElem? hw)) (workerStep_ne_finished hworker)
  | observe k =>
    obtain ⟨-, ⟨-, rfl⟩ | ⟨hnot, -⟩⟩ := DriverSystem.step_observe hstep
    · exact absurd hmem (hok hend)
    · exact absurd hend hnot
  | reset k =>
    have hk := hone k (DriverSystem.step_reset hstep).1
    exact absurd (congrArg DriverEvent.reset hk) he

theorem reported_of_run {sessions : ℕ} {es : List DriverEvent}
    (hrun : Run (UndisturbedStep d) { monitors := List.replicate sessions .watching } es t) :
    Reported t :=
  hrun.invariant (P := Reported) (fun _ _ _ h hstep => h.step hstep) (reported_start sessions)

/-- **The store of `idle` hits the recording that was reported.** In every undisturbed run, with any
number of sessions, a monitor stores `idle` only while the state is `file_saved` or `error`; and
from the moment at which it saw this state until its store the state is the same, and no recording
has begun. -/
theorem reset_hits_reported {sessions : ℕ} {es : List DriverEvent}
    (hrun : Run (UndisturbedStep d) { monitors := List.replicate sessions .watching } es t)
    (j : ℕ) :
    (∀ u, UndisturbedStep d t (.reset j) u →
      t.manager.state = .fileSaved ∨ t.manager.state = .error) ∧
    ∀ t' es' u, UndisturbedStep d t (.observe j) t' → t'.monitors[j]? = some .reporting →
      Run (Restrict (fun _ e => e ≠ .reset j) (UndisturbedStep d)) t' es' u →
        (u.manager.state = .fileSaved ∨ u.manager.state = .error) ∧
          u.manager.state = t.manager.state ∧ u.workers = t.workers := by
  have h := reported_of_run hrun
  constructor
  · intro u hstep
    exact (h.seen j (DriverSystem.step_reset hstep.2).1).1
  · intro t' es' u hobserve hreporting hlater
    have hsame : t'.manager.state = t.manager.state ∧ t'.workers = t.workers := by
      obtain ⟨-, ⟨-, rfl⟩ | ⟨-, rfl⟩⟩ := DriverSystem.step_observe hobserve.2
      · exact ⟨rfl, rfl⟩
      · exact ⟨rfl, rfl⟩
    obtain ⟨hu, hj, hstate, hworkers⟩ := hlater.invariant
      (P := fun u => Reported u ∧ u.monitors[j]? = some .reporting ∧
        u.manager.state = t.manager.state ∧ u.workers = t.workers)
      (by
        rintro v e u ⟨hv, hj, hstate, hworkers⟩ ⟨he, hstep⟩
        obtain ⟨hj', hstate', hworkers'⟩ := hv.step_of_reporting hj hstep he
        exact ⟨hv.step hstep, hj', hstate'.trans hstate, hworkers'.trans hworkers⟩)
      ⟨h.step hobserve, hreporting, hsame.1, hsame.2⟩
    exact ⟨(hu.seen j hj).1, hstate, hworkers⟩

/-- A recording whose file cannot be created. -/
def failedRecording (k : ℕ) : List DriverEvent :=
  [.startRequest (some 1), .worker k .nothing, .worker k .nothing, .worker k .nothing,
    .worker k (.response .failure), .worker k .nothing]

/-- The state after it, with two sessions. -/
def afterFailure : DriverSystem :=
  { manager := ⟨.error, 0⟩, workers := [⟨1, .finished, 0⟩], monitors := [.watching, .watching] }

/-- The first monitor has seen it. -/
def failureSeen : DriverSystem :=
  { manager := ⟨.error, 0⟩, workers := [⟨1, .finished, 0⟩], monitors := [.reporting, .watching] }

theorem reset_hits_reported_failedRecording :
    Run (UndisturbedStep oneWriter) { monitors := List.replicate 2 .watching } (failedRecording 0)
        afterFailure ∧
      UndisturbedStep oneWriter afterFailure (.observe 0) failureSeen ∧
      ∃ u, Run (Restrict (fun _ e => e ≠ .reset 0) (UndisturbedStep oneWriter)) failureSeen
          [.startRequest (some 1)] u ∧
        (u.manager.state = .fileSaved ∨ u.manager.state = .error) ∧
          u.workers = afterFailure.workers := by
  have hrun : Run (UndisturbedStep oneWriter) { monitors := List.replicate 2 .watching }
      (failedRecording 0) afterFailure := .of_exec_only rfl
  have hobserve : UndisturbedStep oneWriter afterFailure (.observe 0) failureSeen :=
    ⟨fun _ => by decide, rfl⟩
  have hlater : Run (Restrict (fun _ e => e ≠ .reset 0) (UndisturbedStep oneWriter)) failureSeen
      [.startRequest (some 1)] failureSeen :=
    .single ⟨nofun, fun _ hidle => absurd hidle (by decide), rfl⟩
  obtain ⟨hend, -, hworkers⟩ :=
    (reset_hits_reported hrun 0).2 failureSeen _ failureSeen hobserve rfl hlater
  exact ⟨hrun, hobserve, failureSeen, hlater, hend, hworkers⟩

/-- Two monitors see the end of a recording. The second stores `idle` when the next recording is
creating its file. -/
theorem reset_hits_newer :
    ¬ ∀ (d : WriterDriver) (sessions : ℕ) (es : List DriverEvent) (t u : DriverSystem) (j : ℕ),
      Run (Steps.guarded (DriverSystem.step d))
          { monitors := List.replicate sessions .watching } es t →
        t.step d (.reset j) = some u → t.manager.state = .fileSaved ∨ t.manager.state = .error := by
  intro h
  have hrun : Run (Steps.guarded (DriverSystem.step oneWriter))
      { monitors := List.replicate 2 .watching }
      (failedRecording 0 ++ [.observe 0, .observe 1, .reset 0, .startRequest (some 1),
        .worker 1 .nothing])
      { manager := ⟨.creatingFile, 0⟩
        workers := [⟨1, .finished, 0⟩, ⟨1, .send .create 0, 0⟩]
        monitors := [.watching, .reporting] } := .of_exec rfl
  exact absurd (h oneWriter 2 _ _ _ 1 hrun rfl) (by decide)

end Driver

end StdDaq
