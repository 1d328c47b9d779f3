import Mathlib.Data.List.Basic
import StdDaq.Driver.WriterDriver
import StdDaq.Lib.Run

/-!
# Sessions, workers and monitors

`std_det_driver` as a whole. The io thread handles the requests of all websocket sessions, one at a
time: it accepts a start request when the driver state is `idle`, and a stop request stores `stop`
when a recording is on. Each accepted start has a worker thread. Each session has a monitor thread
that watches the state, and that makes it `idle` again after it has seen a recording end.

All of them share one variable, and they store to it without looking: what the io thread or a
monitor read may be out of date when it acts on it. A test and the store that follows are therefore
two steps, with one exception: accepting a start is one step, because spawning the worker changes
nothing that any other thread looks at.

A session that is closed is a monitor that takes no more steps.

## Main results

* `one_recording_at_a_time` — when a second start can be accepted while a worker is at work
-/

namespace StdDaq

namespace Driver

/-- The state of a recording that has ended. -/
def DriverState.IsEnd (state : DriverState) : Prop := state = .fileSaved ∨ state = .error

instance (state : DriverState) : Decidable state.IsEnd :=
  inferInstanceAs (Decidable (state = .fileSaved ∨ state = .error))

/-- A worker thread. -/
structure Worker where
  nImages : ℕ
  pc : WorkerPc
  /-- The number of images sent to the writers so far. -/
  forwarded : ℕ
  deriving DecidableEq, Repr

/-- The io thread: between two requests, or in `stop_recording` after the test. -/
inductive IoThread where
  | ready
  | stopping
  deriving DecidableEq, Repr

/-- A monitor thread: in `wait_for_change_or_timeout`, or about to store `idle` because it saw
`file_saved` or `error`. -/
inductive Monitor where
  | watching
  | reporting
  deriving DecidableEq, Repr

/-- The driver process. Workers stand in the order in which they were accepted. -/
structure DriverSystem where
  manager : StateManager := {}
  io : IoThread := .ready
  workers : List Worker := []
  monitors : List Monitor := []
  deriving DecidableEq, Repr

/-- No monitor is between its look at the state and its store. -/
def Unreported (t : DriverSystem) : Prop := Monitor.reporting ∉ t.monitors

instance (t : DriverSystem) : Decidable (Unreported t) :=
  inferInstanceAs (Decidable (Monitor.reporting ∉ t.monitors))

theorem Unreported.getElem?_ne {t : DriverSystem} (h : Unreported t) (j : ℕ) :
    t.monitors[j]? ≠ some .reporting :=
  fun hj => h (List.mem_of_getElem? hj)

/-- A step of one of the threads. -/
inductive DriverEvent where
  /-- A session is opened. -/
  | connect
  /-- `process_request` with a start command; a valid one has its settings. -/
  | startRequest (nImages : Option ℕ)
  /-- `stop_recording` up to the test. -/
  | stopRequest
  /-- The store in `stop_recording`. -/
  | stopStore
  | worker (k : ℕ) (received : Received)
  /-- Monitor `j` returns from `wait_for_change_or_timeout`. -/
  | observe (j : ℕ)
  /-- Monitor `j` stores `idle`. -/
  | reset (j : ℕ)
  deriving DecidableEq, Repr

/-- What a worker's step does to the shared state. -/
def Effect.onManager (manager : StateManager) : Effect → StateManager
  | .store state => manager.changeState state
  | .forward _ sentImages => manager.updateImageCount sentImages
  | .none | .send _ _ => manager

/-- What a worker's step adds to the number of forwarded images. -/
def Effect.forwards : Effect → ℕ
  | .forward _ _ => 1
  | .none | .store _ | .send _ _ => 0

namespace DriverSystem

variable (d : WriterDriver)

/-- `start_recording`: a worker for a valid request, an error message for any other. -/
def startRecording (t : DriverSystem) : Option ℕ → DriverSystem
  | some nImages => { t with workers := t.workers ++ [⟨nImages, .createFile, 0⟩] }
  | none => t

/-- One step, if the thread can take it. -/
def step (t : DriverSystem) : DriverEvent → Option DriverSystem
  | .connect => some { t with monitors := t.monitors ++ [.watching] }
  | .startRequest nImages =>
    if t.io ≠ .ready then none
    else some (if t.manager.state = .idle then t.startRecording nImages else t)
  | .stopRequest =>
    if t.io ≠ .ready then none
    else some { t with io := if t.manager.isRecording then .stopping else .ready }
  | .stopStore =>
    if t.io ≠ .stopping then none
    else some { t with io := .ready, manager := t.manager.changeState .stop }
  | .worker k received =>
    match t.workers[k]? with
    | none => none
    | some w =>
      match d.step w.nImages t.manager.isRecording w.pc received with
      | none => none
      | some (pc, effect) =>
        some { t with
          manager := effect.onManager t.manager
          workers := t.workers.set k ⟨w.nImages, pc, w.forwarded + effect.forwards⟩ }
  | .observe j =>
    if t.monitors[j]? = some .watching then
      if t.manager.state = .fileSaved ∨ t.manager.state = .error then
        some { t with monitors := t.monitors.set j .reporting }
      else some t
    else none
  | .reset j =>
    if t.monitors[j]? = some .reporting then
      some { t with
        manager := t.manager.changeState .idle
        monitors := t.monitors.set j .watching }
    else none

variable {d} {t u : DriverSystem}

/-- A step of a worker, taken apart. -/
theorem step_worker {k : ℕ} {received : Received} (h : t.step d (.worker k received) = some u) :
    ∃ w pc effect, t.workers[k]? = some w ∧
      d.WorkerStep w.nImages t.manager.isRecording w.pc received pc effect ∧
      u = { t with
        manager := effect.onManager t.manager
        workers := t.workers.set k ⟨w.nImages, pc, w.forwarded + effect.forwards⟩ } := by
  rw [step] at h
  split at h
  · cases h
  · next w hw =>
    split at h
    · cases h
    · next pc effect hstep =>
      exact ⟨w, pc, effect, hw, WriterDriver.workerStep_of_step hstep, (Option.some.inj h).symm⟩

theorem step_startRequest {nImages : Option ℕ} (h : t.step d (.startRequest nImages) = some u) :
    u = if t.manager.state = .idle then t.startRecording nImages else t := by
  rw [step] at h
  split at h
  · cases h
  · exact (Option.some.inj h).symm

theorem step_stopRequest (h : t.step d .stopRequest = some u) :
    u = { t with io := if t.manager.isRecording then .stopping else .ready } := by
  rw [step] at h
  split at h
  · cases h
  · exact (Option.some.inj h).symm

theorem step_stopStore (h : t.step d .stopStore = some u) :
    u = { t with io := .ready, manager := t.manager.changeState .stop } := by
  rw [step] at h
  split at h
  · cases h
  · exact (Option.some.inj h).symm

/-- A monitor looks at the state: it has seen the end of a recording, or nothing of interest. -/
theorem step_observe {j : ℕ} (h : t.step d (.observe j) = some u) :
    t.monitors[j]? = some .watching ∧
      (t.manager.state.IsEnd ∧ u = { t with monitors := t.monitors.set j .reporting } ∨
        ¬ t.manager.state.IsEnd ∧ u = t) := by
  rw [step] at h
  split at h
  · next hwatching =>
    refine ⟨hwatching, ?_⟩
    split at h
    · exact .inl ⟨‹_›, (Option.some.inj h).symm⟩
    · exact .inr ⟨‹_›, (Option.some.inj h).symm⟩
  · cases h

theorem step_reset {j : ℕ} (h : t.step d (.reset j) = some u) :
    t.monitors[j]? = some .reporting ∧
      u = { t with
        manager := t.manager.changeState .idle
        monitors := t.monitors.set j .watching } := by
  rw [step] at h
  split at h
  · exact ⟨‹_›, (Option.some.inj h).symm⟩
  · cases h

end DriverSystem

/-! ### At most one recording -/

/-- All workers but the last have returned. -/
def OneRecording (t : DriverSystem) : Prop := ∀ w ∈ t.workers.dropLast, w.pc = .finished

instance (t : DriverSystem) : Decidable (OneRecording t) :=
  inferInstanceAs (Decidable (∀ w ∈ t.workers.dropLast, w.pc = .finished))

/-- The worker has stored `creating_file` and has not returned. -/
def Worker.Active (w : Worker) : Prop := w.pc ≠ .createFile ∧ w.pc ≠ .finished

instance (w : Worker) : Decidable w.Active :=
  inferInstanceAs (Decidable (w.pc ≠ .createFile ∧ w.pc ≠ .finished))

/-- The step comes at a time when the shared state tells the truth. The state says `idle` until the
worker of an accepted start has stored `creating_file`, and again after a monitor's store; so no
valid start request is handled before that store of an accepted worker, and no monitor makes the
state `idle` while a worker is active. -/
def Orderly (t : DriverSystem) : DriverEvent → Prop
  | .startRequest nImages =>
    nImages.isSome → t.manager.state = .idle → ∀ w ∈ t.workers, w.pc ≠ .createFile
  | .reset _ => ∀ w ∈ t.workers, ¬ w.Active
  | .connect | .stopRequest | .stopStore | .worker _ _ | .observe _ => True

instance (t : DriverSystem) (e : DriverEvent) : Decidable (Orderly t e) :=
  match e with
  | .startRequest nImages => inferInstanceAs (Decidable
      (nImages.isSome → t.manager.state = .idle → ∀ w ∈ t.workers, w.pc ≠ .createFile))
  | .reset _ => inferInstanceAs (Decidable (∀ w ∈ t.workers, ¬ w.Active))
  | .connect | .stopRequest | .stopStore | .worker _ _ | .observe _ =>
    inferInstanceAs (Decidable True)

/-- The steps of an orderly run. -/
def OrderlyStep (d : WriterDriver) : DriverSystem → DriverEvent → DriverSystem → Prop :=
  Restrict Orderly (Steps.guarded (DriverSystem.step d))

/-- The invariant of orderly runs: while a worker is active, the state is not `idle`. -/
structure Exclusive (t : DriverSystem) : Prop where
  one : OneRecording t
  busy : ∀ w ∈ t.workers, w.Active → t.manager.state ≠ .idle

section Exclusive

variable {d : WriterDriver} {t u : DriverSystem}

theorem exclusive_start (monitors : List Monitor) :
    Exclusive { monitors := monitors : DriverSystem } :=
  ⟨by simp [OneRecording], by simp⟩

/-- A start that is accepted in an orderly run finds all earlier workers returned. -/
theorem Exclusive.all_finished (h : Exclusive t) {nImages : ℕ}
    (horder : Orderly t (.startRequest (some nImages))) (hidle : t.manager.state = .idle) :
    ∀ w ∈ t.workers, w.pc = .finished := by
  intro w hw
  by_contra hpc
  exact h.busy w hw ⟨horder rfl hidle w hw, hpc⟩ hidle

theorem Exclusive.startRequest (h : Exclusive t) {nImages : Option ℕ}
    (horder : Orderly t (.startRequest nImages))
    (hstep : t.step d (.startRequest nImages) = some u) : Exclusive u := by
  rw [DriverSystem.step_startRequest hstep]
  split
  · next hidle =>
    cases nImages with
    | none => exact h
    | some n =>
      have hall := h.all_finished horder hidle
      refine ⟨fun w hw => ?_, fun w hw hactive => ?_⟩
      · rw [DriverSystem.startRecording, List.dropLast_concat] at hw
        exact hall w hw
      · rcases List.mem_append.mp hw with hw | hw
        · exact absurd (hall w hw) hactive.2
        · rw [List.mem_singleton.mp hw] at hactive
          exact absurd rfl hactive.1
  · exact h

/-- Only the last worker can take a step. -/
theorem Exclusive.last_of_unfinished (h : Exclusive t) {k : ℕ} {w : Worker}
    (hw : t.workers[k]? = some w) (hpc : w.pc ≠ .finished) : k + 1 = t.workers.length := by
  obtain ⟨hk, rfl⟩ := List.getElem?_eq_some_iff.mp hw
  by_contra hne
  have hk' : k < t.workers.dropLast.length := by rw [List.length_dropLast]; omega
  refine hpc (h.one _ ?_)
  rw [← List.getElem_dropLast hk']
  exact List.getElem_mem hk'

theorem set_last {α : Type*} {l : List α} {k : ℕ} (hk : k + 1 = l.length) (a : α) :
    l.set k a = l.dropLast ++ [a] := by
  rw [List.set_eq_take_cons_drop a (by omega), List.dropLast_eq_take, ← hk, Nat.add_sub_cancel,
    List.drop_eq_nil_of_le (by omega)]

/-- No worker stores `idle`. -/
theorem workerStep_onManager_ne_idle {nImages : ℕ} {isRecording : Bool} {pc pc' : WorkerPc}
    {received : Received} {effect : Effect} {manager : StateManager}
    (h : d.WorkerStep nImages isRecording pc received pc' effect)
    (hpc : pc = .createFile ∨ manager.state ≠ .idle) :
    (effect.onManager manager).state ≠ .idle := by
  cases h with
  | createFile | waitForFirstImage | recordState | saveFile | fileSaved | fail =>
    exact DriverState.noConfusion
  | sendCommand | sentAll | timeout | refused | acknowledged | collected | goOn | endRecording
  | noImage | firstImage | nextImage | recordForward => exact hpc.resolve_left nofun

theorem workerStep_ne_finished {nImages : ℕ} {isRecording : Bool} {pc pc' : WorkerPc}
    {received : Received} {effect : Effect}
    (h : d.WorkerStep nImages isRecording pc received pc' effect) : pc ≠ .finished := by
  rintro rfl
  cases h

theorem Exclusive.worker (h : Exclusive t) {k : ℕ} {received : Received}
    (hstep : t.step d (.worker k received) = some u) : Exclusive u := by
  obtain ⟨w, pc, effect, hw, hworker, rfl⟩ := DriverSystem.step_worker hstep
  have hpc := workerStep_ne_finished hworker
  have hlast := h.last_of_unfinished hw hpc
  have hmem : w ∈ t.workers := List.mem_of_getElem? hw
  refine ⟨fun v hv => ?_, fun v hv hactive => ?_⟩
  · change v ∈ (t.workers.set k _).dropLast at hv
    rw [set_last hlast, List.dropLast_concat] at hv
    exact h.one v hv
  · refine workerStep_onManager_ne_idle hworker ?_
    by_cases hfirst : w.pc = .createFile
    · exact .inl hfirst
    · exact .inr (h.busy w hmem ⟨hfirst, hpc⟩)

/-- Every step of an orderly run keeps the invariant. -/
theorem Exclusive.step (h : Exclusive t) {e : DriverEvent} (hstep : OrderlyStep d t e u) :
    Exclusive u := by
  obtain ⟨horder, hstep⟩ := hstep
  cases e with
  | connect =>
    obtain rfl := Option.some.inj hstep
    exact ⟨h.one, h.busy⟩
  | startRequest nImages => exact h.startRequest horder hstep
  | stopRequest =>
    rw [DriverSystem.step_stopRequest hstep]
    exact ⟨h.one, h.busy⟩
  | stopStore =>
    rw [DriverSystem.step_stopStore hstep]
    exact ⟨h.one, fun _ _ _ => DriverState.noConfusion⟩
  | worker k received => exact h.worker hstep
  | observe j =>
    obtain ⟨-, ⟨-, rfl⟩ | ⟨-, rfl⟩⟩ := DriverSystem.step_observe hstep
    · exact ⟨h.one, h.busy⟩
    · exact h
  | reset j =>
    obtain ⟨-, rfl⟩ := DriverSystem.step_reset hstep
    exact ⟨h.one, fun w hw hactive => absurd hactive (horder w hw)⟩

end Exclusive

/-- **At most one recording at a time.** In every orderly run, for every number of sessions, all
workers but the last have returned, and a start that is accepted finds all of them returned. -/
theorem one_recording_at_a_time {d : WriterDriver} {monitors : List Monitor}
    {es : List DriverEvent} {t : DriverSystem}
    (hrun : Run (OrderlyStep d) { monitors := monitors } es t) :
    OneRecording t ∧ ∀ nImages u, OrderlyStep d t (.startRequest nImages) u →
      u.workers ≠ t.workers → ∀ w ∈ t.workers, w.pc = .finished := by
  have h := hrun.invariant (P := Exclusive) (fun _ _ _ hpre hstep => hpre.step hstep)
    (exclusive_start monitors)
  refine ⟨h.one, fun nImages u hstep hne => ?_⟩
  have hu := DriverSystem.step_startRequest hstep.2
  -- a request that adds a worker is valid and was handled in state `idle`
  split at hu
  · next hidle =>
    cases nImages with
    | none => exact absurd (congrArg DriverSystem.workers hu) hne
    | some n => exact h.all_finished hstep.1 hidle
  · exact absurd (congrArg DriverSystem.workers hu) hne

/-- One writer, and no metadata writer. -/
def oneWriter : WriterDriver := ⟨1, false, by decide⟩

/-- A recording whose file cannot be created, a monitor that reports it, and a second start. -/
def twoRecordings : List DriverEvent :=
  [.startRequest (some 1), .worker 0 .nothing, .worker 0 .nothing, .worker 0 .nothing,
    .worker 0 (.response .failure), .worker 0 .nothing, .observe 0, .reset 0,
    .startRequest (some 1)]

theorem one_recording_at_a_time_twoRecordings :
    ∃ t, Run (OrderlyStep oneWriter) { monitors := [.watching] } twoRecordings t ∧
      t.workers.length = 2 ∧ OneRecording t :=
  have hrun : Run (OrderlyStep oneWriter) { monitors := [.watching] } twoRecordings _ :=
    .of_exec_only rfl
  ⟨_, hrun, rfl, (one_recording_at_a_time hrun).1⟩

/-- Two start requests before the first worker has taken its first step. -/
theorem two_recordings_at_once :
    ∃ t, Run (Steps.guarded (DriverSystem.step oneWriter)) { monitors := [.watching] }
      [.startRequest (some 1), .startRequest (some 1)] t ∧ ¬ OneRecording t :=
  ⟨_, .of_exec rfl, by decide⟩

end Driver

end StdDaq
