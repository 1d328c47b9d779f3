import StdDaq.Driver.Sessions

/-!
# What becomes of a stop

A stop request stores `stop` when the state says that a recording is on, and the worker finds out
about it at the next test of its loop. But the worker stores its own progress in the same variable:
`waiting_for_first_image` before the loop, and `recording` when the first image has arrived. A stop
that is stored before one of these stores is overwritten, and the recording goes on as if nothing
had happened.

A stop is safe once both stores are behind the worker. It is also safe between them, in the loop
that waits for the first image, unless that image arrives before the next test.

## Main results

* `stop_not_lost` — a stop that comes at a good time ends the recording
* `stop_overwritten` — a stop that comes while the files are being created does not
-/

namespace StdDaq

namespace Driver

/-- The state after a start has been accepted. -/
def startedRecording (nImages : ℕ) : DriverSystem := { workers := [⟨nImages, .createFile, 0⟩] }

/-- The number of images sent to the writers. -/
def DriverSystem.forwarded (t : DriverSystem) : ℕ := (t.workers.map Worker.forwarded).sum

/-- The steps of one recording's worker and of stop requests. -/
def OfRecording (_ : DriverSystem) : DriverEvent → Prop
  | .stopRequest | .stopStore | .worker _ _ => True
  | .connect | .startRequest _ | .observe _ | .reset _ => False

instance (t : DriverSystem) (e : DriverEvent) : Decidable (OfRecording t e) :=
  match e with
  | .stopRequest | .stopStore | .worker _ _ => isTrue trivial
  | .connect | .startRequest _ | .observe _ | .reset _ => isFalse id

/-- The worker is on its way to a store that overwrites the state: it has not entered the recording
loop yet, or it has received the first image and has not stored `recording`. -/
def WorkerPc.storeAhead : WorkerPc → Bool
  | .createFile | .waitForFirstImage | .recordState _ => true
  | .send phase _ | .acknowledge phase _ _ => phase = .create
  | .recordTest _ | .recordReceive _ | .recordForward _ | .saveFile | .fileSaved | .fail
  | .finished => false

/-- The step comes at a good time: a stop is stored when no overwriting store is ahead, and the
first image is received while the state says that the recording is on. -/
def WellTimed (t : DriverSystem) : DriverEvent → Prop
  | .stopStore => ∀ w ∈ t.workers, w.pc.storeAhead = false
  | .worker _ received => received = .image → (∃ w ∈ t.workers, w.pc = .recordReceive 0) →
      t.manager.isRecording = true
  | .stopRequest | .connect | .startRequest _ | .observe _ | .reset _ => True

instance (t : DriverSystem) (e : DriverEvent) : Decidable (WellTimed t e) :=
  match e with
  | .stopStore => inferInstanceAs (Decidable (∀ w ∈ t.workers, w.pc.storeAhead = false))
  | .worker _ received => inferInstanceAs (Decidable (received = .image →
      (∃ w ∈ t.workers, w.pc = .recordReceive 0) → t.manager.isRecording = true))
  | .stopRequest | .connect | .startRequest _ | .observe _ | .reset _ => isTrue trivial

/-- The steps of one recording with stops that come at a good time. -/
def TimelyStep (d : WriterDriver) : DriverSystem → DriverEvent → DriverSystem → Prop :=
  Restrict (fun t e => OfRecording t e ∧ WellTimed t e) (Steps.guarded (DriverSystem.step d))

/-- There is one worker. -/
def OneWorker (t : DriverSystem) : Prop := ∃ w, t.workers = [w]

/-- An image may still be forwarded without another test of the loop. -/
def WorkerPc.imageInFlight : WorkerPc → ℕ
  | .recordReceive _ | .recordForward _ => 1
  | _ => 0

/-- The recording is ending: the state says so, no store to the contrary is ahead, and at most one
image beyond the first `n` will be forwarded. -/
structure Ending (n : ℕ) (t : DriverSystem) : Prop where
  worker : ∃ w, t.workers = [w] ∧ w.pc.storeAhead = false ∧
    w.forwarded + w.pc.imageInFlight ≤ n + 1
  ended : t.manager.isRecording = false

section Ending

variable {d : WriterDriver} {t u : DriverSystem} {e : DriverEvent}

/-- A step of the only worker. -/
theorem step_single {w : Worker} (hw : t.workers = [w]) {k : ℕ} {received : Received}
    (h : t.step d (.worker k received) = some u) :
    ∃ pc effect, d.WorkerStep w.nImages t.manager.isRecording w.pc received pc effect ∧
      u = { t with
        manager := effect.onManager t.manager
        workers := [⟨w.nImages, pc, w.forwarded + effect.forwards⟩] } := by
  obtain ⟨v, pc, effect, hv, hworker, rfl⟩ := DriverSystem.step_worker h
  rw [hw] at hv ⊢
  cases k with
  | zero =>
    obtain rfl := Option.some.inj hv
    exact ⟨pc, effect, hworker, rfl⟩
  | succ k => simp at hv

theorem OneWorker.step (h : OneWorker t) (hstep : TimelyStep d t e u) : OneWorker u := by
  obtain ⟨⟨hof, -⟩, hstep⟩ := hstep
  obtain ⟨w, hw⟩ := h
  cases e with
  | stopRequest =>
    rw [DriverSystem.step_stopRequest hstep]
    exact ⟨w, hw⟩
  | stopStore =>
    rw [DriverSystem.step_stopStore hstep]
    exact ⟨w, hw⟩
  | worker k received =>
    obtain ⟨pc, effect, -, rfl⟩ := step_single hw hstep
    exact ⟨_, rfl⟩
  | connect | startRequest | observe | reset => exact absurd hof id

/-- A stop that is stored at a good time ends the recording. -/
theorem Ending.of_stop (h : OneWorker t) (hstep : TimelyStep d t .stopStore u) :
    Ending t.forwarded u := by
  obtain ⟨w, hw⟩ := h
  obtain ⟨⟨-, htimed⟩, hstep⟩ := hstep
  rw [DriverSystem.step_stopStore hstep]
  refine ⟨⟨w, hw, htimed w (hw ▸ List.mem_singleton.mpr rfl), ?_⟩, rfl⟩
  have hforwarded : t.forwarded = w.forwarded := by simp [DriverSystem.forwarded, hw]
  have hflight : w.pc.imageInFlight ≤ 1 := by
    cases w.pc <;> simp [WorkerPc.imageInFlight]
  omega

/-- After a phase other than the first, no overwriting store is ahead. -/
theorem storeAhead_afterAcknowledge {phase : Phase} (hphase : decide (phase = .create) = false)
    (b : Bool) :
    (WriterDriver.afterAcknowledge phase b).storeAhead = false ∧
      (WriterDriver.afterAcknowledge phase b).imageInFlight = 0 := by
  cases phase with
  | create => cases hphase
  | confirm => cases b <;> exact ⟨rfl, rfl⟩
  | close => cases b <;> exact ⟨rfl, rfl⟩

/-- What a worker does while the recording is ending. -/
theorem workerStep_ending {nImages : ℕ} {pc pc' : WorkerPc} {received : Received}
    {effect : Effect} {manager : StateManager}
    (hstep : d.WorkerStep nImages manager.isRecording pc received pc' effect)
    (hahead : pc.storeAhead = false) (hended : manager.isRecording = false)
    (hfirst : received = .image → pc ≠ .recordReceive 0) :
    pc'.storeAhead = false ∧ (effect.onManager manager).isRecording = false ∧
      effect.forwards + pc'.imageInFlight ≤ pc.imageInFlight := by
  cases hstep with
  | createFile | waitForFirstImage | recordState => cases hahead
  | sendCommand | sentAll | timeout | acknowledged => exact ⟨hahead, hended, le_rfl⟩
  | refused | collected =>
    obtain ⟨hahead', hflight⟩ := storeAhead_afterAcknowledge hahead _
    refine ⟨hahead', hended, ?_⟩
    rw [hflight]
    exact Nat.zero_le _
  | goOn _ hrec =>
    rw [hended] at hrec
    cases hrec
  | firstImage => exact absurd rfl (hfirst rfl)
  | endRecording | nextImage | recordForward => exact ⟨rfl, hended, le_rfl⟩
  | noImage => exact ⟨rfl, hended, Nat.zero_le _⟩
  | saveFile | fileSaved | fail => exact ⟨rfl, rfl, le_rfl⟩

/-- Nothing revives a recording that is ending. -/
theorem Ending.step {n : ℕ} (h : Ending n t) (hstep : TimelyStep d t e u) : Ending n u := by
  obtain ⟨⟨hof, htimed⟩, hstep⟩ := hstep
  obtain ⟨⟨w, hw, hahead, hforwarded⟩, hended⟩ := h
  cases e with
  | stopRequest =>
    rw [DriverSystem.step_stopRequest hstep]
    exact ⟨⟨w, hw, hahead, hforwarded⟩, hended⟩
  | stopStore =>
    rw [DriverSystem.step_stopStore hstep]
    exact ⟨⟨w, hw, hahead, hforwarded⟩, rfl⟩
  | worker k received =>
    obtain ⟨pc, effect, hworker, rfl⟩ := step_single hw hstep
    have hfirst : received = .image → w.pc ≠ .recordReceive 0 := fun himage hpc => by
      have := htimed himage ⟨w, hw ▸ List.mem_singleton.mpr rfl, hpc⟩
      rw [hended] at this
      cases this
    obtain ⟨hahead', hended', hflight⟩ := workerStep_ending hworker hahead hended hfirst
    refine ⟨⟨_, rfl, hahead', ?_⟩, hended'⟩
    change w.forwarded + effect.forwards + pc.imageInFlight ≤ n + 1
    omega
  | connect | startRequest | observe | reset => exact absurd hof id

end Ending

/-- **A stop is not lost**, when it is stored at a good time. In every interleaving of a recording's
worker with stop requests, after such a stop the state is never again that of a recording that
waits for images or receives them, and at most one more image is forwarded. -/
theorem stop_not_lost {d : WriterDriver} {nImages : ℕ} {es es' : List DriverEvent}
    {t u v : DriverSystem} (hrun : Run (TimelyStep d) (startedRecording nImages) es t)
    (hstop : TimelyStep d t .stopStore u) (hlater : Run (TimelyStep d) u es' v) :
    v.manager.state ≠ .waitingForFirstImage ∧ v.manager.state ≠ .recording ∧
      v.forwarded ≤ t.forwarded + 1 := by
  have hone : OneWorker t := hrun.invariant (P := OneWorker)
    (fun _ _ _ h hstep => h.step hstep) ⟨_, rfl⟩
  obtain ⟨⟨w, hw, -, hforwarded⟩, hended⟩ := hlater.invariant (P := Ending t.forwarded)
    (fun _ _ _ h hstep => h.step hstep) (.of_stop hone hstop)
  refine ⟨fun hstate => ?_, fun hstate => ?_, ?_⟩
  · rw [StateManager.isRecording, hstate] at hended
    cases hended
  · rw [StateManager.isRecording, hstate] at hended
    cases hended
  · have : v.forwarded = w.forwarded := by simp [DriverSystem.forwarded, hw]
    omega

/-- The recording of up to three images with one writer, until the first image is with the
writer and the worker waits for the second. -/
def untilSecondImage : List DriverEvent :=
  [.worker 0 .nothing, .worker 0 .nothing, .worker 0 .nothing, .worker 0 (.response .success),
    .worker 0 .nothing, .worker 0 .nothing, .worker 0 .nothing, .worker 0 .image,
    .worker 0 .nothing, .worker 0 .nothing, .worker 0 .nothing, .stopRequest]

/-- The state in which the stop finds the worker. -/
def waitingForSecond : DriverSystem :=
  { manager := ⟨.recording, 1⟩, io := .stopping, workers := [⟨3, .recordReceive 1, 1⟩] }

theorem stop_not_lost_untilSecondImage :
    Run (TimelyStep oneWriter) (startedRecording 3) untilSecondImage waitingForSecond ∧
      ∃ u v, TimelyStep oneWriter waitingForSecond .stopStore u ∧
        Run (TimelyStep oneWriter) u [.worker 0 .image, .worker 0 .nothing, .worker 0 .nothing] v ∧
          v.forwarded = 2 ∧ v.manager.state ≠ .recording := by
  have hrun : Run (TimelyStep oneWriter) (startedRecording 3) untilSecondImage waitingForSecond :=
    .of_exec_only rfl
  have hstop : TimelyStep oneWriter waitingForSecond .stopStore
      { manager := ⟨.stop, 1⟩, workers := [⟨3, .recordReceive 1, 1⟩] } :=
    ⟨⟨trivial, by decide⟩, rfl⟩
  have hlater : Run (TimelyStep oneWriter)
      { manager := ⟨.stop, 1⟩, workers := [⟨3, .recordReceive 1, 1⟩] }
      [.worker 0 .image, .worker 0 .nothing, .worker 0 .nothing]
      { manager := ⟨.stop, 2⟩, workers := [⟨3, .send .confirm 0, 2⟩] } := .of_exec_only rfl
  exact ⟨hrun, _, _, hstop, hlater, rfl, (stop_not_lost hrun hstop hlater).2.1⟩

/-- The rest of a recording of two images, after the command to create the file. -/
def recordTwoImages : List DriverEvent :=
  [.worker 0 .nothing, .worker 0 .nothing, .worker 0 (.response .success), .worker 0 .nothing,
    .worker 0 .nothing, .worker 0 .nothing, .worker 0 .image, .worker 0 .nothing,
    .worker 0 .nothing, .worker 0 .nothing, .worker 0 .image, .worker 0 .nothing]

/-- The state in which an early stop finds the worker. -/
def creatingFiles : DriverSystem :=
  { manager := ⟨.creatingFile, 0⟩, io := .stopping, workers := [⟨2, .send .create 0, 0⟩] }

/-- A stop that is stored while the files are being created: the recording goes on. -/
theorem stop_overwritten :
    Run (Restrict OfRecording (Steps.guarded (DriverSystem.step oneWriter)))
        (startedRecording 2) [.worker 0 .nothing, .stopRequest] creatingFiles ∧
      ∃ u v, Steps.guarded (DriverSystem.step oneWriter) creatingFiles .stopStore u ∧
        u.manager.state = .stop ∧
        Run (Restrict OfRecording (Steps.guarded (DriverSystem.step oneWriter))) u
          recordTwoImages v ∧
        v.manager.state = .recording ∧ v.forwarded = creatingFiles.forwarded + 2 := by
  refine ⟨.of_exec_only rfl, { manager := ⟨.stop, 0⟩, workers := [⟨2, .send .create 0, 0⟩] },
    { manager := ⟨.recording, 2⟩, workers := [⟨2, .recordTest 2, 2⟩] }, rfl, rfl,
    .of_exec_only rfl, rfl, rfl⟩

end Driver

end StdDaq
