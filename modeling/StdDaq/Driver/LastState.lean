import StdDaq.Driver.IdleReset

/-!
# How a recording ends

A monitor brings the driver back to `idle` when it sees `file_saved` or `error`, so a worker has to
leave one of the two behind. It passes three phases in which a writer can refuse or not answer.
After the first and the last of them it stores `error` when something is missing. After the second,
the confirmation of the last image, it just returns: the state stays what it was during the
recording, and nothing ever changes it again.

## Main definitions

* `WorkerRun` — a worker thread with a pattern of responses
* `Wedged` — a driver that will not accept a start any more

## Main results

* `last_state_iff` — when the last state of a recording is `file_saved` or `error`
* `wedged_forever` — what becomes of the driver otherwise
-/

namespace StdDaq

namespace Driver

/-- What the writers answer in each phase, if they do. -/
abbrev ResponsePattern : Type := Phase → ℕ → Option ResponseCode

/-- All writers answer `SUCCESS` in a phase. -/
def ResponsePattern.AllSucceed (answers : ResponsePattern) (d : WriterDriver) (phase : Phase) :
    Prop :=
  ∀ i < d.nSockets, answers phase i = some .success

/-- The worker thread by itself. -/
structure WorkerRun where
  pc : WorkerPc := .createFile
  /-- The last state the thread has set. -/
  last : Option DriverState := none
  deriving DecidableEq, Repr

/-- What the worker does not control: whether `is_recording` is true at the time, which depends on
stop requests, and whether an image has arrived. -/
structure WorkerEvent where
  isRecording : Bool
  imageArrives : Bool
  deriving DecidableEq, Repr

namespace WorkerRun

variable (d : WriterDriver) (nImages : ℕ) (answers : ResponsePattern)

/-- What the next step receives. -/
def receive (imageArrives : Bool) : WorkerPc → Received
  | .acknowledge phase i _ =>
    if i < d.nSockets then
      match answers phase i with
      | none => .nothing
      | some code => .response code
    else .nothing
  | .recordReceive _ => if imageArrives then .image else .nothing
  | _ => .nothing

/-- One step of the thread. -/
def step (t : WorkerRun) (e : WorkerEvent) : Option WorkerRun :=
  (d.step nImages e.isRecording t.pc (receive d answers e.imageArrives t.pc)).map
    fun (pc, effect) =>
      { pc
        last := match effect with
          | .store state => some state
          | _ => t.last }

end WorkerRun

variable {d : WriterDriver} {nImages : ℕ} {answers : ResponsePattern} {t u : WorkerRun}

/-! ### Where the thread is, and what has been answered -/

/-- The phases that have been passed. -/
def WorkerPc.passed : WorkerPc → List Phase
  | .createFile | .fail | .finished => []
  | .send phase _ | .acknowledge phase _ _ =>
    match phase with
    | .create => []
    | .confirm => [.create]
    | .close => [.create, .confirm]
  | .waitForFirstImage | .recordTest _ | .recordReceive _ | .recordState _ | .recordForward _ =>
    [.create]
  | .saveFile | .fileSaved => [.create, .confirm]

/-- The condition under which the thread stores an end state. -/
def ResponsePattern.Concludes (answers : ResponsePattern) (d : WriterDriver) : Prop :=
  ¬ answers.AllSucceed d .create ∨ answers.AllSucceed d .confirm

/-- The invariant of the thread. -/
structure Answered (d : WriterDriver) (answers : ResponsePattern) (t : WorkerRun) : Prop where
  passed : ∀ phase ∈ t.pc.passed, answers.AllSucceed d phase
  /-- The loop of `did_all_writers_acknowledge` counts answers. -/
  counted : ∀ phase i n, t.pc = .acknowledge phase i n →
    i ≤ d.nSockets ∧ n ≤ i ∧ (n = i ↔ ∀ j < i, answers phase j = some .success)
  failed : t.pc = .fail → answers.Concludes d
  finished : t.pc = .finished → ((∃ state ∈ t.last, state.IsEnd) ↔ answers.Concludes d)
  /-- Nothing else stores an end state. -/
  running : t.pc ≠ .finished → ∀ state ∈ t.last, ¬ state.IsEnd

/-- A thread in the middle of its work. -/
theorem answered_of_passed {pc : WorkerPc} {last : Option DriverState}
    (hpassed : ∀ phase ∈ pc.passed, answers.AllSucceed d phase)
    (hcounted : ∀ phase i n, pc ≠ .acknowledge phase i n) (hfail : pc ≠ .fail)
    (hfinished : pc ≠ .finished) (hlast : ∀ state ∈ last, ¬ state.IsEnd) :
    Answered d answers ⟨pc, last⟩ where
  passed := hpassed
  counted phase i n h := absurd h (hcounted phase i n)
  failed h := absurd h hfail
  finished h := absurd h hfinished
  running _ := hlast

/-- A thread that collects answers. -/
theorem answered_acknowledge {phase : Phase} {i n : ℕ} {last : Option DriverState}
    (hpassed : ∀ phase' ∈ (WorkerPc.send phase 0).passed, answers.AllSucceed d phase')
    (hi : i ≤ d.nSockets) (hn : n ≤ i ∧ (n = i ↔ ∀ j < i, answers phase j = some .success))
    (hlast : ∀ state ∈ last, ¬ state.IsEnd) :
    Answered d answers ⟨.acknowledge phase i n, last⟩ where
  passed := hpassed
  counted := by
    rintro phase' i' n' ⟨⟩
    exact ⟨hi, hn⟩
  failed := nofun
  finished := nofun
  running _ := hlast

/-- After a phase: what was counted decides where the thread goes. -/
theorem answered_afterAcknowledge {phase : Phase} {ok : Bool} {last : Option DriverState}
    (hpassed : ∀ phase' ∈ (WorkerPc.send phase 0).passed, answers.AllSucceed d phase')
    (hok : ok = true ↔ answers.AllSucceed d phase) (hlast : ∀ state ∈ last, ¬ state.IsEnd) :
    Answered d answers ⟨WriterDriver.afterAcknowledge phase ok, last⟩ := by
  have hnotFinished : ∀ {pc : WorkerPc}, pc = .fail → answers.Concludes d →
      Answered d answers ⟨pc, last⟩ := by
    rintro pc rfl hconcludes
    exact ⟨nofun, nofun, fun _ => hconcludes, nofun, fun _ => hlast⟩
  cases phase with
  | create =>
    cases ok with
    | true =>
      refine answered_of_passed (fun phase hmem => ?_) nofun nofun nofun hlast
      rw [List.mem_singleton.mp hmem]
      exact hok.mp rfl
    | false => exact hnotFinished rfl (.inl fun hall => Bool.noConfusion (hok.mpr hall))
  | confirm =>
    have hcreate : answers.AllSucceed d .create := hpassed _ List.mem_cons_self
    cases ok with
    | true =>
      refine answered_of_passed (fun phase hmem => ?_) nofun nofun nofun hlast
      rcases List.mem_cons.mp hmem with rfl | hmem
      · exact hcreate
      · rw [List.mem_singleton.mp hmem]
        exact hok.mp rfl
    | false =>
      -- the thread returns, and what it has stored is no end state
      refine ⟨nofun, nofun, nofun, fun _ => ?_, fun hpc => absurd rfl hpc⟩
      constructor
      · rintro ⟨state, hmem, hend⟩
        exact absurd hend (hlast state hmem)
      · rintro (hnot | hall)
        · exact absurd hcreate hnot
        · exact Bool.noConfusion (hok.mpr hall)
  | close =>
    cases ok with
    | true => exact answered_of_passed hpassed nofun nofun nofun hlast
    | false => exact hnotFinished rfl (.inr (hpassed _ (by simp [WorkerPc.passed])))

/-- The last step of the thread. -/
theorem answered_finished {state : DriverState} (hend : state.IsEnd)
    (hconcludes : answers.Concludes d) : Answered d answers ⟨.finished, some state⟩ where
  passed := nofun
  counted := nofun
  failed := nofun
  finished _ := ⟨fun _ => hconcludes, fun _ => ⟨state, rfl, hend⟩⟩
  running h := absurd rfl h

theorem workerRun_receive {imageArrives : Bool} {phase : Phase} {i n : ℕ}
    (hi : i < d.nSockets) :
    WorkerRun.receive d answers imageArrives (.acknowledge phase i n) =
      match answers phase i with
      | none => .nothing
      | some code => .response code :=
  if_pos hi

/-- The next answer is counted. -/
theorem counted_succ {phase : Phase} {i n m : ℕ} (hn : n ≤ i)
    (hcount : n = i ↔ ∀ j < i, answers phase j = some .success)
    (hm : m = n + 1 ∧ answers phase i = some .success ∨ m = n ∧ answers phase i = none) :
    m ≤ i + 1 ∧ (m = i + 1 ↔ ∀ j < i + 1, answers phase j = some .success) := by
  rcases hm with ⟨rfl, hanswer⟩ | ⟨rfl, hanswer⟩
  · refine ⟨Nat.succ_le_succ hn, ?_⟩
    rw [Nat.add_right_cancel_iff, hcount]
    constructor
    · intro h j hj
      rcases Nat.lt_succ_iff_lt_or_eq.mp hj with hlt | rfl
      · exact h j hlt
      · exact hanswer
    · intro h j hj
      exact h j (Nat.lt_succ_of_lt hj)
  · refine ⟨Nat.le_succ_of_le hn, ?_⟩
    constructor
    · intro h
      omega
    · intro h
      rw [h i (Nat.lt_succ_self i)] at hanswer
      cases hanswer

theorem Answered.step {e : WorkerEvent} (h : Answered d answers t)
    (hstep : t.step d nImages answers e = some u) : Answered d answers u := by
  obtain ⟨⟨pc', effect⟩, hworker, rfl⟩ := Option.map_eq_some_iff.mp hstep
  have hworker := WriterDriver.workerStep_of_step hworker
  obtain ⟨pc, last⟩ := t
  obtain ⟨received, hreceived⟩ :
      ∃ received, WorkerRun.receive d answers e.imageArrives pc = received := ⟨_, rfl⟩
  change d.WorkerStep nImages e.isRecording pc (WorkerRun.receive d answers e.imageArrives pc)
    pc' effect at hworker
  rw [hreceived] at hworker
  have hlast : pc ≠ .finished → ∀ state ∈ last, ¬ state.IsEnd := h.running
  have hstored : ∀ {state : DriverState}, ¬ state.IsEnd →
      ∀ state' ∈ some state, ¬ state'.IsEnd := by
    rintro state hnot state' ⟨⟩
    exact hnot
  cases hworker with
  | createFile => exact answered_of_passed nofun nofun nofun nofun (hstored (by decide))
  | sendCommand hi => exact answered_of_passed h.passed nofun nofun nofun (hlast nofun)
  | sentAll hi =>
    exact answered_acknowledge h.passed (Nat.zero_le _) ⟨le_rfl, by simp⟩ (hlast nofun)
  | @timeout phase i n hi =>
    obtain ⟨-, hn, hcount⟩ := h.counted phase i n rfl
    have hnone : answers phase i = none := by
      rw [workerRun_receive hi] at hreceived
      split at hreceived
      · assumption
      · cases hreceived
    exact answered_acknowledge h.passed hi (counted_succ hn hcount (.inr ⟨rfl, hnone⟩))
      (hlast nofun)
  | @refused phase i n hi =>
    refine answered_afterAcknowledge h.passed ⟨nofun, fun hall => ?_⟩ (hlast nofun)
    rw [workerRun_receive hi, hall i hi] at hreceived
    cases hreceived
  | @acknowledged phase i n hi =>
    obtain ⟨-, hn, hcount⟩ := h.counted phase i n rfl
    have hsuccess : answers phase i = some .success := by
      rw [workerRun_receive hi] at hreceived
      split at hreceived
      · cases hreceived
      · next code hcode =>
        rw [hcode, Received.response.inj hreceived]
    exact answered_acknowledge h.passed hi (counted_succ hn hcount (.inl ⟨rfl, hsuccess⟩))
      (hlast nofun)
  | @collected phase i n hi =>
    obtain ⟨hle, hn, hcount⟩ := h.counted phase i n rfl
    obtain rfl : i = d.nSockets := le_antisymm hle hi
    refine answered_afterAcknowledge h.passed ?_ (hlast nofun)
    rw [decide_eq_true_iff, hcount]
    rfl
  | waitForFirstImage => exact answered_of_passed h.passed nofun nofun nofun (hstored (by decide))
  | goOn hi hrec => exact answered_of_passed h.passed nofun nofun nofun (hlast nofun)
  | endRecording hend => exact answered_of_passed h.passed nofun nofun nofun (hlast nofun)
  | noImage => exact answered_of_passed h.passed nofun nofun nofun (hlast nofun)
  | firstImage => exact answered_of_passed h.passed nofun nofun nofun (hlast nofun)
  | nextImage hi => exact answered_of_passed h.passed nofun nofun nofun (hlast nofun)
  | recordState => exact answered_of_passed h.passed nofun nofun nofun (hstored (by decide))
  | recordForward => exact answered_of_passed h.passed nofun nofun nofun (hlast nofun)
  | saveFile => exact answered_of_passed h.passed nofun nofun nofun (hstored (by decide))
  | fileSaved => exact answered_finished (.inl rfl) (.inr (h.passed _ (by simp [WorkerPc.passed])))
  | fail => exact answered_finished (.inr rfl) (h.failed rfl)

theorem answered_of_run {es : List WorkerEvent}
    (hrun : Run (Steps.guarded (WorkerRun.step d nImages answers)) {} es t) :
    Answered d answers t := by
  refine hrun.invariant (P := Answered d answers) (fun _ _ _ h hstep => h.step hstep) ?_
  exact answered_of_passed nofun nofun nofun nofun nofun

/-- **When a recording ends in an end state.** For every pattern of responses, every number of
images and every timing of stops, the last state of a worker that has returned is `file_saved` or
`error` unless all writers created their files and one of them did not confirm the last image. -/
theorem last_state_iff (d : WriterDriver) (nImages : ℕ) (answers : ResponsePattern)
    {es : List WorkerEvent}
    (hrun : Run (Steps.guarded (WorkerRun.step d nImages answers)) {} es t)
    (hreturned : t.pc = .finished) :
    (∃ state, t.last = some state ∧ (state = .fileSaved ∨ state = .error)) ↔
      ¬ answers.AllSucceed d .create ∨ answers.AllSucceed d .confirm :=
  (answered_of_run hrun).finished hreturned

/-- The one writer answers the first phases, and then no more. -/
def answersUntil (phases : List Phase) : ResponsePattern :=
  fun phase _ => if phase ∈ phases then some .success else none

/-- A recording without images. -/
def emptyRecordingEvents (n : ℕ) : List WorkerEvent := List.replicate n ⟨false, false⟩

theorem last_state_iff_saved :
    ∃ t, Run (Steps.guarded (WorkerRun.step oneWriter 1 (answersUntil [.create, .confirm, .close])))
        {} (emptyRecordingEvents 17) t ∧ t.pc = .finished ∧
      ∃ state, t.last = some state ∧ (state = .fileSaved ∨ state = .error) := by
  have hrun : Run (Steps.guarded (WorkerRun.step oneWriter 1
      (answersUntil [.create, .confirm, .close]))) {} (emptyRecordingEvents 17) _ := .of_exec rfl
  exact ⟨_, hrun, rfl, (last_state_iff _ _ _ hrun rfl).mpr (.inr fun i _ => rfl)⟩

/-- A writer that does not confirm the last image: the last state is that of a recording that
waits. -/
theorem last_state_not_end :
    ¬ ∀ (d : WriterDriver) (nImages : ℕ) (answers : ResponsePattern) (es : List WorkerEvent)
      (t : WorkerRun), Run (Steps.guarded (WorkerRun.step d nImages answers)) {} es t →
        t.pc = .finished →
          ∃ state, t.last = some state ∧ (state = .fileSaved ∨ state = .error) := by
  intro h
  obtain ⟨state, hlast, hend⟩ := h oneWriter 1 (answersUntil [.create]) (emptyRecordingEvents 11)
    ⟨.finished, some .waitingForFirstImage⟩ (.of_exec rfl) rfl
  obtain rfl := Option.some.inj hlast
  exact absurd hend (by decide)

/-! ### What becomes of the driver -/

/-- All workers have returned, no monitor is about to store `idle`, and the state is one in which
nobody does anything about it. -/
structure Wedged (t : DriverSystem) : Prop where
  returned : ∀ w ∈ t.workers, w.pc = .finished
  unreported : Unreported t
  not_idle : t.manager.state ≠ .idle
  not_end : ¬ t.manager.state.IsEnd

/-- Nothing that happens to a wedged driver frees it. -/
theorem Wedged.step {t u : DriverSystem} {e : DriverEvent} (h : Wedged t)
    (hstep : t.step d e = some u) : Wedged u ∧ u.workers = t.workers := by
  cases e with
  | connect =>
    obtain rfl := Option.some.inj hstep
    refine ⟨⟨h.returned, fun hmem => ?_, h.not_idle, h.not_end⟩, rfl⟩
    rcases List.mem_append.mp hmem with hold | hnew
    · exact h.unreported hold
    · cases List.mem_singleton.mp hnew
  | startRequest nImages =>
    obtain rfl := DriverSystem.step_startRequest hstep
    rw [if_neg h.not_idle]
    exact ⟨h, rfl⟩
  | stopRequest =>
    obtain rfl := DriverSystem.step_stopRequest hstep
    exact ⟨⟨h.returned, h.unreported, h.not_idle, h.not_end⟩, rfl⟩
  | stopStore =>
    obtain rfl := DriverSystem.step_stopStore hstep
    exact ⟨⟨h.returned, h.unreported, DriverState.noConfusion, by simp [DriverState.IsEnd]⟩, rfl⟩
  | worker k received =>
    obtain ⟨w, pc, effect, hw, hworker, -⟩ := DriverSystem.step_worker hstep
    exact absurd (h.returned w (List.mem_of_getElem? hw)) (workerStep_ne_finished hworker)
  | observe j =>
    obtain ⟨-, ⟨hend, -⟩ | ⟨-, rfl⟩⟩ := DriverSystem.step_observe hstep
    · exact absurd hend h.not_end
    · exact ⟨h, rfl⟩
  | reset j => exact absurd (DriverSystem.step_reset hstep).1 (h.unreported.getElem?_ne j)

theorem Wedged.run {t u : DriverSystem} {es : List DriverEvent} (h : Wedged t)
    (hrun : Run (Steps.guarded (DriverSystem.step d)) t es u) : u.workers = t.workers := by
  refine (hrun.invariant (P := fun u => Wedged u ∧ u.workers = t.workers) ?_ ⟨h, rfl⟩).2
  rintro v e u ⟨hv, hworkers⟩ hstep
  obtain ⟨hu, hsame⟩ := hv.step hstep
  exact ⟨hu, hsame.trans hworkers⟩

/-- A worker that returns without a last store leaves the driver wedged. -/
theorem Reported.wedged {t u : DriverSystem} (h : Reported t) {w : Worker} {k : ℕ}
    {received : Received} (hw : t.workers[k]? = some w) {i n : ℕ}
    (hpc : w.pc = .acknowledge .confirm i n) (hstep : t.step d (.worker k received) = some u)
    (hreturned : ∀ v ∈ u.workers, v.pc = .finished) : Wedged u := by
  have hunfinished : w.pc ≠ .finished := by
    rw [hpc]
    nofun
  have hmem := List.mem_of_getElem? hw
  have hend : ¬ t.manager.state.IsEnd := fun hend => hunfinished (h.returned hend w hmem)
  have hidle : t.manager.state ≠ .idle := by
    refine h.busy w hmem ⟨?_, hunfinished⟩
    rw [hpc]
    nofun
  obtain ⟨w', pc, effect, hw', hworker, rfl⟩ := DriverSystem.step_worker hstep
  obtain rfl : w' = w := Option.some.inj (hw'.symm.trans hw)
  rw [hpc] at hworker
  have hnone : effect = .none := by
    cases hworker <;> rfl
  subst hnone
  exact ⟨hreturned, h.unreported hend, hidle, hend⟩

/-- **A recording whose last image is not confirmed is the last one.** When its worker returns, no
start is accepted any more, whatever the sessions do. -/
theorem wedged_forever {sessions : ℕ} {es es' : List DriverEvent} {t u v : DriverSystem}
    (hrun : Run (UndisturbedStep d) { monitors := List.replicate sessions .watching } es t)
    {w : Worker} {k : ℕ} {received : Received} (hw : t.workers[k]? = some w) {i n : ℕ}
    (hpc : w.pc = .acknowledge .confirm i n) (hstep : t.step d (.worker k received) = some u)
    (hreturned : ∀ w' ∈ u.workers, w'.pc = .finished)
    (hlater : Run (Steps.guarded (DriverSystem.step d)) u es' v) : v.workers = u.workers :=
  ((reported_of_run hrun).wedged hw hpc hstep hreturned).run hlater

end Driver

end StdDaq
