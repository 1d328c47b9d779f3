import Mathlib

/-!
# The writer driver

`std_driver::writer_driver` and the state it shares with the sessions. An accepted start request
spawns a worker thread that has the writers create their files, forwards images to them, and has
them close the files again. The thread is written here as a program with an explicit program
counter: one step is one access to what it shares with other threads or processes, which is a store
or a load of the driver state, a command to the writers, or a receive.

What a step finds when it receives is not up to the worker, so it is an argument of the step; what
it does to its surroundings is its `Effect`. The systems built on this program differ in where the
answers come from and in which effects they follow.

## Main definitions

* `DriverState`, `StateManager` — the shared state
* `WriterDriver.step` — the program of `writer_driver::start`
-/

namespace StdDaq

namespace Driver

/-- `driver_state`. The last name of the source's enumeration only counts the others. -/
inductive DriverState where
  | idle
  | started
  | creatingFile
  | fileCreated
  | waitingForFirstImage
  | recording
  | savingFile
  | fileSaved
  | stop
  | error
  deriving DecidableEq, Repr

/-- The members of `state_manager` that are about a recording. -/
structure StateManager where
  state : DriverState := .idle
  imagesProcessed : ℕ := 0
  deriving DecidableEq, Repr

namespace StateManager

/-- `change_state`. -/
def changeState (manager : StateManager) (newState : DriverState) : StateManager where
  state := newState
  imagesProcessed := if newState = .idle then 0 else manager.imagesProcessed

/-- `update_image_count`. -/
def updateImageCount (manager : StateManager) (sentImages : ℕ) : StateManager :=
  { manager with imagesProcessed := sentImages }

/-- `is_recording`. -/
def isRecording (manager : StateManager) : Bool :=
  manager.state = .recording || manager.state = .waitingForFirstImage ||
    manager.state = .creatingFile

@[simp] theorem state_changeState (manager : StateManager) (newState : DriverState) :
    (manager.changeState newState).state = newState := rfl

@[simp] theorem state_updateImageCount (manager : StateManager) (n : ℕ) :
    (manager.updateImageCount n).state = manager.state := rfl

end StateManager

/-- `std_daq_protocol::ResponseCode`. -/
inductive ResponseCode where
  | success
  | failure
  deriving DecidableEq, Repr

/-- The three times the worker sends a command to all writers and collects their responses: the
commands are `create_file`, `confirm_last_image` and `close_file`. -/
inductive Phase where
  | create
  | confirm
  | close
  deriving DecidableEq, Repr

/-- Where the worker thread is. Each constructor is named after what comes next. -/
inductive WorkerPc where
  /-- The store of `creating_file` in `send_create_file_requests`. -/
  | createFile
  /-- The command of a phase to writer `i`. -/
  | send (phase : Phase) (i : ℕ)
  /-- The loop of `did_all_writers_acknowledge`, at socket `i`. -/
  | acknowledge (phase : Phase) (i filesCreated : ℕ)
  /-- The store of `waiting_for_first_image`. -/
  | waitForFirstImage
  /-- The test of the loop of `record_images`. -/
  | recordTest (i : ℕ)
  /-- The receive in that loop. -/
  | recordReceive (i : ℕ)
  /-- The store of `recording` for the first image. -/
  | recordState (i : ℕ)
  /-- The commands for one image. -/
  | recordForward (i : ℕ)
  /-- The store of `saving_file`. -/
  | saveFile
  /-- The store of `file_saved`. -/
  | fileSaved
  /-- The store of `error`. -/
  | fail
  /-- The thread has returned. -/
  | finished
  deriving DecidableEq, Repr

/-- What a receive found; `nothing` also stands for steps that receive nothing. -/
inductive Received where
  | nothing
  | response (code : ResponseCode)
  | image
  deriving DecidableEq, Repr

/-- What a step does to its surroundings. -/
inductive Effect where
  | none
  /-- `change_state`. -/
  | store (state : DriverState)
  /-- The command of a phase to a writer. -/
  | send (writer : ℕ) (phase : Phase)
  /-- `record_image` to these writers, and `update_image_count`. -/
  | forward (writers : List ℕ) (sentImages : ℕ)
  deriving DecidableEq, Repr

/-- The members of `writer_driver` that the worker reads. -/
structure WriterDriver where
  numberOfWriters : ℕ
  withMetadataWriter : Bool
  numberOfWriters_pos : 0 < numberOfWriters

namespace WriterDriver

variable (d : WriterDriver)

/-- `writer_send_sockets.size()`, which is also `writer_receive_sockets.size()`. -/
def nSockets : ℕ := d.numberOfWriters + if d.withMetadataWriter then 1 else 0

/-- `get_current_writer_index`. -/
def getCurrentWriterIndex (index : ℕ) : ℕ :=
  if d.withMetadataWriter then 1 + index % (d.nSockets - 1) else index % d.nSockets

/-- The writers that get image `i`: the metadata writer, if there is one, and one of the others. -/
def imageWriters (i : ℕ) : List ℕ :=
  if d.withMetadataWriter then [0, d.getCurrentWriterIndex i] else [d.getCurrentWriterIndex i]

/-- What follows `did_all_writers_acknowledge`. After a failed confirmation the thread just ends. -/
def afterAcknowledge : Phase → Bool → WorkerPc
  | .create, true => .waitForFirstImage
  | .create, false => .fail
  | .confirm, true => .saveFile
  | .confirm, false => .finished
  | .close, true => .fileSaved
  | .close, false => .fail

/-- One step of the thread that `start` spawns. `isRecording` is the value `is_recording` would
return at this moment. A step has no value when the thread has returned, or when `received` is
nothing it could receive. The index of the recording loop is an `unsigned int`. -/
def step (nImages : ℕ) (isRecording : Bool) : WorkerPc → Received → Option (WorkerPc × Effect)
  | .createFile, .nothing => some (.send .create 0, .store .creatingFile)
  | .send phase i, .nothing =>
    if i < d.nSockets then some (.send phase (i + 1), .send i phase)
    else some (.acknowledge phase 0 0, .none)
  | .acknowledge phase i filesCreated, received =>
    if i < d.nSockets then
      match received with
      | .nothing => some (.acknowledge phase (i + 1) filesCreated, .none)
      | .response .failure => some (afterAcknowledge phase false, .none)
      | .response .success => some (.acknowledge phase (i + 1) (filesCreated + 1), .none)
      | .image => Option.none
    else if received = .nothing then
      some (afterAcknowledge phase (filesCreated = d.nSockets), .none)
    else Option.none
  | .waitForFirstImage, .nothing => some (.recordTest 0, .store .waitingForFirstImage)
  | .recordTest i, .nothing =>
    if i < nImages ∧ isRecording = true then some (.recordReceive i, .none)
    else some (.send .confirm 0, .none)
  | .recordReceive i, .nothing => some (.recordTest i, .none)
  | .recordReceive i, .image =>
    if i = 0 then some (.recordState i, .none) else some (.recordForward i, .none)
  | .recordState i, .nothing => some (.recordForward i, .store .recording)
  | .recordForward i, .nothing =>
    some (.recordTest ((i + 1) % 2 ^ 32), .forward (d.imageWriters i) ((i + 1) % 2 ^ 32))
  | .saveFile, .nothing => some (.send .close 0, .store .savingFile)
  | .fileSaved, .nothing => some (.finished, .store .fileSaved)
  | .fail, .nothing => some (.finished, .store .error)
  | _, _ => Option.none

/-- The steps of the worker, one constructor for each thing it can do. -/
inductive WorkerStep (nImages : ℕ) (isRecording : Bool) :
    WorkerPc → Received → WorkerPc → Effect → Prop where
  | createFile :
    WorkerStep nImages isRecording .createFile .nothing (.send .create 0) (.store .creatingFile)
  | sendCommand {phase : Phase} {i : ℕ} (hi : i < d.nSockets) :
    WorkerStep nImages isRecording (.send phase i) .nothing (.send phase (i + 1)) (.send i phase)
  | sentAll {phase : Phase} {i : ℕ} (hi : d.nSockets ≤ i) :
    WorkerStep nImages isRecording (.send phase i) .nothing (.acknowledge phase 0 0) .none
  | timeout {phase : Phase} {i n : ℕ} (hi : i < d.nSockets) :
    WorkerStep nImages isRecording (.acknowledge phase i n) .nothing
      (.acknowledge phase (i + 1) n) .none
  | refused {phase : Phase} {i n : ℕ} (hi : i < d.nSockets) :
    WorkerStep nImages isRecording (.acknowledge phase i n) (.response .failure)
      (afterAcknowledge phase false) .none
  | acknowledged {phase : Phase} {i n : ℕ} (hi : i < d.nSockets) :
    WorkerStep nImages isRecording (.acknowledge phase i n) (.response .success)
      (.acknowledge phase (i + 1) (n + 1)) .none
  | collected {phase : Phase} {i n : ℕ} (hi : d.nSockets ≤ i) :
    WorkerStep nImages isRecording (.acknowledge phase i n) .nothing
      (afterAcknowledge phase (n = d.nSockets)) .none
  | waitForFirstImage :
    WorkerStep nImages isRecording .waitForFirstImage .nothing (.recordTest 0)
      (.store .waitingForFirstImage)
  | goOn {i : ℕ} (hi : i < nImages) (hrec : isRecording = true) :
    WorkerStep nImages isRecording (.recordTest i) .nothing (.recordReceive i) .none
  | endRecording {i : ℕ} (h : ¬ (i < nImages ∧ isRecording = true)) :
    WorkerStep nImages isRecording (.recordTest i) .nothing (.send .confirm 0) .none
  | noImage {i : ℕ} :
    WorkerStep nImages isRecording (.recordReceive i) .nothing (.recordTest i) .none
  | firstImage :
    WorkerStep nImages isRecording (.recordReceive 0) .image (.recordState 0) .none
  | nextImage {i : ℕ} (hi : i ≠ 0) :
    WorkerStep nImages isRecording (.recordReceive i) .image (.recordForward i) .none
  | recordState {i : ℕ} :
    WorkerStep nImages isRecording (.recordState i) .nothing (.recordForward i) (.store .recording)
  | recordForward {i : ℕ} :
    WorkerStep nImages isRecording (.recordForward i) .nothing (.recordTest ((i + 1) % 2 ^ 32))
      (.forward (d.imageWriters i) ((i + 1) % 2 ^ 32))
  | saveFile :
    WorkerStep nImages isRecording .saveFile .nothing (.send .close 0) (.store .savingFile)
  | fileSaved :
    WorkerStep nImages isRecording .fileSaved .nothing .finished (.store .fileSaved)
  | fail :
    WorkerStep nImages isRecording .fail .nothing .finished (.store .error)

variable {d} {nImages : ℕ} {isRecording : Bool} {pc pc' : WorkerPc} {received : Received}
  {effect : Effect}

/-- Every step of the program is one of them. -/
theorem workerStep_of_step (h : d.step nImages isRecording pc received = some (pc', effect)) :
    d.WorkerStep nImages isRecording pc received pc' effect := by
  rw [step.eq_def] at h
  split at h
  · cases h
    exact .createFile
  · split at h
    · cases h
      exact .sendCommand ‹_›
    · cases h
      exact .sentAll (Nat.le_of_not_lt ‹_›)
  · split at h
    · split at h <;> cases h
      · exact .timeout ‹_›
      · exact .refused ‹_›
      · exact .acknowledged ‹_›
    · split at h
      · next hi hrec =>
        cases h
        subst hrec
        exact .collected (Nat.le_of_not_lt hi)
      · cases h
  · cases h
    exact .waitForFirstImage
  · split at h
    · next htest =>
      cases h
      exact .goOn htest.1 htest.2
    · cases h
      exact .endRecording ‹_›
  · cases h
    exact .noImage
  · split at h
    · next hi =>
      cases h
      subst hi
      exact .firstImage
    · cases h
      exact .nextImage ‹_›
  · cases h
    exact .recordState
  · cases h
    exact .recordForward
  · cases h
    exact .saveFile
  · cases h
    exact .fileSaved
  · cases h
    exact .fail
  · cases h

end WriterDriver

end Driver

end StdDaq
