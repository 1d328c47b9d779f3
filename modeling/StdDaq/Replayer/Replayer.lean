import Mathlib
import StdDaq.Lib.Run

/-!
# The replayer

`std_buffer_driver` replays stored images. A start request that is accepted spawns two threads:
`control_reader` asks `std_buffer_reader` for one image after the other, and `forward_images`
receives the metadata that the reader publishes, and pushes the images out. They share the driver
state with the io thread and with the monitor threads of the sessions, and they share `last_sent_id`
with one another: `control_reader` asks for the next image when the last one has been sent.

A step is one access to what threads share. Waiting on the condition variable is three steps: the
look at the predicate, falling asleep, and the look after a notification. `forward_images` notifies
without holding the mutex, so the notification can come between the first two, and then nobody hears
it. Waking up without a notification is left out, it would only repeat the look.

The receive of `forward_images` gives up after a second, and the loop tests the state again. How
long a message is on its way is not known, so this can happen whether or not something has been
published.

The reader's answers are arguments of its step, and so is whether what it publishes is delivered.

## Main definitions

* `ReplaySettings`, `processStartRequest` — what a replay is asked to do
* `controlReader`, `forwardImages` — the programs of the two threads
* `Process.step` — one step of a thread or of the reader
-/

namespace StdDaq

namespace Replayer

/-- `reader_state`. The last name of the source's enumeration only counts the others. -/
inductive ReaderState where
  | idle
  | replaying
  | finishing
  | finished
  | stop
  | error
  deriving DecidableEq, Repr

/-- The members of `state_manager` that are about a replay. -/
structure StateManager where
  state : ReaderState := .idle
  imagesProcessed : ℕ := 0
  deriving DecidableEq, Repr

namespace StateManager

/-- `change_state`. -/
def changeState (manager : StateManager) (newState : ReaderState) : StateManager where
  state := newState
  imagesProcessed := if newState = .idle then 0 else manager.imagesProcessed

/-- `update_image_count`, which takes an `unsigned int`. -/
def updateImageCount (manager : StateManager) (sentImages : ℕ) : StateManager :=
  { manager with imagesProcessed := sentImages % 2 ^ 32 }

/-- `is_replaying`. -/
def isReplaying (manager : StateManager) : Bool := manager.state = .replaying

@[simp] theorem state_changeState (manager : StateManager) (newState : ReaderState) :
    (manager.changeState newState).state = newState := rfl

@[simp] theorem state_updateImageCount (manager : StateManager) (n : ℕ) :
    (manager.updateImageCount n).state = manager.state := rfl

end StateManager

/-! ## Requests -/

/-- A request as the sessions parse it: a JSON object with the members that are looked at. -/
structure Command where
  command : String := ""
  startImageId : Option ℕ := none
  endImageId : Option ℕ := none
  deriving DecidableEq, Repr

/-- `replay_settings`. Nothing reads the delay. -/
structure ReplaySettings where
  startImageId : ℕ
  endImageId : Option ℕ
  deriving DecidableEq, Repr

/-- `process_start_request`. -/
def processStartRequest (cmd : Command) : Option ReplaySettings :=
  if cmd.command = "start" then
    cmd.startImageId.map fun start => ⟨start, cmd.endImageId⟩
  else none

/-- `image_id <= settings.end_image_id`, a comparison with a `std::optional`: nothing is less than
or equal to an empty one. -/
def ReplaySettings.reaches (settings : ReplaySettings) (imageId : ℕ) : Bool :=
  match settings.endImageId with
  | none => false
  | some last => decide (imageId ≤ last)

/-- `RequestNextImage`. -/
structure RequestNextImage where
  imageId : ℕ
  newRequest : Bool
  deriving DecidableEq, Repr

/-- `NextImageResponse`. -/
inductive NextImageResponse where
  | ack (imageId : ℕ)
  | noImage
  deriving DecidableEq, Repr

/-! ## The threads -/

/-- Where `control_reader` is. Each constructor is named after what comes next. -/
inductive ControlPc where
  /-- The test of the loop, and the request if it holds. -/
  | test (newRequest : Bool) (imageId : ℕ)
  /-- The receive. -/
  | receive (imageId : ℕ)
  /-- A look at the predicate of the wait, with the next id. -/
  | look (waitForId imageId : ℕ)
  /-- Falling asleep, after the predicate was false. -/
  | sleep (waitForId imageId : ℕ)
  /-- A notification. -/
  | asleep (waitForId imageId : ℕ)
  /-- The store of `finishing`. -/
  | finish
  /-- The thread has returned. -/
  | returned
  deriving DecidableEq, Repr

/-- Where `forward_images` is, with the number of images sent. -/
inductive ForwardPc where
  /-- The test of the loop. -/
  | test (nImages : ℕ)
  /-- The receive, and what is done with the image. -/
  | receive (nImages : ℕ)
  /-- The notification. -/
  | notify (nImages : ℕ)
  /-- The store of `finished`. -/
  | finish
  /-- The thread has returned. -/
  | returned
  deriving DecidableEq, Repr

/-- The two threads of a replay. The lists are a record that neither of them reads. -/
structure Replay where
  settings : ReplaySettings
  control : ControlPc
  forward : ForwardPc := .test 0
  /-- The images that `forward_images` has received. -/
  processed : List ℕ := []
  /-- The images that it has pushed out. -/
  pushed : List ℕ := []
  deriving DecidableEq, Repr

/-- A replay that has just been started. -/
def Replay.fresh (settings : ReplaySettings) : Replay where
  settings := settings
  control := .test true settings.startImageId

/-- Both threads have returned. -/
def Replay.Returned (r : Replay) : Prop := r.control = .returned ∧ r.forward = .returned

instance (r : Replay) : Decidable r.Returned :=
  inferInstanceAs (Decidable (r.control = .returned ∧ r.forward = .returned))

/-- `control_reader` waits for a notification. -/
def Replay.isAsleep (r : Replay) : Bool :=
  match r.control with
  | .asleep _ _ => true
  | _ => false

/-- `control_reader` is between its look at the predicate and its sleep. -/
def Replay.isFallingAsleep (r : Replay) : Bool :=
  match r.control with
  | .sleep _ _ => true
  | _ => false

/-- A notification that is heard. -/
def Replay.wake (r : Replay) : Replay :=
  match r.control with
  | .asleep waitForId imageId => { r with control := .look waitForId imageId }
  | _ => r

/-- A replay is one of the earlier ones or the one that was added. -/
theorem getElem?_concat_eq_some {replays : List Replay} {r s : Replay} {k : ℕ}
    (h : (replays ++ [r])[k]? = some s) : replays[k]? = some s ∨ k = replays.length ∧ s = r := by
  rcases Nat.lt_or_ge k replays.length with hlt | hge
  · rw [List.getElem?_append_left hlt] at h
    exact .inl h
  · obtain ⟨hlt, -⟩ := List.getElem?_eq_some_iff.mp h
    rw [List.length_append, List.length_singleton] at hlt
    obtain rfl : k = replays.length := by omega
    rw [List.getElem?_concat_length] at h
    exact .inr ⟨rfl, (Option.some.inj h).symm⟩

theorem Replay.isAsleep_iff {r : Replay} :
    r.isAsleep = true ↔ ∃ waitForId imageId, r.control = .asleep waitForId imageId := by
  rw [isAsleep]
  split <;> simp_all

/-- The io thread: between two requests, or after the test of `process_request` or
`stop_recording` that comes before a store. -/
inductive IoThread where
  | ready
  | starting (settings : ReplaySettings)
  | stopping
  deriving DecidableEq, Repr

/-- A monitor thread: in `wait_for_change_or_timeout`, or about to store `idle` because it saw
`finished` or `error`. -/
inductive Monitor where
  | watching
  | reporting
  deriving DecidableEq, Repr

/-- The process, and what is on its way to it and from it. Replays stand in the order in which they
were started. -/
structure Process where
  manager : StateManager := {}
  lastSentId : ℕ := 0
  /-- A request on its way to the reader. -/
  request : Option RequestNextImage := none
  /-- A response on its way to `driver_socket`. -/
  response : Option NextImageResponse := none
  /-- Metadata on its way to `receiver`, by image. -/
  published : List ℕ := []
  replays : List Replay := []
  io : IoThread := .ready
  monitors : List Monitor := []
  deriving DecidableEq, Repr

namespace Process

/-- `zmq_send` on `driver_socket`. A request socket refuses to send while a reply is due. -/
def send (t : Process) (request : RequestNextImage) : Process :=
  if t.request.isNone ∧ t.response.isNone then { t with request := some request } else t

@[simp] theorem manager_send (t : Process) (request : RequestNextImage) :
    (t.send request).manager = t.manager := by
  rw [send]; split <;> rfl

@[simp] theorem io_send (t : Process) (request : RequestNextImage) :
    (t.send request).io = t.io := by
  rw [send]; split <;> rfl

/-- The program of `control_reader`: the process after one step, and where the thread is then. -/
def controlReader (settings : ReplaySettings) (t : Process) :
    ControlPc → Option (Process × ControlPc)
  | .test newRequest imageId =>
    if settings.reaches imageId ∧ t.manager.state = .replaying then
      some (t.send ⟨imageId, newRequest⟩, .receive imageId)
    else some (t, .finish)
  | .receive imageId =>
    match t.response with
    | some (.ack id) => some ({ t with response := none }, .look id ((id + 1) % 2 ^ 64))
    | some .noImage => some ({ t with response := none }, .finish)
    | none =>
      -- without a reply that is due, the receive fails and the loop goes on
      if t.request.isNone then some (t, .test false imageId) else none
  | .look waitForId imageId =>
    if waitForId ≤ t.lastSentId then some (t, .test false imageId)
    else some (t, .sleep waitForId imageId)
  | .sleep waitForId imageId => some (t, .asleep waitForId imageId)
  | .asleep _ _ => none
  | .finish => some ({ t with manager := t.manager.changeState .finishing }, .returned)
  | .returned => none

/-- The program of `forward_images`, but for the time-out of the receive and the notification. -/
def forwardImages (t : Process) (r : Replay) : Option (Process × Replay) :=
  match r.forward with
  | .test nImages =>
    some (t, { r with
      forward := if t.manager.state = .replaying then .receive nImages else .finish })
  | .receive nImages =>
    match t.published with
    | [] => none
    | id :: rest =>
      let r := { r with processed := r.processed ++ [id] }
      if r.settings.reaches id then
        some ({ t with
            published := rest
            manager := t.manager.updateImageCount (nImages + 1)
            lastSentId := id },
          { r with forward := .notify (nImages + 1), pushed := r.pushed ++ [id] })
      else some ({ t with published := rest }, { r with forward := .notify nImages })
  | .notify _ => none
  | .finish =>
    some ({ t with manager := t.manager.changeState .finished }, { r with forward := .returned })
  | .returned => none

/-- `notify_one`: one of the threads that sleep hears it, if there is one. -/
def notifyOne (replays : List Replay) : Option ℕ → Option (List Replay)
  | none => if replays.any Replay.isAsleep then none else some replays
  | some j =>
    match replays[j]? with
    | none => none
    | some r => if r.isAsleep then some (replays.set j r.wake) else none

theorem notifyOne_eq_some {replays replays' : List Replay} {woken : Option ℕ}
    (h : notifyOne replays woken = some replays') :
    (replays.any Replay.isAsleep = false ∧ replays' = replays) ∨
      ∃ j r, replays[j]? = some r ∧ r.isAsleep = true ∧ replays' = replays.set j r.wake := by
  cases woken with
  | none =>
    rw [notifyOne] at h
    split at h
    · cases h
    · next hnone => exact .inl ⟨Bool.eq_false_iff.mpr hnone, (Option.some.inj h).symm⟩
  | some j =>
    rw [notifyOne] at h
    split at h
    · cases h
    · next r hr =>
      split at h
      · next hasleep => exact .inr ⟨j, r, hr, hasleep, (Option.some.inj h).symm⟩
      · cases h

end Process

/-- A step of a thread, or of the reader. -/
inductive Event where
  /-- A session is opened. -/
  | connect
  /-- `process_request`, up to the store. -/
  | request (cmd : Command)
  /-- `start`. -/
  | start
  /-- The store in `stop_recording`. -/
  | stop
  | control (k : ℕ)
  | forward (k : ℕ)
  /-- The receive of `forward_images` times out. -/
  | timeout (k : ℕ)
  /-- The notification of `forward_images`, and who hears it. -/
  | notify (k : ℕ) (woken : Option ℕ)
  /-- The reader answers. -/
  | read (answer : Option ℕ) (delivered : Bool)
  /-- Monitor `j` returns from `wait_for_change_or_timeout`. -/
  | observe (j : ℕ)
  /-- Monitor `j` stores `idle`. -/
  | reset (j : ℕ)
  deriving DecidableEq, Repr

/-- The replay whose thread takes the step. -/
def Event.replay? : Event → Option ℕ
  | .control k | .forward k | .timeout k | .notify k _ => some k
  | .connect | .request _ | .start | .stop | .read _ _ | .observe _ | .reset _ => none

namespace Process

/-- `process_request`: a stop is looked at first, a start is accepted when the driver is idle, and
everything else is answered without further effect. -/
def processRequest (t : Process) (cmd : Command) : IoThread :=
  if cmd.command = "stop" then
    if t.manager.isReplaying then .stopping else .ready
  else if t.manager.state = .idle then
    match processStartRequest cmd with
    | some settings => .starting settings
    | none => .ready
  else .ready

/-- The main loop of `std_buffer_reader`: the metadata is published, then the request is
answered. -/
def answer (t : Process) (answer : Option ℕ) (delivered : Bool) : Process :=
  match answer with
  | some id =>
    { t with
      request := none
      response := some (.ack id)
      published := if delivered then t.published ++ [id] else t.published }
  | none => { t with request := none, response := some .noImage }

/-- One step, if the thread can take it. -/
def step (t : Process) : Event → Option Process
  | .connect => some { t with monitors := t.monitors ++ [.watching] }
  | .request cmd => if t.io = .ready then some { t with io := t.processRequest cmd } else none
  | .start =>
    match t.io with
    | .starting settings =>
      some { t with
        manager := t.manager.changeState .replaying
        replays := t.replays ++ [.fresh settings]
        io := .ready }
    | _ => none
  | .stop =>
    if t.io = .stopping then
      some { t with manager := t.manager.changeState .stop, io := .ready }
    else none
  | .control k =>
    match t.replays[k]? with
    | none => none
    | some r => (controlReader r.settings t r.control).map fun (u, pc) =>
        { u with replays := t.replays.set k { r with control := pc } }
  | .forward k =>
    match t.replays[k]? with
    | none => none
    | some r => (forwardImages t r).map fun (u, r') => { u with replays := t.replays.set k r' }
  | .timeout k =>
    match t.replays[k]? with
    | none => none
    | some r =>
      match r.forward with
      | .receive nImages =>
        some { t with replays := t.replays.set k { r with forward := .test nImages } }
      | _ => none
  | .notify k woken =>
    match t.replays[k]? with
    | none => none
    | some r =>
      match r.forward with
      | .notify nImages =>
        (notifyOne (t.replays.set k { r with forward := .test nImages }) woken).map fun replays =>
          { t with replays := replays }
      | _ => none
  | .read answer delivered => if t.request.isSome then some (t.answer answer delivered) else none
  | .observe j =>
    if t.monitors[j]? = some .watching then
      if t.manager.state = .finished ∨ t.manager.state = .error then
        some { t with monitors := t.monitors.set j .reporting }
      else some t
    else none
  | .reset j =>
    if t.monitors[j]? = some .reporting then
      some { t with
        manager := t.manager.changeState .idle
        monitors := t.monitors.set j .watching }
    else none

/-! ### What a step does -/

variable {t u : Process} {k : ℕ}

/-- The steps of `control_reader`. -/
inductive ControlStep (settings : ReplaySettings) (t : Process) :
    ControlPc → Process → ControlPc → Prop where
  | ask {newRequest : Bool} {imageId : ℕ} (hreaches : settings.reaches imageId = true)
      (hstate : t.manager.state = .replaying) :
      ControlStep settings t (.test newRequest imageId) (t.send ⟨imageId, newRequest⟩)
        (.receive imageId)
  | leave {newRequest : Bool} {imageId : ℕ}
      (hleave : settings.reaches imageId = false ∨ t.manager.state ≠ .replaying) :
      ControlStep settings t (.test newRequest imageId) t .finish
  | ack {imageId id : ℕ} (hresponse : t.response = some (.ack id)) :
      ControlStep settings t (.receive imageId) { t with response := none }
        (.look id ((id + 1) % 2 ^ 64))
  | noImage {imageId : ℕ} (hresponse : t.response = some .noImage) :
      ControlStep settings t (.receive imageId) { t with response := none } .finish
  | retry {imageId : ℕ} (hresponse : t.response = none) (hrequest : t.request = none) :
      ControlStep settings t (.receive imageId) t (.test false imageId)
  | pass {waitForId imageId : ℕ} (hsent : waitForId ≤ t.lastSentId) :
      ControlStep settings t (.look waitForId imageId) t (.test false imageId)
  | wait {waitForId imageId : ℕ} (hsent : t.lastSentId < waitForId) :
      ControlStep settings t (.look waitForId imageId) t (.sleep waitForId imageId)
  | sleep {waitForId imageId : ℕ} :
      ControlStep settings t (.sleep waitForId imageId) t (.asleep waitForId imageId)
  | finish : ControlStep settings t .finish
      { t with manager := t.manager.changeState .finishing } .returned

theorem controlReader_eq_some_iff {settings : ReplaySettings} {pc pc' : ControlPc} :
    controlReader settings t pc = some (u, pc') ↔ ControlStep settings t pc u pc' := by
  constructor
  · intro h
    cases pc with
    | test newRequest imageId =>
      rw [controlReader] at h
      split at h
      · next hboth => cases h; exact .ask hboth.1 hboth.2
      · next hnot =>
        cases h
        refine .leave ?_
        rw [not_and_or, Bool.not_eq_true] at hnot
        exact hnot
    | receive imageId =>
      rw [controlReader] at h
      split at h
      · next hack => cases h; exact .ack hack
      · next hno => cases h; exact .noImage hno
      · next hnone =>
        split at h
        · next hrequest => cases h; exact .retry hnone (Option.isNone_iff_eq_none.mp hrequest)
        · cases h
    | look waitForId imageId =>
      rw [controlReader] at h
      split at h
      · next hle => cases h; exact .pass hle
      · next hlt => cases h; exact .wait (Nat.lt_of_not_le hlt)
    | sleep waitForId imageId => cases h; exact .sleep
    | asleep waitForId imageId => cases h
    | finish => cases h; exact .finish
    | returned => cases h
  · intro h
    cases h with
    | ask hreaches hstate => rw [controlReader, if_pos ⟨hreaches, hstate⟩]
    | leave hleave =>
      rw [controlReader, if_neg]
      rw [not_and_or, Bool.not_eq_true]
      exact hleave
    | ack hresponse => simp only [controlReader, hresponse]
    | noImage hresponse => simp only [controlReader, hresponse]
    | retry hresponse hrequest => simp [controlReader, hresponse, hrequest]
    | pass hsent => rw [controlReader, if_pos hsent]
    | wait hsent => rw [controlReader, if_neg (Nat.not_le_of_lt hsent)]
    | sleep => rfl
    | finish => rfl

theorem ControlStep.published {settings : ReplaySettings} {pc pc' : ControlPc}
    (h : ControlStep settings t pc u pc') : u.published = t.published := by
  cases h with
  | ask => rw [send]; split <;> rfl
  | leave | ack | noImage | retry | pass | wait | sleep | finish => rfl

theorem ControlStep.lastSentId {settings : ReplaySettings} {pc pc' : ControlPc}
    (h : ControlStep settings t pc u pc') : u.lastSentId = t.lastSentId := by
  cases h with
  | ask => rw [send]; split <;> rfl
  | leave | ack | noImage | retry | pass | wait | sleep | finish => rfl

theorem ControlStep.not_returned {settings : ReplaySettings} {pc pc' : ControlPc}
    (h : ControlStep settings t pc u pc') : pc ≠ .returned := by
  rintro rfl
  cases h

/-- The steps of `forward_images`, but for the time-out of the receive and the notification. -/
inductive ForwardStep (t : Process) (r : Replay) : Process → Replay → Prop where
  | again {nImages : ℕ} (hpc : r.forward = .test nImages)
      (hstate : t.manager.state = .replaying) :
      ForwardStep t r t { r with forward := .receive nImages }
  | leave {nImages : ℕ} (hpc : r.forward = .test nImages)
      (hstate : t.manager.state ≠ .replaying) :
      ForwardStep t r t { r with forward := .finish }
  | push {nImages id : ℕ} {rest : List ℕ} (hpc : r.forward = .receive nImages)
      (hpublished : t.published = id :: rest) (hreaches : r.settings.reaches id = true) :
      ForwardStep t r
        { t with
          published := rest
          manager := t.manager.updateImageCount (nImages + 1)
          lastSentId := id }
        { r with
          forward := .notify (nImages + 1)
          processed := r.processed ++ [id]
          pushed := r.pushed ++ [id] }
  | skip {nImages id : ℕ} {rest : List ℕ} (hpc : r.forward = .receive nImages)
      (hpublished : t.published = id :: rest) (hreaches : r.settings.reaches id = false) :
      ForwardStep t r { t with published := rest }
        { r with forward := .notify nImages, processed := r.processed ++ [id] }
  | finish (hpc : r.forward = .finish) :
      ForwardStep t r { t with manager := t.manager.changeState .finished }
        { r with forward := .returned }

theorem forwardImages_eq_some_iff {r r' : Replay} :
    forwardImages t r = some (u, r') ↔ ForwardStep t r u r' := by
  constructor
  · intro h
    rw [forwardImages] at h
    split at h
    · next nImages hpc =>
      cases h
      split
      · next hstate => exact .again hpc hstate
      · next hstate => exact .leave hpc hstate
    · next nImages hpc =>
      split at h
      · cases h
      · next id rest hpublished =>
        dsimp only at h
        split at h
        · next hreaches => cases h; exact .push hpc hpublished hreaches
        · next hreaches =>
          cases h
          exact .skip hpc hpublished (Bool.eq_false_iff.mpr hreaches)
    · cases h
    · next hpc => cases h; exact .finish hpc
    · cases h
  · intro h
    cases h with
    | again hpc hstate => simp only [forwardImages, hpc, hstate, if_true]
    | leave hpc hstate => simp only [forwardImages, hpc, hstate, if_false]
    | push hpc hpublished hreaches => simp only [forwardImages, hpc, hpublished, hreaches, if_true]
    | skip hpc hpublished hreaches =>
      simp only [forwardImages, hpc, hpublished, hreaches, Bool.false_eq_true, if_false]
    | finish hpc => simp only [forwardImages, hpc]

theorem ForwardStep.not_returned {r r' : Replay} (h : ForwardStep t r u r') :
    r.forward ≠ .returned := by
  intro hreturned
  cases h with
  | again hpc | leave hpc | push hpc | skip hpc | finish hpc => cases hreturned.symm.trans hpc

theorem step_control_iff : t.step (.control k) = some u ↔ ∃ r v pc, t.replays[k]? = some r ∧
    ControlStep r.settings t r.control v pc ∧
      u = { v with replays := t.replays.set k { r with control := pc } } := by
  rw [step]
  cases hr : t.replays[k]? with
  | none => simp
  | some r =>
    simp only [Option.map_eq_some_iff, Prod.exists, controlReader_eq_some_iff, Option.some.injEq,
      @eq_comm Process _ u]
    constructor
    · rintro ⟨v, x, h⟩
      exact ⟨r, v, x, rfl, h⟩
    · rintro ⟨r', v, x, rfl, h⟩
      exact ⟨v, x, h⟩

theorem step_forward_iff : t.step (.forward k) = some u ↔ ∃ r v r', t.replays[k]? = some r ∧
    ForwardStep t r v r' ∧ u = { v with replays := t.replays.set k r' } := by
  rw [step]
  cases hr : t.replays[k]? with
  | none => simp
  | some r =>
    simp only [Option.map_eq_some_iff, Prod.exists, forwardImages_eq_some_iff, Option.some.injEq,
      @eq_comm Process _ u]
    constructor
    · rintro ⟨v, x, h⟩
      exact ⟨r, v, x, rfl, h⟩
    · rintro ⟨r', v, x, rfl, h⟩
      exact ⟨v, x, h⟩

theorem step_timeout_iff : t.step (.timeout k) = some u ↔ ∃ r nImages, t.replays[k]? = some r ∧
    r.forward = .receive nImages ∧
      u = { t with replays := t.replays.set k { r with forward := .test nImages } } := by
  rw [step]
  cases hr : t.replays[k]? with
  | none => simp
  | some r =>
    cases hpc : r.forward with
    | receive nImages => simp [hpc, eq_comm]
    | test | notify | finish | returned => simp [hpc]

theorem step_notify {woken : Option ℕ} (h : t.step (.notify k woken) = some u) :
    ∃ r nImages replays, t.replays[k]? = some r ∧ r.forward = .notify nImages ∧
      notifyOne (t.replays.set k { r with forward := .test nImages }) woken = some replays ∧
      u = { t with replays := replays } := by
  rw [step] at h
  split at h
  · cases h
  · next r hr =>
    split at h
    · next nImages hpc =>
      obtain ⟨replays, hreplays, rfl⟩ := Option.map_eq_some_iff.mp h
      exact ⟨r, nImages, replays, hr, hpc, hreplays, rfl⟩
    · cases h

theorem step_read {answer : Option ℕ} {delivered : Bool}
    (h : t.step (.read answer delivered) = some u) :
    t.request.isSome = true ∧ u = t.answer answer delivered := by
  rw [step] at h
  split at h
  · next hrequest => exact ⟨hrequest, (Option.some.inj h).symm⟩
  · cases h

theorem step_start (h : t.step .start = some u) : ∃ settings, t.io = .starting settings ∧
    u = { t with
      manager := t.manager.changeState .replaying
      replays := t.replays ++ [.fresh settings]
      io := .ready } := by
  rw [step] at h
  split at h
  · next settings hio => exact ⟨settings, hio, (Option.some.inj h).symm⟩
  · cases h

theorem step_request {cmd : Command} (h : t.step (.request cmd) = some u) :
    t.io = .ready ∧ u = { t with io := t.processRequest cmd } := by
  rw [step] at h
  split at h
  · next hio => exact ⟨hio, (Option.some.inj h).symm⟩
  · cases h

/-- A start is accepted in the state `idle`. -/
theorem idle_of_starting {cmd : Command} {settings : ReplaySettings}
    (h : t.processRequest cmd = .starting settings) : t.manager.state = .idle := by
  rw [processRequest] at h
  split at h
  · split at h <;> cases h
  · split at h
    · assumption
    · cases h

theorem step_stop (h : t.step .stop = some u) : t.io = .stopping ∧
    u = { t with manager := t.manager.changeState .stop, io := .ready } := by
  rw [step] at h
  split at h
  · next hio => exact ⟨hio, (Option.some.inj h).symm⟩
  · cases h

theorem step_observe {j : ℕ} (h : t.step (.observe j) = some u) :
    u = t ∨ (t.manager.state = .finished ∨ t.manager.state = .error) ∧
      u = { t with monitors := t.monitors.set j .reporting } := by
  rw [step] at h
  split at h
  · split at h
    · next hend => exact .inr ⟨hend, (Option.some.inj h).symm⟩
    · exact .inl (Option.some.inj h).symm
  · cases h

theorem step_reset {j : ℕ} (h : t.step (.reset j) = some u) :
    t.monitors[j]? = some .reporting ∧
      u = { t with
        manager := t.manager.changeState .idle
        monitors := t.monitors.set j .watching } := by
  rw [step] at h
  split at h
  · next hreporting => exact ⟨hreporting, (Option.some.inj h).symm⟩
  · cases h

end Process

end Replayer

end StdDaq
