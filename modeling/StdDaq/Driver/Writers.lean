import Mathlib.Data.List.Basic
import StdDaq.Driver.WriterDriver
import StdDaq.Lib.Run

/-!
# The driver and its writers

The worker thread talks to each writer process through two queues, one for commands and one for
responses, and both are first-in first-out. A response is a code and nothing else: it does not say
which command it answers. `did_all_writers_acknowledge` takes one response from each writer and
assumes that it is the answer to the command sent just before.

Commands and responses carry here, as part of the record, the run and the phase they belong to. The
`notes` of a run say what was made of them: which response was consumed in which phase, which files
were open when the recording began, and into which file an image was recorded.

A writer answers `create_file` with a success, with a failure, in which case it keeps the file it
had, or not at all. A late answer is a receive that found nothing and a writer that takes its step
afterwards.

## Main definitions

* `WriterProcess.step` — the loop of `std_det_writer` and of `std_det_meta_writer_gf`
* `WriterSystem.step` — the driver's worker and the writers, over any number of runs
* `Note.Ok` — what each note should say
-/

namespace StdDaq

namespace Driver

/-- A command to a writer. -/
inductive Command where
  | phase (phase : Phase)
  | recordImage
  deriving DecidableEq, Repr

/-- A command in a queue, with the run it belongs to. -/
structure Request where
  run : ℕ
  command : Command
  deriving DecidableEq, Repr

/-- A response in a queue, with the run and the phase of the command it answers. -/
structure Response where
  run : ℕ
  phase : Phase
  code : ResponseCode
  deriving DecidableEq, Repr

/-- What is recorded of a run. -/
inductive Note where
  /-- `did_all_writers_acknowledge` took a response, in this run and phase. -/
  | consumed (run : ℕ) (phase : Phase) (response : Response)
  /-- The driver stored `waiting_for_first_image`; the files of the writers at that moment. -/
  | waiting (run : ℕ) (files : List (Option ℕ))
  /-- A writer executed a `record_image` of this run; the file it had open. -/
  | recorded (run : ℕ) (file : Option ℕ)
  deriving DecidableEq, Repr

/-- What should be the case: a response answers the command of the phase that consumes it, a
recording begins when every writer has the file of its run, and images go to the file of their
run. -/
def Note.Ok : Note → Prop
  | .consumed run phase response => response.run = run ∧ response.phase = phase
  | .waiting run files => ∀ file ∈ files, file = some run
  | .recorded run file => file = some run

instance (note : Note) : Decidable note.Ok :=
  match note with
  | .consumed run phase response =>
    inferInstanceAs (Decidable (response.run = run ∧ response.phase = phase))
  | .waiting run files => inferInstanceAs (Decidable (∀ file ∈ files, file = some run))
  | .recorded run file => inferInstanceAs (Decidable (file = some run))

/-- How `create_file` ends: a file, an exception, or no permission to become the user that is to
write, which is not answered. -/
inductive CreateResult where
  | success
  | failure
  | silent
  deriving DecidableEq, Repr

/-- A writer with its two queues. The open file is named by the run that created it. -/
structure WriterProcess where
  requests : List Request := []
  responses : List Response := []
  file : Option ℕ := none
  deriving DecidableEq, Repr

namespace WriterProcess

/-- A command is sent to the writer. -/
def post (w : WriterProcess) (request : Request) : WriterProcess :=
  { w with requests := w.requests ++ [request] }

/-- The writer sends a response. -/
def respond (w : WriterProcess) (run : ℕ) (phase : Phase) (code : ResponseCode) : WriterProcess :=
  { w with responses := w.responses ++ [⟨run, phase, code⟩] }

/-- A turn of the writer's loop. -/
def step (w : WriterProcess) (result : CreateResult) : Option (WriterProcess × List Note) :=
  match w.requests with
  | [] => none
  | ⟨run, .phase .create⟩ :: rest =>
    match result with
    | .success =>
      some ({ w with requests := rest, file := some run }.respond run .create .success, [])
    | .failure => some ({ w with requests := rest }.respond run .create .failure, [])
    | .silent => some ({ w with requests := rest }, [])
  | ⟨run, .recordImage⟩ :: rest => some ({ w with requests := rest }, [.recorded run w.file])
  | ⟨run, .phase .close⟩ :: rest =>
    some ({ w with requests := rest, file := none }.respond run .close .success, [])
  | ⟨run, .phase .confirm⟩ :: rest =>
    some ({ w with requests := rest }.respond run .confirm .success, [])

end WriterProcess

/-- The worker of the current run, and the writers in the order of their sockets. -/
structure WriterSystem where
  /-- The number of runs so far, which is also the number of the current one. -/
  run : ℕ := 0
  nImages : ℕ := 0
  pc : WorkerPc := .finished
  writers : List WriterProcess
  notes : List Note := []
  deriving DecidableEq, Repr

/-- A step of the system. -/
inductive WriterEvent where
  /-- A start is accepted. -/
  | start (nImages : ℕ)
  /-- A step of the worker; what `is_recording` says, and whether an image has arrived. -/
  | driver (isRecording imageArrives : Bool)
  /-- A turn of writer `j`. -/
  | writer (j : ℕ) (result : CreateResult)
  deriving DecidableEq, Repr

namespace WriterSystem

/-- What the worker's next step receives, and what is left in the queues. -/
def receive (t : WriterSystem) (imageArrives : Bool) :
    Received × List WriterProcess × List Note :=
  match t.pc with
  | .acknowledge phase i _ =>
    match t.writers[i]? with
    | none => (.nothing, t.writers, [])
    | some w =>
      match w.responses with
      | [] => (.nothing, t.writers, [])
      | response :: rest =>
        (.response response.code, t.writers.set i { w with responses := rest },
          [.consumed t.run phase response])
  | .recordReceive _ => (if imageArrives then .image else .nothing, t.writers, [])
  | _ => (.nothing, t.writers, [])

/-- What the effect of the worker's step does to the queues. -/
def applyEffect (run : ℕ) (writers : List WriterProcess) :
    Effect → List WriterProcess × List Note
  | .none => (writers, [])
  | .store .waitingForFirstImage =>
    (writers, [.waiting run (writers.map WriterProcess.file)])
  | .store _ => (writers, [])
  | .send i phase => (writers.modify i fun w => w.post ⟨run, .phase phase⟩, [])
  | .forward indices _ =>
    (indices.foldl (fun ws i => ws.modify i fun w => w.post ⟨run, .recordImage⟩) writers, [])

/-- One step. Runs follow each other: a start needs the previous worker to have returned. -/
def step (d : WriterDriver) (t : WriterSystem) : WriterEvent → Option WriterSystem
  | .start nImages =>
    if t.pc = .finished then some { t with run := t.run + 1, nImages := nImages, pc := .createFile }
    else none
  | .driver isRecording imageArrives =>
    match d.step t.nImages isRecording t.pc (t.receive imageArrives).1 with
    | none => none
    | some (pc, effect) =>
      let applied := applyEffect t.run (t.receive imageArrives).2.1 effect
      some { t with
        pc := pc
        writers := applied.1
        notes := t.notes ++ (t.receive imageArrives).2.2 ++ applied.2 }
  | .writer j result =>
    match t.writers[j]? with
    | none => none
    | some w =>
      match w.step result with
      | none => none
      | some (w', noted) => some { t with writers := t.writers.set j w', notes := t.notes ++ noted }

end WriterSystem

end Driver

end StdDaq
