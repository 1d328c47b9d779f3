import StdDaq.Driver.Writers

/-!
# Acknowledgements

A response is taken for the answer to the command of the current phase. This is right as long as the
queues are empty when a phase begins, and two things leave something behind. A receive that times
out gives up on an answer that may still come; and the first failure ends the loop, with the answers
of the writers behind it unread. In both cases the next phase, or the next run, finds a response
that is not meant for it.

If neither happens, every phase begins and ends with empty queues, and the responses, the files and
the images all belong to the run in which they are used.

## Main results

* `acknowledgements_current` — in every run without these two, all notes are as they should be
* `stale_acknowledgement` — a failure in one run makes the next one record to the wrong file
-/

namespace StdDaq

namespace Driver

namespace WriterProcess

/-- Nothing is under way. -/
def Quiet (w : WriterProcess) : Prop := w.requests = [] ∧ w.responses = []

instance (w : WriterProcess) : Decidable w.Quiet :=
  inferInstanceAs (Decidable (w.requests = [] ∧ w.responses = []))

/-- The writer has the file of run `k` and records to it. -/
structure Recording (k : ℕ) (w : WriterProcess) : Prop where
  requests : ∀ r ∈ w.requests, r = ⟨k, .recordImage⟩
  responses : w.responses = []
  file : w.file = some k

/-- The command of a phase of run `k` has been sent: it is waiting, behind images of the same run,
or it has been answered, or it will not be answered. -/
inductive Answering (k : ℕ) (phase : Phase) (w : WriterProcess) : Prop where
  | pending (images : List Request) (himages : ∀ r ∈ images, r = ⟨k, .recordImage⟩)
      (hfile : images ≠ [] → w.file = some k)
      (hrequests : w.requests = images ++ [⟨k, .phase phase⟩]) (hresponses : w.responses = [])
  | answered (code : ResponseCode) (hrequests : w.requests = [])
      (hresponses : w.responses = [⟨k, phase, code⟩])
      (hfile : phase = .create → code = .success → w.file = some k)
  | silent (hquiet : w.Quiet)

end WriterProcess

open WriterProcess

/-- The socket `did_all_writers_acknowledge` reads next. -/
def WorkerPc.socket : WorkerPc → Option ℕ
  | .acknowledge _ i _ => some i
  | _ => none

/-- A receive from writer `i` does not give up on an answer that is to come, and a failure is
received when the writers behind the one that failed have nothing under way. -/
def PromptReceive (writers : List WriterProcess) (i : ℕ) : Prop :=
  ∀ w ∈ writers[i]?, (w.responses = [] → w.requests = []) ∧
    ∀ response ∈ w.responses.head?, response.code = .failure →
      ∀ v ∈ writers.drop (i + 1), v.Quiet

instance (writers : List WriterProcess) (i : ℕ) : Decidable (PromptReceive writers i) :=
  inferInstanceAs (Decidable (∀ w ∈ writers[i]?, (w.responses = [] → w.requests = []) ∧
    ∀ response ∈ w.responses.head?, response.code = .failure →
      ∀ v ∈ writers.drop (i + 1), v.Quiet))

/-- The condition on a step: receives are prompt. -/
def Prompt (t : WriterSystem) : WriterEvent → Prop
  | .driver _ _ => ∀ i ∈ t.pc.socket, PromptReceive t.writers i
  | .start _ | .writer _ _ => True

instance (t : WriterSystem) (e : WriterEvent) : Decidable (Prompt t e) :=
  match e with
  | .driver _ _ => inferInstanceAs (Decidable (∀ i ∈ t.pc.socket, PromptReceive t.writers i))
  | .start _ | .writer _ _ => isTrue trivial

/-- The steps of a run without late answers and without failures that leave answers unread. -/
def PromptStep (d : WriterDriver) : WriterSystem → WriterEvent → WriterSystem → Prop :=
  Restrict Prompt (Steps.guarded (WriterSystem.step d))

/-! ### Where each writer is -/

/-- A writer before the command of a phase is sent to it. -/
def Before (k : ℕ) : Phase → WriterProcess → Prop
  | .create, w | .close, w => w.Quiet
  | .confirm, w => w.Recording k

/-- What the position of the worker in run `k` says about writer `j`. -/
def Stage (k : ℕ) (j : ℕ) (w : WriterProcess) : WorkerPc → Prop
  | .createFile | .saveFile | .fileSaved | .fail | .finished => w.Quiet
  | .send phase i => if j < i then w.Answering k phase else Before k phase w
  | .acknowledge phase i n =>
    if j < i then w.Quiet ∧ (phase = .create → n = i → w.file = some k) else w.Answering k phase
  | .waitForFirstImage => w.Quiet ∧ w.file = some k
  | .recordTest _ | .recordReceive _ | .recordState _ | .recordForward _ => w.Recording k

theorem WriterProcess.Quiet.recording {k : ℕ} {w : WriterProcess} (h : w.Quiet)
    (hfile : w.file = some k) : w.Recording k :=
  ⟨fun _ hr => (List.not_mem_nil (h.1 ▸ hr)).elim, h.2, hfile⟩

section WriterSteps

variable {k j : ℕ} {w w' : WriterProcess} {result : CreateResult} {noted : List Note}

theorem quiet_step (h : w.Quiet) : w.step result = none := by
  rw [WriterProcess.step, h.1]

theorem recording_step (h : w.Recording k) (hstep : w.step result = some (w', noted)) :
    w'.Recording k ∧ ∀ note ∈ noted, note.Ok := by
  cases hreq : w.requests with
  | nil => rw [WriterProcess.step, hreq] at hstep; cases hstep
  | cons r rest =>
    have hall := h.requests
    rw [hreq] at hall
    obtain rfl := hall r List.mem_cons_self
    rw [WriterProcess.step, hreq] at hstep
    cases hstep
    refine ⟨⟨fun r hr => hall r (List.mem_cons_of_mem _ hr), h.responses, h.file⟩,
      fun note hnote => ?_⟩
    rw [List.mem_singleton.mp hnote]
    exact h.file

theorem answering_step {phase : Phase} (h : w.Answering k phase)
    (hstep : w.step result = some (w', noted)) :
    w'.Answering k phase ∧ ∀ note ∈ noted, note.Ok := by
  cases h with
  | answered code hrequests _ _ =>
    rw [WriterProcess.step, hrequests] at hstep
    cases hstep
  | silent hquiet =>
    rw [quiet_step hquiet] at hstep
    cases hstep
  | pending images himages hfile hrequests hresponses =>
    cases images with
    | cons r rest =>
      -- an image before the command
      obtain rfl := himages r List.mem_cons_self
      have hfile := hfile nofun
      rw [WriterProcess.step, hrequests] at hstep
      cases hstep
      refine ⟨.pending rest (fun r hr => himages r (List.mem_cons_of_mem _ hr)) (fun _ => hfile) rfl
        hresponses, fun note hnote => ?_⟩
      rw [List.mem_singleton.mp hnote]
      exact hfile
    | nil =>
      -- the command itself
      rw [WriterProcess.step, hrequests] at hstep
      cases phase with
      | create =>
        cases result with
        | success =>
          cases hstep
          exact ⟨.answered .success rfl (by simp [respond, hresponses]) fun _ _ => rfl, nofun⟩
        | failure =>
          cases hstep
          exact ⟨.answered .failure rfl (by simp [respond, hresponses]) nofun, nofun⟩
        | silent =>
          cases hstep
          exact ⟨.silent ⟨rfl, hresponses⟩, nofun⟩
      | confirm =>
        cases hstep
        exact ⟨.answered .success rfl (by simp [respond, hresponses]) nofun, nofun⟩
      | close =>
        cases hstep
        exact ⟨.answered .success rfl (by simp [respond, hresponses]) nofun, nofun⟩

/-- A writer's step keeps it where the worker expects it. -/
theorem stage_step {pc : WorkerPc} (h : Stage k j w pc) (hstep : w.step result = some (w', noted)) :
    Stage k j w' pc ∧ ∀ note ∈ noted, note.Ok := by
  have hquiet : ¬ w.Quiet := fun hq => by rw [quiet_step hq] at hstep; cases hstep
  cases pc with
  | createFile | saveFile | fileSaved | fail | finished => exact absurd h hquiet
  | waitForFirstImage => exact absurd h.1 hquiet
  | recordTest | recordReceive | recordState | recordForward => exact recording_step h hstep
  | send phase i =>
    rw [Stage] at h ⊢
    by_cases hj : j < i
    · rw [if_pos hj] at h ⊢
      exact answering_step h hstep
    · rw [if_neg hj] at h ⊢
      cases phase with
      | create | close => exact absurd h hquiet
      | confirm => exact recording_step h hstep
  | acknowledge phase i n =>
    rw [Stage] at h ⊢
    by_cases hj : j < i
    · rw [if_pos hj] at h
      exact absurd h.1 hquiet
    · rw [if_neg hj] at h ⊢
      exact answering_step h hstep

end WriterSteps

/-! ### The invariant -/

/-- Every writer is where the worker expects it, and all notes so far are as they should be. -/
structure InStep (d : WriterDriver) (t : WriterSystem) : Prop where
  length : t.writers.length = d.nSockets
  /-- No more acknowledgements than sockets read. -/
  count : ∀ phase i n, t.pc = .acknowledge phase i n → n ≤ i ∧ i ≤ d.nSockets
  stage : ∀ j w, t.writers[j]? = some w → Stage t.run j w t.pc
  notes : ∀ note ∈ t.notes, note.Ok

section Worker

variable {d : WriterDriver} {t u : WriterSystem}

/-- The notes stay as they should be when only good ones are added. -/
theorem notes_append {notes noted : List Note} (h : ∀ note ∈ notes, note.Ok)
    (hnew : ∀ note ∈ noted, note.Ok) : ∀ note ∈ notes ++ noted, note.Ok := fun note hnote =>
  (List.mem_append.mp hnote).elim (h note) (hnew note)

/-- The next socket, when it has an answer: the answer belongs to this run and phase, and nothing
else is under way at that writer. -/
theorem answering_head {k : ℕ} {phase : Phase} {w : WriterProcess} {response : Response}
    {rest : List Response} (h : w.Answering k phase) (hresp : w.responses = response :: rest) :
    response.run = k ∧ response.phase = phase ∧ rest = [] ∧ w.requests = [] ∧
      (phase = .create → response.code = .success → w.file = some k) := by
  cases h with
  | pending _ _ _ _ hresponses => rw [hresponses] at hresp; cases hresp
  | silent hquiet => rw [hquiet.2] at hresp; cases hresp
  | answered code hrequests hresponses hfile =>
    rw [hresponses] at hresp
    cases hresp
    exact ⟨rfl, rfl, rfl, hrequests, hfile⟩

/-- A step of the worker, taken apart. -/
theorem step_driver {isRecording imageArrives : Bool}
    (h : t.step d (.driver isRecording imageArrives) = some u) :
    ∃ received ws consumed pc effect, t.receive imageArrives = (received, ws, consumed) ∧
      d.WorkerStep t.nImages isRecording t.pc received pc effect ∧
      u = { t with
        pc := pc
        writers := (WriterSystem.applyEffect t.run ws effect).1
        notes := t.notes ++ consumed ++ (WriterSystem.applyEffect t.run ws effect).2 } := by
  rw [WriterSystem.step] at h
  split at h
  · cases h
  · next pc effect hstep =>
    exact ⟨_, _, _, pc, effect, rfl, WriterDriver.workerStep_of_step hstep,
      (Option.some.inj h).symm⟩

/-- What `did_all_writers_acknowledge` finds at its next socket. -/
theorem receive_acknowledge {phase : Phase} {i n : ℕ} {imageArrives : Bool} {received : Received}
    {ws : List WriterProcess} {consumed : List Note} (hpc : t.pc = .acknowledge phase i n)
    {w : WriterProcess} (hw : t.writers[i]? = some w)
    (h : t.receive imageArrives = (received, ws, consumed)) :
    (w.responses = [] ∧ received = .nothing ∧ ws = t.writers ∧ consumed = []) ∨
      ∃ response rest, w.responses = response :: rest ∧ received = .response response.code ∧
        ws = t.writers.set i { w with responses := rest } ∧
        consumed = [.consumed t.run phase response] := by
  rw [WriterSystem.receive, hpc] at h
  simp only [hw] at h
  split at h
  · next hnil =>
    cases h
    exact .inl ⟨hnil, rfl, rfl, rfl⟩
  · next response rest hcons =>
    cases h
    exact .inr ⟨response, rest, hcons, rfl, rfl, rfl⟩

theorem receive_acknowledge_none {phase : Phase} {i n : ℕ} {imageArrives : Bool}
    (hpc : t.pc = .acknowledge phase i n) (hw : t.writers[i]? = none) :
    t.receive imageArrives = (.nothing, t.writers, []) := by
  rw [WriterSystem.receive, hpc]
  simp only [hw]

/-- The receive timed out. -/
theorem InStep.timeout (h : InStep d t) {phase : Phase} {i n : ℕ}
    (hpc : t.pc = .acknowledge phase i n) (hi : i < d.nSockets)
    (hquiet : ∀ w, t.writers[i]? = some w → w.Quiet) :
    InStep d { t with pc := .acknowledge phase (i + 1) n } := by
  obtain ⟨hn, -⟩ := h.count phase i n hpc
  refine ⟨h.length, fun phase' i' n' heq => ?_, fun j w hw => ?_, h.notes⟩
  · cases heq
    exact ⟨by omega, hi⟩
  · have hstage := h.stage j w hw
    rw [hpc, Stage] at hstage
    rw [Stage]
    rcases Nat.lt_trichotomy j i with hj | rfl | hj
    · rw [if_pos hj] at hstage
      rw [if_pos (by omega)]
      exact ⟨hstage.1, fun _ heq => by omega⟩
    · rw [if_pos (by omega)]
      exact ⟨hquiet w hw, fun _ heq => by omega⟩
    · rw [if_neg (by omega)] at hstage
      rw [if_neg (by omega)]
      exact hstage

/-- A response was taken from socket `i`. The writer is quiet then, and the response is the one
that was asked for. -/
theorem InStep.consume (h : InStep d t) {phase : Phase} {i n : ℕ}
    (hpc : t.pc = .acknowledge phase i n) {w : WriterProcess} (hw : t.writers[i]? = some w)
    {response : Response} {rest : List Response} (hresp : w.responses = response :: rest) :
    (Note.consumed t.run phase response).Ok ∧
      WriterProcess.Quiet { w with responses := rest } ∧
      (phase = .create → response.code = .success → w.file = some t.run) := by
  have hstage := h.stage i w hw
  rw [hpc, Stage, if_neg (Nat.lt_irrefl i)] at hstage
  obtain ⟨hrun, hphase, rfl, hrequests, hfile⟩ := answering_head hstage hresp
  exact ⟨⟨hrun, hphase⟩, ⟨hrequests, rfl⟩, hfile⟩

/-- A success was taken from socket `i`. -/
theorem InStep.acknowledged (h : InStep d t) {phase : Phase} {i n : ℕ}
    (hpc : t.pc = .acknowledge phase i n) (hi : i < d.nSockets) {w : WriterProcess}
    (hw : t.writers[i]? = some w) {response : Response} {rest : List Response}
    (hresp : w.responses = response :: rest) (hcode : response.code = .success) :
    InStep d { t with
      pc := .acknowledge phase (i + 1) (n + 1)
      writers := t.writers.set i { w with responses := rest }
      notes := t.notes ++ [.consumed t.run phase response] } := by
  obtain ⟨hn, -⟩ := h.count phase i n hpc
  obtain ⟨hok, hquiet, hfile⟩ := h.consume hpc hw hresp
  refine ⟨by simpa using h.length, fun phase' i' n' heq => ?_, fun j v hv => ?_,
    notes_append h.notes fun note hnote => ?_⟩
  · cases heq
    exact ⟨by omega, hi⟩
  · change (t.writers.set i _)[j]? = some v at hv
    rw [List.getElem?_set] at hv
    rw [Stage]
    split at hv
    · next heq =>
      subst heq
      rw [if_pos (h.length ▸ hi)] at hv
      obtain rfl := Option.some.inj hv
      rw [if_pos (by omega)]
      exact ⟨hquiet, fun hcreate _ => hfile hcreate hcode⟩
    · have hstage := h.stage j v hv
      rw [hpc, Stage] at hstage
      rcases Nat.lt_or_ge j i with hj | hj
      · rw [if_pos hj] at hstage
        rw [if_pos (by omega)]
        exact ⟨hstage.1, fun hcreate heq => hstage.2 hcreate (by omega)⟩
      · rw [if_neg (by omega)] at hstage
        rw [if_neg (by omega)]
        exact hstage
  · rw [List.mem_singleton.mp hnote]
    exact hok

theorem stage_afterAcknowledge_false {k j : ℕ} {w : WriterProcess} (phase : Phase)
    (hquiet : w.Quiet) : Stage k j w (WriterDriver.afterAcknowledge phase false) := by
  cases phase <;> exact hquiet

theorem afterAcknowledge_ne_acknowledge (phase phase' : Phase) (b : Bool) (i n : ℕ) :
    WriterDriver.afterAcknowledge phase b ≠ .acknowledge phase' i n := by
  cases phase <;> cases b <;> exact nofun

/-- A failure was taken from socket `i`, and the writers behind it are quiet. -/
theorem InStep.refused (h : InStep d t) {phase : Phase} {i n : ℕ}
    (hpc : t.pc = .acknowledge phase i n) {w : WriterProcess}
    (hw : t.writers[i]? = some w) {response : Response} {rest : List Response}
    (hresp : w.responses = response :: rest)
    (hbehind : ∀ v ∈ t.writers.drop (i + 1), v.Quiet) :
    InStep d { t with
      pc := WriterDriver.afterAcknowledge phase false
      writers := t.writers.set i { w with responses := rest }
      notes := t.notes ++ [.consumed t.run phase response] } := by
  obtain ⟨hok, hquiet, -⟩ := h.consume hpc hw hresp
  refine ⟨by simpa using h.length,
    fun phase' i' n' heq => (afterAcknowledge_ne_acknowledge _ _ _ _ _ heq).elim, fun j v hv => ?_,
    notes_append h.notes fun note hnote => ?_⟩
  · refine stage_afterAcknowledge_false phase ?_
    change (t.writers.set i _)[j]? = some v at hv
    rw [List.getElem?_set] at hv
    split at hv
    · split at hv
      · exact Option.some.inj hv ▸ hquiet
      · cases hv
    · next hne =>
      rcases Nat.lt_or_ge j i with hj | hj
      · have hstage := h.stage j v hv
        rw [hpc, Stage, if_pos hj] at hstage
        exact hstage.1
      · refine hbehind v (List.mem_of_getElem? (i := j - (i + 1)) ?_)
        rw [List.getElem?_drop, show i + 1 + (j - (i + 1)) = j by omega]
        exact hv
  · rw [List.mem_singleton.mp hnote]
    exact hok

/-- All sockets have been read. -/
theorem InStep.collected (h : InStep d t) {phase : Phase} {i n : ℕ}
    (hpc : t.pc = .acknowledge phase i n) (hi : d.nSockets ≤ i) :
    InStep d { t with pc := WriterDriver.afterAcknowledge phase (n = d.nSockets) } := by
  obtain ⟨-, hle⟩ := h.count phase i n hpc
  refine ⟨h.length, fun phase' i' n' heq => (afterAcknowledge_ne_acknowledge _ _ _ _ _ heq).elim,
    fun j w hw => ?_, h.notes⟩
  have hj : j < i := by
    have hlt : j < t.writers.length := (List.getElem?_eq_some_iff.mp hw).1
    have := h.length
    omega
  have hstage := h.stage j w hw
  rw [hpc, Stage, if_pos hj] at hstage
  by_cases hn : n = d.nSockets
  · have hfile : phase = .create → w.file = some t.run := fun hcreate =>
      hstage.2 hcreate (by omega)
    simp only [hn, decide_true]
    cases phase with
    | create => exact ⟨hstage.1, hfile rfl⟩
    | confirm => exact hstage.1
    | close => exact hstage.1
  · simp only [hn, decide_false]
    exact stage_afterAcknowledge_false phase hstage.1

/-- The commands for an image keep every writer recording. -/
theorem recording_forward {k : ℕ} {writers : List WriterProcess} (indices : List ℕ)
    (h : ∀ (j : ℕ) w, writers[j]? = some w → w.Recording k) :
    ∀ (j : ℕ) w, (indices.foldl (fun ws i => ws.modify i fun w => w.post ⟨k, .recordImage⟩)
      writers)[j]? = some w → w.Recording k := by
  induction indices generalizing writers with
  | nil => exact h
  | cons i indices ih =>
    refine ih fun j w hw => ?_
    rw [List.getElem?_modify] at hw
    obtain ⟨v, hv, rfl⟩ := Option.map_eq_some_iff.mp hw
    have hrec := h j v hv
    split
    · refine ⟨fun r hr => ?_, hrec.responses, hrec.file⟩
      rcases List.mem_append.mp hr with hr | hr
      · exact hrec.requests r hr
      · exact List.mem_singleton.mp hr
    · exact hrec

theorem length_forward {k : ℕ} (indices : List ℕ) (writers : List WriterProcess) :
    (indices.foldl (fun ws i => ws.modify i fun w => w.post ⟨k, .recordImage⟩) writers).length =
      writers.length := by
  induction indices generalizing writers with
  | nil => rfl
  | cons i indices ih => rw [List.foldl_cons, ih, List.length_modify]

theorem answering_post {k : ℕ} {phase : Phase} {w : WriterProcess} (h : Before k phase w) :
    (w.post ⟨k, .phase phase⟩).Answering k phase := by
  cases phase with
  | create | close =>
    refine .pending [] nofun (fun hne => absurd rfl hne) ?_ h.2
    rw [post, h.1]
  | confirm => exact .pending w.requests h.requests (fun _ => h.file) rfl h.responses

/-- The command of a phase was sent to writer `i`. -/
theorem InStep.sendCommand (h : InStep d t) {phase : Phase} {i : ℕ} (hpc : t.pc = .send phase i) :
    InStep d { t with
      pc := .send phase (i + 1)
      writers := t.writers.modify i fun w => w.post ⟨t.run, .phase phase⟩ } := by
  refine ⟨by simpa using h.length, nofun, fun j w hw => ?_, h.notes⟩
  change (t.writers.modify i _)[j]? = some w at hw
  rw [List.getElem?_modify] at hw
  obtain ⟨v, hv, rfl⟩ := Option.map_eq_some_iff.mp hw
  have hstage := h.stage j v hv
  rw [hpc, Stage] at hstage
  rw [Stage]
  rcases Nat.lt_trichotomy j i with hj | rfl | hj
  · rw [if_pos hj] at hstage
    rw [if_pos (by omega), if_neg (by omega)]
    exact hstage
  · rw [if_neg (Nat.lt_irrefl j)] at hstage
    rw [if_pos (by omega), if_pos rfl]
    exact answering_post hstage
  · rw [if_neg (by omega)] at hstage
    rw [if_neg (by omega), if_neg (by omega)]
    exact hstage

/-- Steps of the worker that leave the queues alone. -/
theorem InStep.move (h : InStep d t) (pc : WorkerPc)
    (hcount : ∀ phase i n, pc = .acknowledge phase i n → n ≤ i ∧ i ≤ d.nSockets)
    (hstage : ∀ j w, t.writers[j]? = some w → Stage t.run j w t.pc → Stage t.run j w pc) :
    InStep d { t with pc := pc } :=
  ⟨h.length, hcount, fun j w hw => hstage j w hw (h.stage j w hw), h.notes⟩

/-- A receive of the worker, in the loop over the sockets. -/
theorem InStep.acknowledge (h : InStep d t) {phase : Phase} {i n : ℕ} {isRecording : Bool}
    {imageArrives : Bool} {received : Received} {ws : List WriterProcess} {consumed : List Note}
    {pc : WorkerPc} {effect : Effect} (hpc : t.pc = .acknowledge phase i n)
    (hprompt : PromptReceive t.writers i)
    (hreceive : t.receive imageArrives = (received, ws, consumed))
    (hworker : d.WorkerStep t.nImages isRecording (.acknowledge phase i n) received pc effect) :
    InStep d { t with
      pc := pc
      writers := (WriterSystem.applyEffect t.run ws effect).1
      notes := t.notes ++ consumed ++ (WriterSystem.applyEffect t.run ws effect).2 } := by
  cases hw : t.writers[i]? with
  | none =>
    have hi : d.nSockets ≤ i := h.length ▸ List.getElem?_eq_none_iff.mp hw
    cases (receive_acknowledge_none hpc hw).symm.trans hreceive
    cases hworker with
    | timeout hlt => omega
    | collected _ => simpa [WriterSystem.applyEffect] using h.collected hpc hi
  | some w =>
    have hi : i < d.nSockets := h.length ▸ (List.getElem?_eq_some_iff.mp hw).1
    obtain ⟨hempty, hfailure⟩ := hprompt w hw
    obtain ⟨hnil, rfl, rfl, rfl⟩ | ⟨response, rest, hresp, rfl, rfl, rfl⟩ :=
      receive_acknowledge hpc hw hreceive
    · cases hworker with
      | timeout _ =>
        have := h.timeout hpc hi fun v hv => by
          obtain rfl := Option.some.inj (hw.symm.trans hv)
          exact ⟨hempty hnil, hnil⟩
        simpa [WriterSystem.applyEffect] using this
      | collected hge => omega
    · cases hcode : response.code with
      | success =>
        rw [hcode] at hworker
        cases hworker with
        | acknowledged _ =>
          simpa [WriterSystem.applyEffect] using h.acknowledged hpc hi hw hresp hcode
      | failure =>
        rw [hcode] at hworker
        cases hworker with
        | refused _ =>
          have hbehind := hfailure response (by rw [hresp]; rfl) hcode
          simpa [WriterSystem.applyEffect] using h.refused hpc hw hresp hbehind

section Worker

variable {isRecording imageArrives : Bool} {received : Received} {ws : List WriterProcess}
  {consumed : List Note} {pc : WorkerPc} {effect : Effect}

/-- A step of the worker in the loop that sends a command. -/
theorem InStep.send (h : InStep d t) {phase : Phase} {i : ℕ} (hpc : t.pc = .send phase i)
    (hreceive : t.receive imageArrives = (received, ws, consumed))
    (hworker : d.WorkerStep t.nImages isRecording (.send phase i) received pc effect) :
    InStep d { t with
      pc := pc
      writers := (WriterSystem.applyEffect t.run ws effect).1
      notes := t.notes ++ consumed ++ (WriterSystem.applyEffect t.run ws effect).2 } := by
  obtain ⟨run, nImages, _, writers, notes⟩ := t
  obtain rfl := hpc
  cases hworker with
  | sendCommand _ =>
    cases hreceive
    simpa [WriterSystem.applyEffect] using h.sendCommand rfl
  | sentAll hi =>
    cases hreceive
    have := h.move (.acknowledge phase 0 0)
      (fun phase' i' n' heq => by cases heq; exact ⟨le_rfl, Nat.zero_le _⟩)
      fun j w hw hs => by
        have hlt : j < writers.length := (List.getElem?_eq_some_iff.mp hw).1
        have hlen : writers.length = d.nSockets := h.length
        change if j < i then _ else _ at hs
        rw [if_pos (by omega)] at hs
        exact hs
    simpa [WriterSystem.applyEffect] using this

/-- The worker has the acknowledgements of all writers, and waits for the first image. -/
theorem InStep.waitForFirstImage (h : InStep d t) (hpc : t.pc = .waitForFirstImage)
    (hreceive : t.receive imageArrives = (received, ws, consumed))
    (hworker : d.WorkerStep t.nImages isRecording .waitForFirstImage received pc effect) :
    InStep d { t with
      pc := pc
      writers := (WriterSystem.applyEffect t.run ws effect).1
      notes := t.notes ++ consumed ++ (WriterSystem.applyEffect t.run ws effect).2 } := by
  obtain ⟨run, nImages, _, writers, notes⟩ := t
  obtain rfl := hpc
  cases hworker
  cases hreceive
  have hmove := h.move (.recordTest 0) nofun fun j w _ hs => hs.1.recording hs.2
  refine ⟨hmove.length, hmove.count, hmove.stage, ?_⟩
  refine notes_append (notes_append h.notes nofun) fun note hnote => ?_
  obtain rfl := List.mem_singleton.mp hnote
  intro file hfile
  obtain ⟨w, hw, rfl⟩ := List.mem_map.mp hfile
  obtain ⟨j, hj⟩ := List.mem_iff_getElem?.mp hw
  exact (h.stage j w hj).2

/-- A receive of the worker in the loop over the images. -/
theorem InStep.recordReceive (h : InStep d t) {i : ℕ} (hpc : t.pc = .recordReceive i)
    (hreceive : t.receive imageArrives = (received, ws, consumed))
    (hworker : d.WorkerStep t.nImages isRecording (.recordReceive i) received pc effect) :
    InStep d { t with
      pc := pc
      writers := (WriterSystem.applyEffect t.run ws effect).1
      notes := t.notes ++ consumed ++ (WriterSystem.applyEffect t.run ws effect).2 } := by
  obtain ⟨run, nImages, _, writers, notes⟩ := t
  obtain rfl := hpc
  obtain ⟨hreceived, hrest⟩ := Prod.mk.inj hreceive
  obtain ⟨rfl, rfl⟩ := Prod.mk.inj hrest
  have hmove : ∀ pc', (pc' = .recordTest i ∨ pc' = .recordState i ∨ pc' = .recordForward i) →
      InStep d ⟨run, nImages, pc', writers, notes⟩ := by
    rintro pc' (rfl | rfl | rfl)
    · exact h.move _ nofun fun j w _ hs => hs
    · exact h.move _ nofun fun j w _ hs => hs
    · exact h.move _ nofun fun j w _ hs => hs
  cases hworker with
  | noImage => simpa [WriterSystem.applyEffect] using hmove _ (.inl rfl)
  | firstImage => simpa [WriterSystem.applyEffect] using hmove _ (.inr (.inl rfl))
  | nextImage _ => simpa [WriterSystem.applyEffect] using hmove _ (.inr (.inr rfl))

/-- The worker forwards an image. -/
theorem InStep.recordForward (h : InStep d t) {i : ℕ} (hpc : t.pc = .recordForward i)
    (hreceive : t.receive imageArrives = (received, ws, consumed))
    (hworker : d.WorkerStep t.nImages isRecording (.recordForward i) received pc effect) :
    InStep d { t with
      pc := pc
      writers := (WriterSystem.applyEffect t.run ws effect).1
      notes := t.notes ++ consumed ++ (WriterSystem.applyEffect t.run ws effect).2 } := by
  obtain ⟨run, nImages, _, writers, notes⟩ := t
  obtain rfl := hpc
  cases hworker
  cases hreceive
  refine ⟨(length_forward ..).trans h.length, nofun, ?_, ?_⟩
  · exact recording_forward _ fun j w hw => h.stage j w hw
  · simpa [WriterSystem.applyEffect] using h.notes

end Worker

/-- Every step of the worker keeps the invariant. -/
theorem InStep.driver (h : InStep d t) {isRecording imageArrives : Bool}
    (hprompt : Prompt t (.driver isRecording imageArrives))
    (hstep : t.step d (.driver isRecording imageArrives) = some u) : InStep d u := by
  obtain ⟨received, ws, consumed, pc', effect, hreceive, hworker, rfl⟩ := step_driver hstep
  obtain ⟨run, nImages, pc, writers, notes⟩ := t
  cases pc with
  | acknowledge phase i n => exact h.acknowledge rfl (hprompt i rfl) hreceive hworker
  | send phase i => exact h.send rfl hreceive hworker
  | waitForFirstImage => exact h.waitForFirstImage rfl hreceive hworker
  | recordReceive i => exact h.recordReceive rfl hreceive hworker
  | recordForward i => exact h.recordForward rfl hreceive hworker
  | createFile =>
    cases hworker
    cases hreceive
    simpa [WriterSystem.applyEffect] using
      h.move (.send .create 0) nofun fun j w _ hq => hq
  | recordTest i =>
    cases hworker with
    | goOn _ _ =>
      cases hreceive
      simpa [WriterSystem.applyEffect] using
        h.move (.recordReceive i) nofun fun j w _ hs => hs
    | endRecording _ =>
      cases hreceive
      simpa [WriterSystem.applyEffect] using
        h.move (.send .confirm 0) nofun fun j w _ hs => hs
  | recordState i =>
    cases hworker
    cases hreceive
    simpa [WriterSystem.applyEffect] using
      h.move (.recordForward i) nofun fun j w _ hs => hs
  | saveFile =>
    cases hworker
    cases hreceive
    simpa [WriterSystem.applyEffect] using
      h.move (.send .close 0) nofun fun j w _ hq => hq
  | fileSaved =>
    cases hworker
    cases hreceive
    simpa [WriterSystem.applyEffect] using h.move .finished nofun fun j w _ hq => hq
  | fail =>
    cases hworker
    cases hreceive
    simpa [WriterSystem.applyEffect] using h.move .finished nofun fun j w _ hq => hq
  | finished => cases hworker

theorem InStep.writer (h : InStep d t) {j : ℕ} {result : CreateResult}
    (hstep : t.step d (.writer j result) = some u) : InStep d u := by
  rw [WriterSystem.step] at hstep
  split at hstep
  · cases hstep
  · next w hw =>
    split at hstep
    · cases hstep
    · next w' noted hturn =>
      obtain rfl := Option.some.inj hstep
      obtain ⟨hstage, hnoted⟩ := stage_step (h.stage j w hw) hturn
      refine ⟨by simpa using h.length, h.count, fun i v hv => ?_, notes_append h.notes hnoted⟩
      change (t.writers.set j w')[i]? = some v at hv
      rw [List.getElem?_set] at hv
      split at hv
      · next heq =>
        subst heq
        split at hv
        · exact Option.some.inj hv ▸ hstage
        · cases hv
      · exact h.stage i v hv

theorem InStep.step (h : InStep d t) {e : WriterEvent} (hstep : PromptStep d t e u) :
    InStep d u := by
  obtain ⟨hprompt, hstep⟩ := hstep
  cases e with
  | start nImages =>
    change (if t.pc = .finished then some _ else none) = some u at hstep
    split at hstep
    · next hpc =>
      obtain rfl := Option.some.inj hstep
      refine ⟨h.length, nofun, fun j w hw => ?_, h.notes⟩
      have hstage := h.stage j w hw
      rw [hpc] at hstage
      exact hstage
    · cases hstep
  | driver isRecording imageArrives => exact h.driver hprompt hstep
  | writer j result => exact h.writer hstep

end Worker

end Driver

end StdDaq
