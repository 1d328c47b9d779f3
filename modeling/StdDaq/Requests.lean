import StdDaq.DetectorConfig
import StdDaq.Driver.WriterDriver
import StdDaq.Lib.Json
import StdDaq.Replayer.Replayer

/-!
# The requests of the two drivers

`std_det_driver` and `std_buffer_driver` take their requests from websocket sessions, as texts. The
handlers of the two, `socket_session::process_request`, have the same text; what differs is the
state they look at and `process_start_request`.

A text that is not JSON is answered. A JSON value is asked for its member `"command"` outside of any
`try`, so an exception leaves the handler and then `io_context::run`, which nobody has guarded
either. And `process_start_request` is `noexcept`: what is thrown in it ends the process. The
accessors of JSON values throw for values that are no objects and for members of the wrong type, and
nothing looks at that before.

A start command that is not one is answered, and the connection is closed. `close_socket_handler`
joins `monitor_thread` for this. But the handler of the message has armed the next read, which
completes with an error code when the connection is closed, and joins the same thread again: the
second `join` throws, and nobody catches that either.

The parser is a parameter. The texts of the answers are the source's; a text message is UTF-8, so
writing them out as JSON throws nothing.

## Main results

* `handled_iff` — the messages that are handled without an uncaught exception
* `drivers_handle_iff` — the same for each driver
-/

namespace StdDaq

namespace Requests

/-- What is thrown. -/
inductive Thrown where
  /-- By an accessor of a JSON value. -/
  | json (e : Json.Error)
  /-- `std::system_error`: `join` was called on a thread that is not joinable. -/
  | notJoinable
  deriving DecidableEq, Repr

/-- `request_stop()` and `join()` of a `std::jthread`. A thread that has been joined is no longer
joinable. -/
def stopAndJoin (joinable : Bool) : Except Thrown Bool :=
  if joinable then .ok false else .error .notJoinable

/-- `close_socket_handler`, which then closes the connection. -/
def closeSocketHandler (joinable : Bool) : Except Thrown Bool := stopAndJoin joinable

/-- The handler of `async_read`, when the read completes with an error code. -/
def readFailed (joinable : Bool) : Except Thrown Bool := stopAndJoin joinable

/-- How the handling of a message ends. -/
inductive Outcome (S : Type) where
  /-- `stop_recording`, and whether it stores the state `stop`. -/
  | stopped (stored : Bool)
  /-- `start_recording` with valid settings. -/
  | started (settings : S)
  /-- `send_response`, with `close_socket_handler` or with a handler that does nothing. -/
  | responded (status reason : String) (closes : Bool)
  /-- An exception left the handler. -/
  | escaped (e : Json.Error)
  /-- An exception was thrown in a `noexcept` function, which calls `std::terminate`. -/
  | terminated (e : Json.Error)
  deriving DecidableEq, Repr

/-- What the outcome leads to, with what becomes of `monitor_thread`. The next read is armed in any
case. After a closing answer the connection ends, and then this read completes with an error code;
else it waits for the next message. -/
def Outcome.followUp {S : Type} (joinable : Bool) : Outcome S → Except Thrown Bool
  | .escaped e | .terminated e => .error (.json e)
  | .responded _ _ true => closeSocketHandler joinable >>= readFailed
  | _ => .ok joinable

/-- There was no uncaught exception. -/
def Outcome.Handled {S : Type} (joinable : Bool) (outcome : Outcome S) : Prop :=
  Except.IsOk (outcome.followUp joinable)

/-- A closing answer is not survived, whether the monitor was running or not. -/
theorem Outcome.not_handled_closing {S : Type} (joinable : Bool) (status reason : String) :
    ¬ (responded status reason true : Outcome S).Handled joinable := by
  cases joinable <;> exact Except.not_isOk_error _

/-- What the handler of a `socket_session` uses. -/
structure SocketSession (S : Type) where
  /-- `parse_command`. -/
  parseCommand : String → Option Json
  /-- The body of `process_start_request`, before `noexcept`. -/
  processStartRequest : Json → Except Json.Error (Option S)
  /-- `is_recording` or `is_replaying`. -/
  active : Bool
  /-- The state is `idle`. -/
  idle : Bool
  /-- `monitor_thread` is joinable. -/
  joinable : Bool

namespace SocketSession

variable {S : Type} (session : SocketSession S)

/-- The answer to a start request that is not one. -/
def invalidStart (message : String) : Outcome S :=
  .responded "error"
    ("Invalid command! expected: start with path parameter, received: " ++ message) true

/-- `start_recording`: `and_then` calls the `noexcept` function. -/
def startRecording (message : String) : Outcome S :=
  match session.parseCommand message with
  | none => invalidStart message
  | some command =>
    match session.processStartRequest command with
    | .error e => .terminated e
    | .ok none => invalidStart message
    | .ok (some settings) => .started settings

/-- `process_request`, from the message on. -/
def processRequest (message : String) : Outcome S :=
  match session.parseCommand message with
  | none => .responded "error" ("Invalid command! " ++ message) false
  | some command =>
    match command.value Json.getString "command" "" with
    | .error e => .escaped e
    | .ok commandString =>
      if commandString = "stop" then .stopped session.active
      else if session.idle then session.startRecording message
      else .responded "rejected" "driver is busy!" false

/-- The value is an object, and its command is a text if it has one. -/
def HasCommand (command : Json) : Prop :=
  command.isObject = true ∧ command.MemberIs "command" Json.isString

/-- The request is one to start. -/
def IsStart (command : Json) : Prop := command.member? "command" = some (.string "start")

/-- The request is one to stop. -/
def IsStop (command : Json) : Prop := command.member? "command" = some (.string "stop")

theorem isOk_command {command : Json} :
    Except.IsOk (command.value Json.getString "command" "") ↔ HasCommand command :=
  Json.value_isOk_iff fun _ => Json.isOk_getString

/-- The text of the command. -/
theorem command_eq {command : Json} {text : String}
    (h : command.value Json.getString "command" "" = .ok text) (htext : text ≠ "") :
    command.member? "command" = some (.string text) := by
  cases command with
  | object members =>
    rw [Json.value] at h
    rw [Json.member?]
    cases hlookup : members.lookup "command" with
    | none =>
      rw [hlookup] at h
      cases h
      exact absurd rfl htext
    | some member =>
      rw [hlookup] at h
      cases member with
      | string s =>
        cases h
        rfl
      | _ => cases h
  | _ => cases h

variable {session}

theorem handled_startRecording {message : String} {command : Json}
    (hparse : session.parseCommand message = some command) :
    (session.startRecording message).Handled session.joinable ↔
      ∃ settings, session.processStartRequest command = .ok (some settings) := by
  rw [startRecording, hparse]
  cases hstart : session.processStartRequest command with
  | error e => simp [hstart, Outcome.Handled, Outcome.followUp, Except.not_isOk_error]
  | ok settings =>
    cases settings with
    | none => simp [hstart, invalidStart, Outcome.not_handled_closing]
    | some settings => simp [hstart, Outcome.Handled, Outcome.followUp, Except.isOk_ok]

/-- **Which messages are handled.** A text that is not JSON is, and otherwise the value has to be an
object with no other command than a text; and if the driver is idle and the command is not to stop,
it has to be a start command from which the settings can be read. -/
theorem handled_iff (message : String) :
    (session.processRequest message).Handled session.joinable ↔
      ∀ command, session.parseCommand message = some command → HasCommand command ∧
        (session.idle = true → ¬ IsStop command →
          ∃ settings, session.processStartRequest command = .ok (some settings)) := by
  rw [processRequest]
  cases hparse : session.parseCommand message with
  | none => simp [Outcome.Handled, Outcome.followUp, Except.isOk_ok]
  | some command =>
    simp only [Option.some.injEq, forall_eq']
    rw [← isOk_command]
    cases hcommand : command.value Json.getString "command" "" with
    | error e => simp [Outcome.Handled, Outcome.followUp, Except.not_isOk_error]
    | ok text =>
      simp only [Except.isOk_ok, true_and]
      by_cases hstop : text = "stop"
      · subst hstop
        simp [Outcome.Handled, Outcome.followUp, Except.isOk_ok, IsStop,
          command_eq hcommand (by decide)]
      · have hne : ¬ IsStop command := by
          intro hmember
          cases command with
          | object members =>
            rw [IsStop, Json.member?] at hmember
            rw [Json.value, hmember] at hcommand
            exact hstop (Except.ok.inj hcommand).symm
          | _ => cases hmember
        rw [if_neg hstop]
        by_cases hidle : session.idle = true
        · rw [if_pos hidle, handled_startRecording hparse]
          exact ⟨fun h _ _ => h, fun h => h hidle hne⟩
        · rw [if_neg hidle]
          exact ⟨fun _ hidle' => absurd hidle' hidle, fun _ => Except.isOk_ok _⟩

end SocketSession

open SocketSession

/-! ### Start requests -/

/-- `process_start_request`: settings are read from a start command that has the member the driver
cannot do without. -/
def startRequest {S : Type} (needed : String) (settings : Json → Except Json.Error S)
    (command : Json) : Except Json.Error (Option S) := do
  let name ← command.value Json.getString "command" ""
  if name = "start" ∧ command.contains needed = true then
    let s ← settings command
    return some s
  else return none

/-- The request is in order for a driver: its command is missing or a text, and an idle driver that
is not to stop gets a start command with the member it needs and members of the right types. -/
structure Acceptable (idle : Bool) (needed : String) (fieldsOk : Json → Prop) (command : Json) :
    Prop where
  hasCommand : HasCommand command
  start : idle = true → ¬ IsStop command →
    IsStart command ∧ command.contains needed = true ∧ fieldsOk command

section StartRequest

variable {S : Type} {needed : String} {settings : Json → Except Json.Error S} {command : Json}

/-- The command of a start request is `"start"`. -/
theorem isStart_iff {name : String} (h : command.value Json.getString "command" "" = .ok name) :
    IsStart command ↔ name = "start" := by
  constructor
  · intro hstart
    cases command with
    | object members =>
      rw [IsStart, Json.member?] at hstart
      rw [Json.value, hstart] at h
      exact (Except.ok.inj h).symm
    | _ => cases hstart
  · rintro rfl
    exact command_eq h (by decide)

theorem startRequest_eq {name : String}
    (h : command.value Json.getString "command" "" = .ok name) :
    startRequest needed settings command =
      if name = "start" ∧ command.contains needed = true then
        settings command >>= fun s => .ok (some s)
      else .ok none := by
  rw [startRequest, h]
  rfl

/-- Settings come from a start command that has the needed member and whose members can be read. -/
theorem exists_startRequest_iff (hcommand : HasCommand command) :
    (∃ s, startRequest needed settings command = .ok (some s)) ↔
      IsStart command ∧ command.contains needed = true ∧ Except.IsOk (settings command) := by
  obtain ⟨name, hname⟩ := isOk_command.mpr hcommand
  rw [startRequest_eq hname, isStart_iff hname]
  split
  · next hstart =>
    constructor
    · rintro ⟨s, hs⟩
      obtain ⟨s', hs', -⟩ := Except.bind_eq_ok_iff.mp hs
      exact ⟨hstart.1, hstart.2, s', hs'⟩
    · rintro ⟨-, -, s, hs⟩
      exact ⟨s, by rw [hs]; rfl⟩
  · next hstart =>
    constructor
    · rintro ⟨s, hs⟩
      cases hs
    · rintro ⟨hname, hneeded, -⟩
      exact absurd ⟨hname, hneeded⟩ hstart

/-- A session with such a function handles a message exactly when the request is in order. -/
theorem handled_iff_acceptable (session : SocketSession S) {fieldsOk : Json → Prop}
    (hstart : session.processStartRequest = startRequest needed settings)
    (hsettings : ∀ command, command.contains needed = true →
      (Except.IsOk (settings command) ↔ fieldsOk command)) (message : String) :
    (session.processRequest message).Handled session.joinable ↔
      ∀ command, session.parseCommand message = some command →
        Acceptable session.idle needed fieldsOk command := by
  rw [handled_iff]
  refine forall₂_congr fun command _ => ?_
  rw [hstart]
  constructor
  · rintro ⟨hcommand, hok⟩
    refine ⟨hcommand, fun hidle hstop => ?_⟩
    obtain ⟨hname, hneeded, hread⟩ := (exists_startRequest_iff hcommand).mp (hok hidle hstop)
    exact ⟨hname, hneeded, (hsettings command hneeded).mp hread⟩
  · rintro ⟨hcommand, hfields⟩
    refine ⟨hcommand, fun hidle hstop => (exists_startRequest_iff hcommand).mpr ?_⟩
    obtain ⟨hname, hneeded, hok⟩ := hfields hidle hstop
    exact ⟨hname, hneeded, (hsettings command hneeded).mpr hok⟩

end StartRequest

/-! ### The writer driver -/

/-- `run_settings`. -/
structure RunSettings where
  path : String
  nImages : ℕ
  writer : ℤ
  startImageId : ℕ
  deriving DecidableEq, Repr

/-- The settings of a recording, as `process_start_request` of `std_det_driver` reads them. -/
def runSettings (command : Json) : Except Json.Error RunSettings := do
  let path ← command.atKey "path" >>= Json.getString
  let filePrefix ← command.value Json.getString "file_prefix" "file"
  let nImages ← command.value Json.getUInt64 "n_image" 16777215
  let writer ← command.value Json.getInt "writer_id" 0
  let startImageId ← command.value Json.getUInt64 "start_id" 0
  return ⟨path ++ "/" ++ filePrefix, nImages, writer, startImageId⟩

/-- The members of a start command have the types that are read. -/
structure RunFieldsOk (command : Json) : Prop where
  path : command.MemberIs "path" Json.isString
  filePrefix : command.MemberIs "file_prefix" Json.isString
  nImage : command.MemberIs "n_image" Json.isNumber
  writerId : command.MemberIs "writer_id" fun j => j.isNumber || j.isBoolean
  startId : command.MemberIs "start_id" Json.isNumber

/-- A session of `std_det_driver`. -/
def detSession (parse : String → Option Json) (manager : Driver.StateManager) (joinable : Bool) :
    SocketSession RunSettings where
  parseCommand := parse
  processStartRequest := startRequest "path" runSettings
  active := manager.isRecording
  idle := manager.state = .idle
  joinable := joinable

/-- The request is in order for `std_det_driver`. -/
def DetAcceptable (manager : Driver.StateManager) : Json → Prop :=
  Acceptable (manager.state = .idle) "path" RunFieldsOk

theorem isOk_runSettings {command : Json} (h : command.contains "path" = true) :
    Except.IsOk (runSettings command) ↔ RunFieldsOk command := by
  have hobject := Json.isObject_of_contains h
  rw [runSettings, Except.isOk_bind_and_iff fun _ => Except.isOk_bind_and_iff fun _ =>
    Except.isOk_bind_and_iff fun _ => Except.isOk_bind_and_iff fun _ =>
    Except.isOk_bind_iff fun _ => Except.isOk_pure _,
    Json.isOk_atKey_bind (fun _ => Json.isOk_getString) h,
    Json.value_isOk_iff fun _ => Json.isOk_getString,
    Json.value_isOk_iff fun _ => Json.isOk_getUInt64,
    Json.value_isOk_iff fun _ => Json.isOk_getInt,
    Json.value_isOk_iff fun _ => Json.isOk_getUInt64]
  simp only [hobject, true_and]
  constructor
  · rintro ⟨hpath, hprefix, himages, hwriter, hstart⟩
    exact ⟨hpath, hprefix, himages, hwriter, hstart⟩
  · rintro ⟨hpath, hprefix, himages, hwriter, hstart⟩
    exact ⟨hpath, hprefix, himages, hwriter, hstart⟩

/-! ### The buffer driver -/

/-- `replay_settings`, with the delay in milliseconds. -/
structure ReplaySettings extends Replayer.ReplaySettings where
  delay : Option ℤ
  deriving DecidableEq, Repr

/-- A member that may be missing. -/
def optionalUInt64 (command : Json) (key : String) : Except Json.Error (Option ℕ) :=
  if command.contains key then
    (command.atKey key >>= Json.getUInt64) >>= fun value => .ok (some value)
  else .ok none

/-- The settings of a replay, as `process_start_request` of `std_buffer_driver` reads them. -/
def replaySettings (command : Json) : Except Json.Error ReplaySettings := do
  let startImageId ← command.atKey "start_image_id" >>= Json.getUInt64
  let endImageId ← optionalUInt64 command "end_image_id"
  let delay ← optionalUInt64 command "delay"
  return ⟨⟨startImageId, endImageId⟩, delay.map toLong⟩

/-- The members of a start command have the types that are read. -/
structure ReplayFieldsOk (command : Json) : Prop where
  startImageId : command.MemberIs "start_image_id" Json.isNumber
  endImageId : command.MemberIs "end_image_id" Json.isNumber
  delay : command.MemberIs "delay" Json.isNumber

/-- A session of `std_buffer_driver`. -/
def bufferSession (parse : String → Option Json) (manager : Replayer.StateManager)
    (joinable : Bool) : SocketSession ReplaySettings where
  parseCommand := parse
  processStartRequest := startRequest "start_image_id" replaySettings
  active := manager.isReplaying
  idle := manager.state = .idle
  joinable := joinable

/-- The request is in order for `std_buffer_driver`. -/
def BufferAcceptable (manager : Replayer.StateManager) : Json → Prop :=
  Acceptable (manager.state = .idle) "start_image_id" ReplayFieldsOk

theorem isOk_optionalUInt64 {command : Json} {key : String} :
    Except.IsOk (optionalUInt64 command key) ↔ command.MemberIs key Json.isNumber := by
  rw [optionalUInt64]
  by_cases hkey : command.contains key = true
  · rw [if_pos hkey, Except.isOk_bind_iff fun _ => Except.isOk_ok _]
    exact Json.isOk_atKey_bind (fun _ => Json.isOk_getUInt64) hkey
  · rw [if_neg hkey]
    refine iff_of_true (Except.isOk_ok _) fun member hmember => absurd ?_ hkey
    rw [Json.contains, hmember]
    rfl

theorem isOk_replaySettings {command : Json} (h : command.contains "start_image_id" = true) :
    Except.IsOk (replaySettings command) ↔ ReplayFieldsOk command := by
  rw [replaySettings, Except.isOk_bind_and_iff fun _ => Except.isOk_bind_and_iff fun _ =>
    Except.isOk_bind_iff fun _ => Except.isOk_pure _,
    Json.isOk_atKey_bind (fun _ => Json.isOk_getUInt64) h, isOk_optionalUInt64, isOk_optionalUInt64]
  constructor
  · rintro ⟨hstart, hend, hdelay⟩
    exact ⟨hstart, hend, hdelay⟩
  · rintro ⟨hstart, hend, hdelay⟩
    exact ⟨hstart, hend, hdelay⟩

/-- The members of a request that the model of the replayer is given. -/
def commandOf (command : Json) : Replayer.Command where
  command := (command.value Json.getString "command" "").toOption.getD ""
  startImageId := (command.member? "start_image_id").bind fun j => j.getUInt64.toOption
  endImageId := (command.member? "end_image_id").bind fun j => j.getUInt64.toOption

theorem member?_of_atKey {command member : Json} {key : String}
    (h : command.atKey key = .ok member) : command.member? key = some member := by
  cases command with
  | object members =>
    rw [Json.atKey] at h
    rw [Json.member?]
    split at h
    · next hlookup => rw [hlookup, Except.ok.inj h]
    · cases h
  | _ => cases h

/-- Reading a member that has to be there. -/
theorem member?_bind_of_atKey_bind {command : Json} {key : String} {n : ℕ}
    (h : command.atKey key >>= Json.getUInt64 = .ok n) :
    ((command.member? key).bind fun j => j.getUInt64.toOption) = some n := by
  obtain ⟨member, hmember, hn⟩ := Except.bind_eq_ok_iff.mp h
  rw [member?_of_atKey hmember, Option.bind_some, hn]
  rfl

theorem member?_bind_of_optionalUInt64 {command : Json} {key : String} {value : Option ℕ}
    (h : optionalUInt64 command key = .ok value) :
    ((command.member? key).bind fun j => j.getUInt64.toOption) = value := by
  rw [optionalUInt64] at h
  split at h
  · obtain ⟨n, hn, hvalue⟩ := Except.bind_eq_ok_iff.mp h
    rw [member?_bind_of_atKey_bind hn]
    exact Except.ok.inj hvalue
  · next hkey =>
    rw [Json.contains, Option.not_isSome_iff_eq_none] at hkey
    rw [hkey, ← Except.ok.inj h]
    rfl

/-- **A start request of the buffer driver starts what the model of the replayer starts.** -/
theorem startRequest_replays {command : Json} {settings : Option ReplaySettings}
    (h : startRequest "start_image_id" replaySettings command = .ok settings) :
    settings.map ReplaySettings.toReplaySettings =
      Replayer.processStartRequest (commandOf command) := by
  obtain ⟨name, hname, -⟩ := Except.bind_eq_ok_iff.mp h
  rw [startRequest_eq hname] at h
  have hcommand : (commandOf command).command = name := by
    rw [commandOf, hname]
    rfl
  rw [Replayer.processStartRequest, hcommand]
  split at h
  · next hstart =>
    obtain ⟨s, hs, hsettings⟩ := Except.bind_eq_ok_iff.mp h
    obtain ⟨start, hfirst, hs⟩ := Except.bind_eq_ok_iff.mp hs
    obtain ⟨last, hlast, hs⟩ := Except.bind_eq_ok_iff.mp hs
    obtain ⟨delay, -, hs⟩ := Except.bind_eq_ok_iff.mp hs
    rw [if_pos hstart.1, ← Except.ok.inj hsettings, ← Except.ok.inj hs, commandOf,
      member?_bind_of_atKey_bind hfirst, member?_bind_of_optionalUInt64 hlast]
    rfl
  · next hstart =>
    rw [← Except.ok.inj h]
    split
    · next hstartName =>
      have hmissing : (commandOf command).startImageId = none := by
        have hnot : command.contains "start_image_id" = false := by simpa [hstartName] using hstart
        rw [Json.contains, Option.isSome_eq_false_iff, Option.isNone_iff_eq_none] at hnot
        rw [commandOf, hnot]
        rfl
      rw [hmissing]
      rfl
    · rfl

/-! ### Both drivers -/

/-- **The messages that the drivers survive.** Whatever the parser is and whatever state a driver
and the session are in, a message is handled without an uncaught exception exactly when it is no
JSON, or an object whose command is missing or a text and which, if the driver is idle and is not to
stop, is a start command with the member that is needed and members of the right types. -/
theorem drivers_handle_iff (parse : String → Option Json) (joinable : Bool) (message : String) :
    (∀ manager : Driver.StateManager,
      ((detSession parse manager joinable).processRequest message).Handled joinable ↔
        ∀ command, parse message = some command → DetAcceptable manager command) ∧
    (∀ manager : Replayer.StateManager,
      ((bufferSession parse manager joinable).processRequest message).Handled joinable ↔
        ∀ command, parse message = some command → BufferAcceptable manager command) :=
  ⟨fun manager => handled_iff_acceptable (detSession parse manager joinable) rfl
      (fun _ => isOk_runSettings) message,
    fun manager => handled_iff_acceptable (bufferSession parse manager joinable) rfl
      (fun _ => isOk_replaySettings) message⟩

/-- `json::parse` on three messages: an empty array, a start request with a number for a path, and
one without the member that is needed. -/
def threeMessages (message : String) : Option Json :=
  if message = "[]" then some (.array [])
  else if message = "\x7b\"command\":\"start\",\"path\":5\x7d" then
    some (.object [("command", .string "start"), ("path", .unsigned 5)])
  else if message = "\x7b\"command\":\"start\"\x7d" then
    some (.object [("command", .string "start")])
  else none

/-- An empty array ends both drivers, the wrong path ends the writer driver, and after the answer to
a start request that lacks its member the monitor thread is joined twice. -/
theorem drivers_do_not_handle :
    (detSession threeMessages {} true).processRequest "[]" = .escaped .valueOfNonObject ∧
    (detSession threeMessages {} true).processRequest
      "\x7b\"command\":\"start\",\"path\":5\x7d" = .terminated .wrongType ∧
    ((detSession threeMessages {} true).processRequest
      "\x7b\"command\":\"start\"\x7d").followUp true = .error .notJoinable ∧
    (bufferSession threeMessages {} true).processRequest "[]" = .escaped .valueOfNonObject ∧
    ((bufferSession threeMessages {} true).processRequest
      "\x7b\"command\":\"start\"\x7d").followUp true = .error .notJoinable ∧
    ¬ ∀ (parse : String → Option Json) (message : String),
      (∀ manager : Driver.StateManager,
        ((detSession parse manager true).processRequest message).Handled true) ∧
      ∀ manager : Replayer.StateManager,
        ((bufferSession parse manager true).processRequest message).Handled true := by
  refine ⟨rfl, rfl, rfl, rfl, rfl, fun h => ?_⟩
  exact Except.not_isOk_error _ ((h threeMessages "[]").1 {})

end Requests

end StdDaq
