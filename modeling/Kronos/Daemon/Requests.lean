import Kronos.Daemon.Lifetime
import Kronos.Ipc.Exchange

/-!
# Requests

`handle_request` and what it calls, in steps: a request is read and leads to a
call of the engine or to a reply. The serving thread waits for its call while
the workers run. An exception inside of the `try` block is answered with an
`ERROR`, whatever was done before it.
-/

set_option autoImplicit false

namespace Kronos.Daemon

open Engine Wal Ipc

/-! ## Arguments -/

def notInteger (label : String) : Bytes := text label ++ text " must be an integer"

/-- `parse_integer<std::uint64_t>` -/
def parseUInt64 (value : Bytes) (label : String) : Except Bytes UInt64 :=
  match fromCharsUInt64 value with
  | some parsed => .ok parsed
  | none => .error (notInteger label)

/-- `parse_integer<int>` -/
def parseInt32 (value : Bytes) (label : String) : Except Bytes Int32 :=
  match fromCharsInt32 value with
  | some parsed => .ok parsed
  | none => .error (notInteger label)

def parsePositiveSize (value : Bytes) (label : String) : Except Bytes UInt64 :=
  match parseUInt64 value label with
  | .error what => .error what
  | .ok parsed =>
      if parsed = 0 then .error (text label ++ text " must be greater than zero") else .ok parsed

def parseScheduler (value : Bytes) : Except Bytes SchedulerKind :=
  if value = text "fifo" then .ok .fifo
  else if value = text "priority" then .ok .priority
  else if value = text "sjf" then .ok .shortestJobFirst
  else if value = text "rr" ∨ value = text "round-robin" then .ok .roundRobin
  else .error (text "unknown scheduler: " ++ value)

def submitUsage : Bytes :=
  text "usage: submit prime <upper-bound> [priority] | submit step <steps> <delay-ms> [priority]"

def requiredArguments (type : Bytes) : Nat := if type = text "prime" then 1 else 2

/-- The optional last argument of a submission. -/
def readPriority (fields : List Bytes) (required : Nat) : Except Bytes Int32 :=
  if fields.length = required + 3 then parseInt32 (fields.getLastD []) "priority" else .ok 0

/-- `handle_submit` up to its call of the engine. -/
def readSubmit (fields : List Bytes) : Except Bytes (Request BuiltinTask) :=
  match fields with
  | _ :: type :: rest =>
      if fields.length < 3 then .error submitUsage
      else if fields.length ≠ requiredArguments type + 2 ∧
          fields.length ≠ requiredArguments type + 3 then .error submitUsage
      else
        match readPriority fields (requiredArguments type) with
        | .error what => .error what
        | .ok priority =>
            match TaskFactory.createForSubmission type (rest.take (requiredArguments type))
              priority with
            | .error what => .error what
            | .ok created => .ok (.submit (some created.task) created.options)
  | _ => .error submitUsage

/-- `handle_scheduler` up to its call of the engine, with the current configuration. -/
def readScheduler (config : SchedulerConfig) (fields : List Bytes) :
    Except Bytes SchedulerConfig :=
  match fields with
  | [_, kind] =>
      match parseScheduler kind with
      | .error what => .error what
      | .ok kind => .ok { config with kind }
  | [_, kind, quantum] =>
      match parseScheduler kind with
      | .error what => .error what
      | .ok kind =>
          match parsePositiveSize quantum "quantum" with
          | .error what => .error what
          | .ok quantum => .ok { kind, quantum }
  | _ => .error (text "usage: scheduler <fifo|priority|sjf|rr> [quantum]")

def readKill (fields : List Bytes) : Except Bytes JobId :=
  match fields with
  | [_, id] => parseUInt64 id "job ID"
  | _ => .error (text "usage: kill <job-id>")

/-! ## Texts of the replies -/

/-- `std::left << std::setw(width)` -/
def column (width : Nat) (content : Bytes) : Bytes :=
  content ++ List.replicate (width - content.length) 32

def snapshotRow (job : JobSnapshot) : Bytes :=
  column 6 (uint64Text job.id) ++ column 20 job.name ++ column 12 job.state.toText ++
    column 10 (int32Text job.priority) ++ uint64Text job.workUnitsConsumed ++ text "/" ++
    uint64Text job.estimatedWorkUnits ++ text "\n"

def formatSnapshots (jobs : List JobSnapshot) (terminal : Bool) : Bytes :=
  let shown := jobs.filter fun job => isTerminal job.state == terminal
  if shown = [] then text (if terminal then "No completed jobs." else "No active jobs.")
  else
    column 6 (text "ID") ++ column 20 (text "NAME") ++ column 12 (text "STATE") ++
      column 10 (text "PRIORITY") ++ text "WORK\n" ++ (shown.map snapshotRow).flatten

def historyRow (job : RecoveredJob) : Bytes :=
  column 6 (uint64Text job.submission.id) ++ column 20 job.submission.name ++
    column 12 job.state.toText ++ job.message ++ text "\n"

def formatHistory (report : RecoveryReport) : Bytes :=
  let shown := report.jobs.filter fun job => isTerminal job.state
  if shown = [] then text "No completed jobs."
  else
    column 6 (text "ID") ++ column 20 (text "NAME") ++ column 12 (text "STATE") ++
      text "RESULT\n" ++ (shown.map historyRow).flatten

/-- `TaskEngine::snapshot` -/
def snapshot (engine : State BuiltinTask) : List JobSnapshot :=
  (engine.shared.registry.records.filterMap fun entry =>
    engine.shared.registry.heap[entry.2]?.map (·.snapshot)).mergeSort
      fun left right => decide (left.submissionSequence ≤ right.submissionSequence)

def helpText : Bytes :=
  text "submit prime <upper-bound> [priority]\nsubmit step <steps> <delay-ms> [priority]\nps\nkill <job-id>\nhistory\nscheduler <fifo|priority|sjf|rr> [quantum]\nping\nshutdown\nquit"

/-- `to_string(SchedulerKind)` -/
def schedulerText : SchedulerKind → Bytes
  | .fifo => text "fifo"
  | .priority => text "priority"
  | .shortestJobFirst => text "sjf"
  | .roundRobin => text "round-robin"

/-! ## The serving thread -/

/-- Where `handle_request` stands. -/
inductive Handler where
  | entered
  /-- in `engine_.submit` -/
  | submitting
  /-- in `engine_.cancel`; `known` when `get_job` found the job -/
  | killing (id : JobId) (known : Bool)
  /-- in `engine_.set_scheduler` -/
  | scheduling (config : SchedulerConfig)
  | observing (id : JobId)
  /-- in a `respond` of the `try` block; the daemon stops after it if `stops` -/
  | replying (kind message : Bytes) (stops : Bool)
  /-- in the `respond` of the `catch` block -/
  | failing (what : Bytes)
  /-- in the `respond` in front of the `try` block -/
  | rejecting
  /-- returned or left by an exception, with the reply that was delivered -/
  | left (reply : Option ProtocolMessage)
  deriving DecidableEq

/-- The answers of the surroundings to a step of the serving thread. -/
structure Answers where
  env : Environment := {}
  /-- What the creation of the observer thread throws. -/
  observer : Option Bytes := none
  /-- What `server_.send` throws. -/
  send : Option Bytes := none
  /-- What `wal_->recover()` gives to `history`. -/
  recovery : Except Bytes RecoveryReport := .ok ⟨[], false⟩

structure Service where
  life : Lifetime
  /-- The request that is being handled. -/
  handling : Option (ProtocolMessage × Handler) := none
  stopRequested : Bool := false
  deriving DecidableEq

inductive ServiceEvent where
  /-- the constructor goes on -/
  | startup (env : Environment) (observer : Option Bytes)
  | worker (index : Nat) (env : Environment)
  | receive (request : ProtocolMessage)
  | serve (answers : Answers)

/-- The engine is called, and the thread waits. -/
def call (engine : State BuiltinTask) (request : Request BuiltinTask) (handler : Handler) :
    State BuiltinTask × Handler :=
  ({ engine with calls := engine.calls ++ [{ request }] }, handler)

/-- The dispatch on the command. Exceptions end in the `catch` block. -/
def dispatchCommand (engine : State BuiltinTask) (recovery : Except Bytes RecoveryReport)
    (fields : List Bytes) (command : Bytes) : State BuiltinTask × Handler :=
  if command = text "submit" then
    match readSubmit fields with
    | .error what => (engine, .failing what)
    | .ok request => call engine request .submitting
  else if command = text "ps" then
    if fields.length ≠ 1 then (engine, .failing (text "usage: ps"))
    else (engine, .replying okKind (formatSnapshots (snapshot engine) false) false)
  else if command = text "history" then
    if fields.length ≠ 1 then (engine, .failing (text "usage: history"))
    else
      match recovery with
      | .error what => (engine, .failing what)
      | .ok report => (engine, .replying okKind (formatHistory report) false)
  else if command = text "kill" then
    match readKill fields with
    | .error what => (engine, .failing what)
    | .ok id =>
        call engine (.cancel id) (.killing id (engine.shared.registry.find id).isSome)
  else if command = text "scheduler" then
    match readScheduler engine.shared.queue.config fields with
    | .error what => (engine, .failing what)
    | .ok config => call engine (.setScheduler config) (.scheduling config)
  else if command = text "ping" then (engine, .replying okKind (text "pong") false)
  else if command = text "help" then (engine, .replying okKind helpText false)
  else if command = text "shutdown" then
    if fields.length ≠ 1 then (engine, .failing (text "usage: shutdown"))
    else (engine, .replying okKind (text "engine shutdown started") true)
  else (engine, .failing (text "unknown command: " ++ command))

/-- The body of `handle_request` up to the first call or reply. -/
def enter (engine : State BuiltinTask) (recovery : Except Bytes RecoveryReport)
    (request : ProtocolMessage) : State BuiltinTask × Handler :=
  match request.fields with
  | [] => (engine, .rejecting)
  | command :: _ =>
      if request.kind ≠ requestKind then (engine, .rejecting)
      else dispatchCommand engine recovery request.fields command

def killAnswer (id : JobId) (known : Bool) : Bool → Handler
  | true => .replying okKind (text "cancellation requested for job " ++ uint64Text id) false
  | false =>
      .replying errorKind (text (if known then "job is already terminal" else "job not found")) false

/-- What follows the return of the call of the engine. A call that has not ended is
`none`. -/
def resume (handler : Handler) (stage : Stage) : Option Handler :=
  match stage, handler with
  | .threw what, _ => some (.failing what)
  | .returnedHandle id _, .submitting => some (.observing id)
  | .returnedBool answer, .killing id known => some (killAnswer id known answer)
  | .returned, .scheduling config =>
      some (.replying okKind (text "scheduler changed to " ++ schedulerText config.kind) false)
  | _, _ => none

/-- The thread is inside of its call of the engine, the last one that was made. -/
def waitForCall (engine : State BuiltinTask) (env : Environment) (handler : Handler) :
    Option (State BuiltinTask × Handler) :=
  match engine.calls.getLast? with
  | none => none
  | some last =>
      match resume handler last.stage with
      | some next => some (engine, next)
      | none =>
          match engine.step (.call (engine.calls.length - 1) env) with
          | none => none
          | some next => some (next, handler)

def reply (request : ProtocolMessage) (kind message : Bytes) : ProtocolMessage :=
  ⟨request.requestId, kind, [message]⟩

/-- A step of `handle_request`. -/
def handleRequest (engine : State BuiltinTask) (answers : Answers) (request : ProtocolMessage) :
    Handler → Option (State BuiltinTask × Handler)
  | .entered => some (enter engine answers.recovery request)
  | .submitting => waitForCall engine answers.env .submitting
  | .killing id known => waitForCall engine answers.env (.killing id known)
  | .scheduling config => waitForCall engine answers.env (.scheduling config)
  | .observing id =>
      match answers.observer with
      | some what => some (engine, .failing what)
      | none => some (engine, .replying okKind (text "submitted job " ++ uint64Text id) false)
  | .replying kind message _ =>
      match answers.send with
      | some what => some (engine, .failing what)
      | none => some (engine, .left (some (reply request kind message)))
  | .failing what =>
      match answers.send with
      | some _ => some (engine, .left none)
      | none => some (engine, .left (some (reply request errorKind what)))
  | .rejecting =>
      match answers.send with
      | some _ => some (engine, .left none)
      | none => some (engine, .left (some (reply request errorKind (text "invalid request"))))
  | .left _ => none

/-- `stop_requested_` is set behind the reply. -/
def Handler.stops : Handler → Bool
  | .replying _ _ stops => stops
  | _ => false

namespace Service

def step (service : Service) : ServiceEvent → Option Service
  | .startup env observer =>
      (service.life.startup env observer).map fun life => { service with life }
  | .worker index env =>
      (service.life.engine.step (.worker index env)).map fun engine =>
        { service with life := { service.life with engine } }
  | .receive request =>
      if service.life.ready ∧ service.stopRequested = false then
        match service.handling with
        | none => some { service with handling := some (request, .entered) }
        | some (_, .left _) => some { service with handling := some (request, .entered) }
        | some _ => none
      else none
  | .serve answers =>
      match service.handling with
      | none => none
      | some (request, handler) =>
          match handleRequest service.life.engine answers request handler with
          | none => none
          | some (engine, next) =>
              some { service with
                life := { service.life with engine }
                handling := some (request, next)
                stopRequested := service.stopRequested || (handler.stops && answers.send.isNone) }

end Service

end Kronos.Daemon
