import Kronos.Engine.Stages
import Kronos.TaskFactory
import Kronos.Wal.Recover

/-!
# A lifetime of the daemon

The constructor of `Daemon` recovers the log, reserves the identity of every
reported job and restores the jobs that are not finished, one after the other;
the workers run meanwhile. Calls of clients come afterwards. The lifetime ends
when the process does.
-/

set_option autoImplicit false

namespace Kronos.Daemon

open Engine Wal

/-- The body of one of the two loops of the constructor, for one job. -/
inductive Startup where
  | reserve (submission : JobSubmissionRecord)
  | restore (job : RecoveredJob)
  deriving DecidableEq

/-- What the constructor does with a report. -/
def startupOf (report : RecoveryReport) : List Startup :=
  report.jobs.map (fun job => .reserve job.submission) ++
    (report.jobs.filter fun job => !isTerminal job.state).map .restore

structure Lifetime where
  engine : State BuiltinTask
  /-- The loop body whose call of the engine has not been left yet. -/
  running : Option Startup := none
  todo : List Startup := []
  deriving DecidableEq

/-- A command of a client. -/
inductive Command where
  | submit (type : Bytes) (arguments : List Bytes) (priority : Int32)
  | cancel (id : JobId)
  | setScheduler (config : SchedulerConfig)
  | shutdown (mode : ShutdownMode)

/-- The call of the engine a command leads to, if its arguments are fine. -/
def Command.request? : Command → Option (Request BuiltinTask)
  | .submit type arguments priority =>
      match TaskFactory.createForSubmission type arguments priority with
      | .ok created => some (.submit (some created.task) created.options)
      | .error _ => none
  | .cancel id => some (.cancel id)
  | .setScheduler config => some (.setScheduler config)
  | .shutdown mode => some (.shutdown mode)

/-- A step of one of the threads of the daemon. The creation of the observer of a
restored job may throw. -/
inductive Event where
  | startup (env : Environment) (observer : Option Bytes)
  | invoke (command : Command)
  | worker (index : Nat) (env : Environment)
  | call (index : Nat) (env : Environment)

def Event.env : Event → Environment
  | .startup env _ => env
  | .invoke _ => {}
  | .worker _ env => env
  | .call _ env => env

def Event.observer : Event → Option Bytes
  | .startup _ observer => observer
  | _ => none

/-- An append to the journal that the engine has no part in. -/
def appendTransition (engine : State BuiltinTask) (record : JobTransitionRecord) :
    State BuiltinTask :=
  { engine with
    shared := { engine.shared with
      registry := { engine.shared.registry with
        journal := engine.shared.registry.journal.add (.transition record) } } }

/-- The transition that is appended for a job that cannot be restored. -/
def failedRecovery (job : RecoveredJob) (what : Bytes) : JobTransitionRecord :=
  ⟨job.submission.id, .failed, job.workUnitsConsumed, text "recovery failed: " ++ what⟩

namespace Lifetime

/-- The handler in the second loop. An append that throws there ends the daemon. -/
def giveUp (life : Lifetime) (env : Environment) (job : RecoveredJob) (what : Bytes) :
    Option Lifetime :=
  match env.appendError job.submission.id with
  | some _ => none
  | none =>
      some { life with
        engine := appendTransition life.engine (failedRecovery job what)
        running := none }

/-- The call that the constructor waits for has come to this stage. A restored job is
observed inside of the `try` block too. -/
def leave (life : Lifetime) (env : Environment) (observer : Option Bytes) :
    Startup → Stage → Option Lifetime
  | .restore job, .threw what => life.giveUp env job what
  | .restore job, .returnedHandle _ _ =>
      match observer with
      | some what => life.giveUp env job what
      | none => some { life with running := none }
  -- nobody catches what the first loop throws
  | .reserve _, .threw _ => none
  | _, stage => if stage.ended then some { life with running := none } else none

/-- The constructor goes on: it enters a loop body, or leaves the current one. -/
def startup (life : Lifetime) (env : Environment) (observer : Option Bytes) :
    Option Lifetime :=
  match life.running with
  | some item =>
      match life.engine.calls.getLast? with
      | none => none
      | some call => life.leave env observer item call.stage
  | none =>
      match life.todo with
      | [] => none
      | .reserve submission :: rest =>
          (life.engine.step (.invoke (.reserveRecoveredIdentity submission))).map fun engine =>
            ⟨engine, some (.reserve submission), rest⟩
      | .restore job :: rest =>
          match TaskFactory.restore job.submission.task with
          | .error what => { life with todo := rest }.giveUp env job what
          | .ok task =>
              (life.engine.step (.invoke (.restore (some task) job.submission))).map fun engine =>
                ⟨engine, some (.restore job), rest⟩

/-- The constructor has returned. -/
def ready (life : Lifetime) : Bool := life.running.isNone && life.todo.isEmpty

def step (life : Lifetime) : Event → Option Lifetime
  | .startup env observer => life.startup env observer
  | .invoke command =>
      if life.ready then
        match command.request? with
        | none => none
        | some request =>
            (life.engine.step (.invoke request)).map fun engine => { life with engine }
      else none
  | .worker index env =>
      (life.engine.step (.worker index env)).map fun engine => { life with engine }
  | .call index env =>
      (life.engine.step (.call index env)).map fun engine => { life with engine }

end Lifetime

end Kronos.Daemon
