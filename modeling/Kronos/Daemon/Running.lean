import Kronos.Daemon.Requests
import Kronos.Engine.Owners

/-!
# The daemon runs

The constructor of `Daemon` and `run`, which serves requests until it is told to
stop, drains the engine and joins the observers. Each job has an observer, a thread
that waits for the result of the job and sends it as an `EVENT`.
-/

set_option autoImplicit false

namespace Kronos.Daemon

open Engine Wal Ipc

/-- Where the thread of an observer stands. -/
inductive Watch where
  /-- in the loop of `wait_for` -/
  | waiting
  /-- in `server_.send` -/
  | announcing (result : JobResult)
  | finished
  deriving DecidableEq

/-- An observer with its handle. -/
structure Observer where
  id : JobId
  ref : RecordRef
  watch : Watch := .waiting
  deriving DecidableEq

/-- Where `run` stands. -/
inductive RunStage where
  | serving
  /-- in `engine_.shutdown` -/
  | draining
  /-- at the `join` of this observer -/
  | joining (index : Nat)
  | returned
  deriving DecidableEq

structure Running where
  service : Service
  observers : List Observer := []
  stage : RunStage := .serving
  /-- The results whose `EVENT` was delivered. No code reads them. -/
  announced : List JobResult := []
  /-- The jobs whose `EVENT` was lost to an exception. No code reads them. -/
  missed : List JobId := []
  deriving DecidableEq

inductive RunEvent where
  /-- the constructor goes on: its loops, or the call of the engine it is in -/
  | construct (env : Environment) (observer : Option Bytes)
  | worker (index : Nat) (env : Environment)
  | receive (request : ProtocolMessage)
  | serve (answers : Answers)
  /-- the loop of `run` ends, for `stop_requested_` or a signal -/
  | leave
  | drain (env : Environment)
  | join
  /-- an observer finds the future ready -/
  | ready (index : Nat)
  /-- the `server_.send` of an observer returns or throws -/
  | announce (index : Nat) (send : Option Bytes)

def RunEvent.env : RunEvent → Environment
  | .construct env _ => env
  | .worker _ env => env
  | .serve answers => answers.env
  | .drain env => env
  | _ => {}

/-- What the creation of the observer of a restored job throws. -/
def RunEvent.observer : RunEvent → Option Bytes
  | .construct _ observer => observer
  | _ => none

/-- The `EVENT` of a result. -/
def announcement (result : JobResult) : ProtocolMessage :=
  ⟨0, eventKind, [text "job " ++ uint64Text result.id ++ text " " ++ result.state.toText ++
    text ": " ++ result.message]⟩

/-- The constructor waits for its last call. -/
def construct (life : Lifetime) (env : Environment) (observer : Option Bytes) :
    Option Lifetime :=
  match life.startup env observer with
  | some next => some next
  | none =>
      if life.running.isSome then life.step (.call (life.engine.calls.length - 1) env) else none

/-- No request is being handled. -/
def Service.idle (service : Service) : Bool :=
  match service.handling with
  | none => true
  | some (_, .left _) => true
  | some _ => false

namespace Running

def life (running : Running) : Lifetime := running.service.life

def calls (running : Running) : List (Call BuiltinTask) := running.life.engine.calls

/-- The handle that the thread of the constructor, or of `run`, is about to have observed. -/
def observes? (running : Running) : RunEvent → Option (JobId × RecordRef)
  | .construct _ _ =>
      match running.life.running with
      | some (.restore _) => running.calls.getLast?.bind Call.handle?
      | _ => none
  | .serve _ =>
      match running.service.handling with
      | some (_, .observing _) => running.calls.getLast?.bind Call.handle?
      | _ => none
  | _ => none

/-- `observe`, where the thread may fail to be created. -/
def observe (running : Running) (failure : Option Bytes) : Option (JobId × RecordRef) → Running
  | none => running
  | some (id, ref) =>
      match failure with
      | none => { running with observers := running.observers ++ [{ id, ref }] }
      | some _ => { running with missed := running.missed ++ [id] }

def withEngine (running : Running) (engine : State BuiltinTask) : Running :=
  { running with service := { running.service with life := { running.life with engine } } }

/-- The future of the handle is ready. -/
def result? (running : Running) (ref : RecordRef) : Option JobResult :=
  (running.life.engine.shared.registry.heap[ref]?).bind fun record => record.promise.head?

def step (running : Running) : RunEvent → Option Running
  | .construct env observer =>
      (Daemon.construct running.life env observer).map fun life =>
        { running with service := { running.service with life } }.observe observer
          (running.observes? (.construct env observer))
  | .worker index env =>
      (running.life.engine.step (.worker index env)).map running.withEngine
  | .receive request =>
      if running.stage = .serving then
        (running.service.step (.receive request)).map fun service => { running with service }
      else none
  | .serve answers =>
      if running.stage = .serving then
        (running.service.step (.serve answers)).map fun service =>
          { running with service }.observe answers.observer (running.observes? (.serve answers))
      else none
  | .leave =>
      if running.stage = .serving ∧ running.life.ready ∧ running.service.idle then
        (running.life.engine.step (.invoke (.shutdown .drain))).map fun engine =>
          { running.withEngine engine with stage := .draining }
      else none
  | .drain env =>
      if running.stage = .draining then
        match running.calls.getLast?.map Call.stage with
        | some .returned => some { running with stage := .joining 0 }
        | _ => (running.life.engine.step (.call (running.calls.length - 1) env)).map
            running.withEngine
      else none
  | .join =>
      match running.stage with
      | .joining index =>
          match running.observers[index]? with
          | none => some { running with stage := .returned }
          | some observer =>
              if observer.watch = .finished then some { running with stage := .joining (index + 1) }
              else none
      | _ => none
  | .ready index =>
      match running.observers[index]? with
      | some ⟨id, ref, .waiting⟩ =>
          (running.result? ref).map fun result =>
            { running with observers := running.observers.set index ⟨id, ref, .announcing result⟩ }
      | _ => none
  | .announce index send =>
      match running.observers[index]? with
      | some ⟨id, ref, .announcing result⟩ =>
          let observers := running.observers.set index ⟨id, ref, .finished⟩
          match send with
          | none => some { running with observers, announced := running.announced ++ [result] }
          | some _ => some { running with observers, missed := running.missed ++ [id] }
      | _ => none

/-- The messages that the observers have delivered. -/
def events (running : Running) : List ProtocolMessage := running.announced.map announcement

end Running

end Kronos.Daemon
