import Kronos.Common.Reaches
import Kronos.Engine.RegistryProperties
import Kronos.Engine.Transition

/-!
# Carriers

Every live job is carried by exactly one entry, worker or call. The queue and
the registry are guarded by different mutexes, so the carriers of a job are
counted over the whole engine: its entries in the queue, the workers and calls
that hold it, and the entries a cancelling shutdown has drained.
-/

set_option autoImplicit false

namespace Kronos.Engine

open Threads

variable {Task : Type}

/-- A worker has popped the job and neither finished nor requeued it. -/
def Worker.carries (id : JobId) : Worker → Nat
  | .dispatched dispatch => if dispatch.entry.id = id then 1 else 0
  | .resolved dispatch _ => if dispatch.entry.id = id then 1 else 0
  | .slicing dispatch _ => if dispatch.entry.id = id then 1 else 0
  | .sliced dispatch _ _ => if dispatch.entry.id = id then 1 else 0
  | .requeueing entry => if entry.id = id then 1 else 0
  | .waiting => 0
  | .exited => 0

/-- A worker runs a slice of the job or has its result in hand. -/
def Worker.executes (id : JobId) : Worker → Nat
  | .slicing dispatch _ => if dispatch.entry.id = id then 1 else 0
  | .sliced dispatch _ _ => if dispatch.entry.id = id then 1 else 0
  | _ => 0

/-- A submit or restore call has registered the job and not pushed it. -/
def Call.carries (id : JobId) (call : Call Task) : Nat :=
  match call.stage with
  | .push entry _ => if entry.id = id then 1 else 0
  | .raced entry _ => if entry.id = id then 1 else 0
  | .advanceJobId (some _) _ => call.request.recovered?.toList.countP (·.id = id)
  | .advanceSequence (some _) _ => call.request.recovered?.toList.countP (·.id = id)
  | _ => 0

/-- Entries of the job that a shutdown has drained and not yet cancelled. -/
def Call.drained (id : JobId) (call : Call Task) : Nat :=
  match call.stage with
  | .cancelPending pending => pending.countP (·.id = id)
  | _ => 0

namespace State

def registry (engine : State Task) : Registry Task := engine.shared.registry

def stateOf (engine : State Task) (id : JobId) : Option JobState :=
  (engine.registry.recordOf id).map (·.snapshot.state)

/-- Entries of the job in the task queue. -/
def queued (engine : State Task) (id : JobId) : Nat :=
  engine.shared.queue.entries.countP (·.id = id)

def held (engine : State Task) (id : JobId) : Nat := total (Worker.carries id) engine.workers

def executing (engine : State Task) (id : JobId) : Nat := total (Worker.executes id) engine.workers

def unpushed (engine : State Task) (id : JobId) : Nat := total (Call.carries id) engine.calls

def drained (engine : State Task) (id : JobId) : Nat := total (Call.drained id) engine.calls

def carriers (engine : State Task) (id : JobId) : Nat :=
  engine.queued id + engine.held id + engine.unpushed id + engine.drained id

end State

/-- How often a job in the given state, or an unregistered one, is carried and executed. -/
def CarriedOnce (state : Option JobState) (carriers executing : Nat) : Prop :=
  match state with
  | none => carriers = 0 ∧ executing = 0
  | some state => carriers ≤ 1 ∧ (isTerminal state = false → carriers = 1) ∧
      executing = if state = .running then 1 else 0

/-- The records a worker refers to are the registered ones. -/
def Worker.Refers (registry : Registry Task) : Worker → Prop
  | .resolved dispatch ref => registry.find dispatch.entry.id = some ref
  | .slicing dispatch ref => registry.find dispatch.entry.id = some ref
  | .sliced dispatch ref _ => registry.find dispatch.entry.id = some ref
  | _ => True

/-- The records a call refers to are the registered ones. -/
def Call.Refers (registry : Registry Task) (call : Call Task) : Prop :=
  match call.stage with
  | .push entry ref => registry.find entry.id = some ref
  | .raced entry ref => registry.find entry.id = some ref
  | .advanceJobId (some ref) _ =>
      ∀ submission, call.request.recovered? = some submission →
        registry.find submission.id = some ref
  | .advanceSequence (some ref) _ =>
      ∀ submission, call.request.recovered? = some submission →
        registry.find submission.id = some ref
  | .cancelFound ref => ∃ id, registry.find id = some ref
  | .returnedHandle id ref => registry.find id = some ref
  | _ => True

/-- What holds of the engine between steps as long as submitted ids are new. -/
structure Sound (engine : State Task) : Prop where
  registry : RegistryOk engine.registry
  workers : ∀ worker ∈ engine.workers, worker.Refers engine.registry
  calls : ∀ call ∈ engine.calls, call.Refers engine.registry
  carried : ∀ id, CarriedOnce (engine.stateOf id) (engine.carriers id) (engine.executing id)

/-- A submission that registers its job finds its id free. Without room it throws
and registers nothing. -/
def Stage.registersFree (registry : Registry Task) : Stage → Bool
  | .registerSubmission draft =>
      decide (Registry.limit ≤ registry.records.length) || (registry.find draft.id).isNone
  | _ => true

theorem Stage.find_of_registersFree {registry : Registry Task} {draft : Draft}
    (fresh : (Stage.registerSubmission draft).registersFree registry = true)
    (room : registry.records.length < Registry.limit) : registry.find draft.id = none := by
  have full : ¬ Registry.limit ≤ registry.records.length := Nat.not_le.mpr room
  simpa [registersFree, full] using fresh

/-- Registered ids stay distinct. A restore checks this itself, a submission does not. -/
def IdsDistinct (engine : State Task) : Action Task → Prop
  | .call index _ =>
      ∀ call ∈ engine.calls[index]?, call.stage.registersFree engine.registry = true
  | _ => True

instance (engine : State Task) : DecidablePred (IdsDistinct engine)
  | .invoke _ => isTrue trivial
  | .worker _ _ => isTrue trivial
  | .call index _ => inferInstanceAs (Decidable (∀ call ∈ engine.calls[index]?, _))

/-! ## How a move changes the counts -/

section Moves

variable {engine : State Task} {shared : Shared Task} {index : Nat}

theorem carriers_worker {worker : Worker} (found : engine.workers[index]? = some worker)
    (moved : Worker) (id : JobId) :
    State.carriers { engine with shared, workers := engine.workers.set index moved } id +
        worker.carries id + engine.queued id =
      engine.carriers id + moved.carries id + shared.queue.entries.countP (·.id = id) := by
  have changed := total_set (Worker.carries id) found moved
  simp only [State.carriers, State.queued, State.held, State.unpushed, State.drained]
  omega

theorem executing_worker {worker : Worker} (found : engine.workers[index]? = some worker)
    (moved : Worker) (id : JobId) :
    State.executing { engine with shared, workers := engine.workers.set index moved } id +
      worker.executes id = engine.executing id + moved.executes id :=
  total_set (Worker.executes id) found moved

theorem carriers_call {call : Call Task} (found : engine.calls[index]? = some call)
    (moved : Call Task) (id : JobId) :
    State.carriers { engine with shared, calls := engine.calls.set index moved } id +
        call.carries id + call.drained id + engine.queued id =
      engine.carriers id + moved.carries id + moved.drained id +
        shared.queue.entries.countP (·.id = id) := by
  have changed := total_set (Call.carries id) found moved
  have drained := total_set (Call.drained id) found moved
  simp only [State.carriers, State.queued, State.held, State.unpushed, State.drained]
  omega

end Moves

theorem Worker.Refers.mono {registry next : Registry Task} {worker : Worker}
    (refers : worker.Refers registry)
    (kept : ∀ id ref, registry.find id = some ref → next.find id = some ref) :
    worker.Refers next := by
  cases worker with
  | resolved dispatch ref => exact kept _ _ refers
  | slicing dispatch ref => exact kept _ _ refers
  | sliced dispatch ref result => exact kept _ _ refers
  | _ => trivial

theorem Call.Refers.mono {registry next : Registry Task} {call : Call Task}
    (refers : call.Refers registry)
    (kept : ∀ id ref, registry.find id = some ref → next.find id = some ref) :
    call.Refers next := by
  obtain ⟨request, stage⟩ := call
  cases stage with
  | push entry ref => exact kept _ _ refers
  | raced entry ref => exact kept _ _ refers
  | advanceJobId restored current =>
      cases restored with
      | none => trivial
      | some ref => exact fun submission recovered => kept _ _ (refers submission recovered)
  | advanceSequence restored current =>
      cases restored with
      | none => trivial
      | some ref => exact fun submission recovered => kept _ _ (refers submission recovered)
  | cancelFound ref => exact refers.imp fun id found => kept _ _ found
  | returnedHandle id ref => exact kept _ _ refers
  | _ => trivial

end Kronos.Engine
