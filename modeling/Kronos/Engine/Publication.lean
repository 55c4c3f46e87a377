import Kronos.Engine.SingleCarrier

/-!
# Publication of results

A result is published once, together with the terminal state of its job, and
nothing changes the job afterwards. The work a job has consumed is the work of
the slices that were run for it.
-/

set_option autoImplicit false

namespace Kronos.Engine

open Threads

variable {Task : Type}

/-! ## What a step does to a record -/

/-- One step on a record: a section, with the work units it adds, or a slice that
advances the task. -/
inductive Evolves (env : Environment) : WorkUnits → JobRecord Task → JobRecord Task → Prop
  | change {before after : JobRecord Task} {units : WorkUnits} {journal journal' : Journal}
      (change : Change env units ⟨before, journal⟩ ⟨after, journal'⟩) :
      Evolves env units before after
  | ran {before : JobRecord Task} (task : Task) (running : before.snapshot.state = .running) :
      Evolves env 0 before { before with task }

theorem Evolves.refl (env : Environment) (record : JobRecord Task) : Evolves env 0 record record :=
  .change (.keep ⟨record, none⟩)

theorem Evolves.consumed {env : Environment} {units : WorkUnits} {before after : JobRecord Task}
    (evolves : Evolves env units before after) :
    after.snapshot.workUnitsConsumed = before.snapshot.workUnitsConsumed + units := by
  cases evolves with
  | change change => exact change.consumed
  | ran task running => simp

theorem Evolves.eq_of_terminal {env : Environment} {units : WorkUnits}
    {before after : JobRecord Task} (evolves : Evolves env units before after)
    (terminal : isTerminal before.snapshot.state = true) :
    after = before := by
  cases evolves with
  | change change => exact congrArg Locked.record (change.eq_of_terminal terminal)
  | ran task running => simp [running] at terminal

theorem Evolves.sameIdentity {env : Environment} {units : WorkUnits}
    {before after : JobRecord Task} (evolves : Evolves env units before after) :
    SameIdentity before after := by
  cases evolves with
  | change change => exact change.sameIdentity
  | ran task running => exact ⟨rfl, rfl, rfl, rfl, rfl, rfl⟩

theorem Evolves.stateMove {env : Environment} {units : WorkUnits} {before after : JobRecord Task}
    (evolves : Evolves env units before after) (ok : RecordOk before) :
    StateMove before.snapshot.state after.snapshot.state ∨
      (before.snapshot.state = .ready ∧ after.snapshot.state = .failed ∧
        ∃ what, env.appendError before.snapshot.id = some what ∧
          after.snapshot.message = walFailure what) := by
  cases evolves with
  | change change => exact change.stateMove ok
  | ran task running => exact .inl (.stay _)

/-- Every record of the first heap evolves into the one at its place in the second. -/
def HeapEvolves (env : Environment) (units : RecordRef → WorkUnits)
    (before after : List (JobRecord Task)) : Prop :=
  ∀ (ref : RecordRef) (record : JobRecord Task), before[ref]? = some record →
    ∃ evolved, after[ref]? = some evolved ∧ Evolves env (units ref) record evolved

theorem HeapEvolves.refl (env : Environment) (heap : List (JobRecord Task)) :
    HeapEvolves env (fun _ => 0) heap heap :=
  fun _ record known => ⟨record, known, .refl env record⟩

theorem HeapEvolves.set {env : Environment} {units : RecordRef → WorkUnits}
    {heap : List (JobRecord Task)} {ref : RecordRef} {record after : JobRecord Task}
    (read : heap[ref]? = some record) (evolves : Evolves env (units ref) record after)
    (elsewhere : ∀ other, other ≠ ref → units other = 0) :
    HeapEvolves env units heap (heap.set ref after) := by
  intro other otherRecord known
  have bound : ref < heap.length := (List.getElem?_eq_some_iff.mp read).1
  by_cases same : ref = other
  · subst same
    rw [read] at known
    cases known
    exact ⟨after, List.getElem?_set_self bound, evolves⟩
  · refine ⟨otherRecord, by rw [List.getElem?_set_ne same, known], ?_⟩
    rw [elsewhere other (Ne.symm same)]
    exact .refl env otherRecord

theorem HeapEvolves.append (env : Environment) (heap : List (JobRecord Task))
    (record : JobRecord Task) : HeapEvolves env (fun _ => 0) heap (heap ++ [record]) := by
  intro ref old known
  have bound : ref < heap.length := (List.getElem?_eq_some_iff.mp known).1
  exact ⟨old, by rw [List.getElem?_append_left bound, known], .refl env old⟩

/-- A cancelled pending job is changed once: after that it is finished. -/
theorem heapEvolves_cancelPendingLocked {env : Environment} {registry : Registry Task}
    (ok : RegistryOk registry) (pending : List SchedulerEntry) :
    HeapEvolves env (fun _ => 0) registry.heap (cancelPendingLocked env registry pending).heap := by
  have once := (@cancelPendingLocked_induction _ env registry ok pending
    (fun next => ∀ (ref : RecordRef) (record : JobRecord Task), registry.heap[ref]? = some record →
      next.heap[ref]? = some record ∨ ∃ evolved, next.heap[ref]? = some evolved ∧
        Evolves env 0 record evolved ∧ isTerminal evolved.snapshot.state = true)
    (fun _ _ known => .inl known) ?_).2
  · intro ref record known
    rcases once ref record known with same | ⟨evolved, read, evolves, _⟩
    · exact ⟨record, same, .refl env record⟩
    · exact ⟨evolved, read, evolves⟩
  · intro before after id beforeOk holds ran finished ref record known
    obtain @⟨target, locked, left, found, read, change⟩ := ran
    obtain ⟨lockedRead, _⟩ := Registry.locked_eq_some read
    have bound : target < before.heap.length := (List.getElem?_eq_some_iff.mp lockedRead).1
    by_cases same : target = ref
    · subst same
      have stored : (before.store target left).heap[target]? = some left.record := by
        simp [bound]
      have terminal : isTerminal left.record.snapshot.state = true :=
        finished left.record (by simp [Registry.recordOf, found, bound])
      rcases holds target record known with untouched | ⟨evolved, evolvedRead, evolves, done⟩
      · rw [lockedRead] at untouched
        cases untouched
        exact .inr ⟨left.record, stored, .change change, terminal⟩
      · rw [lockedRead] at evolvedRead
        cases evolvedRead
        have unchanged := change.eq_of_terminal done
        rw [unchanged] at stored
        rw [unchanged]
        exact .inr ⟨locked.record, stored, evolves, done⟩
    · have elsewhere : (before.store target left).heap[ref]? = before.heap[ref]? :=
        List.getElem?_set_ne same
      rw [elsewhere]
      exact holds ref record known

/-- The work of the slice whose result a worker has in hand. -/
def Worker.inHand (ref : RecordRef) : Worker → WorkUnits
  | .sliced _ target result => if target = ref then result.workUnitsConsumed else 0
  | _ => 0

section Steps

variable {engine : State Task}

theorem heapEvolves_worker [ITask Task] {env : Environment} {shared : Shared Task}
    {worker moved : Worker} (sound : Sound engine) (member : worker ∈ engine.workers)
    (move : WorkerTransition env engine.shared worker shared moved) :
    HeapEvolves env (fun ref => worker.inHand ref) engine.registry.heap shared.registry.heap := by
  have refers := sound.workers worker member
  cases move with
  | @dispatch dispatch ref locked read =>
      have lockedRead := (Registry.locked_eq_some read).1
      have ok := sound.registry.recordOk _ (List.mem_of_getElem? lockedRead)
      exact .set lockedRead (.change (change_dispatchLocked ok)) fun _ _ => rfl
  | @slice dispatch ref record outcome task read observed ran =>
      have running := sound.running_at member
        (show 0 < Worker.executes dispatch.entry.id _ by simp [Worker.executes]) refers read
      exact .set read (.ran task running) fun _ _ => rfl
  | @record dispatch ref result locked read =>
      have lockedRead := (Registry.locked_eq_some read).1
      have ok := sound.registry.recordOk _ (List.mem_of_getElem? lockedRead)
      have running := sound.running_at member
        (show 0 < Worker.executes dispatch.entry.id _ by simp [Worker.executes]) refers lockedRead
      refine .set lockedRead ?_ fun other different => if_neg different.symm
      simp only [Worker.inHand, if_true]
      exact .change (change_recordSliceLocked result ok running)
  | _ => exact .refl env _

theorem heapEvolves_call {env : Environment} {done : Bool} {shared : Shared Task}
    {request : Request Task} {stage moved : Stage} (sound : Sound engine)
    (move : CallTransition env done request engine.shared stage shared moved) :
    HeapEvolves env (fun _ => 0) engine.registry.heap shared.registry.heap := by
  cases move with
  | registerSubmission is room =>
      rw [Registry.heap_emplace]
      exact .append env _ _
  | registerRestore is fresh =>
      rw [Registry.heap_emplace]
      exact .append env _ _
  | @raced entry ref locked read =>
      have lockedRead := (Registry.locked_eq_some read).1
      have ok := sound.registry.recordOk _ (List.mem_of_getElem? lockedRead)
      exact .set lockedRead (.change (change_finishLocked_raced ok _)) fun _ _ => rfl
  | @cancel ref locked read =>
      have lockedRead := (Registry.locked_eq_some read).1
      have ok := sound.registry.recordOk _ (List.mem_of_getElem? lockedRead)
      exact .set lockedRead (.change (change_cancelLocked ok)) fun _ _ => rfl
  | cancelPending => exact heapEvolves_cancelPendingLocked sound.registry _
  | _ => exact .refl env _

/-- What the surroundings answer to a step. -/
def Action.env : Action Task → Environment
  | .invoke _ => {}
  | .worker _ env => env
  | .call _ env => env

/-- No append throws during the step. -/
def Action.Appends (action : Action Task) : Prop := ∀ id, action.env.appendError id = none

theorem heapEvolves_step [ITask Task] {next : State Task} {action : Action Task} (sound : Sound engine)
    (stepped : engine.step action = some next) :
    ∃ units, HeapEvolves action.env units engine.registry.heap next.registry.heap := by
  cases transition_of_step stepped with
  | invoke request => exact ⟨_, .refl _ _⟩
  | worker found move => exact ⟨_, heapEvolves_worker sound (List.mem_of_getElem? found) move⟩
  | call found move => exact ⟨_, heapEvolves_call sound move⟩

theorem find_call {env : Environment} {shared : Shared Task} {done : Bool} {request : Request Task}
    {stage moved : Stage} (sound : Sound engine)
    (move : CallTransition env done request engine.shared stage shared moved) {id : JobId}
    {ref : RecordRef} (found : engine.registry.find id = some ref) :
    shared.registry.find id = some ref := by
  cases move with
  | registerSubmission is room => exact Registry.find_emplace_of_some found
  | registerRestore is fresh => exact Registry.find_emplace_of_some found
  | @cancelPending pending =>
      exact (find_cancelPendingLocked sound.registry _ pending id).trans found
  | _ => exact found

theorem find_step [ITask Task] {next : State Task} {action : Action Task} (sound : Sound engine)
    (stepped : engine.step action = some next) {id : JobId} {ref : RecordRef}
    (found : engine.registry.find id = some ref) : next.registry.find id = some ref := by
  cases transition_of_step stepped with
  | invoke request => exact found
  | worker _ move => cases move <;> exact found
  | call _ move => exact find_call sound move found

theorem recordOf_step_of_terminal [ITask Task] {next : State Task} {action : Action Task}
    (sound : Sound engine) (stepped : engine.step action = some next) {id : JobId}
    {record : JobRecord Task} (known : engine.registry.recordOf id = some record)
    (terminal : isTerminal record.snapshot.state = true) :
    next.registry.recordOf id = some record := by
  obtain ⟨ref, found, read⟩ := Option.bind_eq_some_iff.mp known
  obtain ⟨units, all⟩ := heapEvolves_step sound stepped
  obtain ⟨evolved, evolvedRead, evolves⟩ := all ref record read
  rw [Registry.recordOf, find_step sound stepped found, Option.bind_some, evolvedRead,
    evolves.eq_of_terminal terminal]

/-- A terminal record stays as it is for the rest of the run. -/
theorem terminal_record_final [ITask Task] {later : State Task} (sound : Sound engine)
    (reached : Reaches State.step IdsDistinct engine later) {ref : RecordRef}
    {record : JobRecord Task} (read : engine.registry.heap[ref]? = some record)
    (terminal : isTerminal record.snapshot.state = true) :
    later.registry.heap[ref]? = some record := by
  have kept : Sound later ∧ later.registry.heap[ref]? = some record := by
    refine reached.invariant (fun state => Sound state ∧
      state.registry.heap[ref]? = some record) ⟨sound, read⟩ ?_
    rintro state action next ⟨sound, read⟩ distinct stepped
    refine ⟨sound.step distinct stepped, ?_⟩
    obtain ⟨units, all⟩ := heapEvolves_step sound stepped
    obtain ⟨evolved, evolvedRead, evolves⟩ := all ref record read
    rw [evolvedRead, evolves.eq_of_terminal terminal]
  exact kept.2

end Steps

/-! ## Work accounts -/

/-- The work of all slices that were run on a record. A slice that ended with an
exception has the result of a failure with no work. -/
def workOf (slices : List (RecordRef × SliceResult)) (ref : RecordRef) : Nat :=
  total (fun slice => if slice.1 = ref then slice.2.workUnitsConsumed.toNat else 0) slices

/-- The work of the slices on a record that workers have not recorded yet. -/
def State.inHand (engine : State Task) (ref : RecordRef) : Nat :=
  total (fun worker => (worker.inHand ref).toNat) engine.workers

structure Accounted (engine : State Task) : Prop where
  known : ∀ slice ∈ engine.shared.slices, slice.1 < engine.registry.heap.length
  consumed : ∀ (ref : RecordRef) (record : JobRecord Task),
    engine.registry.heap[ref]? = some record →
      (record.snapshot.workUnitsConsumed.toNat + engine.inHand ref) % 2 ^ 64 =
        workOf engine.shared.slices ref % 2 ^ 64

section Accounts

variable {engine : State Task} {env : Environment} {shared : Shared Task}

/-- What a worker gets in hand is what its slice did. -/
theorem workOf_worker [ITask Task] {worker moved : Worker}
    (move : WorkerTransition env engine.shared worker shared moved) (ref : RecordRef) :
    workOf shared.slices ref =
      workOf engine.shared.slices ref + (moved.inHand ref).toNat := by
  cases move with
  | slice read observed ran =>
      simp only [workOf, total_append, total_cons, total_nil, Worker.inHand]
      split <;> simp
  | dispatch read => split <;> rfl
  | record read => split <;> rfl
  | _ => rfl

theorem known_worker [ITask Task] {worker moved : Worker}
    (known : ∀ slice ∈ engine.shared.slices, slice.1 < engine.registry.heap.length)
    (move : WorkerTransition env engine.shared worker shared moved) :
    shared.registry.heap.length = engine.registry.heap.length ∧
      ∀ slice ∈ shared.slices, slice.1 < engine.registry.heap.length := by
  cases move with
  | @slice dispatch ref record outcome task read observed ran =>
      refine ⟨by simp [State.registry], ?_⟩
      intro slice member
      rcases List.mem_append.mp member with old | added
      · exact known slice old
      · rw [List.mem_singleton.mp added]
        exact (List.getElem?_eq_some_iff.mp read).1
  | dispatch read => exact ⟨by simp [State.registry], known⟩
  | record read => exact ⟨by simp [State.registry], known⟩
  | _ => exact ⟨rfl, known⟩

/-- A call makes at most one record, at the end, and lets no slice be run. -/
theorem heap_of_call {done : Bool} {request : Request Task} {stage moved : Stage}
    (move : CallTransition env done request engine.shared stage shared moved) :
    shared.slices = engine.shared.slices ∧
      (shared.registry.heap.length = engine.registry.heap.length ∨
        ∃ record, shared.registry.heap = engine.registry.heap ++ [record] ∧
          record.snapshot.workUnitsConsumed = 0) := by
  cases move with
  | registerSubmission is room =>
      exact ⟨rfl, .inr ⟨_, Registry.heap_emplace _ _ _, rfl⟩⟩
  | registerRestore is fresh =>
      exact ⟨rfl, .inr ⟨_, Registry.heap_emplace _ _ _, rfl⟩⟩
  | raced read => exact ⟨rfl, .inl (by simp [State.registry])⟩
  | cancel read => exact ⟨rfl, .inl (by simp [State.registry])⟩
  | cancelPending => exact ⟨rfl, .inl (by simp [State.registry])⟩
  | _ => exact ⟨rfl, .inl rfl⟩

theorem workOf_eq_zero {slices : List (RecordRef × SliceResult)} {ref : RecordRef}
    (none : ∀ slice ∈ slices, slice.1 ≠ ref) : workOf slices ref = 0 := by
  rw [workOf, total_eq_zero_iff]
  intro slice member
  exact if_neg (none slice member)

theorem inHand_eq_zero (sound : Sound engine) {ref : RecordRef}
    (idle : ∀ record, engine.registry.heap[ref]? = some record →
      record.snapshot.state ≠ .running) : engine.inHand ref = 0 := by
  rw [State.inHand, total_eq_zero_iff]
  intro worker member
  have refers := sound.workers worker member
  cases worker with
  | sliced dispatch target result =>
      by_cases same : target = ref
      · subst same
        obtain ⟨record, read, _⟩ := sound.registry.stored refers
        have running := sound.running_at member
          (show 0 < Worker.executes dispatch.entry.id _ by simp [Worker.executes]) refers read
        exact absurd running (idle record read)
      · simp [Worker.inHand, same]
  | _ => rfl

theorem Accounted.step [ITask Task] {next : State Task} {action : Action Task}
    (accounted : Accounted engine) (sound : Sound engine)
    (stepped : engine.step action = some next) : Accounted next := by
  cases transition_of_step stepped with
  | invoke request => exact ⟨accounted.known, accounted.consumed⟩
  | @worker index env worker moved shared found move =>
      obtain ⟨length, known⟩ := known_worker accounted.known move
      refine ⟨fun slice member => lt_of_lt_of_eq (known slice member) length.symm, ?_⟩
      intro ref after read
      change shared.registry.heap[ref]? = some after at read
      have bound : ref < engine.registry.heap.length :=
        lt_of_lt_of_eq (List.getElem?_eq_some_iff.mp read).1 length
      obtain ⟨evolved, evolvedRead, evolves⟩ := heapEvolves_worker sound
        (List.mem_of_getElem? found) move ref _ (List.getElem?_eq_getElem bound)
      rw [read] at evolvedRead
      cases evolvedRead
      have before := accounted.consumed ref _ (List.getElem?_eq_getElem bound)
      have moves := total_set (fun worker => (worker.inHand ref).toNat) found moved
      have grows := workOf_worker move ref
      change (_ + total (fun worker => (worker.inHand ref).toNat) (engine.workers.set index moved))
        % 2 ^ 64 = workOf shared.slices ref % 2 ^ 64
      rw [evolves.consumed, UInt64.toNat_add]
      simp only [State.inHand] at before ⊢
      omega
  | @call index env call stage shared found move =>
      obtain ⟨slices, made⟩ := heap_of_call move
      have longer : engine.registry.heap.length ≤ shared.registry.heap.length := by
        rcases made with same | ⟨record, heap, _⟩
        · exact same.ge
        · simp [heap]
      refine ⟨?_, ?_⟩
      · intro slice member
        change slice ∈ shared.slices at member
        rw [slices] at member
        exact lt_of_lt_of_le (accounted.known slice member) longer
      · intro ref after read
        change shared.registry.heap[ref]? = some after at read
        change (_ + engine.inHand ref) % 2 ^ 64 = workOf shared.slices ref % 2 ^ 64
        rw [slices]
        by_cases bound : ref < engine.registry.heap.length
        · obtain ⟨evolved, evolvedRead, evolves⟩ := heapEvolves_call sound move ref _
            (List.getElem?_eq_getElem bound)
          rw [read] at evolvedRead
          cases evolvedRead
          rw [evolves.consumed, UInt64.add_zero]
          exact accounted.consumed ref _ (List.getElem?_eq_getElem bound)
        · -- the record is new: nothing was run on it
          have beyond : engine.registry.heap.length ≤ ref := Nat.le_of_not_lt bound
          have zero : after.snapshot.workUnitsConsumed = 0 := by
            rcases made with same | ⟨record, heap, zero⟩
            · exact absurd (List.getElem?_eq_some_iff.mp read).1 (by omega)
            · rw [heap, List.getElem?_append_right beyond] at read
              have only := List.mem_of_getElem? read
              rw [List.mem_singleton.mp only]
              exact zero
          have idle : engine.inHand ref = 0 := inHand_eq_zero sound fun record known =>
            absurd (List.getElem?_eq_some_iff.mp known).1 bound
          have unused : workOf engine.shared.slices ref = 0 := workOf_eq_zero fun slice member same =>
            bound (same ▸ accounted.known slice member)
          rw [zero, idle, unused]
          rfl

theorem Accounted.of_starts (started : Starts engine) : Accounted engine := by
  obtain ⟨config, queue, requested, detected, journal, made, rfl⟩ := started
  refine ⟨?_, ?_⟩
  · intro slice member
    cases member
  · intro ref record read
    cases read

end Accounts

/-- In every reachable state a record is published exactly when it is terminal,
its promise was set at most once and with the result its snapshot shows, and its
consumed work is that of its slices. From there on a terminal record keeps its
snapshot and its promise, and states move along the life cycle only. -/
theorem results_published_once [ITask Task] (start engine : State Task) (started : Starts start)
    (reached : Reaches State.step IdsDistinct start engine) :
    (∀ (ref : RecordRef) (record : JobRecord Task), engine.registry.heap[ref]? = some record →
      (record.resultPublished = true ↔ isTerminal record.snapshot.state = true) ∧
      record.promise = (if record.resultPublished then [record.snapshot.result] else []) ∧
      (record.snapshot.workUnitsConsumed.toNat + engine.inHand ref) % 2 ^ 64 =
        workOf engine.shared.slices ref % 2 ^ 64 ∧
      (record.snapshot.state ≠ .running → engine.inHand ref = 0)) ∧
    (∀ later, Reaches State.step IdsDistinct engine later →
      ∀ (ref : RecordRef) (record : JobRecord Task),
      engine.registry.heap[ref]? = some record → isTerminal record.snapshot.state = true →
      ∃ after, later.registry.heap[ref]? = some after ∧ after.snapshot = record.snapshot ∧
        after.promise = record.promise) ∧
    ∀ action next, IdsDistinct engine action → engine.step action = some next →
      ∀ (ref : RecordRef) (before after : JobRecord Task),
        engine.registry.heap[ref]? = some before →
        next.registry.heap[ref]? = some after →
        StateMove before.snapshot.state after.snapshot.state ∨
          (before.snapshot.state = .ready ∧ after.snapshot.state = .failed ∧
            ∃ what, action.env.appendError before.snapshot.id = some what ∧
              after.snapshot.message = walFailure what) := by
  have sound := Sound.of_reaches started reached
  have accounted : Accounted engine := by
    have both : Sound engine ∧ Accounted engine :=
      reached.invariant (fun state => Sound state ∧ Accounted state)
        ⟨started.sound, .of_starts started⟩ fun _ _ _ holds distinct stepped =>
          ⟨holds.1.step distinct stepped, holds.2.step holds.1 stepped⟩
    exact both.2
  refine ⟨?_, ?_, ?_⟩
  · intro ref record read
    have ok := sound.registry.recordOk record (List.mem_of_getElem? read)
    refine ⟨by rw [ok.published], ok.promise, accounted.consumed ref record read, ?_⟩
    intro notRunning
    refine inHand_eq_zero sound fun other otherRead => ?_
    rw [read] at otherRead
    cases otherRead
    exact notRunning
  · intro later reachedLater ref record read terminal
    exact ⟨record, terminal_record_final sound reachedLater read terminal, rfl, rfl⟩
  · intro action next distinct stepped ref before after read readAfter
    obtain ⟨units, all⟩ := heapEvolves_step sound stepped
    obtain ⟨evolved, evolvedRead, evolves⟩ := all ref before read
    rw [readAfter] at evolvedRead
    cases evolvedRead
    have ok := sound.registry.recordOk before (List.mem_of_getElem? read)
    exact evolves.stateMove ok

/-- The sample job is run to its end. -/
def completedActions : List (Action BuiltinTask) :=
  .invoke (.submit (some sampleTask) sampleOptions) :: List.replicate 6 (.call 0 {}) ++
    List.replicate 5 (.worker 0 {})

private theorem completed_ran :
    (runAll State.step IdsDistinct sampleStart completedActions).isSome = true := by
  decide +kernel

def completedState : State BuiltinTask := Option.get _ completed_ran

theorem completedState_published :
    completedState.stateOf 1 = some .completed ∧
      ∀ record, completedState.registry.heap[0]? = some record →
        (record.resultPublished = true ↔ isTerminal record.snapshot.state = true) :=
  ⟨by decide +kernel, fun record read =>
    ((results_published_once sampleStart completedState sampleStart_starts
      (reaches_of_runAll (Option.some_get completed_ran).symm)).1 0 record read).1⟩

end Kronos.Engine
