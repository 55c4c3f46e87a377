import Kronos.Engine.Client
import Kronos.Slicing

/-!
# Results do not depend on scheduling

With one client, no cancellation and no failing append, the task of a job goes
through the states of one computation, in whatever pieces the schedulers cut it.
So any two runs that are shut down publish the same results.
-/

set_option autoImplicit false

namespace Kronos.Engine

open Threads Turns

variable {Task : Type}

/-! ## Sections whose appends succeed -/

section Sections

variable {env : Environment} {locked : Locked Task} (appends : ∀ id, env.appendError id = none)
  (ok : RecordOk locked.record)

include appends in
theorem persistTransitionLocked_appends (state : JobState) (message : Bytes) :
    ∃ journal, persistTransitionLocked env locked state message = (true, ⟨locked.record, journal⟩) := by
  unfold persistTransitionLocked
  split
  · exact ⟨_, rfl⟩
  · rw [appends]
    exact ⟨_, rfl⟩

include appends in
theorem dispatchLocked_appends :
    (dispatchLocked env locked).2.record = locked.record ∨
      ∃ now, (dispatchLocked env locked).2.record = locked.record.start now := by
  obtain ⟨journal, persisted⟩ := @persistTransitionLocked_appends _ _ locked appends .running []
  unfold dispatchLocked
  split
  · exact .inl rfl
  · rw [persisted]
    exact .inr ⟨_, rfl⟩

include appends in
theorem finishLocked_appends (unpublished : locked.record.resultPublished = false)
    (state : JobState) (message : Bytes) :
    ∃ now, (finishLocked env locked state message).record =
      locked.record.publish state message now := by
  obtain ⟨journal, persisted⟩ := @persistTransitionLocked_appends _ _ locked appends state message
  simp only [finishLocked, unpublished, Bool.false_eq_true, if_false, persisted]
  exact ⟨_, rfl⟩

include appends ok in
/-- A slice that yields or completes is recorded as what it is. -/
theorem recordSliceLocked_appends {result : SliceResult}
    (running : locked.record.snapshot.state = .running)
    (unstopped : locked.record.stopRequested = false)
    (status : result.status = .yielded ∨ result.status = .completed) :
    ((recordSliceLocked env result locked).2.record =
        (locked.record.consume result.workUnitsConsumed).backToReady result.message ∧
      result.status = .yielded) ∨
    ∃ now, (recordSliceLocked env result locked).2.record =
        (locked.record.consume result.workUnitsConsumed).publish .completed result.message now ∧
      result.status = .completed := by
  have unpublished : locked.record.resultPublished = false := by rw [ok.published, running]; rfl
  rcases status with yielded | completed
  · left
    obtain ⟨journal, persisted⟩ := @persistTransitionLocked_appends _ _
      { locked with record := locked.record.consume result.workUnitsConsumed } appends .ready
      result.message
    refine ⟨?_, yielded⟩
    have notStopped : (locked.record.consume result.workUnitsConsumed).stopRequested = false :=
      unstopped
    simp only [recordSliceLocked, yielded, notStopped, persisted, Bool.false_eq_true, if_false]
  · right
    obtain ⟨now, finished⟩ := @finishLocked_appends _ _
      { locked with record := locked.record.consume result.workUnitsConsumed } appends unpublished
      .completed result.message
    refine ⟨now, ?_, completed⟩
    simp only [recordSliceLocked, completed]
    exact finished

end Sections

/-! ## Work on the jobs of a client -/

section Work

variable [ITask Task] [SlicedTask Task]

/-- A record after work on its job: the task has advanced by the units of its
slices, and it has finished if the job is completed. -/
structure WorkedOn (job : Job Task) (units : Nat) (record : JobRecord Task) : Prop where
  unstopped : record.stopRequested = false
  runs : ∃ count, Runs SlicedTask.advance SlicedTask.finished job.task count record.task ∧
    units % 2 ^ 64 = count % 2 ^ 64
  state : record.snapshot.state = .ready ∨ record.snapshot.state = .running ∨
    (record.snapshot.state = .completed ∧ SlicedTask.finished record.task = true ∧
      record.snapshot.message = SlicedTask.message record.task)

/-- The result of a slice says what the slice did to the task. -/
def SliceFits (result : SliceResult) (record : JobRecord Task) : Prop :=
  result.status = .yielded ∨ (result.status = .completed ∧
    SlicedTask.finished record.task = true ∧ result.message = SlicedTask.message record.task)

structure Worked (jobs : List (Job Task)) (engine : State Task) : Prop where
  records : ∀ (ref : RecordRef) (record : JobRecord Task), engine.registry.heap[ref]? = some record →
    ∃ job, jobs[ref]? = some job ∧ WorkedOn job (workOf engine.shared.slices ref) record
  workers : ∀ dispatch ref result, .sliced dispatch ref result ∈ engine.workers →
    ∀ record, engine.registry.heap[ref]? = some record → SliceFits result record

variable {jobs : List (Job Task)} {engine : State Task}

omit [ITask Task] [SlicedTask Task] in
theorem Sound.executes_alone (sound : Sound engine) {first second : Nat} {left right : Worker}
    (foundLeft : engine.workers[first]? = some left)
    (foundRight : engine.workers[second]? = some right) {id : JobId}
    (executesLeft : left.executes id = 1) (executesRight : right.executes id = 1) :
    first = second := by
  by_contra different
  have both := @add_le_total _ (Worker.executes id) _ _ _ _ _ different foundLeft foundRight
  change _ ≤ engine.executing id at both
  have carried := sound.carried id
  cases known : engine.stateOf id with
  | none =>
      rw [known, carriedOnce_none] at carried
      omega
  | some state =>
      rw [known] at carried
      have executing := carried.2.2
      split at executing <;> omega

theorem Worked.of_same (worked : Worked jobs engine) {next : State Task}
    (heap : next.registry.heap = engine.registry.heap)
    (slices : next.shared.slices = engine.shared.slices)
    (workers : ∀ dispatch ref result, .sliced dispatch ref result ∈ next.workers →
      .sliced dispatch ref result ∈ engine.workers) : Worked jobs next := by
  refine ⟨?_, ?_⟩
  · rw [heap, slices]
    exact worked.records
  · intro dispatch ref result member
    rw [heap]
    exact worked.workers dispatch ref result (workers dispatch ref result member)

theorem Worked.of_set (worked : Worked jobs engine) {next : State Task} {ref : RecordRef}
    {record after : JobRecord Task} (read : engine.registry.heap[ref]? = some record)
    (heap : next.registry.heap = engine.registry.heap.set ref after)
    (elsewhere : ∀ other, other ≠ ref →
      workOf next.shared.slices other = workOf engine.shared.slices other)
    (works : ∀ job, WorkedOn job (workOf engine.shared.slices ref) record →
      WorkedOn job (workOf next.shared.slices ref) after)
    (workers : ∀ dispatch target result, .sliced dispatch target result ∈ next.workers →
      (.sliced dispatch target result ∈ engine.workers ∧ (target ≠ ref ∨ after.task = record.task)) ∨
        (target = ref ∧ SliceFits result after)) : Worked jobs next := by
  have bound : ref < engine.registry.heap.length := (List.getElem?_eq_some_iff.mp read).1
  have here : next.registry.heap[ref]? = some after := by
    rw [heap]
    exact List.getElem?_set_self bound
  have there : ∀ other, other ≠ ref → next.registry.heap[other]? = engine.registry.heap[other]? := by
    intro other different
    rw [heap]
    exact List.getElem?_set_ne different.symm
  refine ⟨?_, ?_⟩
  · intro other stored known
    by_cases same : other = ref
    · subst same
      rw [here] at known
      cases known
      obtain ⟨job, is, worksOn⟩ := worked.records other record read
      exact ⟨job, is, works job worksOn⟩
    · rw [there other same] at known
      rw [elsewhere other same]
      exact worked.records other stored known
  · intro dispatch target result member stored known
    rcases workers dispatch target result member with ⟨old, kept⟩ | ⟨rfl, fits⟩
    · by_cases same : target = ref
      · subst same
        rw [here] at known
        cases known
        have fits := worked.workers dispatch target result old record read
        rcases kept with different | task
        · exact absurd rfl different
        · unfold SliceFits at fits ⊢
          rw [task]
          exact fits
      · rw [there target same] at known
        exact worked.workers dispatch target result old stored known
    · rw [here] at known
      cases known
      exact fits

theorem WorkedOn.slice {job : Job Task} {units : Nat} {record : JobRecord Task}
    (works : WorkedOn job units record) (running : record.snapshot.state = .running)
    {cancellation : StopToken}
    (observed : cancellation.seenFrom.isSome → record.stopRequested = true) {budget : WorkUnits}
    {outcome : SliceOutcome} {task : Task}
    (ran : ITask.runSlice record.task ⟨cancellation, budget⟩ = (outcome, task)) :
    WorkedOn job (units + outcome.result.workUnitsConsumed.toNat) { record with task } ∧
      SliceFits outcome.result { record with task } := by
  have unseen : cancellation = ⟨none⟩ := by
    obtain ⟨seen⟩ := cancellation
    cases seen with
    | none => rfl
    | some poll =>
        rw [works.unstopped] at observed
        cases observed rfl
  subst unseen
  obtain ⟨count, result, left, sliced, runs, work, status⟩ := SlicedTask.slice record.task budget
  rw [ran] at sliced
  cases sliced
  obtain ⟨before, runsBefore, counted⟩ := works.runs
  refine ⟨⟨works.unstopped, ⟨before + count, runsBefore.trans runs, ?_⟩, .inr (.inl running)⟩, status⟩
  change (units + result.workUnitsConsumed.toNat) % 2 ^ 64 = _
  rw [work, UInt64.toNat_ofNat']
  omega

theorem Worked.slice {env : Environment} {index : Nat} {dispatch : Dispatch} {ref : RecordRef}
    {record : JobRecord Task} {outcome : SliceOutcome} {task : Task}
    (worked : Worked jobs engine) (sound : Sound engine)
    (found : engine.workers[index]? = some (.slicing dispatch ref))
    (read : engine.registry.heap[ref]? = some record)
    (observed : env.cancellation.seenFrom.isSome → record.stopRequested = true)
    (ran : ITask.runSlice record.task ⟨env.cancellation, dispatch.budget⟩ = (outcome, task))
    {shared : Shared Task}
    (heap : shared.registry.heap = engine.registry.heap.set ref { record with task })
    (slices : shared.slices = engine.shared.slices ++ [(ref, outcome.result)]) :
    Worked jobs { engine with
      shared
      workers := engine.workers.set index (.sliced dispatch ref outcome.result) } := by
  have member := List.mem_of_getElem? found
  have refers := sound.workers _ member
  have executes : Worker.executes dispatch.entry.id (.slicing dispatch ref) = 1 := if_pos rfl
  have running := sound.running_at member (by rw [executes]; exact Nat.one_pos) refers read
  have workOf_eq : ∀ other, workOf shared.slices other = workOf engine.shared.slices other +
      if ref = other then outcome.result.workUnitsConsumed.toNat else 0 := by
    intro other
    simp [workOf, slices]
  obtain ⟨job, _, works⟩ := worked.records ref record read
  refine worked.of_set read heap ?_ ?_ ?_
  · intro other different
    rw [workOf_eq, if_neg different.symm, Nat.add_zero]
  · intro job works
    rw [workOf_eq, if_pos rfl]
    exact (works.slice running observed ran).1
  · intro other target result inside
    rcases List.mem_or_eq_of_mem_set inside with before | same
    · refine .inl ⟨before, .inl ?_⟩
      rintro rfl
      -- another worker with a result for this job would execute it at the same time
      obtain ⟨position, foundOther⟩ := List.getElem?_of_mem before
      have sameId := sound.registry.id_unique refers (sound.workers _ before)
      have both := sound.executes_alone found foundOther executes (if_pos sameId)
      rw [← both, found] at foundOther
      cases foundOther
    · cases same
      exact .inr ⟨rfl, (works.slice running observed ran).2⟩

theorem Worked.record {env : Environment} {index : Nat} {dispatch : Dispatch} {ref : RecordRef}
    {result : SliceResult} {locked : Locked Task} {moved : Worker}
    (worked : Worked jobs engine) (sound : Sound engine)
    (appends : ∀ id, env.appendError id = none)
    (found : engine.workers[index]? = some (.sliced dispatch ref result))
    (read : engine.registry.locked ref = some locked)
    (quiet : ∀ d r s, .sliced d r s ∈ engine.workers.set index moved →
      .sliced d r s ∈ engine.workers) :
    Worked jobs { engine with
      shared := { engine.shared with
        registry := engine.registry.store ref (recordSliceLocked env result locked).2 }
      workers := engine.workers.set index moved } := by
  have member := List.mem_of_getElem? found
  have refers := sound.workers _ member
  have lockedRead := (Registry.locked_eq_some read).1
  have ok := sound.registry.recordOk _ (List.mem_of_getElem? lockedRead)
  have running := sound.running_at member
    (show 0 < Worker.executes dispatch.entry.id _ by simp [Worker.executes]) refers lockedRead
  have fits := worked.workers dispatch ref result member locked.record lockedRead
  obtain ⟨_, _, worksOn⟩ := worked.records ref locked.record lockedRead
  have task : (recordSliceLocked env result locked).2.record.task = locked.record.task :=
    (change_recordSliceLocked result ok running).task
  refine worked.of_set lockedRead rfl (fun _ _ => rfl) ?_ fun d r s inside =>
    .inl ⟨quiet d r s inside, .inr task⟩
  intro job works
  rcases recordSliceLocked_appends appends ok running worksOn.unstopped
    (fits.imp_right And.left) with ⟨yields, _⟩ | ⟨now, completes, completed⟩
  · rw [yields]
    exact ⟨works.unstopped, works.runs, .inl rfl⟩
  · rw [completes]
    rcases fits with yielded | ⟨_, finished, message⟩
    · rw [completed] at yielded
      cases yielded
    · exact ⟨works.unstopped, works.runs, .inr (.inr ⟨rfl, finished, message⟩)⟩

theorem Worked.worker {env : Environment} {index : Nat} {worker moved : Worker}
    {shared : Shared Task} (worked : Worked jobs engine) (sound : Sound engine)
    (appends : ∀ id, env.appendError id = none) (found : engine.workers[index]? = some worker)
    (move : WorkerTransition env engine.shared worker shared moved) :
    Worked jobs { engine with shared, workers := engine.workers.set index moved } := by
  have member := List.mem_of_getElem? found
  have refers := sound.workers worker member
  have old : ∀ {dispatch ref result}, (∀ d r s, moved ≠ .sliced d r s) →
      .sliced dispatch ref result ∈ engine.workers.set index moved →
      .sliced dispatch ref result ∈ engine.workers := by
    intro dispatch ref result notSliced inside
    rcases List.mem_or_eq_of_mem_set inside with before | same
    · exact before
    · exact absurd same.symm (notSliced dispatch ref result)
  cases move with
  | @dispatch dispatch ref locked read =>
      have lockedRead := (Registry.locked_eq_some read).1
      have quiet : ∀ d r s, (if (dispatchLocked env locked).1 = true then Worker.slicing dispatch ref
          else .waiting) ≠ .sliced d r s := by
        intro d r s
        split <;> simp
      have task : (dispatchLocked env locked).2.record.task = locked.record.task :=
        (change_dispatchLocked (sound.registry.recordOk _ (List.mem_of_getElem? lockedRead))).task
      refine worked.of_set lockedRead rfl (fun _ _ => rfl) ?_ fun d r s inside =>
        .inl ⟨old quiet inside, .inr task⟩
      intro job works
      refine ⟨?_, by rw [task]; exact works.runs, ?_⟩
      · rcases @dispatchLocked_appends _ _ locked appends with same | ⟨now, started⟩
        · rw [same]
          exact works.unstopped
        · rw [started]
          exact works.unstopped
      · rcases @dispatchLocked_appends _ _ locked appends with same | ⟨now, started⟩
        · rw [same]
          exact works.state
        · rw [started]
          exact .inr (.inl rfl)
  | @slice dispatch ref record outcome task read observed ran =>
      exact worked.slice sound found read observed ran rfl rfl
  | @record dispatch ref result locked read =>
      refine worked.record sound appends found read fun d r s inside => old ?_ inside
      intro d r s
      split <;> simp
  | _ => exact worked.of_same rfl rfl fun d r s inside => old (fun _ _ _ => by simp) inside

omit [ITask Task] [SlicedTask Task] in
/-- A call of the client leaves the records alone or makes the record of the next job. -/
theorem Client.heap_call {env : Environment} {done : Bool} {request : Request Task}
    {stage moved : Stage} {shared : Shared Task} (client : Client jobs engine)
    (member : ⟨request, stage⟩ ∈ engine.calls)
    (move : CallTransition env done request engine.shared stage shared moved) :
    shared.registry.heap = engine.registry.heap ∨
      ∃ job draft, jobs[engine.registry.heap.length]? = some job ∧
        shared.registry.heap =
          engine.registry.heap ++ [submittedRecord job.task job.options draft] := by
  have of := client.staged _ member
  have ofClient := client.requests _ member
  cases submits : request.submits with
  | false => exact .inl (by rw [(frame_other ofClient submits of move).1])
  | true =>
      cases move with
      | @registerSubmission draft task options is room =>
          subst is
          obtain ⟨job, known, isJob, _⟩ := client.current _ member rfl
          cases isJob
          rw [← (client.heap_of_room room).2] at known
          exact .inr ⟨job, draft, known, Registry.heap_emplace _ _ _⟩
      | registerRestore is fresh =>
          rw [is] at submits
          cases submits
      | raced read => exact absurd rfl (client.accepted _ member _ _)
      | cancel read =>
          obtain ⟨id, is⟩ := of
          rw [show request = .cancel id from is] at submits
          cases submits
      | cancelPending =>
          rw [show request = .shutdown .cancelPending from of] at submits
          cases submits
      | _ => exact .inl rfl

theorem Worked.call {env : Environment} {done : Bool} {index : Nat} {request : Request Task}
    {stage moved : Stage} {shared : Shared Task} (worked : Worked jobs engine)
    (client : Client jobs engine) (sound : Sound engine) (accounted : Accounted engine)
    (found : engine.calls[index]? = some ⟨request, stage⟩)
    (move : CallTransition env done request engine.shared stage shared moved) :
    Worked jobs { engine with shared, calls := engine.calls.set index ⟨request, moved⟩ } := by
  have slices := (heap_of_call move).1
  rcases client.heap_call (List.mem_of_getElem? found) move with heap | ⟨job, draft, is, heap⟩
  · exact worked.of_same heap slices fun _ _ _ inside => inside
  · have old : ∀ {ref : RecordRef} {record : JobRecord Task}, ref < engine.registry.heap.length →
        shared.registry.heap[ref]? = some record → engine.registry.heap[ref]? = some record := by
      intro ref record bound read
      rwa [heap, List.getElem?_append_left bound] at read
    refine ⟨?_, ?_⟩
    · intro ref record read
      change shared.registry.heap[ref]? = some record at read
      change ∃ job, jobs[ref]? = some job ∧ WorkedOn job (workOf shared.slices ref) record
      rw [slices]
      by_cases bound : ref < engine.registry.heap.length
      · exact worked.records ref record (old bound read)
      · have position : ref = engine.registry.heap.length := by
          have inside := (List.getElem?_eq_some_iff.mp read).1
          rw [heap, List.length_append, List.length_singleton] at inside
          exact Nat.le_antisymm (Nat.le_of_lt_succ inside) (Nat.le_of_not_lt bound)
        subst position
        rw [heap, List.getElem?_concat_length, Option.some.injEq] at read
        -- nothing was run on the new record
        have unused : workOf engine.shared.slices engine.registry.heap.length = 0 :=
          workOf_eq_zero fun slice inside same =>
            absurd (accounted.known slice inside) (same ▸ Nat.lt_irrefl _)
        rw [unused, ← read]
        exact ⟨job, is, rfl, ⟨0, .refl _, rfl⟩, .inl rfl⟩
    · intro dispatch ref result inside record read
      obtain ⟨stored, storedRead, _⟩ := sound.registry.stored (sound.workers _ inside)
      have bound := (List.getElem?_eq_some_iff.mp storedRead).1
      exact worked.workers dispatch ref result inside record (old bound read)

theorem Worked.step {next : State Task} {action : Action Task} (worked : Worked jobs engine)
    (client : Client jobs engine) (sound : Sound engine) (accounted : Accounted engine)
    (appends : action.Appends) (stepped : engine.step action = some next) : Worked jobs next := by
  cases transition_of_step stepped with
  | invoke request => exact ⟨worked.records, worked.workers⟩
  | worker found move => exact worked.worker sound appends found move
  | call found move => exact worked.call client sound accounted found move

theorem worked_of_reaches {start : State Task} (started : Starts start)
    (acceptable : ∀ job ∈ jobs, job.Acceptable)
    (reached : Reaches State.step (ClientSteps jobs) start engine) :
    Worked jobs engine ∧ Accounted engine := by
  have all : Reaches State.step (ClientSteps jobs) start engine ∧ Worked jobs engine ∧
      Accounted engine := by
    refine reached.invariant (fun state => Reaches State.step (ClientSteps jobs) start state ∧
      Worked jobs state ∧ Accounted state) ⟨.refl, ⟨?_, ?_⟩, .of_starts started⟩ ?_
    · obtain ⟨config, queue, requested, detected, journal, made, rfl⟩ := started
      intro ref record read
      cases read
    · obtain ⟨config, queue, requested, detected, journal, made, rfl⟩ := started
      intro dispatch ref result inside
      cases List.eq_of_mem_replicate inside
    · rintro state action next ⟨ran, worked, accounted⟩ admitted stepped
      obtain ⟨client, distinct⟩ := Client.of_reaches started acceptable ran
      have sound := Sound.of_reaches started distinct
      exact ⟨.tail action ran admitted stepped,
        worked.step client sound accounted admitted.2 stepped, accounted.step sound stepped⟩
  exact all.2

/-! ## Published results -/

/-- The values that were given to the promise of a registered job. -/
def State.published (engine : State Task) (id : JobId) : Option (List JobResult) :=
  (engine.registry.recordOf id).map (·.promise)

/-- The result of a job that runs to its end. -/
def Outcome (job : Job Task) (index : Nat) (result : JobResult) : Prop :=
  ∃ count left, Runs SlicedTask.advance SlicedTask.finished job.task count left ∧
    SlicedTask.finished left = true ∧
    result = ⟨UInt64.ofNat (index + 1), .completed, SlicedTask.message left, UInt64.ofNat count⟩

theorem Outcome.unique {job : Job Task} {index : Nat} {left right : JobResult}
    (one : Outcome job index left) (other : Outcome job index right) : left = right := by
  obtain ⟨first, leftTask, runsLeft, leftDone, rfl⟩ := one
  obtain ⟨second, rightTask, runsRight, rightDone, rfl⟩ := other
  obtain ⟨rfl, rfl⟩ := runsLeft.finished_unique leftDone runsRight rightDone
  rfl

/-- Once the client's shutdown has returned, every job is completed. -/
theorem Client.completed (client : Client jobs engine) (worked : Worked jobs engine)
    (nothing : NothingLeft engine) (returned : ∃ call ∈ engine.calls, call.shutDown) {id : JobId}
    {ref : RecordRef} {record : JobRecord Task} (known : engine.registry.recordOf id = some record)
    (read : engine.registry.heap[ref]? = some record) :
    engine.settled = jobs.length ∧ record.snapshot.state = .completed ∧
      SlicedTask.finished record.task = true ∧
      record.snapshot.message = SlicedTask.message record.task := by
  obtain ⟨call, member, _, mode, is⟩ := returned
  obtain ⟨settled, idle⟩ : engine.settled = jobs.length ∧ engine.idle := by
    rcases client.opened with ⟨_, _, unstopped⟩ | ended
    · exact absurd is (unstopped call member mode)
    · exact ended
  obtain ⟨job, _, works⟩ := worked.records ref record read
  have terminal : isTerminal record.snapshot.state = true := by
    rcases nothing.jobs id record known with ⟨terminal, _⟩ | unpushed
    · exact terminal
    · -- a call that has the job in hand has not ended
      obtain ⟨⟨request, stage⟩, inside, carries⟩ := exists_of_total_pos unpushed
      have of := client.staged _ inside
      have ofClient := client.requests _ inside
      cases stage with
      | push entry ref =>
          cases request with
          | submit task options => cases idle _ inside rfl
          | restore task submission => exact ofClient.elim
          | _ => cases of
      | raced entry ref => exact absurd rfl (client.accepted _ inside entry ref)
      | advanceJobId restored current =>
          cases restored with
          | none => cases carries
          | some ref =>
              obtain ⟨task, submission, rfl⟩ := of
              exact ofClient.elim
      | advanceSequence restored current =>
          cases restored with
          | none => cases carries
          | some ref =>
              obtain ⟨task, submission, rfl⟩ := of
              exact ofClient.elim
      | _ => cases carries
  refine ⟨settled, ?_⟩
  rcases works.state with ready | running | completed
  · rw [ready] at terminal
    cases terminal
  · rw [running] at terminal
    cases terminal
  · exact completed

/-- What a run of the client publishes under an id. -/
theorem published_after_shutdown {start : State Task} (started : Starts start)
    (acceptable : ∀ job ∈ jobs, job.Acceptable)
    (reached : Reaches State.step (ClientSteps jobs) start engine)
    (returned : ∃ call ∈ engine.calls, call.shutDown) (id : JobId) :
    (engine.published id = none ∧
        ∀ index < min jobs.length Registry.limit, id ≠ UInt64.ofNat (index + 1)) ∨
      ∃ index job result, index < min jobs.length Registry.limit ∧
        id = UInt64.ofNat (index + 1) ∧ jobs[index]? = some job ∧ Outcome job index result ∧
        engine.published id = some [result] := by
  obtain ⟨client, distinct⟩ := Client.of_reaches started acceptable reached
  obtain ⟨worked, accounted⟩ := worked_of_reaches started acceptable reached
  have orderly := started.orderly.of_reaches distinct
  have sound := orderly.sound
  have nothing := orderly.closing.nothingLeft sound returned
  have settled : engine.settled = jobs.length := by
    obtain ⟨call, member, _, mode, is⟩ := returned
    rcases client.opened with ⟨_, _, unstopped⟩ | ended
    · exact absurd is (unstopped call member mode)
    · exact ended.1
  have length : engine.registry.heap.length = min jobs.length Registry.limit := settled ▸ client.heap
  cases found : engine.registry.find id with
  | none =>
      left
      refine ⟨by simp [State.published, Registry.recordOf, found], ?_⟩
      rintro index small rfl
      have bound : index < engine.registry.heap.length := lt_of_lt_of_eq small length.symm
      rw [(client.ids index _ (List.getElem?_eq_getElem bound)).2] at found
      cases found
  | some ref =>
      right
      obtain ⟨record, known, read, same⟩ := sound.registry.recordOf_eq found
      have bound := (List.getElem?_eq_some_iff.mp read).1
      obtain ⟨_, completed, finished, message⟩ :=
        client.completed worked nothing returned known read
      obtain ⟨job, is, works⟩ := worked.records ref record read
      obtain ⟨count, runs, counted⟩ := works.runs
      have ok := sound.registry.recordOk record (List.mem_of_getElem? read)
      have inHand : engine.inHand ref = 0 := inHand_eq_zero sound fun other otherRead => by
        rw [read] at otherRead
        cases otherRead
        simp [completed]
      have units : record.snapshot.workUnitsConsumed = UInt64.ofNat count := by
        have total := accounted.consumed ref record read
        rw [inHand, Nat.add_zero, counted] at total
        rw [← UInt64.toNat_inj, UInt64.toNat_ofNat', ← total]
        exact (Nat.mod_eq_of_lt record.snapshot.workUnitsConsumed.toNat_lt).symm
      have published : record.resultPublished = true := by rw [ok.published, completed]; rfl
      have numbered := (client.ids ref record read).1
      refine ⟨ref, job, record.snapshot.result, lt_of_lt_of_eq bound length, ?_, is, ?_, ?_⟩
      · rw [← same, numbered]
      · exact ⟨count, record.task, runs, finished, by
          simp [JobSnapshot.result, numbered, completed, message, units]⟩
      · simp [State.published, known, ok.promise, published]

/-- Two runs of the client publish the same results. -/
theorem published_eq {start start' engine' : State Task} (started : Starts start)
    (started' : Starts start') (acceptable : ∀ job ∈ jobs, job.Acceptable)
    (reached : Reaches State.step (ClientSteps jobs) start engine)
    (reached' : Reaches State.step (ClientSteps jobs) start' engine')
    (returned : ∃ call ∈ engine.calls, call.shutDown)
    (returned' : ∃ call ∈ engine'.calls, call.shutDown) (id : JobId) :
    engine.published id = engine'.published id := by
  rcases published_after_shutdown started acceptable reached returned id with
    ⟨one, absent⟩ | ⟨index, job, result, small, rfl, is, outcome, one⟩
  · rcases published_after_shutdown started' acceptable reached' returned' id with
      ⟨other, _⟩ | ⟨index, job, result, small, isId, _⟩
    · rw [one, other]
    · exact absurd isId (absent index small)
  · rcases published_after_shutdown started' acceptable reached' returned' _ with
      ⟨_, absent⟩ | ⟨index', job', result', small', isId, is', outcome', other⟩
    · exact absurd rfl (absent index small)
    · have same : index = index' := ofNat_succ_injective
        (lt_of_lt_of_le small (Nat.min_le_right _ _)) (lt_of_lt_of_le small' (Nat.min_le_right _ _))
        isId
      subst same
      rw [is] at is'
      cases is'
      rw [one, other, outcome.unique outcome']

end Work

/-! ## Built-in jobs -/

/-- The submission of a task that the factory made. -/
def Job.ofCreated (created : CreatedTask) : Job BuiltinTask := ⟨created.task, created.options⟩

/-- Whatever the number of workers, the schedulers, their quanta and the
interleaving: two runs in which a client submits the same built-in jobs, and
which are ended by a draining shutdown, publish the same results, one for each job. -/
theorem results_independent_of_scheduling (jobs : List CreatedTask)
    (created : ∀ job ∈ jobs, ∃ type arguments priority,
      TaskFactory.createForSubmission type arguments priority = .ok job)
    (start start' engine engine' : State BuiltinTask) (started : Starts start)
    (started' : Starts start')
    (reached : Reaches State.step (ClientSteps (jobs.map Job.ofCreated)) start engine)
    (reached' : Reaches State.step (ClientSteps (jobs.map Job.ofCreated)) start' engine')
    (returned : ∃ call ∈ engine.calls, call.shutDown)
    (returned' : ∃ call ∈ engine'.calls, call.shutDown) :
    (∀ id, engine.published id = engine'.published id) ∧
      ∀ index < jobs.length, index < Registry.limit →
        ∃ result, engine.published (UInt64.ofNat (index + 1)) = some [result] := by
  have acceptable : ∀ job ∈ jobs.map Job.ofCreated, job.Acceptable := by
    intro job member
    obtain ⟨createdJob, inside, rfl⟩ := List.mem_map.mp member
    obtain ⟨type, arguments, priority, made⟩ := created createdJob inside
    obtain ⟨estimate, spec⟩ := TaskFactory.durable_createForSubmission made
    exact ⟨estimate, spec⟩
  refine ⟨published_eq started started' acceptable reached reached' returned returned', ?_⟩
  intro index within small
  rcases published_after_shutdown started acceptable reached returned (UInt64.ofNat (index + 1)) with
    ⟨_, absent⟩ | ⟨_, _, result, _, _, _, _, published⟩
  · have bound : index < (jobs.map Job.ofCreated).length := by rwa [List.length_map]
    exact absurd rfl (absent index (lt_min bound small))
  · exact ⟨result, published⟩

/-! ## One worker first in first out, two workers round robin -/

def samplePrime : CreatedTask where
  task := .prime { upperBound := 5 }
  options :=
    { name := text "prime-5", estimatedWorkUnits := 4, durableSpec := some ⟨text "prime", text "5"⟩ }

def sampleJobs : List CreatedTask := [⟨sampleTask, sampleOptions⟩, samplePrime]

theorem sampleJobs_created : ∀ job ∈ sampleJobs, ∃ type arguments priority,
    TaskFactory.createForSubmission type arguments priority = .ok job := by
  intro job member
  rcases List.mem_cons.mp member with rfl | member
  · exact ⟨text "step", [text "3", text "0"], 0, by decide +kernel⟩
  · rw [List.mem_singleton.mp member]
    exact ⟨text "prime", [text "5"], 0, by decide +kernel⟩

def roundRobinStart : State BuiltinTask :=
  State.make ⟨.roundRobin [] 2, { kind := .roundRobin, quantum := 2 }, false⟩ 2 0 none

theorem roundRobinStart_starts : Starts roundRobinStart :=
  ⟨{ kind := .roundRobin, quantum := 2 }, _, 2, 0, none, rfl, rfl⟩

/-- The client submits both jobs; then some workers take steps until all is done,
while the client shuts the engine down. -/
def clientActions (workers leave : List Nat) : List (Action BuiltinTask) :=
  .invoke (.submit (some sampleTask) sampleOptions) ::
      List.replicate 6 (.call 0 {} : Action BuiltinTask) ++
    .invoke (.submit (some samplePrime.task) samplePrime.options) ::
      List.replicate 6 (.call 1 {} : Action BuiltinTask) ++
    workers.map ((.worker · {}) : Nat → Action BuiltinTask) ++
    .invoke (.shutdown .drain) :: List.replicate 3 (.call 2 {} : Action BuiltinTask) ++
    leave.map ((.worker · {}) : Nat → Action BuiltinTask) ++ [.call 2 {}]

theorem clientActions_append (workers leave : List Nat) :
    ∀ action ∈ clientActions workers leave, action.Appends := by
  intro action member id
  simp only [clientActions, List.mem_append, List.mem_cons, List.mem_replicate, List.mem_map,
    List.not_mem_nil, or_false] at member
  rcases member with (((((rfl | ⟨_, rfl⟩) | rfl | ⟨_, rfl⟩) | ⟨_, _, rfl⟩) | rfl | ⟨_, rfl⟩) |
    ⟨_, _, rfl⟩) | rfl <;> rfl

def fifoActions : List (Action BuiltinTask) := clientActions (List.replicate 10 0) [0]

/-- Two slices of two units for each job. -/
def roundRobinActions : List (Action BuiltinTask) :=
  clientActions (List.replicate 6 0 ++ List.replicate 6 1 ++ List.replicate 5 0 ++
    List.replicate 5 1) [1, 0]

private theorem fifo_ran :
    (runAll State.step (InOrder (sampleJobs.map Job.ofCreated)) sampleStart
      fifoActions).isSome = true := by
  decide +kernel

private theorem roundRobin_ran :
    (runAll State.step (InOrder (sampleJobs.map Job.ofCreated)) roundRobinStart
      roundRobinActions).isSome = true := by
  decide +kernel

theorem fifo_roundRobin_published :
    (Option.get _ fifo_ran).published = (Option.get _ roundRobin_ran).published := by
  have fifo := reaches_of_runAll_of_forall (Option.some_get fifo_ran).symm
    (clientActions_append _ _)
  have roundRobin := reaches_of_runAll_of_forall (Option.some_get roundRobin_ran).symm
    (clientActions_append _ _)
  exact funext (results_independent_of_scheduling sampleJobs sampleJobs_created sampleStart
    roundRobinStart _ _ sampleStart_starts roundRobinStart_starts fifo roundRobin
    ⟨⟨.shutdown .drain, .returned⟩, by decide +kernel, rfl, _, rfl⟩
    ⟨⟨.shutdown .drain, .returned⟩, by decide +kernel, rfl, _, rfl⟩).1

end Kronos.Engine
