import Kronos.Engine.Carriers

/-!
# Every live job has one carrier

The invariant is kept by every step of a worker and of a call.
-/

set_option autoImplicit false

namespace Kronos.Engine

open Threads

variable {Task : Type}

/-! ## What is left to show of a step -/

/-- A step that leaves the records alone has to keep the counts. -/
theorem Sound.of_same {engine next : State Task} (sound : Sound engine)
    (heap : next.registry.heap = engine.registry.heap)
    (records : next.registry.records = engine.registry.records)
    (workers : ∀ worker ∈ next.workers, worker.Refers engine.registry)
    (calls : ∀ call ∈ next.calls, call.Refers engine.registry)
    (carriers : ∀ id, next.carriers id = engine.carriers id)
    (executing : ∀ id, next.executing id = engine.executing id) : Sound next := by
  have find : ∀ id, next.registry.find id = engine.registry.find id := by
    intro id
    rw [Registry.find, records]
    rfl
  have recordOf : ∀ id, next.registry.recordOf id = engine.registry.recordOf id := by
    intro id
    rw [Registry.recordOf, find, heap]
    rfl
  refine ⟨⟨?_, ?_⟩, ?_, ?_, ?_⟩
  · intro id ref found
    rw [find] at found
    rw [heap]
    exact sound.registry.stored found
  · rw [heap]
    exact sound.registry.recordOk
  · exact fun worker member => (workers worker member).mono fun id ref found => by rwa [find]
  · exact fun call member => (calls call member).mono fun id ref found => by rwa [find]
  · intro id
    have known := sound.carried id
    rwa [State.stateOf, recordOf, carriers, executing]

/-- A step on the record of one job has to say how that job is carried then. -/
theorem Sound.of_replaced {engine next : State Task} (sound : Sound engine) {id : JobId}
    {after : JobRecord Task} (ok : RegistryOk next.registry)
    (recordOf : ∀ other, next.registry.recordOf other =
      if other = id then some after else engine.registry.recordOf other)
    (kept : ∀ other ref, engine.registry.find other = some ref →
      next.registry.find other = some ref)
    (workers : ∀ worker ∈ next.workers, worker.Refers engine.registry ∨ worker.Refers next.registry)
    (calls : ∀ call ∈ next.calls, call.Refers engine.registry ∨ call.Refers next.registry)
    (carried : CarriedOnce (some after.snapshot.state) (next.carriers id) (next.executing id))
    (others : ∀ other, other ≠ id → next.carriers other = engine.carriers other ∧
      next.executing other = engine.executing other) : Sound next := by
  refine ⟨ok, ?_, ?_, ?_⟩
  · exact fun worker member => (workers worker member).elim (fun refers => refers.mono kept) fun refers => refers
  · exact fun call member => (calls call member).elim (fun refers => refers.mono kept) fun refers => refers
  · intro other
    by_cases same : other = id
    · subst same
      rw [State.stateOf, recordOf, if_pos rfl]
      exact carried
    · have known := sound.carried other
      rw [State.stateOf, recordOf, if_neg same, (others other same).1, (others other same).2]
      exact known

/-! ## Steps of a worker -/

theorem countP_pop {queue rest : TaskQueue} {dispatch : Dispatch}
    (popped : queue.pop = .dispatch dispatch rest) (id : JobId) :
    queue.entries.countP (·.id = id) =
      (if dispatch.entry.id = id then 1 else 0) + rest.entries.countP (·.id = id) := by
  rw [(TaskQueue.pop_eq_dispatch popped).2.countP_eq, List.countP_cons, Nat.add_comm]
  simp

@[simp] theorem carriedOnce_none {carriers executing : Nat} :
    CarriedOnce none carriers executing ↔ carriers = 0 ∧ executing = 0 := Iff.rfl

@[simp] theorem carriedOnce_ready {carriers executing : Nat} :
    CarriedOnce (some .ready) carriers executing ↔ carriers = 1 ∧ executing = 0 := by
  simp only [CarriedOnce, isTerminal_ready, forall_const, reduceCtorEq, if_false]
  omega

@[simp] theorem carriedOnce_running {carriers executing : Nat} :
    CarriedOnce (some .running) carriers executing ↔ carriers = 1 ∧ executing = 1 := by
  simp only [CarriedOnce, isTerminal_running, forall_const, if_true]
  omega

theorem carriedOnce_terminal {state : JobState} (terminal : isTerminal state = true)
    {carriers executing : Nat} :
    CarriedOnce (some state) carriers executing ↔ carriers ≤ 1 ∧ executing = 0 := by
  cases state <;> simp_all [CarriedOnce]

theorem Worker.executes_le_carries (id : JobId) (worker : Worker) :
    worker.executes id ≤ worker.carries id := by
  cases worker <;> simp [Worker.executes, Worker.carries]

theorem executing_le_held (workers : List Worker) (id : JobId) :
    total (Worker.executes id) workers ≤ total (Worker.carries id) workers :=
  total_le_total fun worker => worker.executes_le_carries id

/-- A worker that carries a job without executing it adds to those that execute it. -/
theorem executing_add_le_held {workers : List Worker} {worker : Worker} (member : worker ∈ workers)
    (id : JobId) :
    total (Worker.executes id) workers + (worker.carries id - worker.executes id) ≤
      total (Worker.carries id) workers :=
  total_add_sub_le (fun worker => worker.executes_le_carries id) member

/-- A job that a call carries is registered, carried by nobody else and not executed. -/
theorem Sound.idle_of_call {engine : State Task} (sound : Sound engine) {call : Call Task}
    (member : call ∈ engine.calls) {id : JobId} (carries : 0 < call.carries id + call.drained id) :
    engine.carriers id = 1 ∧ engine.executing id = 0 ∧
      ∃ record, engine.registry.recordOf id = some record := by
  have unpushed : call.carries id ≤ engine.unpushed id := weight_le_total member
  have drained : call.drained id ≤ engine.drained id := weight_le_total member
  have executing : engine.executing id ≤ engine.held id := executing_le_held _ _
  have carried := sound.carried id
  cases known : engine.registry.recordOf id with
  | none =>
      rw [State.stateOf, known, Option.map_none, carriedOnce_none, State.carriers] at carried
      omega
  | some record =>
      rw [State.stateOf, known] at carried
      have once := carried.1
      simp only [State.carriers] at once ⊢
      exact ⟨by omega, by omega, record, rfl⟩

section Worker

variable {engine : State Task} {index : Nat} {worker moved : Worker} {env : Environment}
  {shared : Shared Task}

/-- A worker that moves without touching the records keeps what it carries. -/
private theorem Sound.worker_same (sound : Sound engine)
    (found : engine.workers[index]? = some worker)
    (heap : shared.registry.heap = engine.registry.heap)
    (records : shared.registry.records = engine.registry.records)
    (refers : moved.Refers engine.registry)
    (carries : ∀ id, worker.carries id + engine.queued id =
      moved.carries id + shared.queue.entries.countP (·.id = id))
    (executes : ∀ id, worker.executes id = moved.executes id) :
    Sound { engine with shared, workers := engine.workers.set index moved } := by
  refine sound.of_same heap records (forall_mem_set sound.workers refers) sound.calls ?_ ?_
  · intro id
    have counted := @carriers_worker _ engine shared _ _ found moved id
    have same := carries id
    omega
  · intro id
    have counted := @executing_worker _ engine shared _ _ found moved id
    have same := executes id
    omega

private theorem Sound.worker_replaced (sound : Sound engine)
    (found : engine.workers[index]? = some worker) {id : JobId} {before after : JobRecord Task}
    (ok : RegistryOk shared.registry) (known : engine.registry.recordOf id = some before)
    (recordOf : ∀ other, shared.registry.recordOf other =
      if other = id then some after else engine.registry.recordOf other)
    (find : ∀ other, shared.registry.find other = engine.registry.find other)
    (queue : shared.queue = engine.shared.queue) (refers : moved.Refers engine.registry)
    (elsewhere : ∀ other, other ≠ id → worker.carries other = moved.carries other ∧
      worker.executes other = moved.executes other)
    (carried : CarriedOnce (some before.snapshot.state) (engine.carriers id)
        (engine.executing id) →
      CarriedOnce (some after.snapshot.state)
        (engine.carriers id + moved.carries id - worker.carries id)
        (engine.executing id + moved.executes id - worker.executes id)) :
    Sound { engine with shared, workers := engine.workers.set index moved } := by
  have counted := fun other => @carriers_worker _ engine shared _ _ found moved other
  have executed := fun other => @executing_worker _ engine shared _ _ found moved other
  rw [queue] at counted
  change ∀ other, _ + _ + engine.queued other = _ + _ + engine.queued other at counted
  refine sound.of_replaced ok recordOf (fun other ref known => (find other).trans known)
    (fun worker member => .inl (forall_mem_set sound.workers refers worker member))
    (fun call member => .inl (sound.calls call member)) ?_ ?_
  · have earlier := sound.carried id
    rw [State.stateOf, known] at earlier
    have here := counted id
    have hereExecuted := executed id
    convert carried earlier using 1 <;> omega
  · intro other different
    have there := counted other
    have thereExecuted := executed other
    have same := elsewhere other different
    omega

theorem Sound.running_of_executes (sound : Sound engine) (member : worker ∈ engine.workers)
    {id : JobId} (executes : 0 < worker.executes id) :
    ∃ record, engine.registry.recordOf id = some record ∧ record.snapshot.state = .running := by
  have bound : worker.executes id ≤ engine.executing id := weight_le_total member
  have carried := sound.carried id
  cases known : engine.registry.recordOf id with
  | none =>
      rw [State.stateOf, known, Option.map_none, carriedOnce_none] at carried
      omega
  | some record =>
      refine ⟨record, rfl, ?_⟩
      rw [State.stateOf, known] at carried
      have executing := carried.2.2
      by_contra waits
      rw [if_neg waits] at executing
      omega

theorem Sound.running_at (sound : Sound engine) (member : worker ∈ engine.workers) {id : JobId}
    (executes : 0 < worker.executes id) {ref : RecordRef} {record : JobRecord Task}
    (registered : engine.registry.find id = some ref)
    (read : engine.registry.heap[ref]? = some record) : record.snapshot.state = .running := by
  obtain ⟨stored, known, running⟩ := sound.running_of_executes member executes
  rw [Registry.recordOf, registered, Option.bind_some, read] at known
  cases known
  exact running

theorem Sound.workerStep [ITask Task] (sound : Sound engine) (found : engine.workers[index]? = some worker)
    (move : WorkerTransition env engine.shared worker shared moved) :
    Sound { engine with shared, workers := engine.workers.set index moved } := by
  have refers := sound.workers worker (List.mem_of_getElem? found)
  have weighs : ∀ id, worker.carries id ≤ engine.carriers id ∧
      worker.executes id ≤ engine.executing id := by
    intro id
    have carries : worker.carries id ≤ engine.held id :=
      weight_le_total (List.mem_of_getElem? found)
    have executes : worker.executes id ≤ engine.executing id :=
      weight_le_total (List.mem_of_getElem? found)
    unfold State.carriers
    omega
  cases move with
  | exit popped => exact sound.worker_same found rfl rfl trivial (fun id => rfl) fun id => rfl
  | @pop dispatch rest popped =>
      refine sound.worker_same found rfl rfl trivial ?_ fun id => rfl
      intro id
      have counted := countP_pop popped id
      simp only [Worker.carries, State.queued]
      omega
  | @miss dispatch missing =>
      -- a carried job is registered
      have unregistered := sound.carried dispatch.entry.id
      have carried := (weighs dispatch.entry.id).1
      have none : engine.stateOf dispatch.entry.id = none := by
        simp [State.stateOf, Registry.recordOf, State.registry, missing]
      rw [none] at unregistered
      simp only [Worker.carries, if_true] at carried
      have zero := unregistered.1
      omega
  | resolve known =>
      exact sound.worker_same found rfl rfl known (fun id => rfl) fun id => rfl
  | @dispatch dispatch ref locked read =>
      have ok := sound.registry.recordOk _
        (List.mem_of_getElem? (Registry.locked_eq_some read).1)
      obtain ⟨nextOk, known, recordOf⟩ :=
        sound.registry.change refers read (@change_dispatchLocked _ env locked ok)
      refine sound.worker_replaced found nextOk known recordOf (fun _ => rfl) rfl ?_ ?_ ?_
      · split
        · exact refers
        · trivial
      · intro other different
        split <;> simp [Worker.carries, Worker.executes, different.symm]
      · intro before
        rcases @dispatchLocked_answer _ env locked ok with
          ⟨runs, ready, running⟩ | ⟨stays, ready, terminal⟩ | ⟨stays, notReady, same⟩
        · rw [ready, carriedOnce_ready] at before
          rw [runs, running, carriedOnce_running]
          simp [Worker.carries, Worker.executes, before]
        · rw [ready, carriedOnce_ready] at before
          rw [stays, carriedOnce_terminal terminal]
          simp [Worker.carries, Worker.executes, before]
        · -- nobody else carries the job, so it is not running elsewhere
          have idle := executing_add_le_held (List.mem_of_getElem? found) dispatch.entry.id
          change engine.executing dispatch.entry.id + _ ≤ engine.held dispatch.entry.id at idle
          have terminal : isTerminal locked.record.snapshot.state = true := by
            cases state : locked.record.snapshot.state with
            | new => exact absurd state ok.begun
            | ready => exact absurd state notReady
            | running =>
                rw [state, carriedOnce_running] at before
                simp only [State.carriers] at before
                simp only [Worker.carries, Worker.executes, if_true] at idle
                omega
            | _ => rfl
          rw [carriedOnce_terminal terminal] at before
          rw [stays, same, carriedOnce_terminal terminal]
          simp only [Worker.carries, Worker.executes, if_true, Bool.false_eq_true, if_false]
          omega
  | @slice dispatch ref record outcome task read observed ran =>
      obtain ⟨nextOk, known, recordOf⟩ := sound.registry.slice refers read task
      refine sound.worker_replaced found nextOk known recordOf (fun _ => rfl) rfl refers ?_ ?_
      · exact fun other different => ⟨rfl, rfl⟩
      · intro before
        simpa [Worker.carries, Worker.executes] using before
  | @record dispatch ref result locked read =>
      have ok := sound.registry.recordOk _
        (List.mem_of_getElem? (Registry.locked_eq_some read).1)
      have running : locked.record.snapshot.state = .running :=
        sound.running_at (List.mem_of_getElem? found)
          (show 0 < Worker.executes dispatch.entry.id _ by simp [Worker.executes]) refers
          (Registry.locked_eq_some read).1
      obtain ⟨nextOk, known, recordOf⟩ := sound.registry.change refers read
        (@change_recordSliceLocked _ env locked result ok running)
      have sameId := (sound.registry.recordOf_ok known).2
      have entryId : locked.record.entry.id = dispatch.entry.id := ok.entry.trans sameId
      refine sound.worker_replaced found nextOk known recordOf (fun _ => rfl) rfl ?_ ?_ ?_
      · split <;> trivial
      · intro other different
        split <;> simp [Worker.carries, Worker.executes, different.symm, entryId]
      · intro before
        rw [running, carriedOnce_running] at before
        rcases @recordSliceLocked_answer _ env locked result ok running with
          ⟨requeues, ready⟩ | ⟨stays, terminal⟩
        · rw [requeues, ready, carriedOnce_ready]
          simp [Worker.carries, Worker.executes, before, entryId]
        · rw [stays, carriedOnce_terminal terminal]
          simp [Worker.carries, Worker.executes, before]
  | requeue =>
      refine sound.worker_same found rfl rfl trivial ?_ fun id => rfl
      intro id
      simp only [Worker.carries, State.queued, TaskQueue.entries_requeue, List.countP_append,
        List.countP_cons, List.countP_nil, decide_eq_true_eq]
      omega

end Worker

/-! ## Steps of a call -/

section Call

variable {engine : State Task} {index : Nat} {request : Request Task} {stage moved : Stage}
  {env : Environment} {shared : Shared Task}

theorem Stage.Early.carries_eq (early : stage.Early) (request : Request Task) (id : JobId) :
    Call.carries id ⟨request, stage⟩ = 0 ∧ Call.drained id ⟨request, stage⟩ = 0 := by
  cases stage <;> first | exact ⟨rfl, rfl⟩ | cases early

/-- A call that moves without touching the records keeps what it carries. -/
private theorem Sound.call_same (sound : Sound engine)
    (found : engine.calls[index]? = some ⟨request, stage⟩)
    (heap : shared.registry.heap = engine.registry.heap)
    (records : shared.registry.records = engine.registry.records)
    (refers : Call.Refers engine.registry ⟨request, moved⟩)
    (carries : ∀ id, Call.carries id ⟨request, stage⟩ + Call.drained id ⟨request, stage⟩ +
        engine.queued id =
      Call.carries id ⟨request, moved⟩ + Call.drained id ⟨request, moved⟩ +
        shared.queue.entries.countP (·.id = id)) :
    Sound { engine with shared, calls := engine.calls.set index ⟨request, moved⟩ } := by
  refine sound.of_same heap records sound.workers (forall_mem_set sound.calls refers) ?_
    fun id => rfl
  intro id
  have counted := @carriers_call _ engine shared _ _ found ⟨request, moved⟩ id
  have same := carries id
  omega

private theorem Sound.call_replaced (sound : Sound engine)
    (found : engine.calls[index]? = some ⟨request, stage⟩) {id : JobId}
    {after : JobRecord Task} (ok : RegistryOk shared.registry)
    (recordOf : ∀ other, shared.registry.recordOf other =
      if other = id then some after else engine.registry.recordOf other)
    (kept : ∀ other ref, engine.registry.find other = some ref →
      shared.registry.find other = some ref)
    (queue : shared.queue = engine.shared.queue)
    (refers : Call.Refers shared.registry ⟨request, moved⟩)
    (drains : ∀ other, Call.drained other ⟨request, stage⟩ = 0 ∧
      Call.drained other ⟨request, moved⟩ = 0)
    (elsewhere : ∀ other, other ≠ id →
      Call.carries other ⟨request, stage⟩ = Call.carries other ⟨request, moved⟩)
    (carried : CarriedOnce (engine.stateOf id) (engine.carriers id) (engine.executing id) →
      CarriedOnce (some after.snapshot.state)
        (engine.carriers id + Call.carries id ⟨request, moved⟩ - Call.carries id ⟨request, stage⟩)
        (engine.executing id)) :
    Sound { engine with shared, calls := engine.calls.set index ⟨request, moved⟩ } := by
  have counted := fun other => @carriers_call _ engine shared _ _ found ⟨request, moved⟩ other
  rw [queue] at counted
  change ∀ other, _ + _ + _ + engine.queued other = _ + _ + _ + engine.queued other at counted
  refine sound.of_replaced ok recordOf kept (fun worker member => .inl (sound.workers worker member))
    ?_ ?_ ?_
  · exact forall_mem_set (fun call member => .inl (sound.calls call member)) (.inr refers)
  · have here := counted id
    have none := drains id
    convert carried (sound.carried id) using 1
    · omega
    · rfl
  · intro other different
    have there := counted other
    have none := drains other
    have same := elsewhere other different
    exact ⟨by omega, rfl⟩

/-- A new record is registered under a free id and carried by the call that made it. -/
private theorem Sound.call_register (sound : Sound engine)
    (found : engine.calls[index]? = some ⟨request, stage⟩) {id : JobId} {record : JobRecord Task}
    (fresh : engine.registry.find id = none) (recordOk : RecordOk record)
    (same : record.snapshot.id = id) (ready : record.snapshot.state = .ready)
    (registry : shared.registry =
      (engine.registry.make record).emplace id engine.registry.heap.length)
    (queue : shared.queue = engine.shared.queue)
    (refers : Call.Refers shared.registry ⟨request, moved⟩)
    (drains : ∀ other, Call.drained other ⟨request, stage⟩ = 0 ∧
      Call.drained other ⟨request, moved⟩ = 0)
    (before : ∀ other, Call.carries other ⟨request, stage⟩ = 0)
    (after : ∀ other, Call.carries other ⟨request, moved⟩ = if id = other then 1 else 0) :
    Sound { engine with shared, calls := engine.calls.set index ⟨request, moved⟩ } := by
  obtain ⟨ok, recordOf⟩ := sound.registry.register fresh recordOk same
  rw [← registry] at ok recordOf
  refine sound.call_replaced found ok recordOf ?_ queue refers drains ?_ ?_
  · intro other ref known
    rw [registry, Registry.find_register _ _ fresh]
    split
    · next taken =>
        rw [taken, fresh] at known
        cases known
    · exact known
  · intro other different
    rw [before, after, if_neg different.symm]
  · intro carried
    have missing : engine.stateOf id = none := by
      simp [State.stateOf, Registry.recordOf, fresh]
    rw [missing, carriedOnce_none] at carried
    rw [ready, carriedOnce_ready, before, after, if_pos rfl]
    omega

/-- A submit or restore call passes on what it carries from stage to stage. -/
theorem carries_recovered {submission : JobSubmissionRecord}
    (recovered : request.recovered? = some submission) (id : JobId) :
    request.recovered?.toList.countP (·.id = id) = if submission.id = id then 1 else 0 := by
  simp [recovered, List.countP_cons]

private theorem Sound.call_cancelPending (sound : Sound engine) {pending : List SchedulerEntry}
    (found : engine.calls[index]? = some ⟨request, .cancelPending pending⟩)
    (registry : shared.registry = cancelPendingLocked env engine.registry pending)
    (queue : shared.queue = engine.shared.queue) :
    Sound { engine with shared, calls := engine.calls.set index ⟨request, .join⟩ } := by
  have ok : RegistryOk shared.registry := by
    rw [registry]
    exact sound.registry.cancelPendingLocked env pending
  have find : ∀ id, shared.registry.find id = engine.registry.find id := by
    rw [registry]
    exact find_cancelPendingLocked sound.registry env pending
  refine ⟨ok, ?_, ?_, ?_⟩
  · exact fun worker member => (sound.workers worker member).mono fun id ref known =>
      (find id).trans known
  · refine forall_mem_set (fun call member => ?_) trivial
    exact (sound.calls call member).mono fun id ref known => (find id).trans known
  · intro id
    have counted := @carriers_call _ engine shared _ _ found ⟨request, .join⟩ id
    rw [queue] at counted
    change _ + 0 + pending.countP (·.id = id) + engine.queued id = _ + 0 + 0 + engine.queued id
      at counted
    have carried := sound.carried id
    change CarriedOnce ((shared.registry.recordOf id).map _) _ (engine.executing id)
    by_cases listed : 0 < pending.countP (·.id = id)
    · -- the shutdown is the only carrier, so nothing is left to carry the finished job
      obtain ⟨once, idle, record, known⟩ := sound.idle_of_call (List.mem_of_getElem? found)
        (show 0 < Call.carries id _ + Call.drained id _ from Nat.add_pos_right _ listed)
      obtain ⟨entry, member, same⟩ := List.countP_pos_iff.mp listed
      obtain rfl : entry.id = id := by simpa using same
      obtain ⟨ref, registered, _⟩ := Option.bind_eq_some_iff.mp known
      obtain ⟨after, afterKnown, _⟩ := ok.recordOf_eq ((find entry.id).trans registered)
      have terminal : isTerminal after.snapshot.state = true := by
        rw [registry] at afterKnown
        exact cancelPendingLocked_finished sound.registry env member afterKnown
      rw [afterKnown, Option.map_some, carriedOnce_terminal terminal]
      omega
    · have none : ∀ entry ∈ pending, entry.id ≠ id := by
        intro entry member same
        exact listed (List.countP_pos_iff.mpr ⟨entry, member, by simpa using same⟩)
      have untouched : shared.registry.recordOf id = engine.registry.recordOf id := by
        cases known : engine.registry.recordOf id with
        | none =>
            rw [Registry.recordOf, find, sound.registry.find_eq_none known]
            rfl
        | some record =>
            rw [registry]
            exact cancelPendingLocked_untouched sound.registry env known (.inl none)
      rw [untouched]
      convert carried using 1
      · rfl
      · omega

theorem Sound.callStep {done : Bool} (sound : Sound engine)
    (found : engine.calls[index]? = some ⟨request, stage⟩)
    (fresh : stage.registersFree engine.registry = true)
    (move : CallTransition env done request engine.shared stage shared moved) :
    Sound { engine with shared, calls := engine.calls.set index ⟨request, moved⟩ } := by
  have refers := sound.calls _ (List.mem_of_getElem? found)
  cases move with
  | reject what early =>
      refine sound.call_same found rfl rfl trivial fun id => ?_
      rw [(early.carries_eq request id).1, (early.carries_eq request id).2]
      rfl
  | beginSubmit is accepting => exact sound.call_same found rfl rfl trivial fun id => rfl
  | drawId => exact sound.call_same found rfl rfl trivial fun id => rfl
  | drawSequence => exact sound.call_same found rfl rfl trivial fun id => rfl
  | unjournaledSubmission unjournaled =>
      exact sound.call_same found rfl rfl trivial fun id => rfl
  | journalSubmission is journaled durable typed appended =>
      exact sound.call_same found rfl rfl trivial fun id => rfl
  | @registerSubmission draft task options is room =>
      have free : engine.registry.find draft.id = none := Stage.find_of_registersFree fresh room
      refine sound.call_register found free ?_ rfl rfl rfl rfl ?_ (fun _ => ⟨rfl, rfl⟩)
        (fun _ => rfl) fun _ => rfl
      · exact ⟨rfl, rfl, by simp [submittedRecord], rfl, fun _ => rfl⟩
      · exact (Registry.find_register _ _ free _).trans (if_pos rfl)
  | beginRestore is accepting valid =>
      exact sound.call_same found rfl rfl trivial fun id => rfl
  | unjournaledRestore unjournaled =>
      exact sound.call_same found rfl rfl trivial fun id => rfl
  | journalRestore is journaled appended =>
      exact sound.call_same found rfl rfl trivial fun id => rfl
  | @registerRestore submittedAt task submission is free =>
      refine sound.call_register found free ?_ rfl rfl rfl rfl ?_ (fun _ => ⟨rfl, rfl⟩)
        (fun _ => rfl) fun other => ?_
      · exact ⟨rfl, rfl, by simp [restoredRecord], rfl, fun _ => rfl⟩
      · intro recovered same
        rw [is] at same
        cases same
        exact (Registry.find_register _ _ free _).trans (if_pos rfl)
      · exact carries_recovered (by rw [is]; rfl) other
  | beginReserve is nonzero => exact sound.call_same found rfl rfl trivial fun id => rfl
  | @advanceJobIdAgain submission restored current counter again recovered advanced =>
      cases restored <;> exact sound.call_same found rfl rfl refers fun id => rfl
  | @advanceJobId submission restored current counter recovered advanced =>
      cases restored <;> exact sound.call_same found rfl rfl refers fun id => rfl
  | @advanceSequenceAgain submission restored current counter again recovered advanced =>
      cases restored <;> exact sound.call_same found rfl rfl refers fun id => rfl
  | @advanceSequenceRestored submission ref current counter recovered advanced =>
      refine sound.call_same found rfl rfl (refers submission recovered) fun id => ?_
      have carries := carries_recovered recovered id
      simp only [Call.carries, Call.drained, carries, recoveredEntry]
      rfl
  | advanceSequenceReserved recovered advanced =>
      exact sound.call_same found rfl rfl trivial fun id => rfl
  | @push entry ref queue accepted =>
      refine sound.call_same found rfl rfl refers fun id => ?_
      simp only [Call.carries, Call.drained, State.queued,
        (TaskQueue.pushExternal_eq_some accepted).2.2, List.countP_append, List.countP_cons,
        List.countP_nil, decide_eq_true_eq]
      omega
  | refuse refused => exact sound.call_same found rfl rfl refers fun id => rfl
  | @raced entry ref locked read =>
      have ok := sound.registry.recordOk _
        (List.mem_of_getElem? (Registry.locked_eq_some read).1)
      obtain ⟨nextOk, known, recordOf⟩ := sound.registry.change refers read
        (@change_finishLocked_raced _ env locked ok (racedMessage request))
      have terminal := @isTerminal_finishLocked _ env _ locked.journal .cancelled
        (racedMessage request) ok.published rfl
      refine sound.call_replaced found nextOk recordOf (fun _ _ known => known) rfl refers
        (fun _ => ⟨rfl, rfl⟩) ?_ ?_
      · intro other different
        simp [Call.carries, different.symm]
      · intro before
        rw [carriedOnce_terminal terminal]
        obtain ⟨once, idle, _⟩ := sound.idle_of_call (List.mem_of_getElem? found)
          (show 0 < Call.carries entry.id _ + _ by simp [Call.carries])
        simp only [Call.carries, if_true]
        omega
  | cancelMissing is missing => exact sound.call_same found rfl rfl trivial fun id => rfl
  | cancelFound is known => exact sound.call_same found rfl rfl ⟨_, known⟩ fun id => rfl
  | @cancel ref locked read =>
      obtain ⟨id, registered⟩ := refers
      have ok := sound.registry.recordOk _
        (List.mem_of_getElem? (Registry.locked_eq_some read).1)
      obtain ⟨nextOk, known, recordOf⟩ := sound.registry.change registered read
        (@change_cancelLocked _ env locked ok)
      refine sound.call_replaced found nextOk recordOf (fun _ _ known => known) rfl trivial
        (fun _ => ⟨rfl, rfl⟩) (fun _ _ => rfl) ?_
      intro before
      rw [State.stateOf, known, Option.map_some] at before
      rcases @cancelLocked_state _ env locked ok with same | ⟨ready, terminal⟩
      · rw [same]
        exact before
      · rw [ready, carriedOnce_ready] at before
        rw [carriedOnce_terminal terminal]
        simp only [Call.carries]
        omega
  | beginSetScheduler is => exact sound.call_same found rfl rfl trivial fun id => rfl
  | @swapScheduler config queue is swapped =>
      refine sound.call_same found rfl rfl trivial fun id => ?_
      simp only [Call.carries, Call.drained, State.queued]
      rw [(TaskQueue.setScheduler_eq_ok swapped).2.2.countP_eq]
  | shutdownAgain is free joined => exact sound.call_same found rfl rfl trivial fun id => rfl
  | beginShutdown is free first => exact sound.call_same found rfl rfl trivial fun id => rfl
  | stopAccepting => exact sound.call_same found rfl rfl trivial fun id => rfl
  | closeDrain is => exact sound.call_same found rfl rfl trivial fun id => rfl
  | closeCancel is =>
      refine sound.call_same found rfl rfl trivial fun id => ?_
      have split := (engine.shared.queue.closeAndDrainPending_perm true).countP_eq
        fun entry => decide (entry.id = id)
      rw [List.countP_append] at split
      simp only [Call.carries, Call.drained, State.queued, split]
      omega
  | cancelPending => exact sound.call_cancelPending found rfl rfl
  | join finished => exact sound.call_same found rfl rfl trivial fun id => rfl

end Call

end Kronos.Engine
