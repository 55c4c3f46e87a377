import Kronos.Engine.Shutdown
import Kronos.Engine.Wakeups

/-!
# Every run comes to rest

The engine does not deadlock: once no thread can go on, every call has ended and
every job is finished. And it does not run forever: without further calls, and
with tasks that end, every run comes to such a state. Both are about the engine
with its condition variable, in which a worker may sleep.
-/

set_option autoImplicit false

namespace Kronos.Engine

open Threads

variable {Task : Type}

/-! ## Threads that cannot go on -/

/-- A call that is about to make a job has the task for it. -/
def Call.Given (call : Call Task) : Prop :=
  call.stage.unregistered = true → call.stage ≠ .entered → call.request.task?.isSome = true

theorem Call.Given.step {env : Environment} {done : Bool} {request : Request Task}
    {shared next : Shared Task} {stage moved : Stage} (given : Call.Given ⟨request, stage⟩)
    (move : CallTransition env done request shared stage next moved) :
    Call.Given ⟨request, moved⟩ := by
  have kept : stage.unregistered = true → stage ≠ .entered → Call.Given ⟨request, moved⟩ :=
    fun unregistered entered _ _ => given unregistered entered
  cases move with
  | beginSubmit is accepting =>
      intro _ _
      rw [is]
      rfl
  | beginRestore is accepting valid =>
      intro _ _
      rw [is]
      rfl
  | drawId => exact kept rfl (by simp)
  | drawSequence => exact kept rfl (by simp)
  | unjournaledSubmission unjournaled => exact kept rfl (by simp)
  | journalSubmission is journaled durable typed appended => exact kept rfl (by simp)
  | unjournaledRestore unjournaled => exact kept rfl (by simp)
  | journalRestore is journaled appended => exact kept rfl (by simp)
  | _ =>
      intro unregistered _
      cases unregistered

def Given (engine : State Task) : Prop := ∀ call ∈ engine.calls, call.Given

theorem Given.step [ITask Task] {engine next : State Task} {action : Action Task}
    (given : Given engine) (stepped : engine.step action = some next) : Given next := by
  cases transition_of_step stepped with
  | invoke request => exact forall_mem_concat given fun _ entered => absurd rfl entered
  | worker found move => exact given
  | @call index env call stage shared found move =>
      exact forall_mem_set given ((given call (List.mem_of_getElem? found)).step move)

section Rest

variable {engine : State Task}

theorem Sound.locked_eq_some (sound : Sound engine) {id : JobId} {ref : RecordRef}
    (found : engine.registry.find id = some ref) :
    ∃ record, engine.shared.registry.heap[ref]? = some record ∧
      engine.shared.registry.locked ref = some ⟨record, engine.shared.registry.journal⟩ := by
  obtain ⟨record, read, _⟩ := sound.registry.stored found
  have read : engine.shared.registry.heap[ref]? = some record := read
  exact ⟨record, read, by rw [Registry.locked, read]; rfl⟩

/-- A worker that cannot go on has left, or waits for an entry. -/
theorem worker_rests [ITask Task] (sound : Sound engine) {worker : Worker}
    (member : worker ∈ engine.workers) (rests : workerStep {} engine.shared worker = none) :
    worker = .exited ∨ worker = .waiting ∧ engine.shared.queue.pop = .blocked := by
  have refers := sound.workers worker member
  cases worker with
  | exited => exact .inl rfl
  | waiting =>
      simp only [workerStep] at rests
      split at rests
      · next blocked => exact .inr ⟨rfl, blocked⟩
      · cases rests
      · cases rests
  | dispatched dispatch =>
      simp only [workerStep] at rests
      split at rests <;> cases rests
  | resolved dispatch ref =>
      obtain ⟨record, _, read⟩ := sound.locked_eq_some refers
      simp only [workerStep, read] at rests
      cases rests
  | slicing dispatch ref =>
      obtain ⟨record, read, _⟩ := sound.locked_eq_some refers
      simp [workerStep, read] at rests
  | sliced dispatch ref result =>
      obtain ⟨record, _, read⟩ := sound.locked_eq_some refers
      simp only [workerStep, read] at rests
      cases rests
  | requeueing entry => cases rests

/-- A call that cannot go on has ended, waits for the shutdown mutex, or waits for
the workers. -/
theorem call_rests {call : Call Task} (sound : Sound engine) (member : call ∈ engine.calls)
    (of : call.stage.Of call.request) (given : call.Given)
    (rests : callStep {} engine.shared engine.done call.request call.stage = none) :
    call.stage.ended = true ∨ call.stage = .entered ∧ engine.shared.shutdownHeld = true ∨
      call.stage = .join ∧ engine.done = false := by
  have refers := sound.calls call member
  obtain ⟨request, stage⟩ := call
  have task : stage.unregistered = true → stage ≠ .entered → request.task? ≠ none := by
    intro unregistered entered missing
    have given := given unregistered entered
    dsimp only at given
    rw [missing] at given
    cases given
  cases stage with
  | entered =>
      cases request with
      | shutdown mode =>
          simp only [callStep] at rests
          split at rests
          · next held => exact .inr (.inl ⟨rfl, held⟩)
          · split at rests <;> cases rests
      | cancel id =>
          simp only [callStep] at rests
          split at rests <;> cases rests
      | _ => cases rests
  | drawId => cases rests
  | drawSequence id => cases rests
  | journalSubmission draft =>
      obtain ⟨task, options, rfl⟩ := of
      cases rests
  | registerSubmission draft =>
      obtain ⟨made, options, rfl⟩ := of
      cases made with
      | none => exact absurd rfl (task rfl (by simp))
      | some made => cases rests
  | journalRestore submittedAt =>
      obtain ⟨task, submission, rfl⟩ := of
      cases rests
  | registerRestore submittedAt =>
      obtain ⟨made, submission, rfl⟩ := of
      cases made with
      | none => exact absurd rfl (task rfl (by simp))
      | some made => cases rests
  | advanceJobId restored current =>
      cases restored with
      | none =>
          obtain ⟨submission, rfl⟩ := of
          cases rests
      | some ref =>
          obtain ⟨task, submission, rfl⟩ := of
          cases rests
  | advanceSequence restored current =>
      cases restored with
      | none =>
          obtain ⟨submission, rfl⟩ := of
          cases rests
      | some ref =>
          obtain ⟨task, submission, rfl⟩ := of
          cases rests
  | push entry ref =>
      simp only [callStep] at rests
      split at rests <;> cases rests
  | raced entry ref =>
      obtain ⟨record, _, read⟩ := sound.locked_eq_some refers
      simp only [callStep, read] at rests
      cases rests
  | cancelFound ref =>
      obtain ⟨id, found⟩ := refers
      obtain ⟨record, _, read⟩ := sound.locked_eq_some found
      simp only [callStep, read] at rests
      cases rests
  | swapScheduler =>
      obtain ⟨config, rfl⟩ := of
      simp only [callStep] at rests
      split at rests <;> cases rests
  | stopAccepting => cases rests
  | close =>
      obtain ⟨mode, rfl⟩ := of
      cases rests
  | cancelPending pending => cases rests
  | join =>
      simp only [callStep] at rests
      split at rests
      · cases rests
      · next working => exact .inr (.inr ⟨rfl, by simpa using working⟩)
  | returnedHandle id ref => exact .inl rfl
  | returnedBool answer => exact .inl rfl
  | returned => exact .inl rfl
  | threw what => exact .inl rfl

/-- Nothing is left to do: every call has ended, every worker waits or has left, and
every job is finished, with its result handed to its future. -/
structure Settled (engine : State Task) : Prop where
  calls : ∀ call ∈ engine.calls, call.stage.ended = true
  workers : ∀ worker ∈ engine.workers, worker = .waiting ∨ worker = .exited
  queue : engine.shared.queue.entries = []
  jobs : ∀ id record, engine.registry.recordOf id = some record →
    isTerminal record.snapshot.state = true ∧ record.promise = [record.snapshot.result]

theorem carries_of_ended {call : Call Task} (ended : call.stage.ended = true) (id : JobId) :
    call.carries id = 0 ∧ call.drained id = 0 := by
  obtain ⟨request, stage⟩ := call
  cases stage <;> first | exact ⟨rfl, rfl⟩ | cases ended

theorem unheld_of_ended {call : Call Task} (ended : call.stage.ended = true) :
    call.opening = 0 ∧ call.closing = 0 := by
  obtain ⟨request, stage⟩ := call
  cases stage <;> first | exact ⟨rfl, rfl⟩ | cases ended

/-- A job that nothing carries is finished. -/
theorem Sound.finished_of_uncarried (sound : Sound engine) {id : JobId} {record : JobRecord Task}
    (known : engine.registry.recordOf id = some record) (uncarried : engine.carriers id = 0) :
    isTerminal record.snapshot.state = true ∧ record.promise = [record.snapshot.result] := by
  have ok := (sound.registry.recordOf_ok known).1
  have carried := sound.carried id
  rw [State.stateOf, known, uncarried] at carried
  have terminal : isTerminal record.snapshot.state = true := by
    by_contra live
    have once := carried.2.1 (by simpa using live)
    cases once
  refine ⟨terminal, ?_⟩
  rw [ok.promise, ok.published, terminal, if_pos rfl]

theorem settled_of_rest [ITask Task] (sound : Sound engine) (closing : Closing engine)
    (given : Given engine)
    (workerRests : ∀ worker ∈ engine.workers, workerStep {} engine.shared worker = none)
    (callRests : ∀ call ∈ engine.calls,
      callStep {} engine.shared engine.done call.request call.stage = none) : Settled engine := by
  have workers := fun worker member => worker_rests sound member (workerRests worker member)
  have calls := fun call member => call_rests sound member (closing.staged call member)
    (given call member) (callRests call member)
  have blocked : engine.done = false → engine.shared.queue.pop = .blocked := by
    intro working
    obtain ⟨worker, member, inside⟩ := List.all_eq_false.mp working
    rcases workers worker member with rfl | ⟨_, blocked⟩
    · simp at inside
    · exact blocked
  -- a shutdown that waits for workers has closed the queue, so they do not wait for entries
  have noJoin : ∀ call ∈ engine.calls, ¬ (call.stage = .join ∧ engine.done = false) := by
    rintro ⟨request, stage⟩ member ⟨rfl, working⟩
    have closed := (closing.held_of_closing member Nat.one_pos).2.2.1
    rw [(pop_eq_blocked (blocked working)).1] at closed
    cases closed
  -- and one that waits for the mutex has another one in front of it
  have free : engine.shared.shutdownHeld = false := by
    by_contra held
    have mutex := closing.mutex
    rw [if_pos (by simpa using held)] at mutex
    have holder : ∃ call ∈ engine.calls, 0 < call.opening + call.closing := by
      by_contra nobody
      have idle : ∀ call ∈ engine.calls, call.opening + call.closing = 0 := by
        intro call member
        by_contra holds
        exact nobody ⟨call, member, Nat.pos_of_ne_zero holds⟩
      have noOpening := total_eq_zero_iff.mpr fun call member =>
        Nat.eq_zero_of_add_eq_zero_right (idle call member)
      have noClosing := total_eq_zero_iff.mpr fun call member =>
        Nat.eq_zero_of_add_eq_zero_left (idle call member)
      omega
    obtain ⟨call, member, holds⟩ := holder
    have rest := calls call member
    have stays := noJoin call member
    rcases rest with ended | ⟨entered, _⟩ | waits
    · rw [(unheld_of_ended ended).1, (unheld_of_ended ended).2] at holds
      cases holds
    · simp [Call.opening, Call.closing, entered] at holds
    · exact stays waits
  have ended : ∀ call ∈ engine.calls, call.stage.ended = true := by
    intro call member
    rcases calls call member with ended | ⟨_, held⟩ | waits
    · exact ended
    · rw [free] at held
      cases held
    · exact absurd waits (noJoin call member)
  have idle : ∀ worker ∈ engine.workers, worker = .waiting ∨ worker = .exited := by
    intro worker member
    rcases workers worker member with exited | ⟨waits, _⟩
    · exact .inr exited
    · exact .inl waits
  have empty : engine.shared.queue.entries = [] := by
    cases working : engine.done with
    | true => exact (closing.drained working).2
    | false => exact (pop_eq_blocked (blocked working)).2
  refine ⟨ended, idle, empty, fun id record known => sound.finished_of_uncarried known ?_⟩
  have queued : engine.queued id = 0 := by simp [State.queued, empty]
  have held : engine.held id = 0 := by
    rw [State.held, total_eq_zero_iff]
    intro worker member
    rcases idle worker member with rfl | rfl <;> rfl
  have unpushed : engine.unpushed id = 0 :=
    total_eq_zero_iff.mpr fun call member => (carries_of_ended (ended call member) id).1
  have drained : engine.drained id = 0 :=
    total_eq_zero_iff.mpr fun call member => (carries_of_ended (ended call member) id).2
  rw [State.carriers, queued, held, unpushed, drained]

end Rest

/-! ## The engine with sleeping workers -/

/-- A new engine, all of its workers awake. -/
structure Monitor.Starts (monitor : Monitor Task) : Prop where
  engine : Engine.Starts monitor.engine
  asleep : monitor.asleep = []
  owed : monitor.owed = []

theorem Monitor.Starts.wakeful {monitor : Monitor Task} (started : monitor.Starts) :
    Wakeful monitor := by
  have nobody : ¬ monitor.asleep ≠ [] := fun some => some started.asleep
  refine ⟨?_, ?_, fun some => absurd some nobody, fun some => absurd some nobody⟩
  · rw [started.asleep]
    simp
  · rw [started.asleep]
    exact List.nodup_nil

theorem Wakeful.of_reaches [ITask Task] {start monitor : Monitor Task}
    {admits : Monitor Task → Turn Task → Prop} (started : start.Starts)
    (reached : Reaches Monitor.step admits start monitor) : Wakeful monitor :=
  reached.invariant Wakeful started.wakeful fun _ _ _ wakeful _ stepped => wakeful.step stepped

/-- No wakeup is lost: while a worker sleeps and no notification is ahead, the queue is
open, and there are as many workers awake at the queue as it has entries. -/
theorem no_lost_wakeup [ITask Task] (start monitor : Monitor Task) (started : start.Starts)
    (reached : Reaches Monitor.step (fun _ _ => True) start monitor)
    (sleeps : monitor.asleep ≠ []) (told : monitor.owed = []) :
    monitor.engine.shared.queue.closed = false ∧
      monitor.engine.shared.queue.entries.length + monitor.asleep.length ≤
        monitor.engine.workers.countP (· == .waiting) := by
  have wakeful := Wakeful.of_reaches started reached
  constructor
  · by_contra closed
    obtain ⟨thread, member⟩ := wakeful.closed sleeps (by simpa using closed)
    rw [told] at member
    cases member
  · rcases wakeful.covered sleeps with ⟨thread, member⟩ | covered
    · rw [told] at member
      cases member
    · rw [told] at covered
      simpa using covered

/-- A turn that the engine makes by itself: no call comes in, and nothing wakes or fails
without a reason. -/
def Turn.Quiet : Turn Task → Prop
  | .thread action => action.Quiet
  | .sleep _ => True
  | .notify _ _ => True
  | .wake _ => False

section Turns

variable [ITask Task] {monitor : Monitor Task}

theorem owed_of_rest (rest : AtRest Monitor.step (fun _ turn => turn.Quiet) monitor) :
    monitor.owed = [] := by
  cases owes : monitor.owed with
  | nil => rfl
  | cons first later =>
      obtain ⟨thread, notice⟩ := first
      have stuck := rest (.notify 0 (monitor.asleep.headD 0)) trivial
      cases notice with
      | all => simp [Monitor.step, Monitor.notify, owes] at stuck
      | one =>
          cases asleep : monitor.asleep with
          | nil => simp [Monitor.step, Monitor.notify, owes, asleep] at stuck
          | cons index others => simp [Monitor.step, Monitor.notify, owes, asleep] at stuck

/-- When no turn is left, no thread can go on, also none that sleeps. -/
theorem Wakeful.threads_rest (wakeful : Wakeful monitor)
    (rest : AtRest Monitor.step (fun _ turn => turn.Quiet) monitor) :
    (∀ worker ∈ monitor.engine.workers, workerStep {} monitor.engine.shared worker = none) ∧
      ∀ call ∈ monitor.engine.calls, callStep {} monitor.engine.shared monitor.engine.done
        call.request call.stage = none := by
  have told := owed_of_rest rest
  have owesNothing : ∀ thread, monitor.owes thread = false := by
    intro thread
    simp [Monitor.owes, told]
  have awake : ∀ (index : Nat) (worker : Worker), monitor.engine.workers[index]? = some worker →
      index ∉ monitor.asleep → workerStep {} monitor.engine.shared worker = none := by
    intro index worker found awake
    have stuck := rest (.thread (.worker index {})) trivial
    cases moves : workerStep {} monitor.engine.shared worker with
    | none => rfl
    | some next =>
        simp [Monitor.step, Monitor.threadStep, owesNothing, awake, found, State.step, moves]
          at stuck
  constructor
  · intro worker member
    obtain ⟨index, found⟩ := List.mem_iff_getElem?.mp member
    by_cases sleeps : index ∈ monitor.asleep
    · have waits := wakeful.waiting index sleeps
      rw [found] at waits
      cases waits
      have asleep := List.ne_nil_of_mem sleeps
      have opened : monitor.engine.shared.queue.closed = false := by
        by_contra closed
        obtain ⟨thread, ahead⟩ := wakeful.closed asleep (by simpa using closed)
        rw [told] at ahead
        cases ahead
      -- a worker that is awake takes the entry that this one would take
      by_contra moves
      have notBlocked : monitor.engine.shared.queue.pop ≠ .blocked := by
        intro blocked
        simp [workerStep, blocked] at moves
      have entry : 0 < monitor.engine.shared.queue.entries.length := by
        by_contra empty
        have empty := List.length_eq_zero_iff.mp (Nat.eq_zero_of_not_pos empty)
        cases popped : monitor.engine.shared.queue.pop with
        | blocked => exact notBlocked popped
        | finished =>
            rw [(TaskQueue.pop_eq_finished popped).1] at opened
            cases opened
        | dispatch dispatch left =>
            have taken := (TaskQueue.pop_eq_dispatch popped).2.length_eq
            rw [empty] at taken
            cases taken
      have covered : monitor.engine.shared.queue.entries.length + monitor.asleep.length ≤
          monitor.engine.workers.countP (· == .waiting) := by
        rcases wakeful.covered asleep with ⟨thread, ahead⟩ | covered
        · rw [told] at ahead
          cases ahead
        · rw [told] at covered
          simpa using covered
      obtain ⟨other, foundOther, otherAwake⟩ := @exists_awake _ monitor (by omega)
      exact moves (awake other .waiting foundOther otherAwake)
    · exact awake index worker found sleeps
  · intro call member
    obtain ⟨index, found⟩ := List.mem_iff_getElem?.mp member
    have stuck := rest (.thread (.call index {})) rfl
    cases moves : callStep {} monitor.engine.shared monitor.engine.done call.request call.stage with
    | none => rfl
    | some next =>
        simp [Monitor.step, Monitor.threadStep, owesNothing, found, State.step, moves] at stuck

omit [ITask Task] in
theorem callStep_of_ended {env : Environment} {shared : Shared Task} {done : Bool}
    {request : Request Task} {stage : Stage} (ended : stage.ended = true) :
    callStep env shared done request stage = none := by
  cases stage <;> first | rfl | cases ended

/-- An engine rests when all of its workers sleep and all of its calls have ended. -/
theorem atRest_of_asleep (asleep : ∀ index < monitor.engine.workers.length, index ∈ monitor.asleep)
    (told : monitor.owed = [])
    (ended : ∀ call ∈ monitor.engine.calls, call.stage.ended = true) :
    AtRest Monitor.step (fun _ turn => turn.Quiet) monitor := by
  intro turn quiet
  cases turn with
  | thread action =>
      cases action with
      | invoke request => exact quiet.elim
      | worker index env =>
          simp only [Monitor.step, Monitor.threadStep]
          by_cases within : index < monitor.engine.workers.length
          · rw [if_pos (.inr (asleep index within))]
          · rw [List.getElem?_eq_none (Nat.le_of_not_lt within)]
            split <;> rfl
      | call index env =>
          simp only [Monitor.step, Monitor.threadStep, State.step]
          split
          · rfl
          · cases found : monitor.engine.calls[index]? with
            | none => rfl
            | some call =>
                simp only [callStep_of_ended (ended call (List.mem_of_getElem? found))]
  | sleep index =>
      simp only [Monitor.step, Monitor.sleep]
      split
      · rfl
      · next free =>
          rw [not_or, not_or, not_not] at free
          have within := (List.getElem?_eq_some_iff.mp free.2.2).1
          exact absurd (asleep index within) free.2.1
  | notify position woken => simp [Monitor.step, Monitor.notify, told]
  | wake index => exact quiet.elim

/-- The engine never deadlocks: in every reachable state in which no thread can go on,
all is done. -/
theorem at_rest_settled (start monitor : Monitor Task) (started : start.Starts)
    (reached : Reaches Monitor.step (Turn.Admits IdsDistinct) start monitor)
    (rest : AtRest Monitor.step (fun _ turn => turn.Quiet) monitor) :
    Settled monitor.engine := by
  have below := Monitor.reaches_engine reached
  have orderly := started.engine.orderly.of_reaches below
  have given : Given monitor.engine := by
    refine below.invariant Given ?_ fun _ _ _ given _ stepped => given.step stepped
    obtain ⟨config, queue, requested, detected, journal, made, is⟩ := started.engine
    rw [is]
    intro call member
    cases member
  obtain ⟨workers, calls⟩ := (Wakeful.of_reaches started reached).threads_rest rest
  exact settled_of_rest orderly.sound orderly.closing given workers calls

/-! ## Termination -/

/-- The turns that are left until every worker sleeps and no notification is ahead. -/
def Monitor.unrest (monitor : Monitor Task) : Nat :=
  monitor.owed.length * (monitor.engine.workers.length + 1) +
    (monitor.engine.workers.length - monitor.asleep.length)

omit [ITask Task] in
theorem Wakeful.asleep_le (wakeful : Wakeful monitor) :
    monitor.asleep.length ≤ monitor.engine.workers.length := by
  have within : monitor.asleep ⊆ List.range monitor.engine.workers.length := by
    intro index member
    exact List.mem_range.mpr (List.getElem?_eq_some_iff.mp (wakeful.waiting index member)).1
  have bound := (List.subperm_of_subset wakeful.distinct within).length_le
  rwa [List.length_range] at bound

omit [ITask Task] in
theorem unrest_notify {position : Nat} {owed : Thread × Notice}
    (found : monitor.owed[position]? = some owed) (asleep : List Nat) :
    Monitor.unrest { monitor with asleep, owed := monitor.owed.eraseIdx position } <
      monitor.unrest := by
  have bound := (List.getElem?_eq_some_iff.mp found).1
  obtain ⟨less, is⟩ := Nat.exists_eq_succ_of_ne_zero (Nat.ne_of_gt (Nat.zero_lt_of_lt bound))
  simp only [Monitor.unrest, List.length_eraseIdx_of_lt bound, is, Nat.succ_eq_add_one,
    Nat.add_sub_cancel, Nat.add_mul, Nat.one_mul]
  omega

/-- What falls with every quiet turn. -/
def Monitor.measure [EndingTask Task] (monitor : Monitor Task) : Nat × Nat × Nat :=
  (monitor.engine.cost, monitor.engine.stale, monitor.unrest)

theorem measure_turn [EndingTask Task] {next : Monitor Task} {turn : Turn Task}
    (wakeful : Wakeful next) (ends : WorkEnds monitor.engine) (quiet : turn.Quiet)
    (stepped : monitor.step turn = some next) :
    Prod.Lex (· < ·) (Prod.Lex (· < ·) (· < ·)) next.measure monitor.measure := by
  rcases Monitor.simulates stepped with ⟨action, rfl, moved⟩ | ⟨others, same⟩
  · rcases cost_step ends quiet moved with lower | ⟨alike, fresher⟩
    · exact .left _ _ lower
    · rw [Monitor.measure, Monitor.measure, alike]
      exact .right _ (.left _ _ fresher)
  · rw [Monitor.measure, Monitor.measure, same]
    refine .right _ (.right _ ?_)
    cases Monitor.goes_of_step stepped with
    | invoke request => exact quiet.elim
    | worker awake found move => exact absurd rfl (others _)
    | call found move => exact absurd rfl (others _)
    | sleep awake waits blocked =>
        have bound := wakeful.asleep_le
        simp only [List.length_cons] at bound
        simp only [Monitor.unrest, List.length_cons]
        omega
    | notifyAll found => exact unrest_notify found _
    | notifyOne found chosen => exact unrest_notify found _
    | wake member => exact quiet.elim

/-- The engine never runs on forever: from every state that is reached with tasks that
end, every run without further calls ends, and one ends at rest. -/
theorem comes_to_rest [EndingTask Task] (start monitor : Monitor Task) (started : start.Starts)
    (reached : Reaches Monitor.step (Turn.Admits fun _ action => action.Ends) start monitor) :
    ComesToRest Monitor.step (fun _ turn => turn.Quiet) monitor := by
  have ends : WorkEnds monitor.engine := by
    refine (Monitor.reaches_engine reached).invariant WorkEnds started.engine.workEnds ?_
    intro _ _ _ ends asked stepped
    exact ends.step asked stepped
  have lexFounded : WellFounded (Prod.Lex (· < ·) (Prod.Lex (· < ·) (· < ·)) :
      Nat × Nat × Nat → Nat × Nat × Nat → Prop) :=
    WellFounded.prod_lex Nat.lt_wfRel.wf (WellFounded.prod_lex Nat.lt_wfRel.wf Nat.lt_wfRel.wf)
  refine comesToRest_of_measure lexFounded Monitor.measure
    (fun monitor => Wakeful monitor ∧ WorkEnds monitor.engine) ?_ ?_
    ⟨Wakeful.of_reaches started reached, ends⟩
  · intro _ turn next holds quiet stepped
    refine ⟨holds.1.step stepped, ?_⟩
    rcases Monitor.simulates stepped with ⟨action, rfl, moved⟩ | ⟨_, same⟩
    · exact holds.2.step (Action.Quiet.ends quiet) moved
    · rw [same]
      exact holds.2
  · intro _ turn next holds quiet stepped
    exact measure_turn (holds.1.step stepped) holds.2 quiet stepped

end Turns

/-! ## Runs with sleeping workers -/

instance (monitor : Monitor Task) : DecidablePred (Turn.Admits IdsDistinct monitor)
  | .thread action => inferInstanceAs (Decidable (IdsDistinct monitor.engine action))
  | .sleep _ => isTrue trivial
  | .notify _ _ => isTrue trivial
  | .wake _ => isTrue trivial

/-- Two workers, first in first out, no journal. -/
def pairStart : Monitor BuiltinTask := { engine := State.make ⟨.fifo [], {}, false⟩ 2 0 none }

theorem pairStart_starts : pairStart.Starts := ⟨⟨{}, _, 2, 0, none, rfl, rfl⟩, rfl, rfl⟩

/-- Both workers sleep, a job comes in, and one of them is woken. -/
def wokenTurns : List (Turn BuiltinTask) :=
  [.sleep 0, .sleep 1, .thread (.invoke (.submit (some sampleTask) sampleOptions))] ++
    List.replicate 6 (.thread (.call 0 {})) ++ [.notify 0 1]

private theorem woken_ran :
    (runAll Monitor.step (Turn.Admits IdsDistinct) pairStart wokenTurns).isSome = true := by
  decide +kernel

def wokenMonitor : Monitor BuiltinTask := Option.get _ woken_ran

theorem wokenMonitor_reached :
    Reaches Monitor.step (Turn.Admits IdsDistinct) pairStart wokenMonitor :=
  reaches_of_runAll (Option.some_get woken_ran).symm

/-- One worker sleeps on, the other one is awake for the one entry. -/
theorem wokenMonitor_covered :
    wokenMonitor.asleep = [0] ∧ wokenMonitor.engine.shared.queue.entries.length + 1 ≤
      wokenMonitor.engine.workers.countP (· == .waiting) :=
  have asleep : wokenMonitor.asleep = [0] := by decide +kernel
  have told : wokenMonitor.owed = [] := by decide +kernel
  have covered := (no_lost_wakeup pairStart wokenMonitor pairStart_starts
    (wokenMonitor_reached.mono fun _ _ _ => trivial) (by rw [asleep]; simp) told).2
  ⟨asleep, by rw [asleep] at covered; exact covered⟩

/-- The woken worker finishes the job and goes back to sleep. -/
def restedTurns : List (Turn BuiltinTask) :=
  wokenTurns ++ List.replicate 5 (.thread (.worker 1 {})) ++ [.sleep 1]

private theorem rested_ran :
    (runAll Monitor.step (Turn.Admits IdsDistinct) pairStart restedTurns).isSome = true := by
  decide +kernel

def restedMonitor : Monitor BuiltinTask := Option.get _ rested_ran

theorem restedMonitor_reached :
    Reaches Monitor.step (Turn.Admits IdsDistinct) pairStart restedMonitor :=
  reaches_of_runAll (Option.some_get rested_ran).symm

theorem restedMonitor_rests : AtRest Monitor.step (fun _ turn => turn.Quiet) restedMonitor :=
  atRest_of_asleep (by decide +kernel) (by decide +kernel) (by decide +kernel)

theorem restedMonitor_settled :
    restedMonitor.engine.stateOf 1 = some .completed ∧ Settled restedMonitor.engine :=
  ⟨by decide +kernel,
    at_rest_settled pairStart restedMonitor pairStart_starts restedMonitor_reached
      restedMonitor_rests⟩

private theorem wokenTurns_end :
    ∀ turn ∈ wokenTurns, ∀ action, turn = .thread action → Action.Ends action := by
  intro turn member action is
  have task : Action.Ends (.invoke (.submit (some sampleTask) sampleOptions)) := by
    intro task given
    cases given
    trivial
  subst is
  simp only [wokenTurns, List.cons_append, List.nil_append, List.mem_cons, List.mem_append,
    List.mem_replicate, reduceCtorEq, Turn.thread.injEq, false_or, List.not_mem_nil, or_false]
    at member
  rcases member with rfl | ⟨_, rfl⟩
  · exact task
  · trivial

theorem wokenMonitor_comes_to_rest :
    ComesToRest Monitor.step (fun _ turn => turn.Quiet) wokenMonitor := by
  refine comes_to_rest pairStart wokenMonitor pairStart_starts ?_
  refine (reaches_of_runAll_of_forall (Option.some_get woken_ran).symm wokenTurns_end).mono ?_
  intro monitor turn admitted
  cases turn with
  | thread action => exact admitted.2 action rfl
  | _ => trivial

end Kronos.Engine
