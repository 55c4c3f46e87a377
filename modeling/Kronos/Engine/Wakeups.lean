import Kronos.Engine.Closing
import Kronos.Engine.Ending

/-!
# Sleeping workers

The engine with its condition variable. A worker that finds the queue open and
empty goes to sleep on `available_`. A thread that has put an entry into the
queue wakes one worker, and one that has replaced the strategy or closed the
queue wakes all of them; either one does so after it has left the queue mutex,
so that other threads may come between.
-/

set_option autoImplicit false

namespace Kronos.Engine

open Threads

variable {Task : Type}

inductive Thread where
  | worker (index : Nat)
  | call (index : Nat)
  deriving DecidableEq

/-- `notify_one` or `notify_all` -/
inductive Notice where
  | one
  | all
  deriving DecidableEq

structure Monitor (Task : Type) where
  engine : State Task
  /-- The workers inside of `available_.wait`. -/
  asleep : List Nat := []
  /-- The threads in front of their notification. -/
  owed : List (Thread × Notice) := []

/-- What a worker notifies of after its step. -/
def Worker.notice : Worker → Option Notice
  | .requeueing _ => some .one
  | _ => none

/-- What a call notifies of after a step from one stage to another. -/
def Stage.notice : Stage → Stage → Option Notice
  | .push _ _, .returnedHandle _ _ => some .one
  | .swapScheduler, .returned => some .all
  | .close, _ => some .all
  | _, _ => none

inductive Turn (Task : Type) where
  | thread (action : Action Task)
  /-- a worker finds nothing and goes to sleep -/
  | sleep (index : Nat)
  /-- the notification at a position is made; `notify_one` wakes the given worker if any sleeps -/
  | notify (position woken : Nat)
  /-- a worker wakes without a notification -/
  | wake (index : Nat)

namespace Monitor

def owes (monitor : Monitor Task) (thread : Thread) : Bool :=
  monitor.owed.any fun owed => owed.1 = thread

/-- The step of a thread, and what it has to notify of then. -/
def proceed (monitor : Monitor Task) (thread : Thread) (notice : Option Notice)
    (next : State Task) : Monitor Task :=
  { monitor with
    engine := next
    owed := monitor.owed ++ notice.toList.map fun notice => (thread, notice) }

def threadStep [ITask Task] (monitor : Monitor Task) : Action Task → Option (Monitor Task)
  | .invoke request =>
      (monitor.engine.step (.invoke request)).map fun next => { monitor with engine := next }
  | .worker index env =>
      if monitor.owes (.worker index) ∨ index ∈ monitor.asleep then none
      else
        match monitor.engine.workers[index]?, monitor.engine.step (.worker index env) with
        | some worker, some next => some (monitor.proceed (.worker index) worker.notice next)
        | _, _ => none
  | .call index env =>
      if monitor.owes (.call index) then none
      else
        match monitor.engine.calls[index]?, monitor.engine.step (.call index env) with
        | some call, some next =>
            some (monitor.proceed (.call index)
              (next.calls[index]?.bind fun moved => call.stage.notice moved.stage) next)
        | _, _ => none

def sleep (monitor : Monitor Task) (index : Nat) : Option (Monitor Task) :=
  if monitor.owes (.worker index) ∨ index ∈ monitor.asleep ∨
      monitor.engine.workers[index]? ≠ some .waiting then none
  else
    match monitor.engine.shared.queue.pop with
    | .blocked => some { monitor with asleep := index :: monitor.asleep }
    | _ => none

def notify (monitor : Monitor Task) (position woken : Nat) : Option (Monitor Task) :=
  match monitor.owed[position]? with
  | none => none
  | some (_, .all) => some { monitor with asleep := [], owed := monitor.owed.eraseIdx position }
  | some (_, .one) =>
      if monitor.asleep = [] ∨ woken ∈ monitor.asleep then
        some { monitor with
          asleep := monitor.asleep.erase woken
          owed := monitor.owed.eraseIdx position }
      else none

def step [ITask Task] (monitor : Monitor Task) : Turn Task → Option (Monitor Task)
  | .thread action => monitor.threadStep action
  | .sleep index => monitor.sleep index
  | .notify position woken => monitor.notify position woken
  | .wake index =>
      if index ∈ monitor.asleep then some { monitor with asleep := monitor.asleep.erase index }
      else none

end Monitor

/-- The condition on the engine's steps, as a condition on turns. -/
def Turn.Admits (admits : State Task → Action Task → Prop) (monitor : Monitor Task) :
    Turn Task → Prop
  | .thread action => admits monitor.engine action
  | _ => True

/-- What one turn can do. -/
inductive Monitor.Goes [ITask Task] (monitor : Monitor Task) : Turn Task → Monitor Task → Prop
  | invoke (request : Request Task) :
      Goes monitor (.thread (.invoke request))
        { monitor with
          engine := { monitor.engine with calls := monitor.engine.calls ++ [{ request }] } }
  | worker {index : Nat} {env : Environment} {worker moved : Worker} {shared : Shared Task}
      (awake : index ∉ monitor.asleep) (found : monitor.engine.workers[index]? = some worker)
      (move : WorkerTransition env monitor.engine.shared worker shared moved) :
      Goes monitor (.thread (.worker index env))
        (monitor.proceed (.worker index) worker.notice
          { monitor.engine with shared, workers := monitor.engine.workers.set index moved })
  | call {index : Nat} {env : Environment} {call : Call Task} {stage : Stage} {shared : Shared Task}
      (found : monitor.engine.calls[index]? = some call)
      (move : CallTransition env monitor.engine.done call.request monitor.engine.shared call.stage
        shared stage) :
      Goes monitor (.thread (.call index env))
        (monitor.proceed (.call index) (call.stage.notice stage)
          { monitor.engine with
            shared, calls := monitor.engine.calls.set index { call with stage } })
  | sleep {index : Nat} (awake : index ∉ monitor.asleep)
      (waits : monitor.engine.workers[index]? = some .waiting)
      (blocked : monitor.engine.shared.queue.pop = .blocked) :
      Goes monitor (.sleep index) { monitor with asleep := index :: monitor.asleep }
  | notifyAll {position woken : Nat} {thread : Thread}
      (found : monitor.owed[position]? = some (thread, .all)) :
      Goes monitor (.notify position woken)
        { monitor with asleep := [], owed := monitor.owed.eraseIdx position }
  | notifyOne {position woken : Nat} {thread : Thread}
      (found : monitor.owed[position]? = some (thread, .one))
      (chosen : monitor.asleep = [] ∨ woken ∈ monitor.asleep) :
      Goes monitor (.notify position woken)
        { monitor with
          asleep := monitor.asleep.erase woken
          owed := monitor.owed.eraseIdx position }
  | wake {index : Nat} (member : index ∈ monitor.asleep) :
      Goes monitor (.wake index) { monitor with asleep := monitor.asleep.erase index }

namespace Monitor

theorem goes_of_thread [ITask Task] {monitor next : Monitor Task} {action : Action Task}
    (stepped : monitor.threadStep action = some next) : Goes monitor (.thread action) next := by
  cases action with
  | invoke request =>
      cases stepped
      exact .invoke request
  | worker index env =>
      simp only [threadStep] at stepped
      split at stepped
      · cases stepped
      · next free =>
          rw [not_or] at free
          split at stepped
          · next worker next found moved =>
              cases stepped
              cases transition_of_step moved with
              | worker found' move =>
                  rw [found] at found'
                  cases found'
                  exact .worker free.2 found move
          · cases stepped
  | call index env =>
      simp only [threadStep] at stepped
      split at stepped
      · cases stepped
      · split at stepped
        · next call next found moved =>
            cases stepped
            cases transition_of_step moved with
            | call found' move =>
                rw [found] at found'
                cases found'
                have bound := (List.getElem?_eq_some_iff.mp found).1
                rw [List.getElem?_set_self bound]
                exact .call found move
        · cases stepped

theorem goes_of_step [ITask Task] {monitor next : Monitor Task} {turn : Turn Task}
    (stepped : monitor.step turn = some next) : Goes monitor turn next := by
  cases turn with
  | thread action => exact goes_of_thread stepped
  | sleep index =>
      simp only [step, sleep] at stepped
      split at stepped
      · cases stepped
      · next free =>
          rw [not_or, not_or, not_not] at free
          split at stepped
          · next blocked =>
              cases stepped
              exact .sleep free.2.1 free.2.2 blocked
          · cases stepped
  | notify position woken =>
      simp only [step, notify] at stepped
      split at stepped
      · cases stepped
      · next found =>
          cases stepped
          exact .notifyAll found
      · next found =>
          split at stepped
          · next chosen =>
              cases stepped
              exact .notifyOne found chosen
          · cases stepped
  | wake index =>
      simp only [step] at stepped
      split at stepped
      · next member =>
          cases stepped
          exact .wake member
      · cases stepped

/-! ## The engine below -/

/-- A turn is a step of the engine, or it leaves the engine as it is. -/
theorem simulates [ITask Task] {monitor next : Monitor Task} {turn : Turn Task}
    (stepped : monitor.step turn = some next) :
    (∃ action, turn = .thread action ∧ monitor.engine.step action = some next.engine) ∨
      (∀ action, turn ≠ .thread action) ∧ next.engine = monitor.engine := by
  cases turn with
  | thread action =>
      refine .inl ⟨action, rfl, ?_⟩
      cases action with
      | invoke request =>
          cases stepped
          rfl
      | worker index env =>
          simp only [step, threadStep] at stepped
          split at stepped
          · cases stepped
          · split at stepped
            · next moved => cases stepped; exact moved
            · cases stepped
      | call index env =>
          simp only [step, threadStep] at stepped
          split at stepped
          · cases stepped
          · split at stepped
            · next moved => cases stepped; exact moved
            · cases stepped
  | sleep index =>
      refine .inr ⟨by simp, ?_⟩
      cases goes_of_step stepped
      rfl
  | notify position woken =>
      refine .inr ⟨by simp, ?_⟩
      cases goes_of_step stepped <;> rfl
  | wake index =>
      refine .inr ⟨by simp, ?_⟩
      cases goes_of_step stepped
      rfl

theorem reaches_engine [ITask Task] {admits : State Task → Action Task → Prop}
    {start monitor : Monitor Task}
    (reached : Reaches Monitor.step (Turn.Admits admits) start monitor) :
    Reaches State.step admits start.engine monitor.engine := by
  induction reached with
  | refl => exact .refl
  | tail turn _ admitted stepped ih =>
      rcases simulates stepped with ⟨action, rfl, moved⟩ | ⟨_, same⟩
      · exact .tail action ih admitted moved
      · rw [same]
        exact ih

end Monitor

/-! ## No wakeup is lost -/

/-- While a worker sleeps, every entry has a worker that is at the queue and awake,
or a notification ahead. A notification of all is ahead once the queue is closed. -/
structure Wakeful (monitor : Monitor Task) : Prop where
  waiting : ∀ index ∈ monitor.asleep, monitor.engine.workers[index]? = some .waiting
  distinct : monitor.asleep.Nodup
  closed : monitor.asleep ≠ [] → monitor.engine.shared.queue.closed = true →
    ∃ thread, (thread, Notice.all) ∈ monitor.owed
  covered : monitor.asleep ≠ [] → (∃ thread, (thread, Notice.all) ∈ monitor.owed) ∨
    monitor.engine.shared.queue.entries.length + monitor.asleep.length ≤
      monitor.owed.length + monitor.engine.workers.countP (· == .waiting)

namespace Wakeful

variable {monitor : Monitor Task}

/-- Some worker at the queue is awake. -/
theorem exists_awake (fewer : monitor.asleep.length <
      monitor.engine.workers.countP (· == .waiting)) :
    ∃ index, monitor.engine.workers[index]? = some .waiting ∧ index ∉ monitor.asleep := by
  by_contra none
  have within : positions (· == .waiting) monitor.engine.workers ⊆ monitor.asleep := by
    intro index member
    obtain ⟨worker, found, waits⟩ := mem_positions.mp member
    rw [show worker = .waiting by simpa using waits] at found
    by_contra awake
    exact none ⟨index, found, awake⟩
  have bound := (List.subperm_of_subset (nodup_positions _ _) within).length_le
  rw [length_positions] at bound
  omega

theorem awakened (wakeful : Wakeful monitor) {index : Nat} (member : index ∈ monitor.asleep) :
    Wakeful { monitor with asleep := monitor.asleep.erase index } := by
  have length := List.length_erase_of_mem member
  have asleep : monitor.asleep ≠ [] := List.ne_nil_of_mem member
  refine ⟨?_, wakeful.distinct.erase index, fun _ => wakeful.closed asleep, ?_⟩
  · intro other sleeps
    exact wakeful.waiting other (List.mem_of_mem_erase sleeps)
  · intro _
    refine (wakeful.covered asleep).imp id fun covered => ?_
    dsimp only
    omega

theorem notified (wakeful : Wakeful monitor) {position woken : Nat} {thread : Thread}
    (found : monitor.owed[position]? = some (thread, .one))
    (chosen : monitor.asleep = [] ∨ woken ∈ monitor.asleep) :
    Wakeful { monitor with
      asleep := monitor.asleep.erase woken, owed := monitor.owed.eraseIdx position } := by
  have kept : (∃ thread, (thread, Notice.all) ∈ monitor.owed) →
      ∃ thread, (thread, Notice.all) ∈ monitor.owed.eraseIdx position := by
    rintro ⟨other, member⟩
    obtain ⟨place, is⟩ := List.mem_iff_getElem?.mp member
    refine ⟨other, List.mem_eraseIdx_iff_getElem?.mpr ⟨place, ?_, is⟩⟩
    rintro rfl
    rw [found] at is
    cases is
  rcases chosen with none | member
  · have nobody : monitor.asleep.erase woken = [] := by rw [none]; rfl
    refine ⟨?_, ?_, fun some => absurd nobody some, fun some => absurd nobody some⟩
    · intro other sleeps
      exact wakeful.waiting other (List.mem_of_mem_erase sleeps)
    · exact wakeful.distinct.erase woken
  · have fewer := wakeful.awakened member
    have bound := (List.getElem?_eq_some_iff.mp found).1
    have length := List.length_eraseIdx_of_lt bound
    refine ⟨fewer.waiting, fewer.distinct, fun some isClosed => kept (fewer.closed some isClosed), ?_⟩
    intro some
    rcases wakeful.covered (List.ne_nil_of_mem member) with all | covered
    · exact .inl (kept all)
    · right
      have erased := List.length_erase_of_mem member
      have sleeper := List.length_pos_of_mem member
      dsimp only
      omega

/-- A thread takes a step: it is not one that sleeps, what is owed stays owed, and the
entries it adds are paid for by its notification or by its return to the queue. -/
theorem proceeded (wakeful : Wakeful monitor) {thread : Thread} {notice : Option Notice}
    {next : State Task}
    (still : ∀ index ∈ monitor.asleep, next.workers[index]? = monitor.engine.workers[index]?)
    (closes : next.shared.queue.closed = true → monitor.engine.shared.queue.closed = true ∨
      notice = some .all)
    (counts : notice = some .all ∨ monitor.engine.shared.queue.closed = true ∨
      next.shared.queue.entries.length + monitor.engine.workers.countP (· == .waiting) ≤
        monitor.engine.shared.queue.entries.length + notice.toList.length +
          next.workers.countP (· == .waiting)) :
    Wakeful (monitor.proceed thread notice next) := by
  have kept : (∃ thread, (thread, Notice.all) ∈ monitor.owed) →
      ∃ other, (other, Notice.all) ∈ (monitor.proceed thread notice next).owed := by
    rintro ⟨other, member⟩
    exact ⟨other, List.mem_append_left _ member⟩
  have announced : notice = some .all →
      ∃ other, (other, Notice.all) ∈ (monitor.proceed thread notice next).owed := by
    rintro rfl
    exact ⟨thread, List.mem_append_right _ (List.mem_singleton.mpr rfl)⟩
  refine ⟨?_, wakeful.distinct, ?_, ?_⟩
  · intro index member
    exact (still index member).trans (wakeful.waiting index member)
  · intro some isClosed
    rcases closes isClosed with before | all
    · exact kept (wakeful.closed some before)
    · exact announced all
  · intro some
    rcases counts with all | before | enough
    · exact .inl (announced all)
    · exact .inl (kept (wakeful.closed some before))
    · rcases wakeful.covered some with all | covered
      · exact .inl (kept all)
      · right
        simp only [Monitor.proceed, List.length_append, List.length_map]
        omega

end Wakeful

theorem pop_eq_blocked {queue : TaskQueue} (blocked : queue.pop = .blocked) :
    queue.closed = false ∧ queue.entries = [] := by
  unfold TaskQueue.pop at blocked
  split at blocked
  · cases blocked
  · next empty =>
      split at blocked
      · cases blocked
      · next opened => exact ⟨by simpa using opened, Scheduler.pop_eq_none empty⟩

/-- The workers at the queue, when one worker moves. -/
theorem countP_waiting_set {workers : List Worker} {index : Nat} {worker : Worker}
    (found : workers[index]? = some worker) (moved : Worker) :
    (workers.set index moved).countP (· == .waiting) + (if worker == .waiting then 1 else 0) =
      workers.countP (· == .waiting) + (if moved == .waiting then 1 else 0) := by
  have changed := total_set (fun worker : Worker => if worker == .waiting then 1 else 0) found moved
  rw [total_ite_eq_countP, total_ite_eq_countP] at changed
  exact changed

section Steps

variable [ITask Task] {engine : State Task} {env : Environment} {shared : Shared Task} {index : Nat}

/-- A worker that takes an entry leaves the queue, and one that puts an entry back
notifies and returns to it. -/
theorem counts_worker {worker moved : Worker} (found : engine.workers[index]? = some worker)
    (move : WorkerTransition env engine.shared worker shared moved) :
    engine.shared.queue.closed = true ∨
      shared.queue.entries.length + engine.workers.countP (· == .waiting) ≤
        engine.shared.queue.entries.length + worker.notice.toList.length +
          (engine.workers.set index moved).countP (· == .waiting) := by
  have changed := countP_waiting_set found moved
  cases move with
  | exit popped => exact .inl (TaskQueue.pop_eq_finished popped).1
  | pop popped =>
      right
      have length := (TaskQueue.pop_eq_dispatch popped).2.length_eq
      rw [List.length_cons] at length
      simp [Worker.notice] at changed ⊢
      omega
  | miss missing =>
      right
      simp [Worker.notice] at changed ⊢
      omega
  | resolve found =>
      right
      simp [Worker.notice] at changed ⊢
      omega
  | dispatch read =>
      right
      simp [Worker.notice] at changed ⊢
      omega
  | slice read observed ran =>
      right
      simp [Worker.notice] at changed ⊢
      omega
  | record read =>
      right
      simp [Worker.notice] at changed ⊢
      omega
  | requeue =>
      right
      simp [Worker.notice] at changed ⊢
      omega

omit [ITask Task] in
theorem counts_call {done : Bool} {request : Request Task} {stage moved : Stage}
    (move : CallTransition env done request engine.shared stage shared moved) :
    (shared.queue.closed = true → engine.shared.queue.closed = true ∨
        stage.notice moved = some .all) ∧
      (stage.notice moved = some .all ∨
        shared.queue.entries.length ≤
          engine.shared.queue.entries.length + (stage.notice moved).toList.length) := by
  cases move with
  | push accepted =>
      obtain ⟨opened, stillOpen, entries⟩ := TaskQueue.pushExternal_eq_some accepted
      refine ⟨fun closed => .inl ?_, .inr ?_⟩
      · rw [stillOpen] at closed
        cases closed
      · rw [entries]
        simp [Stage.notice]
  | swapScheduler is swapped => exact ⟨fun _ => .inr rfl, .inl rfl⟩
  | closeDrain is => exact ⟨fun _ => .inr rfl, .inl rfl⟩
  | closeCancel is => exact ⟨fun _ => .inr rfl, .inl rfl⟩
  | _ => exact ⟨.inl, .inr (Nat.le_add_right _ _)⟩

theorem Wakeful.step {monitor next : Monitor Task} {turn : Turn Task} (wakeful : Wakeful monitor)
    (stepped : monitor.step turn = some next) : Wakeful next := by
  cases Monitor.goes_of_step stepped with
  | invoke request => exact ⟨wakeful.waiting, wakeful.distinct, wakeful.closed, wakeful.covered⟩
  | @worker index env worker moved shared awake found move =>
      refine wakeful.proceeded ?_ ?_ (.inr (counts_worker found move))
      · intro other member
        have different : index ≠ other := by
          rintro rfl
          exact awake member
        exact List.getElem?_set_ne different
      · rw [(flags_worker move).1]
        exact .inl
  | @call index env call stage shared found move =>
      obtain ⟨closes, counts⟩ := counts_call move
      refine wakeful.proceeded (fun _ _ => rfl) closes ?_
      exact counts.imp id fun enough => .inr (by dsimp only; omega)
  | @sleep index awake waits blocked =>
      obtain ⟨opened, empty⟩ := pop_eq_blocked blocked
      have distinct : (index :: monitor.asleep).Nodup := List.nodup_cons.mpr ⟨awake, wakeful.distinct⟩
      have waiting : ∀ other ∈ index :: monitor.asleep,
          monitor.engine.workers[other]? = some .waiting :=
        List.forall_mem_cons.mpr ⟨waits, wakeful.waiting⟩
      refine ⟨waiting, distinct, ?_, fun _ => .inr ?_⟩
      · intro _ closed
        dsimp only at closed
        rw [opened] at closed
        cases closed
      · have bound : (index :: monitor.asleep).length ≤
            monitor.engine.workers.countP (· == .waiting) := by
          rw [← length_positions]
          refine (List.subperm_of_subset distinct ?_).length_le
          intro other member
          exact mem_positions.mpr ⟨.waiting, waiting other member, rfl⟩
        dsimp only
        rw [empty]
        simp only [List.length_nil]
        omega
  | notifyAll found =>
      exact ⟨by simp, List.nodup_nil, fun some => absurd rfl some, fun some => absurd rfl some⟩
  | notifyOne found chosen => exact wakeful.notified found chosen
  | wake member => exact wakeful.awakened member

end Steps

end Kronos.Engine
