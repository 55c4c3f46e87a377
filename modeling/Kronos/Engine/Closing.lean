import Kronos.Engine.Publication
import Kronos.Engine.Stages

/-!
# The shutdown protocol

One shutdown call at a time stops the engine: it closes the queue, cancels what
it drained, and waits for the workers. A worker leaves only when the queue is
closed and empty, so the last one to leave leaves an empty queue, although a
worker that still runs a job may put it back after others have left.
-/

set_option autoImplicit false

namespace Kronos.Engine

open Threads

variable {Task : Type}

/-- The call holds the shutdown mutex and has not closed the queue. -/
def Call.opening (call : Call Task) : Nat :=
  match call.stage with
  | .stopAccepting => 1
  | .close => 1
  | _ => 0

/-- The call holds the shutdown mutex and has closed the queue. -/
def Call.closing (call : Call Task) : Nat :=
  match call.stage with
  | .cancelPending _ => 1
  | .join => 1
  | _ => 0

/-- A shutdown has returned. -/
def Call.shutDown (call : Call Task) : Prop :=
  call.stage = .returned ∧ ∃ mode, call.request = .shutdown mode

structure Closing (engine : State Task) : Prop where
  staged : Staged engine
  mutex : total Call.opening engine.calls + total Call.closing engine.calls =
    if engine.shared.shutdownHeld then 1 else 0
  closed : engine.shared.queue.closed = true ↔
    engine.shared.joined = true ∨ 0 < total Call.closing engine.calls
  joined : engine.shared.joined = true → engine.shared.shutdownHeld = false ∧ engine.done = true
  drained : engine.done = true →
    engine.shared.queue.closed = true ∧ engine.shared.queue.entries = []
  returned : ∀ call ∈ engine.calls, call.shutDown → engine.shared.joined = true

theorem Starts.closing {engine : State Task} (started : Starts engine) : Closing engine := by
  obtain ⟨config, queue, requested, detected, journal, made, rfl⟩ := started
  have opened : queue.closed = false := by
    unfold TaskQueue.make at made
    split at made
    · cases made
      rfl
    · cases made
  have some : 0 < resolvedWorkerCount requested detected := by
    unfold resolvedWorkerCount
    split
    · omega
    · split <;> omega
  have working : (State.make queue requested detected journal : State Task).done = false := by
    rw [State.done, List.all_eq_false]
    refine ⟨.waiting, ?_, by decide⟩
    exact List.mem_replicate.mpr ⟨Nat.ne_of_gt some, rfl⟩
  refine ⟨?_, rfl, ?_, ?_, ?_, ?_⟩
  · intro call member
    cases member
  · simp [State.make, opened]
  · intro joined
    cases joined
  · intro done
    rw [working] at done
    cases done
  · intro call member
    cases member

section Steps

variable {engine : State Task} {env : Environment} {shared : Shared Task} {index : Nat}

theorem flags_worker [ITask Task] {worker moved : Worker}
    (move : WorkerTransition env engine.shared worker shared moved) :
    shared.queue.closed = engine.shared.queue.closed ∧
      shared.shutdownHeld = engine.shared.shutdownHeld ∧
      shared.joined = engine.shared.joined := by
  cases move with
  | pop popped => exact ⟨(TaskQueue.pop_eq_dispatch popped).1, rfl, rfl⟩
  | _ => exact ⟨rfl, rfl, rfl⟩

theorem not_done_of_worker [ITask Task] {worker moved : Worker}
    (found : engine.workers[index]? = some worker)
    (move : WorkerTransition env engine.shared worker shared moved) : engine.done = false := by
  rw [State.done, List.all_eq_false]
  refine ⟨worker, List.mem_of_getElem? found, ?_⟩
  cases move <;> simp

theorem Closing.worker [ITask Task] {worker moved : Worker} (closing : Closing engine)
    (found : engine.workers[index]? = some worker)
    (move : WorkerTransition env engine.shared worker shared moved) :
    Closing { engine with shared, workers := engine.workers.set index moved } := by
  obtain ⟨closed, held, joined⟩ := flags_worker move
  have working := not_done_of_worker found move
  refine ⟨closing.staged, ?_, ?_, ?_, ?_, ?_⟩
  · rw [held]
    exact closing.mutex
  · rw [closed, joined]
    exact closing.closed
  · intro ended
    rw [joined] at ended
    rw [(closing.joined ended).2] at working
    cases working
  · intro done
    -- the last worker leaves at this step
    have bound : index < engine.workers.length := (List.getElem?_eq_some_iff.mp found).1
    have left : moved = .exited := by
      have all := List.all_eq_true.mp done moved
        (List.mem_of_getElem? (List.getElem?_set_self bound))
      simpa using all
    cases move with
    | exit popped => exact TaskQueue.pop_eq_finished popped
    | dispatch read => split at left <;> cases left
    | record read => split at left <;> cases left
    | _ => cases left
  · intro call member ended
    rw [joined]
    exact closing.returned call member ended

theorem Closing.moved {request : Request Task} {stage : Stage} (closing : Closing engine)
    (of : stage.Of request)
    (mutex : total Call.opening (engine.calls.set index ⟨request, stage⟩) +
      total Call.closing (engine.calls.set index ⟨request, stage⟩) =
        if shared.shutdownHeld then 1 else 0)
    (closed : shared.queue.closed = true ↔
      shared.joined = true ∨ 0 < total Call.closing (engine.calls.set index ⟨request, stage⟩))
    (joined : shared.joined = true → shared.shutdownHeld = false ∧ engine.done = true)
    (drained : engine.done = true → shared.queue.closed = true ∧ shared.queue.entries = [])
    (kept : engine.shared.joined = true → shared.joined = true)
    (ended : Call.shutDown ⟨request, stage⟩ → shared.joined = true) :
    Closing { engine with shared, calls := engine.calls.set index ⟨request, stage⟩ } :=
  ⟨forall_mem_set closing.staged of, mutex, closed, joined, drained,
    forall_mem_set (fun other member returned => kept (closing.returned other member returned))
      ended⟩

theorem Closing.quiet {call : Call Task} {stage : Stage} (closing : Closing engine)
    (found : engine.calls[index]? = some call)
    (of : stage.Of call.request)
    (held : shared.shutdownHeld = engine.shared.shutdownHeld)
    (joined : shared.joined = engine.shared.joined)
    (closed : shared.queue.closed = engine.shared.queue.closed)
    (entries : engine.shared.queue.closed = true →
      shared.queue.entries = engine.shared.queue.entries)
    (opening : Call.opening { call with stage } = call.opening)
    (alike : Call.closing { call with stage } = call.closing)
    (ended : Call.shutDown { call with stage } → engine.shared.joined = true) :
    Closing { engine with shared, calls := engine.calls.set index { call with stage } } := by
  have openings := total_set Call.opening found { call with stage }
  have closings := total_set Call.closing found { call with stage }
  have sameOpenings : total Call.opening (engine.calls.set index { call with stage }) =
      total Call.opening engine.calls := by omega
  have sameClosings : total Call.closing (engine.calls.set index { call with stage }) =
      total Call.closing engine.calls := by omega
  refine closing.moved of ?_ ?_ ?_ ?_ ?_ ?_
  · rw [sameOpenings, sameClosings, held]
    exact closing.mutex
  · rw [sameClosings, closed, joined]
    exact closing.closed
  · rw [joined, held]
    exact closing.joined
  · intro done
    obtain ⟨isClosed, empty⟩ := closing.drained done
    exact ⟨closed.trans isClosed, (entries isClosed).trans empty⟩
  · exact joined.trans
  · exact fun returned => joined.trans (ended returned)

/-- The shutdown that holds the mutex is the only one. -/
theorem Closing.held_of_opening (closing : Closing engine) {call : Call Task}
    (member : call ∈ engine.calls) (opening : 0 < call.opening) :
    engine.shared.shutdownHeld = true ∧ engine.shared.joined = false ∧
      engine.shared.queue.closed = false ∧ total Call.opening engine.calls = 1 ∧
      total Call.closing engine.calls = 0 := by
  have weighs := @weight_le_total _ Call.opening _ _ member
  have mutex := closing.mutex
  cases held : engine.shared.shutdownHeld with
  | false => simp only [held, Bool.false_eq_true, if_false] at mutex; omega
  | true =>
      simp only [held, if_true] at mutex
      have none : total Call.closing engine.calls = 0 := by omega
      have notJoined : engine.shared.joined = false := by
        by_contra joined
        have free := (closing.joined (by simpa using joined)).1
        rw [held] at free
        cases free
      refine ⟨rfl, notJoined, ?_, by omega, none⟩
      by_contra closed
      rcases closing.closed.mp (by simpa using closed) with joined | some
      · rw [notJoined] at joined
        cases joined
      · omega

theorem Closing.held_of_closing (closing : Closing engine) {call : Call Task}
    (member : call ∈ engine.calls) (closes : 0 < call.closing) :
    engine.shared.shutdownHeld = true ∧ engine.shared.joined = false ∧
      engine.shared.queue.closed = true ∧ total Call.opening engine.calls = 0 ∧
      total Call.closing engine.calls = 1 := by
  have weighs := @weight_le_total _ Call.closing _ _ member
  have mutex := closing.mutex
  cases held : engine.shared.shutdownHeld with
  | false => simp only [held, Bool.false_eq_true, if_false] at mutex; omega
  | true =>
      simp only [held, if_true] at mutex
      refine ⟨rfl, ?_, closing.closed.mpr (.inr (by omega)), by omega, by omega⟩
      by_contra joined
      have free := (closing.joined (by simpa using joined)).1
      rw [held] at free
      cases free

theorem Closing.closes {request : Request Task} {stage : Stage} (closing : Closing engine)
    (found : engine.calls[index]? = some ⟨request, .close⟩)
    (next : stage = .join ∨ stage = .cancelPending (engine.shared.queue.closeAndDrainPending true).1)
    (of : stage.Of request) (closed : shared.queue.closed = true)
    (held : shared.shutdownHeld = engine.shared.shutdownHeld)
    (joined : shared.joined = engine.shared.joined) :
    Closing { engine with shared, calls := engine.calls.set index ⟨request, stage⟩ } := by
  obtain ⟨isHeld, notJoined, opened, oneOpening, noClosing⟩ := closing.held_of_opening
    (List.mem_of_getElem? found) (show 0 < Call.opening ⟨request, .close⟩ from Nat.one_pos)
  have openings := total_set Call.opening found ⟨request, stage⟩
  have closings := total_set Call.closing found ⟨request, stage⟩
  have weights : Call.opening ⟨request, stage⟩ = 0 ∧ Call.closing ⟨request, stage⟩ = 1 := by
    rcases next with rfl | rfl <;> exact ⟨rfl, rfl⟩
  have before : Call.opening ⟨request, .close⟩ = 1 ∧ Call.closing ⟨request, .close⟩ = 0 :=
    ⟨rfl, rfl⟩
  have oneClosing : total Call.closing (engine.calls.set index ⟨request, stage⟩) = 1 := by omega
  refine closing.moved of ?_ ?_ ?_ ?_ ?_ ?_
  · rw [held, isHeld, if_pos rfl]
    omega
  · exact ⟨fun _ => .inr (by omega), fun _ => closed⟩
  · intro ended
    rw [joined, notJoined] at ended
    cases ended
  · intro done
    rw [(closing.drained done).1] at opened
    cases opened
  · exact joined.trans
  · rintro ⟨isReturned, _⟩
    rcases next with rfl | rfl <;> cases isReturned

theorem Stage.Early.outside {stage : Stage} (early : stage.Early) (request : Request Task) :
    Call.opening ⟨request, stage⟩ = 0 ∧ Call.closing ⟨request, stage⟩ = 0 := by
  cases stage <;> first | exact early.elim | exact ⟨rfl, rfl⟩

theorem Closing.call {call : Call Task} {stage : Stage} (closing : Closing engine)
    (found : engine.calls[index]? = some call)
    (move : CallTransition env engine.done call.request engine.shared call.stage shared stage) :
    Closing { engine with shared, calls := engine.calls.set index { call with stage } } := by
  obtain ⟨request, current⟩ := call
  change Closing { engine with shared, calls := engine.calls.set index ⟨request, stage⟩ }
  have member := List.mem_of_getElem? found
  have of : stage.Of request := (closing.staged _ member).step move
  have openings := total_set Call.opening found ⟨request, stage⟩
  have closings := total_set Call.closing found ⟨request, stage⟩
  have silent : ∀ {other : Stage}, other ≠ .returned → ∀ {shared : Shared Task},
      Call.shutDown ⟨request, other⟩ → shared.joined = true :=
    fun different _ ended => absurd ended.1 different
  cases move with
  | reject what early =>
      obtain ⟨opening, alike⟩ := early.outside request
      exact closing.quiet found of rfl rfl rfl (fun _ => rfl) opening.symm alike.symm
        (silent (by simp))
  | push accepted =>
      obtain ⟨opened, stillOpen, _⟩ := TaskQueue.pushExternal_eq_some accepted
      refine closing.quiet found of rfl rfl (stillOpen.trans opened.symm) ?_ rfl rfl
        (silent (by simp))
      intro closed
      rw [opened] at closed
      cases closed
  | swapScheduler is swapped =>
      obtain ⟨opened, stillOpen, _⟩ := TaskQueue.setScheduler_eq_ok swapped
      refine closing.quiet found of rfl rfl (stillOpen.trans opened.symm) ?_ rfl rfl ?_
      · intro closed
        rw [opened] at closed
        cases closed
      · rintro ⟨_, mode, is'⟩
        cases is.symm.trans is'
  | advanceSequenceReserved recovered advanced =>
      refine closing.quiet found of rfl rfl rfl (fun _ => rfl) rfl rfl ?_
      rintro ⟨_, mode, is⟩
      rw [show request = .shutdown mode from is] at recovered
      cases recovered
  | shutdownAgain is free joined =>
      exact closing.quiet found of rfl rfl rfl (fun _ => rfl) rfl rfl fun _ => joined
  | beginShutdown is free first =>
      have mutex := closing.mutex
      simp only [free, Bool.false_eq_true, if_false] at mutex
      simp only [Call.opening, Call.closing] at openings closings
      have sameClosings : total Call.closing
          (engine.calls.set index ⟨request, .stopAccepting⟩) =
          total Call.closing engine.calls := by omega
      refine closing.moved of ?_ ?_ ?_ closing.drained id (silent (by simp))
      · rw [if_pos rfl]
        omega
      · rw [sameClosings]
        exact closing.closed
      · intro joined
        rw [show engine.shared.joined = true from joined] at first
        cases first
  | stopAccepting =>
      exact closing.quiet found of rfl rfl rfl (fun _ => rfl) rfl rfl (silent (by simp))
  | closeDrain is =>
      exact closing.closes found (.inl rfl) of (TaskQueue.closed_closeAndDrainPending _ _)
        rfl rfl
  | closeCancel is =>
      exact closing.closes found (.inr rfl) of (TaskQueue.closed_closeAndDrainPending _ _)
        rfl rfl
  | cancelPending =>
      exact closing.quiet found of rfl rfl rfl (fun _ => rfl) rfl rfl (silent (by simp))
  | join finished =>
      obtain ⟨held, notJoined, closed, noOpening, oneClosing⟩ :=
        closing.held_of_closing member (show 0 < Call.closing ⟨request, .join⟩ from Nat.one_pos)
      simp only [Call.opening, Call.closing] at openings closings
      refine closing.moved of ?_ ?_ ?_ closing.drained (fun _ => rfl) (fun _ => rfl)
      · rw [if_neg (by simp)]
        omega
      · exact ⟨fun _ => .inl rfl, fun _ => closed⟩
      · exact fun _ => ⟨rfl, finished⟩
  | _ => exact closing.quiet found of rfl rfl rfl (fun _ => rfl) rfl rfl (silent (by simp))

theorem Closing.step [ITask Task] {next : State Task} {action : Action Task}
    (closing : Closing engine) (stepped : engine.step action = some next) : Closing next := by
  cases transition_of_step stepped with
  | invoke request =>
      have staged := closing.staged.step stepped
      refine ⟨staged, ?_, ?_, closing.joined, closing.drained, ?_⟩
      · simpa [Call.opening, Call.closing] using closing.mutex
      · simpa [Call.closing] using closing.closed
      · intro call member ended
        rcases List.mem_append.mp member with old | added
        · exact closing.returned call old ended
        · rw [List.mem_singleton.mp added] at ended
          cases ended.1
  | worker found move => exact closing.worker found move
  | call found move => exact closing.call found move

end Steps

end Kronos.Engine
