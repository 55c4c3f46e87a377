import Kronos.Common.Total
import Kronos.Engine.Transition

/-!
# The stages of a call

Which stages a call can be in depends on its request. The steps do not all ask
for the request again, so this is an invariant.
-/

set_option autoImplicit false

namespace Kronos.Engine

variable {Task : Type}

/-- The call makes a job. -/
def Request.makesJob : Request Task → Bool
  | .submit _ _ => true
  | .restore _ _ => true
  | _ => false

def Request.submits : Request Task → Bool
  | .submit _ _ => true
  | _ => false

/-- The call has returned or thrown. -/
def Stage.ended : Stage → Bool
  | .returnedHandle _ _ => true
  | .returnedBool _ => true
  | .returned => true
  | .threw _ => true
  | _ => false

/-- The stages a call with this request goes through. -/
def Stage.Of (request : Request Task) : Stage → Prop
  | .entered => True
  | .drawId => ∃ task options, request = .submit task options
  | .drawSequence _ => ∃ task options, request = .submit task options
  | .journalSubmission _ => ∃ task options, request = .submit task options
  | .registerSubmission _ => ∃ task options, request = .submit task options
  | .journalRestore _ => ∃ task submission, request = .restore task submission
  | .registerRestore _ => ∃ task submission, request = .restore task submission
  | .advanceJobId (some _) _ => ∃ task submission, request = .restore task submission
  | .advanceSequence (some _) _ => ∃ task submission, request = .restore task submission
  | .advanceJobId none _ => ∃ submission, request = .reserveRecoveredIdentity submission
  | .advanceSequence none _ => ∃ submission, request = .reserveRecoveredIdentity submission
  | .push _ _ => request.makesJob = true
  | .raced _ _ => request.makesJob = true
  | .returnedHandle _ _ => request.makesJob = true
  | .cancelFound _ => ∃ id, request = .cancel id
  | .returnedBool _ => ∃ id, request = .cancel id
  | .swapScheduler => ∃ config, request = .setScheduler config
  | .stopAccepting => ∃ mode, request = .shutdown mode
  | .close => ∃ mode, request = .shutdown mode
  | .cancelPending _ => request = .shutdown .cancelPending
  | .join => ∃ mode, request = .shutdown mode
  | .returned => request.makesJob = false
  | .threw _ => True

theorem Stage.Of.step {env : Environment} {done : Bool} {request : Request Task}
    {shared next : Shared Task} {stage moved : Stage} (of : stage.Of request)
    (move : CallTransition env done request shared stage next moved) : moved.Of request := by
  cases move with
  | reject what early => trivial
  | beginSubmit is accepting => exact ⟨_, _, is⟩
  | drawId => exact of
  | drawSequence => exact of
  | unjournaledSubmission unjournaled => exact of
  | journalSubmission is journaled durable typed appended => exact of
  | registerSubmission is room =>
      rw [is]
      rfl
  | beginRestore is accepting valid => exact ⟨_, _, is⟩
  | unjournaledRestore unjournaled => exact of
  | journalRestore is journaled appended => exact of
  | registerRestore is fresh => exact of
  | beginReserve is nonzero => exact ⟨_, is⟩
  | @advanceJobIdAgain submission restored current counter again recovered advanced =>
      cases restored <;> exact of
  | @advanceJobId submission restored current counter recovered advanced =>
      cases restored <;> exact of
  | @advanceSequenceAgain submission restored current counter again recovered advanced =>
      cases restored <;> exact of
  | advanceSequenceRestored recovered advanced =>
      obtain ⟨task, submission, is⟩ := of
      rw [is]
      rfl
  | advanceSequenceReserved recovered advanced =>
      obtain ⟨submission, is⟩ := of
      rw [is]
      rfl
  | push accepted => exact of
  | refuse refused => exact of
  | raced read => exact of
  | cancelMissing is missing => exact ⟨_, is⟩
  | cancelFound is found => exact ⟨_, is⟩
  | cancel read => exact of
  | beginSetScheduler is => exact ⟨_, is⟩
  | swapScheduler is swapped =>
      rw [is]
      rfl
  | shutdownAgain is free joined =>
      rw [is]
      rfl
  | beginShutdown is free first => exact ⟨_, is⟩
  | stopAccepting => exact of
  | closeDrain is => exact of
  | closeCancel is => exact is
  | cancelPending => exact ⟨_, of⟩
  | join finished =>
      obtain ⟨mode, is⟩ := of
      rw [is]
      rfl

/-- Every call is in a stage of its request. -/
def Staged (engine : State Task) : Prop := ∀ call ∈ engine.calls, call.stage.Of call.request

theorem Staged.step [ITask Task] {engine next : State Task} {action : Action Task}
    (staged : Staged engine) (stepped : engine.step action = some next) : Staged next := by
  cases transition_of_step stepped with
  | invoke request =>
      intro call member
      rcases List.mem_append.mp member with old | added
      · exact staged call old
      · rw [List.mem_singleton.mp added]
        trivial
  | worker found move => exact staged
  | @call index env call stage shared found move =>
      have of := staged call (List.mem_of_getElem? found)
      exact Threads.forall_mem_set staged (of.step move)

end Kronos.Engine
