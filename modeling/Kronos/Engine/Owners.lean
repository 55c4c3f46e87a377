import Kronos.Engine.Handles
import Kronos.Engine.Publication
import Kronos.Engine.Stages

/-!
# Owners of records

A registered record was made by a call, which still has it in hand or has returned a
handle of it.
-/

set_option autoImplicit false

namespace Kronos.Engine

open Threads

variable {Task : Type}

/-- Every registered record has an owner. -/
def Owned (engine : State Task) : Prop :=
  ∀ id ref, engine.registry.find id = some ref →
    ∃ call ∈ engine.calls, call.stage.made? = some ref

/-- The handle that a call has returned. -/
def Call.handle? (call : Call Task) : Option (JobId × RecordRef) :=
  match call.stage with
  | .returnedHandle id ref => some (id, ref)
  | _ => none

/-- The handles that were returned, in the order of the calls. -/
def handles (calls : List (Call Task)) : List (JobId × RecordRef) := calls.filterMap Call.handle?

section Steps

variable {engine next : State Task}

theorem made?_kept {env : Environment} {done : Bool} {request : Request Task}
    {shared next : Shared Task} {stage moved : Stage} {ref : RecordRef}
    (move : CallTransition env done request shared stage next moved)
    (made : stage.made? = some ref) : moved.made? = some ref := by
  cases move with
  | reject what early =>
      rw [early.made?_eq] at made
      cases made
  | registerSubmission is room => cases made
  | registerRestore is fresh => cases made
  | advanceSequenceReserved recovered advanced => cases made
  | _ => exact made

theorem find_emplace_cases {registry : Registry Task} {key id : JobId} {new ref : RecordRef}
    (found : (registry.emplace key new).find id = some ref) :
    registry.find id = some ref ∨ ref = new := by
  cases taken : registry.find key with
  | some old =>
      left
      rwa [Registry.emplace, taken] at found
  | none =>
      rw [Registry.find_emplace new taken] at found
      split at found
      · right
        exact (Option.some.inj found).symm
      · exact .inl found

/-- What is registered newly was made by the call that takes the step. -/
theorem found_or_made {env : Environment} {done : Bool} {request : Request Task}
    {shared : Shared Task} {stage moved : Stage} (sound : Sound engine)
    (move : CallTransition env done request engine.shared stage shared moved) {id : JobId}
    {ref : RecordRef} (found : shared.registry.find id = some ref) :
    engine.registry.find id = some ref ∨ moved.made? = some ref := by
  cases move with
  | registerSubmission is room =>
      rcases find_emplace_cases found with old | rfl
      · exact .inl old
      · exact .inr rfl
  | registerRestore is fresh =>
      rcases find_emplace_cases found with old | rfl
      · exact .inl old
      · exact .inr rfl
  | @cancelPending pending =>
      left
      exact (find_cancelPendingLocked sound.registry _ pending id).symm.trans found
  | _ => exact .inl found

theorem Owned.step [ITask Task] {action : Action Task} (owned : Owned engine) (sound : Sound engine)
    (stepped : engine.step action = some next) : Owned next := by
  intro id ref found
  cases transition_of_step stepped with
  | invoke request =>
      obtain ⟨call, member, made⟩ := owned id ref found
      exact ⟨call, List.mem_append_left _ member, made⟩
  | worker read move =>
      refine owned id ref ?_
      cases move <;> exact found
  | @call index env call stage shared read move =>
      have bound := (List.getElem?_eq_some_iff.mp read).1
      have moved : { call with stage } ∈ engine.calls.set index { call with stage } :=
        List.mem_of_getElem? (List.getElem?_set_self bound)
      rcases found_or_made sound move found with old | made
      · obtain ⟨owner, member, made⟩ := owned id ref old
        obtain ⟨position, is⟩ := List.mem_iff_getElem?.mp member
        by_cases same : position = index
        · subst same
          rw [is] at read
          cases read
          exact ⟨_, moved, made?_kept move made⟩
        · have kept : (engine.calls.set index { call with stage })[position]? = some owner := by
            rw [List.getElem?_set_ne (Ne.symm same)]
            exact is
          exact ⟨owner, List.mem_of_getElem? kept, made⟩
      · exact ⟨_, moved, made⟩

/-- Once the calls have ended, the registered records are those of the handles. -/
theorem Owned.handle (owned : Owned engine) (ended : ∀ call ∈ engine.calls, call.stage.ended = true)
    {id : JobId} {ref : RecordRef} (found : engine.registry.find id = some ref) :
    ∃ other, (other, ref) ∈ handles engine.calls := by
  obtain ⟨⟨request, stage⟩, member, made⟩ := owned id ref found
  have stopped := ended _ member
  cases stage with
  | returnedHandle other same =>
      cases made
      exact ⟨other, List.mem_filterMap.mpr ⟨_, member, rfl⟩⟩
  | advanceJobId restored current => cases stopped
  | advanceSequence restored current => cases stopped
  | push entry same => cases stopped
  | raced entry same => cases stopped
  | _ => cases made

theorem count_handles (calls : List (Call Task)) (ref : RecordRef) :
    ((handles calls).map Prod.snd).count ref ≤ total (Call.owns ref) calls := by
  induction calls with
  | nil => exact Nat.le_refl 0
  | cons call rest ih =>
      rw [total_cons]
      cases returned : call.handle? with
      | none =>
          rw [handles, List.filterMap_cons_none returned]
          exact ih.trans (Nat.le_add_left _ _)
      | some handle =>
          obtain ⟨request, stage⟩ := call
          cases stage with
          | returnedHandle id other =>
              cases returned
              rw [handles, List.filterMap_cons_some
                (show Call.handle? _ = some (id, other) from rfl), List.map_cons, List.count_cons]
              have owns : Call.owns ref (⟨request, .returnedHandle id other⟩ : Call Task) =
                  if other = ref then 1 else 0 := by
                simp [Call.owns, Stage.made?]
              have rest' : ((rest.filterMap Call.handle?).map Prod.snd).count ref ≤
                  total (Call.owns ref) rest := ih
              rw [owns]
              by_cases same : other = ref
              · simp [same]
                omega
              · simp [same]
                omega
          | _ => cases returned

theorem find_of_handle (sound : Sound engine) {id : JobId} {ref : RecordRef}
    (member : (id, ref) ∈ handles engine.calls) : engine.registry.find id = some ref := by
  obtain ⟨⟨request, stage⟩, inside, is⟩ := List.mem_filterMap.mp member
  have known := sound.calls _ inside
  cases stage with
  | returnedHandle one two =>
      cases is
      exact known
  | _ => cases is

/-- No job has two handles. -/
theorem ids_handles (owned : OwnedOnce engine) (sound : Sound engine) :
    ((handles engine.calls).map Prod.fst).Nodup := by
  have refs : ((handles engine.calls).map Prod.snd).Nodup :=
    List.nodup_iff_count_le_one.mpr fun ref => (count_handles _ ref).trans (owned ref).1
  refine List.Nodup.map_on ?_ (List.Nodup.of_map Prod.snd refs)
  rintro ⟨id, left⟩ inLeft ⟨other, right⟩ inRight rfl
  have same := (find_of_handle sound inLeft).symm.trans (find_of_handle sound inRight)
  rw [Option.some.injEq] at same
  rw [same]

end Steps

end Kronos.Engine
