import Kronos.Engine.Numbering
import Kronos.Engine.Submissions

/-!
# An engine on a journal with a history

What holds of an engine that was made on the journal of earlier engines, as long
as the jobs of the history are restored in turn and no append fails. A step then
only appends what the journal may grow by.
-/

set_option autoImplicit false

namespace Kronos.Engine

open Threads

variable {Task : Type}

/-- A job of the history that is not finished and that nobody has restored. -/
def Unrestored (engine : State Task) (log : List JournalRecord) (id : JobId) : Prop :=
  engine.registry.find id = none ∧
    ∃ progress, progressOf log id = some progress ∧ isTerminal progress.state = false

/-- What is asked of the calls of an engine with a history. -/
def Admitted (unreserved : List JobId) (engine : State Task) (log : List JournalRecord) :
    Action Task → Prop
  | .invoke request => request.Numbers unreserved (submittedIds log)
  | .worker _ _ => True
  | .call index _ =>
      ∀ task submission submittedAt,
        engine.calls[index]? = some ⟨.restore task submission, .journalRestore submittedAt⟩ →
        Unrestored engine log submission.id ∧
          ∀ other ∈ engine.calls, other.prepares submission.id = 0

structure Journaled (unreserved : List JobId) (before : Nat) (engine : State Task)
    (log : List JournalRecord) : Prop where
  journal : JournalSound engine log
  staged : Staged engine
  numbered : Numbered unreserved before engine (submittedIds log)
  recorded : ∀ call ∈ engine.calls, call.Recorded engine.registry.heap log

/-- What a step does to the journal. -/
structure Grown (engine next : State Task) (spoken : Option JobId) (before : Nat)
    (log added : List JournalRecord) : Prop where
  journaled : next.registry.journal = some (log ++ added)
  grows : Grows log added
  extended : Extends engine.registry spoken log (log ++ added)
  drawn : engine.drawn ≤ next.drawn
  /-- No id is appended that was not drawn before. -/
  bounded : ∀ id ∈ submittedIds (log ++ added), id.toNat ≤ before + engine.drawn
  gives : ∀ id, total (Call.gives id) next.calls + (submittedIds log).count id ≤
    total (Call.gives id) engine.calls + (submittedIds (log ++ added)).count id

section Steps

variable {unreserved : List JobId} {before : Nat} {engine next : State Task}
  {log : List JournalRecord}

theorem Grown.refl (journaled : engine.registry.journal = some log)
    (bounded : ∀ id ∈ submittedIds log, id.toNat ≤ before + engine.drawn) :
    Grown engine engine none before log [] := by
  refine ⟨?_, trivial, ?_, Nat.le_refl _, ?_, ?_⟩ <;> rw [List.append_nil]
  · exact journaled
  · exact .refl _ _ _
  · exact bounded
  · exact fun id => Nat.le_refl _

/-- A submission journals an id that nobody else speaks for. -/
theorem Journaled.free_of_draft (journaled : Journaled unreserved before engine log)
    {call : Call Task} (member : call ∈ engine.calls) {id : JobId}
    (drafted : call.stage.draft? = some id) :
    engine.registry.find id = none ∧ (∀ other ∈ engine.calls, other.prepares id = 0) ∧
      id ∉ submittedIds log := by
  have fresh := ((journaled.numbered.placed call member).1 id drafted).2.2
  refine ⟨?_, fun other inside => ?_, fresh⟩
  · by_contra taken
    exact fresh (journaled.numbered.registered id taken)
  · refine if_neg fun prepares => ?_
    obtain ⟨⟨same, progress⟩, prepared, rfl⟩ := Option.map_eq_some_iff.mp prepares
    refine fresh (progressOf_isSome_iff.mp ?_)
    rw [journaled.journal.prepared other inside same progress prepared]
    rfl

theorem Journaled.journalsFreeIds (journaled : Journaled unreserved before engine log)
    {action : Action Task} (admitted : Admitted unreserved engine log action) :
    JournalsFreeIds engine action := by
  cases action with
  | call index env =>
      rintro ⟨request, stage⟩ found id speaks
      have member := List.mem_of_getElem? found
      have of := journaled.staged _ member
      cases stage with
      | journalSubmission draft =>
          cases speaks
          obtain ⟨task, options, is⟩ := of
          obtain ⟨free, alone, fresh⟩ := journaled.free_of_draft member rfl
          refine ⟨free, alone, ?_⟩
          rw [show request = _ from is, show engine.registry.journal = some log from
            journaled.journal.all.journal]
          exact ⟨fun recovered => (by cases recovered), fun taken => absurd taken fresh⟩
      | journalRestore submittedAt =>
          obtain ⟨task, submission, is⟩ := of
          rw [show request = _ from is] at found speaks
          cases speaks
          obtain ⟨⟨free, progress, known, _⟩, alone⟩ := admitted _ _ _ found
          refine ⟨free, alone, ?_⟩
          rw [show request = _ from is, show engine.registry.journal = some log from
            journaled.journal.all.journal]
          exact ⟨fun _ => progressOf_isSome_iff.mp (Option.isSome_of_eq_some known), fun _ => rfl⟩
      | _ => cases speaks
  | _ => trivial

theorem Journaled.journalsLive (journaled : Journaled unreserved before engine log) {index : Nat}
    {env : Environment} (admitted : Admitted unreserved engine log (.call index env))
    {call : Call Task} (found : engine.calls[index]? = some call) : call.JournalsLive log := by
  have member := List.mem_of_getElem? found
  obtain ⟨request, stage⟩ := call
  cases stage with
  | journalSubmission draft =>
      cases request with
      | submit task options =>
          obtain ⟨positive, _, fresh⟩ := (journaled.numbered.placed _ member).1 draft.id rfl
          refine ⟨fresh, ?_, (journaled.numbered.requests _ member).2.2.1⟩
          intro zero
          rw [zero] at positive
          exact Nat.lt_irrefl _ positive
      | _ => trivial
  | journalRestore submittedAt =>
      cases request with
      | restore task submission => exact (admitted _ _ _ found).1.2
      | _ => trivial
  | _ => trivial

theorem Journaled.invoke [ITask Task] {request : Request Task}
    (journaled : Journaled unreserved before engine log)
    (admitted : Admitted unreserved engine log (.invoke request))
    (stepped : engine.step (.invoke request) = some next) :
    Journaled unreserved before next log ∧ Grown engine next none before log [] := by
  obtain ⟨extended, journal, extends'⟩ :=
    journaled.journal.step (show JournalsFreeIds engine (.invoke request) from trivial) stepped
  have staged := journaled.staged.step stepped
  have same : next.registry = engine.registry := by
    cases stepped
    rfl
  have written : next.registry.journal = some (log ++ []) := by
    rw [same, List.append_nil]
    exact journaled.journal.all.journal
  have recorded := recorded_step journaled.journal.sound journaled.journal.all.journal
    journaled.recorded stepped written
  have gives := gives_step journaled.journal.all.journal stepped written
  rw [journal.all.journal, List.append_nil, Option.some.injEq] at written
  subst written
  rw [List.append_nil] at recorded
  have numbered := journaled.numbered
  cases stepped
  have drawn : total Call.draws (engine.calls ++ [⟨request, .entered⟩]) = engine.drawn := by
    simp [State.drawn, Call.draws, Stage.draws]
  refine ⟨⟨journal, staged, ?_, recorded⟩, ?_⟩
  · refine numbered.of_frame (UInt64.le_refl _) drawn.ge ?_ (fun id taken => .inl taken) ?_ ?_
    · change _ ≤ before + total Call.draws (engine.calls ++ [⟨request, .entered⟩]) + 1
      rw [drawn]
      exact numbered.counter
    · intro call member
      rcases List.mem_append.mp member with old | added
      · exact .inl old
      · rw [List.mem_singleton.mp added]
        refine .inr ⟨⟨?_, fun _ _ => trivial⟩, admitted⟩
        rintro _ ⟨⟩
    · intro id
      simpa [Call.drafts, Stage.draft?] using numbered.once id
  · refine ⟨by rw [List.append_nil]; exact journal.all.journal, trivial, ?_, drawn.ge, ?_, gives⟩
    · rw [List.append_nil]
      exact .refl _ _ _
    · rw [List.append_nil]
      exact numbered.bounded

theorem Journaled.worker [ITask Task] {index : Nat} {env : Environment}
    (journaled : Journaled unreserved before engine log)
    (stepped : engine.step (.worker index env) = some next) :
    ∃ added, Journaled unreserved before next (log ++ added) ∧
      Grown engine next none before log added := by
  obtain ⟨extended, journal, extends'⟩ :=
    journaled.journal.step (show JournalsFreeIds engine (.worker index env) from trivial) stepped
  have staged := journaled.staged.step stepped
  have numbered := journaled.numbered
  have recorded := fun {added : List JournalRecord} => @recorded_step _ _ _ added _ _ _
    journaled.journal.sound journaled.journal.all.journal journaled.recorded stepped
  have gives := fun {added : List JournalRecord} => @gives_step _ _ _ added _ _ _
    journaled.journal.all.journal stepped
  cases transition_of_step stepped with
  | @worker _ _ worker moved shared found move =>
      obtain ⟨added, written, grows, transitions⟩ :=
        journaled.journal.grows_worker (List.mem_of_getElem? found) move
      have same := journal.all.journal.symm.trans written
      rw [Option.some.injEq] at same
      subst same
      have ids : submittedIds (log ++ added) = submittedIds log := by
        simp [submittedIds, transitions]
      have frame : shared.nextJobId = engine.shared.nextJobId ∧
          ∀ id, shared.registry.find id = engine.registry.find id := by
        cases move <;> exact ⟨rfl, fun _ => rfl⟩
      refine ⟨added, ⟨journal, staged, ?_, recorded written⟩,
        ⟨written, grows, extends', Nat.le_refl _, ?_, gives written⟩⟩
      · rw [ids]
        refine numbered.of_frame ?_ (Nat.le_refl _) ?_ ?_ (fun call member => .inl member)
          numbered.once
        · exact frame.1 ▸ UInt64.le_refl _
        · exact frame.1 ▸ numbered.counter
        · intro id taken
          left
          rwa [← frame.2 id]
      · rw [ids]
        exact numbered.bounded

theorem Journaled.call [ITask Task] {index : Nat} {env : Environment}
    (journaled : Journaled unreserved before engine log)
    (admitted : Admitted unreserved engine log (.call index env))
    (appends : ∀ id, env.appendError id = none) (small : before + next.drawn < Registry.limit)
    (stepped : engine.step (.call index env) = some next) :
    ∃ added, Journaled unreserved before next (log ++ added) ∧
      Grown engine next ((Action.call index env).journals? engine) before log added := by
  obtain ⟨extended, journal, extends'⟩ :=
    journaled.journal.step (journaled.journalsFreeIds admitted) stepped
  have staged := journaled.staged.step stepped
  have numbered := journaled.numbered
  have recorded := fun {added : List JournalRecord} => @recorded_step _ _ _ added _ _ _
    journaled.journal.sound journaled.journal.all.journal journaled.recorded stepped
  have gives := fun {added : List JournalRecord} => @gives_step _ _ _ added _ _ _
    journaled.journal.all.journal stepped
  obtain ⟨⟨request, stage⟩, found⟩ : ∃ call, engine.calls[index]? = some call := by
    cases transition_of_step stepped with
    | call found move => exact ⟨_, found⟩
  obtain ⟨shared, moved, called, rfl⟩ := callStep_of_step found stepped
  have member := List.mem_of_getElem? found
  have move := callTransition_of_step called
  have draws : Call.draws (⟨request, stage⟩ : Call Task) ≤ Call.draws ⟨request, moved⟩ :=
    draws_le (numbered.requests _ member).proper appends called
  obtain ⟨added, written, grows, said⟩ := journaled.journal.grows_call member
    (journaled.journalsLive admitted found) move
  have same := journal.all.journal.symm.trans written
  rw [Option.some.injEq] at same
  subst same
  refine ⟨added, ⟨journal, staged, ?_, recorded written⟩,
    ⟨written, grows, extends', ?_, ?_, gives written⟩⟩
  · exact numbered.call journaled.journal (journaled.staged _ member) found draws small move
      written said
  · exact drawn_le_step (fun call inside => (numbered.requests call inside).proper)
      (show (Action.call index env).Appends from appends) stepped
  · rcases said with transitions | submits
    · rw [show submittedIds (log ++ added) = submittedIds log by simp [submittedIds, transitions]]
      exact numbered.bounded
    · cases submits with
      | @mk task options draft spec durable =>
          have placed := (numbered.placed _ member).1 draft.id rfl
          have counter := numbered.counter
          rw [submittedIds_append]
          refine forall_mem_concat numbered.bounded ?_
          change draft.id.toNat ≤ before + engine.drawn
          omega

end Steps

end Kronos.Engine
