import Kronos.Engine.Growth
import Kronos.Engine.Stages
import Kronos.TaskFactory

/-!
# Numbering of jobs

An engine on a journal with a history draws no id of that history, once the
counter has been advanced past all of it. The counter cannot wrap around as long
as fewer than `2^64 - 1` ids are drawn in the whole history.
-/

set_option autoImplicit false

namespace Kronos.Engine

open Threads

variable {Task : Type}

/-- What a submission throws that comes too late. -/
def refusal : Bytes := text "task engine is not accepting submissions"

/-- Whether a submission in this stage has drawn an id. -/
def Stage.draws : Stage → Nat
  | .entered => 0
  | .drawId => 0
  | .threw what => if what = refusal then 0 else 1
  | _ => 1

def Call.draws (call : Call Task) : Nat := if call.request.submits then call.stage.draws else 0

/-- The number of jobs that were submitted: each of them has drawn an id. -/
def State.drawn (engine : State Task) : Nat := total Call.draws engine.calls

/-- The id a submission has drawn and not journaled yet. -/
def Stage.draft? : Stage → Option JobId
  | .drawSequence id => some id
  | .journalSubmission draft => some draft.id
  | _ => none

def Call.drafts (id : JobId) (call : Call Task) : Nat :=
  if call.stage.draft? = some id then 1 else 0

/-- Where the id of a call stands in relation to the counter and the journaled ids. -/
def Call.Placed (counter : UInt64) (ids : List JobId) (call : Call Task) : Prop :=
  (∀ id, call.stage.draft? = some id →
    0 < id.toNat ∧ id.toNat < counter.toNat ∧ id ∉ ids) ∧
  ∀ submission, call.request.recovered? = some submission →
    match call.stage with
    | .advanceJobId _ (some current) => current.toNat ≤ submission.id.toNat
    | .advanceSequence _ _ => submission.id.toNat < counter.toNat
    | .returned => submission.id.toNat < counter.toNat
    | _ => True

/-- A request as the daemon makes it. Nothing is submitted as long as ids of the
history are unreserved. -/
def Request.Numbers (unreserved ids : List JobId) : Request Task → Prop
  | .submit task options => unreserved = [] ∧ task ≠ none ∧ TaskFactory.Durable options
  | .restore _ submission => submission.id ∈ ids
  | .reserveRecoveredIdentity submission => submission.id ∈ ids
  | _ => True

/-- A submission that is not rejected for its arguments. -/
def Request.Proper (request : Request Task) : Prop :=
  ∀ task options, request = .submit task options → task ≠ none ∧ TaskFactory.Durable options

theorem Request.Numbers.proper {unreserved ids : List JobId} {request : Request Task}
    (numbers : request.Numbers unreserved ids) : request.Proper := by
  rintro task options rfl
  exact numbers.2

/-- The numbering of an engine, with the ids that are not reserved yet and the
number of ids drawn before the engine was made. -/
structure Numbered (unreserved : List JobId) (before : Nat) (engine : State Task)
    (ids : List JobId) : Prop where
  positive : 0 < engine.shared.nextJobId.toNat
  counter : engine.shared.nextJobId.toNat ≤ before + engine.drawn + 1
  bounded : ∀ id ∈ ids, id.toNat ≤ before + engine.drawn
  reserved : ∀ id ∈ ids, id.toNat < engine.shared.nextJobId.toNat ∨ id ∈ unreserved
  registered : ∀ id, engine.registry.find id ≠ none → id ∈ ids
  placed : ∀ call ∈ engine.calls, call.Placed engine.shared.nextJobId ids
  once : ∀ id, total (Call.drafts id) engine.calls ≤ 1
  requests : ∀ call ∈ engine.calls, call.request.Numbers unreserved ids

theorem advanceCounter_spec {spurious : Bool} {counter desired moved : UInt64}
    {current again : Option UInt64} (below : ∀ value, current = some value → value < desired)
    (advanced : advanceCounter spurious counter desired current = (moved, again)) :
    counter ≤ moved ∧ (moved = counter ∨ moved = desired) ∧ (again = none → desired ≤ moved) ∧
      ∀ value, again = some value → value < desired := by
  have loaded : (counter, if counter < desired then some counter else none) = (moved, again) →
      counter ≤ moved ∧ (moved = counter ∨ moved = desired) ∧ (again = none → desired ≤ moved) ∧
        ∀ value, again = some value → value < desired := by
    intro same
    cases same
    refine ⟨UInt64.le_refl _, .inl rfl, ?_, ?_⟩
    · intro left
      by_contra less
      simp [UInt64.not_le.mp less] at left
    · intro value kept
      split at kept
      · next less =>
          cases kept
          exact less
      · cases kept
  cases current with
  | none => exact loaded advanced
  | some value =>
      rw [advanceCounter] at advanced
      split at advanced
      · next exchanged =>
          cases advanced
          have less := below value rfl
          rw [← exchanged.1] at less
          exact ⟨UInt64.le_of_lt less, .inr rfl, fun _ => UInt64.le_refl _, nofun⟩
      · exact loaded advanced

theorem Call.Placed.mono {counter later : UInt64} {ids : List JobId} {call : Call Task}
    (placed : call.Placed counter ids) (grows : counter ≤ later) : call.Placed later ids := by
  have above : counter.toNat ≤ later.toNat := grows
  obtain ⟨request, stage⟩ := call
  refine ⟨fun id drafted => ?_, fun submission recovered => ?_⟩
  · obtain ⟨positive, below, fresh⟩ := placed.1 id drafted
    exact ⟨positive, below.trans_le above, fresh⟩
  · have old := placed.2 submission recovered
    cases stage with
    | advanceJobId restored current => cases current <;> exact old
    | advanceSequence restored current => exact Nat.lt_of_lt_of_le old above
    | returned => exact Nat.lt_of_lt_of_le old above
    | _ => trivial

section Steps

variable {unreserved ids : List JobId} {before : Nat} {engine next : State Task}

theorem Numbered.of_frame (numbered : Numbered unreserved before engine ids)
    (grows : engine.shared.nextJobId ≤ next.shared.nextJobId)
    (drawn : engine.drawn ≤ next.drawn)
    (counter : next.shared.nextJobId.toNat ≤ before + next.drawn + 1)
    (registered : ∀ id, next.registry.find id ≠ none →
      engine.registry.find id ≠ none ∨ id ∈ ids)
    (calls : ∀ call ∈ next.calls, call ∈ engine.calls ∨
      (call.Placed next.shared.nextJobId ids ∧ call.request.Numbers unreserved ids))
    (once : ∀ id, total (Call.drafts id) next.calls ≤ 1) :
    Numbered unreserved before next ids where
  positive := numbered.positive.trans_le grows
  counter
  bounded id member := (numbered.bounded id member).trans (by omega)
  reserved id member := (numbered.reserved id member).imp_left fun below => below.trans_le grows
  registered id taken := (registered id taken).elim (numbered.registered id) fun member => member
  placed call member := (calls call member).elim (fun old => (numbered.placed call old).mono grows)
    fun new => new.1
  once
  requests call member := (calls call member).elim (numbered.requests call) fun new => new.2

/-- An id that the counter is past is reserved. -/
theorem Numbered.drop {id : JobId} (numbered : Numbered (id :: unreserved) before engine ids)
    (past : id.toNat < engine.shared.nextJobId.toNat) :
    Numbered unreserved before engine ids where
  positive := numbered.positive
  counter := numbered.counter
  bounded := numbered.bounded
  reserved other member := by
    rcases numbered.reserved other member with below | waiting
    · exact .inl below
    · rcases List.mem_cons.mp waiting with rfl | later
      · exact .inl past
      · exact .inr later
  registered := numbered.registered
  placed := numbered.placed
  once := numbered.once
  requests call member := by
    have numbers := numbered.requests call member
    generalize call.request = request at numbers
    cases request with
    | submit task options => cases numbers.1
    | _ => exact numbers

/-- A call moves without drawing an id, and drafts no more than before. -/
theorem once_set {index : Nat} {call moved : Call Task}
    (numbered : Numbered unreserved before engine ids)
    (found : engine.calls[index]? = some call)
    (kept : moved.stage.draft? = none ∨ moved.stage.draft? = call.stage.draft?) (id : JobId) :
    total (Call.drafts id) (engine.calls.set index moved) ≤ 1 := by
  have counted := total_set (Call.drafts id) found moved
  have bound := numbered.once id
  have fewer : moved.drafts id ≤ call.drafts id := by
    rcases kept with none | same
    · simp [Call.drafts, none]
    · simp [Call.drafts, same]
  omega

theorem Numbered.moves {index : Nat} {request : Request Task} {stage moved : Stage}
    {shared : Shared Task} (numbered : Numbered unreserved before engine ids)
    (found : engine.calls[index]? = some ⟨request, stage⟩)
    (grows : engine.shared.nextJobId ≤ shared.nextJobId)
    (counter : shared.nextJobId.toNat ≤ before + engine.drawn + 1)
    (registered : ∀ id, shared.registry.find id ≠ none →
      engine.registry.find id ≠ none ∨ id ∈ ids)
    (draws : Call.draws (⟨request, stage⟩ : Call Task) ≤ Call.draws ⟨request, moved⟩)
    (placed : Call.Placed shared.nextJobId ids (⟨request, moved⟩ : Call Task))
    (kept : moved.draft? = none ∨ moved.draft? = stage.draft?) :
    Numbered unreserved before
      { engine with shared, calls := engine.calls.set index ⟨request, moved⟩ } ids := by
  have counted := total_set Call.draws found ⟨request, moved⟩
  have drawn : engine.drawn ≤ total Call.draws (engine.calls.set index ⟨request, moved⟩) := by
    simp only [State.drawn]
    omega
  refine numbered.of_frame grows drawn ?_ registered ?_ (once_set numbered found kept)
  · exact counter.trans (Nat.succ_le_succ (Nat.add_le_add_left drawn before))
  · intro call member
    rcases List.mem_or_eq_of_mem_set member with old | rfl
    · exact .inl old
    · exact .inr ⟨placed, numbered.requests ⟨request, stage⟩ (List.mem_of_getElem? found)⟩

theorem Numbered.draw {index : Nat} {request : Request Task}
    (numbered : Numbered unreserved before engine ids)
    (found : engine.calls[index]? = some ⟨request, .drawId⟩) (submits : request.submits = true)
    (small : before + engine.drawn + 1 < Registry.limit) :
    Numbered unreserved before
      { engine with
        shared := { engine.shared with nextJobId := engine.shared.nextJobId + 1 }
        calls := engine.calls.set index ⟨request, .drawSequence engine.shared.nextJobId⟩ } ids := by
  have member := List.mem_of_getElem? found
  have counted := total_set Call.draws found ⟨request, .drawSequence engine.shared.nextJobId⟩
  simp only [Call.draws, submits, if_true, Stage.draws, Nat.add_zero] at counted
  change total Call.draws _ = engine.drawn + 1 at counted
  have numbers := numbered.requests _ member
  have reserved : unreserved = [] := by
    cases request with
    | submit task options => exact numbers.1
    | _ => cases submits
  have counter := numbered.counter
  have above : (engine.shared.nextJobId + 1).toNat = engine.shared.nextJobId.toNat + 1 := by
    rw [UInt64.toNat_add]
    refine Nat.mod_eq_of_lt ?_
    change _ + 1 < 2 ^ 64
    simp only [Registry.limit] at small
    omega
  have below : ∀ id ∈ ids, id.toNat < engine.shared.nextJobId.toNat := by
    intro id inside
    rcases numbered.reserved id inside with below | waiting
    · exact below
    · rw [reserved] at waiting
      cases waiting
  refine numbered.of_frame ?_ ?_ ?_ (fun id taken => .inl taken) ?_ ?_
  · change engine.shared.nextJobId.toNat ≤ (engine.shared.nextJobId + 1).toNat
    omega
  · change engine.drawn ≤ total Call.draws (engine.calls.set index _)
    omega
  · change (engine.shared.nextJobId + 1).toNat ≤
      before + total Call.draws (engine.calls.set index _) + 1
    omega
  · intro call moved
    rcases List.mem_or_eq_of_mem_set moved with old | rfl
    · exact .inl old
    · refine .inr ⟨⟨?_, fun _ _ => trivial⟩, numbers⟩
      rintro id drafted
      cases drafted
      refine ⟨numbered.positive, ?_, fun inside => Nat.lt_irrefl _ (below _ inside)⟩
      change _ < (engine.shared.nextJobId + 1).toNat
      omega
  · intro id
    have moves := total_set (Call.drafts id) found
      ⟨request, .drawSequence engine.shared.nextJobId⟩
    have bound := numbered.once id
    change total (Call.drafts id) (engine.calls.set index _) ≤ 1
    by_cases new : engine.shared.nextJobId = id
    · have unused : total (Call.drafts id) engine.calls = 0 := by
        rw [total_eq_zero_iff]
        intro call old
        refine if_neg fun drafted => ?_
        have placed := ((numbered.placed call old).1 id drafted).2.1
        rw [new] at placed
        exact Nat.lt_irrefl _ placed
      have one : Call.drafts id (⟨request, .drawSequence engine.shared.nextJobId⟩ : Call Task) = 1 :=
        if_pos (by rw [← new]; rfl)
      omega
    · have zero : Call.drafts id (⟨request, .drawSequence engine.shared.nextJobId⟩ : Call Task) = 0 :=
        if_neg fun drafted => new (Option.some.inj drafted)
      omega

theorem Numbered.journal {index : Nat} {request : Request Task} {draft : Draft}
    {shared : Shared Task} (numbered : Numbered unreserved before engine ids)
    (found : engine.calls[index]? = some ⟨request, .journalSubmission draft⟩)
    (submits : request.submits = true)
    (counter : shared.nextJobId = engine.shared.nextJobId)
    (find : ∀ id, shared.registry.find id = engine.registry.find id) :
    Numbered unreserved before
      { engine with
        shared
        calls := engine.calls.set index ⟨request, .registerSubmission draft⟩ }
      (ids ++ [draft.id]) := by
  have member := List.mem_of_getElem? found
  have counted := total_set Call.draws found ⟨request, .registerSubmission draft⟩
  simp only [Call.draws, submits, if_true, Stage.draws] at counted
  have drawn : total Call.draws (engine.calls.set index ⟨request, .registerSubmission draft⟩) =
      engine.drawn := Nat.add_right_cancel counted
  obtain ⟨positive, below, fresh⟩ := (numbered.placed _ member).1 draft.id rfl
  have bound := numbered.counter
  have numbers : ∀ call ∈ engine.calls, call.request.Numbers unreserved (ids ++ [draft.id]) := by
    intro call old
    have before := numbered.requests call old
    generalize call.request = asked at before
    cases asked with
    | restore task submission => exact List.mem_append_left _ before
    | reserveRecoveredIdentity submission => exact List.mem_append_left _ before
    | _ => exact before
  refine ⟨?_, ?_, ?_, ?_, ?_, ?_, ?_, ?_⟩
  · exact counter ▸ numbered.positive
  · change shared.nextJobId.toNat ≤ before + total Call.draws _ + 1
    rw [drawn, counter]
    exact numbered.counter
  · change ∀ id ∈ ids ++ [draft.id], id.toNat ≤ before + total Call.draws _
    rw [drawn]
    refine forall_mem_concat numbered.bounded ?_
    omega
  · change ∀ id ∈ ids ++ [draft.id], id.toNat < shared.nextJobId.toNat ∨ id ∈ unreserved
    rw [counter]
    exact forall_mem_concat numbered.reserved (.inl below)
  · intro id taken
    change shared.registry.find id ≠ none at taken
    rw [find] at taken
    exact List.mem_append_left _ (numbered.registered id taken)
  · intro call moved
    change call.Placed shared.nextJobId _
    rw [counter]
    rcases List.getElem?_of_mem moved with ⟨position, at'⟩
    change (engine.calls.set index _)[position]? = some call at at'
    by_cases same : position = index
    · subst same
      have inside := (List.getElem?_eq_some_iff.mp found).1
      rw [List.getElem?_set_self inside, Option.some.injEq] at at'
      subst at'
      refine ⟨nofun, fun submission recovered => trivial⟩
    · rw [List.getElem?_set_ne (Ne.symm same)] at at'
      have old := numbered.placed call (List.mem_of_getElem? at')
      refine ⟨fun id drafted => ?_, old.2⟩
      obtain ⟨idPositive, idBelow, idFresh⟩ := old.1 id drafted
      refine ⟨idPositive, idBelow, fun inside => ?_⟩
      rcases List.mem_append.mp inside with earlier | last
      · exact idFresh earlier
      · rw [List.mem_singleton.mp last] at drafted
        have both := @add_le_total _ (Call.drafts draft.id) _ _ _ _ _ same at' found
        have once := numbered.once draft.id
        rw [show call.drafts draft.id = 1 from if_pos drafted,
          show Call.drafts draft.id (⟨request, .journalSubmission draft⟩ : Call Task) = 1
            from if_pos rfl] at both
        omega
  · exact once_set numbered found (.inl rfl)
  · exact forall_mem_set numbers (numbers ⟨request, .journalSubmission draft⟩ member)

/-- A submission that has drawn an id keeps it, even if it throws. -/
theorem draws_le {env : Environment} {done : Bool} {request : Request Task}
    {shared moved : Shared Task} {stage after : Stage}
    (proper : request.Proper) (appends : ∀ id, env.appendError id = none)
    (stepped : callStep env shared done request stage = some (moved, after)) :
    Call.draws (⟨request, stage⟩ : Call Task) ≤ Call.draws ⟨request, after⟩ := by
  unfold Call.draws
  split
  · next submits =>
      by_cases threw : ∃ what, after = .threw what
      · obtain ⟨what, rfl⟩ := threw
        cases request with
        | submit task options =>
            obtain ⟨some, estimate, spec, durable, typed⟩ := proper _ _ rfl
            obtain ⟨task, rfl⟩ := Option.ne_none_iff_exists'.mp some
            rcases submission_threw stepped with ⟨rfl, _⟩ | ⟨draft, rfl, bad⟩ | ⟨draft, rfl, _, _, rfl⟩
            · exact Nat.zero_le _
            · rcases bad with untyped | failing
              · exact absurd (untyped spec durable) typed
              · exact absurd (appends draft.id) failing
            · simp [Stage.draws, show text "std::bad_alloc" ≠ refusal by decide]
        | _ => cases submits
      · cases callTransition_of_step stepped with
        | reject what early => exact absurd ⟨what, rfl⟩ threw
        | beginSubmit is accepting => exact Nat.zero_le _
        | drawId => exact Nat.zero_le _
        | _ => simp [Stage.draws]
  · exact Nat.le_refl _

theorem drawn_le_step [ITask Task] {action : Action Task}
    (proper : ∀ call ∈ engine.calls, call.request.Proper) (appends : action.Appends)
    (stepped : engine.step action = some next) : engine.drawn ≤ next.drawn := by
  cases action with
  | invoke request =>
      cases stepped
      simp [State.drawn]
  | worker index env =>
      cases transition_of_step stepped with
      | worker found move => exact Nat.le_refl _
  | call index env =>
      obtain ⟨⟨request, stage⟩, found⟩ : ∃ call, engine.calls[index]? = some call := by
        cases transition_of_step stepped with
        | call found move => exact ⟨_, found⟩
      obtain ⟨shared, moved, called, rfl⟩ := callStep_of_step found stepped
      have draws : Call.draws (⟨request, stage⟩ : Call Task) ≤ Call.draws ⟨request, moved⟩ :=
        draws_le (proper _ (List.mem_of_getElem? found)) appends called
      have counted := total_set Call.draws found ⟨request, moved⟩
      change total Call.draws engine.calls ≤
        total Call.draws (engine.calls.set index ⟨request, moved⟩)
      omega

theorem proper_step [ITask Task] {action : Action Task}
    (proper : ∀ call ∈ engine.calls, call.request.Proper)
    (added : ∀ request, action = .invoke request → request.Proper)
    (stepped : engine.step action = some next) :
    ∀ call ∈ next.calls, call.request.Proper := by
  cases transition_of_step stepped with
  | invoke request => exact forall_mem_concat proper (added request rfl)
  | worker found move => exact proper
  | @call index env call stage shared found move =>
      exact forall_mem_set proper (proper call (List.mem_of_getElem? found))

theorem registered_call {env : Environment} {done : Bool} {request : Request Task}
    {shared : Shared Task} {stage moved : Stage} (ok : RegistryOk engine.registry)
    (move : CallTransition env done request engine.shared stage shared moved) {id : JobId}
    (taken : shared.registry.find id ≠ none) :
    engine.registry.find id ≠ none ∨
      ∃ progress, Call.prepared? (⟨request, stage⟩ : Call Task) = some (id, progress) := by
  have emplaced : ∀ {registry : Registry Task} {new : JobId} {ref : RecordRef},
      (registry.emplace new ref).find id ≠ none → registry.find id ≠ none ∨ id = new := by
    intro registry new ref taken
    by_cases same : id = new
    · exact .inr same
    · unfold Registry.emplace at taken
      split at taken
      · next free =>
          have found := Registry.find_emplace ref free id
          rw [if_neg same] at found
          rw [← found, Registry.emplace, free]
          exact .inl taken
      · exact .inl taken
  cases move with
  | registerSubmission is room =>
      exact (emplaced taken).imp_right fun same => ⟨_, by rw [same]; rfl⟩
  | registerRestore is fresh =>
      exact (emplaced taken).imp_right fun same => ⟨_, by rw [same, is]; rfl⟩
  | cancelPending =>
      left
      rwa [← find_cancelPendingLocked ok env]
  | _ => exact .inl taken

theorem Numbered.advance {env : Environment} {request : Request Task} {stage : Stage}
    {submission : JobSubmissionRecord} {restored : Option RecordRef}
    {current again : Option UInt64} {counter : UInt64}
    (numbered : Numbered unreserved before engine ids)
    (member : ⟨request, stage⟩ ∈ engine.calls) (at' : stage = .advanceJobId restored current)
    (recovered : request.recovered? = some submission)
    (small : before + engine.drawn < Registry.limit)
    (advanced : advanceCounter env.spurious engine.shared.nextJobId (submission.id + 1) current =
      (counter, again)) :
    engine.shared.nextJobId ≤ counter ∧ counter.toNat ≤ before + engine.drawn + 1 ∧
      (again = none → submission.id.toNat < counter.toNat) ∧
      ∀ value, again = some value → value.toNat ≤ submission.id.toNat := by
  subst at'
  have inside : submission.id ∈ ids := by
    have numbers := numbered.requests _ member
    cases request with
    | restore task restored =>
        cases recovered
        exact numbers
    | reserveRecoveredIdentity restored =>
        cases recovered
        exact numbers
    | _ => cases recovered
  have bound := numbered.bounded _ inside
  have desired : (submission.id + 1).toNat = submission.id.toNat + 1 := by
    rw [UInt64.toNat_add]
    refine Nat.mod_eq_of_lt ?_
    change _ + 1 < 2 ^ 64
    simp only [Registry.limit] at small
    omega
  have below : ∀ value, current = some value → value < submission.id + 1 := by
    rintro value rfl
    have placed := (numbered.placed _ member).2 submission recovered
    change value.toNat < (submission.id + 1).toNat
    rw [desired]
    exact Nat.lt_succ_of_le placed
  obtain ⟨grows, reaches, done, goesOn⟩ := advanceCounter_spec below advanced
  refine ⟨grows, ?_, fun ended => ?_, fun value kept => ?_⟩
  · rcases reaches with same | same
    · rw [same]
      exact numbered.counter
    · rw [same, desired]
      omega
  · have above : (submission.id + 1).toNat ≤ counter.toNat := done ended
    omega
  · have less : value.toNat < (submission.id + 1).toNat := goesOn value kept
    omega

theorem Numbered.call {env : Environment} {done : Bool} {index : Nat} {request : Request Task}
    {stage moved : Stage} {shared : Shared Task} {log added : List JournalRecord}
    (journal : JournalSound engine log)
    (numbered : Numbered unreserved before engine (submittedIds log)) (of : stage.Of request)
    (found : engine.calls[index]? = some ⟨request, stage⟩)
    (draws : Call.draws (⟨request, stage⟩ : Call Task) ≤ Call.draws ⟨request, moved⟩)
    (small : before + total Call.draws (engine.calls.set index ⟨request, moved⟩) < Registry.limit)
    (move : CallTransition env done request engine.shared stage shared moved)
    (journaled : shared.registry.journal = some (log ++ added))
    (said : submissions added = [] ∨ Submits request stage moved added) :
    Numbered unreserved before
      { engine with shared, calls := engine.calls.set index ⟨request, moved⟩ }
      (submittedIds (log ++ added)) := by
  have member := List.mem_of_getElem? found
  have counted := total_set Call.draws found ⟨request, moved⟩
  change _ = engine.drawn + _ at counted
  have registered : ∀ id, shared.registry.find id ≠ none →
      engine.registry.find id ≠ none ∨ id ∈ submittedIds log := by
    intro id taken
    refine (registered_call journal.sound.registry move taken).imp_right ?_
    rintro ⟨progress, prepared⟩
    rw [← progressOf_isSome_iff, journal.prepared _ member id progress prepared]
    rfl
  rcases said with transitions | submits
  · have same : submittedIds (log ++ added) = submittedIds log := by
      simp [submittedIds, transitions]
    rw [same]
    have placedBefore := numbered.placed _ member
    have unrecovered : request.recovered? = none →
        Call.Placed engine.shared.nextJobId (submittedIds log)
          (⟨request, .returned⟩ : Call Task) := by
      intro none
      refine ⟨by rintro _ ⟨⟩, fun submission recovered => ?_⟩
      rw [show request.recovered? = some submission from recovered] at none
      cases none
    have stays : shared.nextJobId = engine.shared.nextJobId →
        Call.Placed engine.shared.nextJobId (submittedIds log) (⟨request, moved⟩ : Call Task) →
        (moved.draft? = none ∨ moved.draft? = stage.draft?) →
        Numbered unreserved before
          { engine with shared, calls := engine.calls.set index ⟨request, moved⟩ }
          (submittedIds log) := by
      intro counter placed kept
      refine numbered.moves found ?_ ?_ registered draws ?_ kept
      · rw [counter]
        exact UInt64.le_refl _
      · rw [counter]
        exact numbered.counter
      · rwa [counter]
    cases move with
    | drawId =>
        obtain ⟨task, options, rfl⟩ := of
        simp only [Call.draws, Request.submits, if_true, Stage.draws] at counted
        exact numbered.draw found rfl (by omega)
    | @journalSubmission draft task options spec written is hadLog durable typed appended =>
        rw [show engine.shared.registry.journal = some log from journal.all.journal] at hadLog
        cases hadLog
        rw [Option.some.injEq, List.append_cancel_left_eq] at journaled
        rw [← journaled] at transitions
        cases transitions
    | @advanceJobIdAgain submission restored current counter again recovered advanced =>
        obtain ⟨grows, bound, _, goesOn⟩ := numbered.advance member rfl recovered (by omega) advanced
        refine numbered.moves found grows bound registered draws ⟨by rintro _ ⟨⟩, ?_⟩ (.inl rfl)
        intro other same
        rw [recovered] at same
        cases same
        exact goesOn again rfl
    | @advanceJobId submission restored current counter recovered advanced =>
        obtain ⟨grows, bound, ended, _⟩ := numbered.advance member rfl recovered (by omega) advanced
        refine numbered.moves found grows bound registered draws ⟨by rintro _ ⟨⟩, ?_⟩ (.inl rfl)
        intro other same
        rw [recovered] at same
        cases same
        exact ended rfl
    | drawSequence => exact stays rfl ⟨placedBefore.1, fun _ _ => trivial⟩ (.inr rfl)
    | advanceSequenceAgain recovered advanced =>
        exact stays rfl ⟨by rintro _ ⟨⟩, placedBefore.2⟩ (.inl rfl)
    | advanceSequenceReserved recovered advanced =>
        exact stays rfl ⟨by rintro _ ⟨⟩, placedBefore.2⟩ (.inl rfl)
    | swapScheduler is swapped => exact stays rfl (unrecovered (by rw [is]; rfl)) (.inl rfl)
    | shutdownAgain is free joined => exact stays rfl (unrecovered (by rw [is]; rfl)) (.inl rfl)
    | join finished =>
        obtain ⟨mode, is⟩ := of
        exact stays rfl (unrecovered (by rw [is]; rfl)) (.inl rfl)
    | _ => exact stays rfl ⟨by rintro _ ⟨⟩, fun _ _ => trivial⟩ (.inl rfl)
  · cases submits with
    | mk durable =>
        rw [submittedIds_append]
        refine numbered.journal found rfl ?_ ?_
        · cases move <;> rfl
        · intro id
          cases move <;> rfl

end Steps

end Kronos.Engine
