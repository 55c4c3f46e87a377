import Kronos.Common.Drawn
import Kronos.Common.Traces
import Kronos.Engine.Handles
import Kronos.Engine.Numbering
import Kronos.Engine.RegistryGrowth

/-!
# Identities after a recovery

The ids and sequences of new jobs are drawn from two counters, which a recovery
advances past its history. Both counters are treated alike.
-/

set_option autoImplicit false

namespace Kronos.Engine

open Drawn Threads

variable {Task : Type}

inductive Counter where
  | jobId
  | sequence

namespace Counter

def value (shared : Shared Task) : Counter → UInt64
  | jobId => shared.nextJobId
  | sequence => shared.nextSequence

/-- What a submission holds of the counter. -/
def recorded (submission : JobSubmissionRecord) : Counter → UInt64
  | jobId => submission.id
  | sequence => submission.submissionSequence

/-- A call in this stage draws from the counter. -/
def draws : Counter → Stage → Bool
  | jobId, .drawId => true
  | sequence, .drawSequence _ => true
  | _, _ => false

/-- A call in this stage is in `advance_counter` on the counter, with `current`. -/
def advances? : Counter → Stage → Option (Option UInt64)
  | jobId, .advanceJobId _ current => some current
  | sequence, .advanceSequence _ current => some current
  | _, _ => none

/-- A call in this stage has left `advance_counter` on the counter behind. -/
def passed : Counter → Stage → Bool
  | jobId, .advanceSequence _ _ => true
  | _, .returned => true
  | _, _ => false

/-- What the values drawn after a recovery are to exceed. No job has the id zero. -/
def history (recovered : List JobSubmissionRecord) : Counter → List UInt64
  | jobId => 0 :: recovered.map (·.id)
  | sequence => recovered.map (·.submissionSequence)

theorem recorded_mem_history {recovered : List JobSubmissionRecord}
    {submission : JobSubmissionRecord} (member : submission ∈ recovered) (counter : Counter) :
    counter.recorded submission ∈ counter.history recovered := by
  cases counter with
  | jobId => exact List.mem_cons_of_mem _ (List.mem_map_of_mem member)
  | sequence => exact List.mem_map_of_mem member

/-- What a step of a call does to the counter: it draws, takes a turn of
`advance_counter`, or leaves the counter alone. -/
inductive Moves (counter : Counter) (env : Environment) (request : Request Task)
    (shared : Shared Task) (stage : Stage) (next : Shared Task) (moved : Stage) : Prop
  | draw (draws : counter.draws stage = true) (moves : counter.value next = counter.value shared + 1)
      (unlooped : counter.advances? moved = none) (unpassed : counter.passed moved = false)
  | advance (submission : JobSubmissionRecord) (current again : Option UInt64)
      (recovered : request.recovered? = some submission) (draws : counter.draws stage = false)
      (within : counter.advances? stage = some current)
      (advanced : advanceCounter env.spurious (counter.value shared)
        (counter.recorded submission + 1) current = (counter.value next, again))
      (looped : ∀ value, counter.advances? moved = some (some value) → again = some value)
      (left : counter.passed moved = true → again = none)
  | keep (draws : counter.draws stage = false) (same : counter.value next = counter.value shared)
      (unlooped : ∀ value, counter.advances? moved ≠ some (some value))
      (unpassed : counter.passed moved = true → ∀ submission, request.recovered? = some submission →
        counter.passed stage = true)

theorem moves_of_transition (counter : Counter) {env : Environment} {done : Bool}
    {request : Request Task} {shared next : Shared Task} {stage moved : Stage}
    (of : stage.Of request) (move : CallTransition env done request shared stage next moved) :
    counter.Moves env request shared stage next moved := by
  -- a call of another kind has returned
  have other : request.recovered? = none → counter.draws stage = false →
      counter.value next = counter.value shared → moved = .returned →
      counter.Moves env request shared stage next moved := by
    rintro foreign quiet same rfl
    refine .keep quiet same (fun _ => ?_) fun _ submission recovered => ?_
    · cases counter <;> nofun
    · rw [foreign] at recovered
      cases recovered
  cases move with
  | drawId =>
      cases counter with
      | jobId => exact .draw rfl rfl rfl rfl
      | sequence => exact .keep rfl rfl (fun _ => nofun) nofun
  | drawSequence =>
      cases counter with
      | jobId => exact .keep rfl rfl (fun _ => nofun) nofun
      | sequence => exact .draw rfl rfl rfl rfl
  | advanceJobIdAgain recovered advanced =>
      cases counter with
      | jobId =>
          refine .advance _ _ _ recovered rfl rfl advanced ?_ nofun
          intro value same
          simpa [advances?] using same
      | sequence => exact .keep rfl rfl (fun _ => nofun) nofun
  | advanceJobId recovered advanced =>
      cases counter with
      | jobId => exact .advance _ _ _ recovered rfl rfl advanced (fun _ => nofun) fun _ => rfl
      | sequence => exact .keep rfl rfl (fun _ => nofun) nofun
  | advanceSequenceAgain recovered advanced =>
      cases counter with
      | jobId => exact .keep rfl rfl (fun _ => nofun) fun _ _ _ => rfl
      | sequence =>
          refine .advance _ _ _ recovered rfl rfl advanced ?_ nofun
          intro value same
          simpa [advances?] using same
  | advanceSequenceRestored recovered advanced =>
      cases counter with
      | jobId => exact .keep rfl rfl (fun _ => nofun) nofun
      | sequence => exact .advance _ _ _ recovered rfl rfl advanced (fun _ => nofun) fun _ => rfl
  | advanceSequenceReserved recovered advanced =>
      cases counter with
      | jobId => exact .keep rfl rfl (fun _ => nofun) fun _ _ _ => rfl
      | sequence => exact .advance _ _ _ recovered rfl rfl advanced (fun _ => nofun) fun _ => rfl
  | reject what early =>
      have quiet : counter.draws stage = false := by
        cases counter <;> cases stage <;> first | rfl | cases early
      cases counter <;> exact .keep quiet rfl (fun _ => nofun) nofun
  | swapScheduler is swapped => exact other (by rw [is]; rfl) (by cases counter <;> rfl) (by cases counter <;> rfl) rfl
  | shutdownAgain is free joined => exact other (by rw [is]; rfl) (by cases counter <;> rfl) (by cases counter <;> rfl) rfl
  | join finished =>
      obtain ⟨mode, is⟩ := of
      exact other (by rw [is]; rfl) (by cases counter <;> rfl) (by cases counter <;> rfl) rfl
  | _ => cases counter <;> exact .keep rfl rfl (fun _ => nofun) nofun

/-- The value in hand in `advance_counter` is below the desired one. -/
def Loops (counter : Counter) (call : Call Task) : Prop :=
  ∀ submission value, call.request.recovered? = some submission →
    counter.advances? call.stage = some (some value) → value < counter.recorded submission + 1

theorem Loops.step {counter : Counter} {env : Environment} {request : Request Task}
    {shared next : Shared Task} {stage moved : Stage} (loops : counter.Loops ⟨request, stage⟩)
    (moves : counter.Moves env request shared stage next moved) :
    counter.Loops ⟨request, moved⟩ := by
  intro submission value recovered looped
  cases moves with
  | draw draws same unlooped unpassed =>
      rw [unlooped] at looped
      cases looped
  | advance target current again is draws within advanced looping left =>
      rw [is] at recovered
      cases recovered
      have below : ∀ value, current = some value → value < counter.recorded submission + 1 :=
        fun value same => loops submission value is (by rw [within, same])
      exact (advanceCounter_spec below advanced).2.2.2 value (looping value looped)
  | keep draws same unlooped unpassed => exact absurd looped (unlooped value)

/-- Draws apart, the counter grows, and only to where a recovered identity asks for. -/
theorem Moves.grows {counter : Counter} {env : Environment} {request : Request Task}
    {shared next : Shared Task} {stage moved : Stage} (loops : counter.Loops ⟨request, stage⟩)
    (moves : counter.Moves env request shared stage next moved)
    (quiet : counter.draws stage = false) :
    counter.value shared ≤ counter.value next ∧
      (counter.value next = counter.value shared ∨
        ∃ submission, request.recovered? = some submission ∧
          counter.value next = counter.recorded submission + 1) := by
  cases moves with
  | draw draws same unlooped unpassed =>
      rw [quiet] at draws
      cases draws
  | advance submission current again is draws within advanced looping left =>
      have below : ∀ value, current = some value → value < counter.recorded submission + 1 :=
        fun value same => loops submission value is (by rw [within, same])
      obtain ⟨grows, reaches, _⟩ := advanceCounter_spec below advanced
      exact ⟨grows, reaches.imp_right fun same => ⟨submission, is, same⟩⟩
  | keep draws same unlooped unpassed => exact ⟨by rw [same]; exact UInt64.le_refl _, .inl same⟩

/-- Whoever has left `advance_counter` behind leaves the counter past its identity. -/
theorem Moves.passed {counter : Counter} {env : Environment} {request : Request Task}
    {shared next : Shared Task} {stage moved : Stage} {submission : JobSubmissionRecord}
    (loops : counter.Loops ⟨request, stage⟩)
    (moves : counter.Moves env request shared stage next moved)
    (is : request.recovered? = some submission)
    (before : counter.passed stage = true → counter.recorded submission + 1 ≤ counter.value shared)
    (passed : counter.passed moved = true) :
    counter.recorded submission + 1 ≤ counter.value next := by
  cases moves with
  | draw draws same unlooped unpassed =>
      rw [unpassed] at passed
      cases passed
  | advance target current again recovered draws within advanced looping left =>
      rw [is] at recovered
      cases recovered
      have below : ∀ value, current = some value → value < counter.recorded submission + 1 :=
        fun value same => loops submission value is (by rw [within, same])
      exact (advanceCounter_spec below advanced).2.2.1 (left passed)
  | keep draws same unlooped unpassed =>
      rw [same]
      exact before (unpassed passed submission is)

theorem value_worker [ITask Task] (counter : Counter) {env : Environment} {shared next : Shared Task}
    {worker moved : Worker} (move : WorkerTransition env shared worker next moved) :
    counter.value next = counter.value shared := by
  cases move <;> cases counter <;> rfl

theorem draws_eq_false {request : Request Task} {stage : Stage} (counter : Counter)
    (of : stage.Of request) (other : request.submits = false) : counter.draws stage = false := by
  cases counter <;> cases stage <;> first
    | rfl
    | (obtain ⟨task, options, rfl⟩ := of
       cases other)

end Counter

/-! ## The recovery -/

/-- Identities are restored or reserved for submissions of the history only. -/
def Request.OfHistory (recovered : List JobSubmissionRecord) : Request Task → Prop
  | .restore _ submission => submission ∈ recovered
  | .reserveRecoveredIdentity submission => submission ∈ recovered
  | _ => True

theorem Request.OfHistory.mem {recovered : List JobSubmissionRecord} {request : Request Task}
    {submission : JobSubmissionRecord} (of : request.OfHistory recovered)
    (is : request.recovered? = some submission) : submission ∈ recovered := by
  cases request with
  | restore task target =>
      cases is
      exact of
  | reserveRecoveredIdentity target =>
      cases is
      exact of
  | _ => cases is

instance (recovered : List JobSubmissionRecord) (request : Request Task) :
    Decidable (request.OfHistory recovered) :=
  match request with
  | .restore _ submission => inferInstanceAs (Decidable (submission ∈ recovered))
  | .reserveRecoveredIdentity submission => inferInstanceAs (Decidable (submission ∈ recovered))
  | .submit _ _ => isTrue trivial
  | .cancel _ => isTrue trivial
  | .setScheduler _ => isTrue trivial
  | .shutdown _ => isTrue trivial

/-- The steps of a recovery: nothing is submitted yet. -/
def Recovers (recovered : List JobSubmissionRecord) (_ : State Task) : Action Task → Prop
  | .invoke request => request.OfHistory recovered ∧ request.submits = false
  | _ => True

instance (recovered : List JobSubmissionRecord) (engine : State Task) :
    DecidablePred (Recovers recovered engine)
  | .invoke request =>
      inferInstanceAs (Decidable (request.OfHistory recovered ∧ request.submits = false))
  | .worker _ _ => isTrue trivial
  | .call _ _ => isTrue trivial

structure Recovering (recovered : List JobSubmissionRecord) (engine : State Task) : Prop where
  staged : Staged engine
  requests : ∀ call ∈ engine.calls,
    call.request.OfHistory recovered ∧ call.request.submits = false
  loops : ∀ (counter : Counter), ∀ call ∈ engine.calls, counter.Loops call
  passed : ∀ (counter : Counter), ∀ call ∈ engine.calls, ∀ submission,
    call.request.recovered? = some submission → counter.passed call.stage = true →
    counter.recorded submission + 1 ≤ counter.value engine.shared
  positive : 1 ≤ engine.shared.nextJobId
  reached : ∀ (counter : Counter), counter.value engine.shared = 0 ∨
    ∃ past ∈ counter.history recovered, (counter.value engine.shared).toNat = past.toNat + 1

section Recovery

variable {recovered : List JobSubmissionRecord} {engine : State Task}

theorem Starts.recovering (started : Starts engine) : Recovering recovered engine := by
  obtain ⟨config, queue, requested, detected, journal, made, rfl⟩ := started
  have nobody : ∀ call, call ∉ (State.make queue requested detected journal : State Task).calls :=
    fun call member => absurd member List.not_mem_nil
  refine ⟨fun call member => absurd member (nobody call), fun call member => absurd member (nobody call),
    fun _ call member => absurd member (nobody call), fun _ call member => absurd member (nobody call),
    UInt64.le_refl _, ?_⟩
  intro counter
  cases counter with
  | jobId => exact .inr ⟨0, List.mem_cons_self, rfl⟩
  | sequence => exact .inl rfl

theorem toNat_succ {past : UInt64} (positive : past + 1 ≠ 0) :
    (past + 1).toNat = past.toNat + 1 := by
  have wraps : (past + 1).toNat = (past.toNat + 1) % 2 ^ 64 := UInt64.toNat_add past 1
  have nonzero : (past + 1).toNat ≠ 0 := fun zero => positive (UInt64.toNat_inj.mp zero)
  have small := past.toNat_lt
  omega

theorem Recovering.step [ITask Task] {next : State Task} {action : Action Task}
    (recovering : Recovering recovered engine) (admitted : Recovers recovered engine action)
    (stepped : engine.step action = some next) : Recovering recovered next := by
  have staged := recovering.staged.step stepped
  cases transition_of_step stepped with
  | invoke request =>
      refine ⟨staged, ?_, ?_, ?_, recovering.positive, recovering.reached⟩
      · intro call member
        rcases List.mem_append.mp member with old | added
        · exact recovering.requests call old
        · rw [List.mem_singleton.mp added]
          exact admitted
      · intro counter call member
        rcases List.mem_append.mp member with old | added
        · exact recovering.loops counter call old
        · rw [List.mem_singleton.mp added]
          intro submission value _ looped
          cases counter <;> cases looped
      · intro counter call member submission is passed
        rcases List.mem_append.mp member with old | added
        · exact recovering.passed counter call old submission is passed
        · rw [List.mem_singleton.mp added] at passed
          cases counter <;> cases passed
  | worker found move =>
      refine ⟨staged, recovering.requests, recovering.loops, ?_, ?_, ?_⟩
      · intro counter call member submission is passed
        rw [counter.value_worker move]
        exact recovering.passed counter call member submission is passed
      · exact le_of_le_of_eq recovering.positive (Counter.jobId.value_worker move).symm
      · intro counter
        rw [counter.value_worker move]
        exact recovering.reached counter
  | @call index env call stage shared found move =>
      have member := List.mem_of_getElem? found
      have of := recovering.staged call member
      obtain ⟨ofHistory, other⟩ := recovering.requests call member
      have moves := fun counter : Counter => counter.moves_of_transition of move
      have grows := fun counter : Counter => (moves counter).grows
        (recovering.loops counter call member) (counter.draws_eq_false of other)
      refine ⟨staged, ?_, ?_, ?_, ?_, ?_⟩
      · exact forall_mem_set recovering.requests ⟨ofHistory, other⟩
      · intro counter
        exact forall_mem_set (recovering.loops counter)
          ((recovering.loops counter call member).step (moves counter))
      · intro counter
        refine forall_mem_set ?_ ?_
        · intro old inside submission is passed
          exact UInt64.le_trans (recovering.passed counter old inside submission is passed)
            (grows counter).1
        · intro submission is passed
          exact (moves counter).passed (recovering.loops counter call member) is
            (recovering.passed counter call member submission is) passed
      · exact UInt64.le_trans recovering.positive (grows .jobId).1
      · intro counter
        rcases (grows counter).2 with same | ⟨submission, is, same⟩
        · change counter.value shared = 0 ∨ _
          rw [same]
          exact recovering.reached counter
        · by_cases zero : counter.recorded submission + 1 = 0
          · exact .inl (same.trans zero)
          · refine .inr ⟨_, counter.recorded_mem_history (ofHistory.mem is), ?_⟩
            change (counter.value shared).toNat = _
            rw [same, toNat_succ zero]

theorem Recovering.of_reaches [ITask Task] {start : State Task} (started : Starts start)
    (reached : Reaches State.step (Recovers recovered) start engine) : Recovering recovered engine :=
  reached.invariant (Recovering recovered) started.recovering fun _ _ _ holds admitted stepped =>
    holds.step admitted stepped

/-- The identities of the whole history were reserved. -/
def Reserved (recovered : List JobSubmissionRecord) (engine : State Task) : Prop :=
  ∀ submission ∈ recovered, ⟨.reserveRecoveredIdentity submission, .returned⟩ ∈ engine.calls

/-- The counters stand past the history, where it does not end at the largest value. -/
theorem Recovering.past (recovering : Recovering recovered engine)
    (reserved : Reserved recovered engine) (counter : Counter) :
    ∀ past ∈ counter.history recovered, past + 1 ≤ counter.value engine.shared := by
  have passed : ∀ submission ∈ recovered,
      counter.recorded submission + 1 ≤ counter.value engine.shared := by
    intro submission member
    refine recovering.passed counter _ (reserved submission member) submission rfl ?_
    cases counter <;> rfl
  intro past member
  cases counter with
  | jobId =>
      rcases List.mem_cons.mp member with rfl | recorded
      · exact recovering.positive
      · obtain ⟨submission, inside, rfl⟩ := List.mem_map.mp recorded
        exact passed submission inside
  | sequence =>
      obtain ⟨submission, inside, rfl⟩ := List.mem_map.mp member
      exact passed submission inside

end Recovery

/-! ## The values drawn afterwards -/

/-- The value a step draws from the counter. -/
def Counter.drawn? (counter : Counter) (taken : Taken (State Task) (Action Task)) : Option UInt64 :=
  match taken.action with
  | .call index _ =>
      match taken.before.calls[index]? with
      | none => none
      | some call => if counter.draws call.stage then some (counter.value taken.before.shared) else none
  | _ => none

/-- All values drawn in a run, in order. -/
def Counter.drawn (counter : Counter) (trace : List (Taken (State Task) (Action Task))) :
    List UInt64 :=
  trace.filterMap counter.drawn?

theorem Counter.drawn_append (counter : Counter) (trace : List (Taken (State Task) (Action Task)))
    (last : Taken (State Task) (Action Task)) :
    counter.drawn (trace ++ [last]) = counter.drawn trace ++ (counter.drawn? last).toList := by
  rw [drawn, List.filterMap_append]
  cases same : counter.drawn? last <;> simp [drawn, same]

/-- What a step of the trace adds to the values drawn. -/
theorem Counter.drawn_append_call (counter : Counter)
    {trace : List (Taken (State Task) (Action Task))} {before after : State Task} {index : Nat}
    {env : Environment} {call : Call Task} (found : before.calls[index]? = some call) :
    counter.drawn (trace ++ [⟨before, .call index env, after⟩]) =
      counter.drawn trace ++ if counter.draws call.stage then [counter.value before.shared] else [] := by
  rw [counter.drawn_append]
  simp only [Counter.drawn?, found]
  split <;> rfl

theorem Counter.drawn_subset (counter : Counter) (trace : List (Taken (State Task) (Action Task)))
    (last : Taken (State Task) (Action Task)) :
    counter.drawn trace ⊆ counter.drawn (trace ++ [last]) := by
  rw [counter.drawn_append]
  exact List.subset_append_left _ _

/-- A step of a run that follows a recovery: jobs are submitted, and no identity
is restored or reserved that was not recovered. -/
def Continues (recovered : List JobSubmissionRecord) : Action Task → Prop
  | .invoke request => request.OfHistory recovered
  | _ => True

/-- A run that goes on from a state, with what it has drawn. -/
structure Serving (recovered : List JobSubmissionRecord) (ready : State Task)
    (trace : List (Taken (State Task) (Action Task))) (engine : State Task) : Prop where
  staged : Staged engine
  requests : ∀ call ∈ engine.calls, call.request.OfHistory recovered
  loops : ∀ (counter : Counter), ∀ call ∈ engine.calls, counter.Loops call
  counts : ∀ (counter : Counter),
    Counts (counter.value ready.shared) (counter.drawn trace) (counter.value engine.shared)

section Service

variable {recovered : List JobSubmissionRecord} {ready engine : State Task}
  {trace : List (Taken (State Task) (Action Task))}

theorem Recovering.serving (recovering : Recovering recovered ready) :
    Serving recovered ready [] ready :=
  ⟨recovering.staged, fun call member => (recovering.requests call member).1, recovering.loops,
    fun _ => .nil _⟩

theorem Counter.drawn_append_other (counter : Counter)
    {trace : List (Taken (State Task) (Action Task))} {before after : State Task}
    {action : Action Task} (other : ∀ index env, action ≠ .call index env) :
    counter.drawn (trace ++ [⟨before, action, after⟩]) = counter.drawn trace := by
  have none : counter.drawn? ⟨before, action, after⟩ = none := by
    cases action with
    | call index env => exact absurd rfl (other index env)
    | _ => rfl
  rw [counter.drawn_append, none, Option.toList_none, List.append_nil]

/-- A turn of `advance_counter` for an identity that was reserved changes nothing. -/
theorem Counter.Moves.eq_of_past {counter : Counter} {env : Environment} {request : Request Task}
    {shared next : Shared Task} {stage moved : Stage}
    (moves : counter.Moves env request shared stage next moved)
    (loops : counter.Loops ⟨request, stage⟩) (quiet : counter.draws stage = false)
    (past : ∀ submission, request.recovered? = some submission →
      counter.recorded submission + 1 ≤ counter.value shared) :
    counter.value next = counter.value shared := by
  obtain ⟨grows, same | ⟨submission, is, set⟩⟩ := moves.grows loops quiet
  · exact same
  · refine UInt64.le_antisymm ?_ grows
    rw [set]
    exact past submission is

theorem Serving.step [ITask Task] {next : State Task} {action : Action Task}
    (serving : Serving recovered ready trace engine)
    (past : ∀ (counter : Counter), ∀ old ∈ counter.history recovered,
      old + 1 ≤ counter.value ready.shared)
    (continues : Continues recovered action) (stepped : engine.step action = some next) :
    Serving recovered ready (trace ++ [⟨engine, action, next⟩]) next := by
  have staged := serving.staged.step stepped
  cases transition_of_step stepped with
  | invoke request =>
      refine ⟨staged, ?_, ?_, ?_⟩
      · intro call member
        rcases List.mem_append.mp member with old | added
        · exact serving.requests call old
        · rw [List.mem_singleton.mp added]
          exact continues
      · intro counter call member
        rcases List.mem_append.mp member with old | added
        · exact serving.loops counter call old
        · rw [List.mem_singleton.mp added]
          intro submission value _ looped
          cases counter <;> cases looped
      · intro counter
        rw [counter.drawn_append_other (fun _ _ is => by cases is)]
        exact serving.counts counter
  | worker found move =>
      refine ⟨staged, serving.requests, serving.loops, ?_⟩
      intro counter
      rw [counter.drawn_append_other (fun _ _ is => by cases is)]
      exact (serving.counts counter).keep fun _ => counter.value_worker move
  | @call index env call stage shared found move =>
      have member := List.mem_of_getElem? found
      have of := serving.staged call member
      refine ⟨staged, forall_mem_set serving.requests (serving.requests call member), ?_, ?_⟩
      · intro counter
        exact forall_mem_set (serving.loops counter)
          ((serving.loops counter call member).step (counter.moves_of_transition of move))
      · intro counter
        have moves := counter.moves_of_transition of move
        rw [counter.drawn_append_call found]
        cases draws : counter.draws call.stage with
        | true =>
            cases moves with
            | draw _ moves _ _ =>
                rw [if_pos rfl]
                change Counts _ _ (counter.value shared)
                rw [moves]
                exact (serving.counts counter).draw
            | advance _ _ _ _ quiet => exact absurd draws (by simp [quiet])
            | keep quiet => exact absurd draws (by simp [quiet])
        | false =>
            rw [if_neg Bool.false_ne_true, List.append_nil]
            refine (serving.counts counter).keep fun room => ?_
            have value := (serving.counts counter).value room
            refine moves.eq_of_past (serving.loops counter call member) draws ?_
            intro submission is
            have inside := (serving.requests call member).mem is
            refine UInt64.le_trans (past counter _ (counter.recorded_mem_history inside)) ?_
            rw [UInt64.le_iff_toNat_le]
            omega

theorem Serving.of_traces [ITask Task] (recovering : Recovering recovered ready)
    (reserved : Reserved recovered ready) (traced : Traces State.step ready trace engine)
    (continues : ∀ taken ∈ trace, Continues recovered taken.action) :
    Serving recovered ready trace engine := by
  induction traced with
  | refl => exact recovering.serving
  | tail action _ stepped ih =>
      obtain ⟨old, last⟩ := List.forall_mem_append.mp continues
      exact (ih old).step (recovering.past reserved) (last _ List.mem_cons_self) stepped

end Service

/-! ## The identities submissions use -/

/-- A submission in this stage goes by this id and this sequence. -/
def Stage.Names (heap : List (JobRecord Task)) (id : JobId) (sequence : UInt64) : Stage → Prop
  | .journalSubmission draft => draft.id = id ∧ draft.sequence = sequence
  | .registerSubmission draft => draft.id = id ∧ draft.sequence = sequence
  | .push entry _ => entry.id = id ∧ entry.submissionSequence = sequence
  | .raced entry _ => entry.id = id ∧ entry.submissionSequence = sequence
  | .returnedHandle handle ref =>
      handle = id ∧ ∃ record, heap[ref]? = some record ∧ record.entry.submissionSequence = sequence
  | _ => False

/-- The call is a submission and goes by this id and this sequence. -/
def State.Uses (engine : State Task) (index : Nat) (id : JobId) (sequence : UInt64) : Prop :=
  ∃ task options stage, engine.calls[index]? = some ⟨.submit task options, stage⟩ ∧
    stage.Names engine.shared.registry.heap id sequence

/-- What a submission in this stage has drawn is among these ids and sequences. -/
def Stage.Drew (heap : List (JobRecord Task)) (ids sequences : List UInt64) : Stage → Prop
  | .drawSequence id => id ∈ ids
  | .journalSubmission draft => draft.id ∈ ids ∧ draft.sequence ∈ sequences
  | .registerSubmission draft => draft.id ∈ ids ∧ draft.sequence ∈ sequences
  | .push entry ref => entry.id ∈ ids ∧ entry.submissionSequence ∈ sequences ∧
      ∃ record, heap[ref]? = some record ∧ record.entry = entry
  | .raced entry ref => entry.id ∈ ids ∧ entry.submissionSequence ∈ sequences ∧
      ∃ record, heap[ref]? = some record ∧ record.entry = entry
  | .returnedHandle handle ref => handle ∈ ids ∧
      ∃ record, heap[ref]? = some record ∧ record.entry.submissionSequence ∈ sequences
  | _ => True

section Uses

variable {heap later : List (JobRecord Task)} {ids sequences ids' sequences' : List UInt64}

theorem Stage.Drew.names {stage : Stage} (drew : stage.Drew heap ids sequences) {id : JobId}
    {sequence : UInt64} (names : stage.Names heap id sequence) : id ∈ ids ∧ sequence ∈ sequences := by
  cases stage with
  | journalSubmission draft =>
      obtain ⟨rfl, rfl⟩ := names
      exact drew
  | registerSubmission draft =>
      obtain ⟨rfl, rfl⟩ := names
      exact drew
  | push entry ref =>
      obtain ⟨rfl, rfl⟩ := names
      exact ⟨drew.1, drew.2.1⟩
  | raced entry ref =>
      obtain ⟨rfl, rfl⟩ := names
      exact ⟨drew.1, drew.2.1⟩
  | returnedHandle handle ref =>
      obtain ⟨rfl, record, read, rfl⟩ := names
      obtain ⟨drewId, stored, readStored, drewSequence⟩ := drew
      rw [read] at readStored
      cases readStored
      exact ⟨drewId, drewSequence⟩
  | _ => cases names

theorem Stage.Drew.mono {stage : Stage} (drew : stage.Drew heap ids sequences)
    (kept : ∀ (ref : RecordRef) (record : JobRecord Task), heap[ref]? = some record →
      ∃ after, later[ref]? = some after ∧ after.entry = record.entry)
    (moreIds : ids ⊆ ids') (moreSequences : sequences ⊆ sequences') :
    stage.Drew later ids' sequences' := by
  cases stage with
  | drawSequence id => exact moreIds drew
  | journalSubmission draft => exact ⟨moreIds drew.1, moreSequences drew.2⟩
  | registerSubmission draft => exact ⟨moreIds drew.1, moreSequences drew.2⟩
  | push entry ref =>
      obtain ⟨drewId, drewSequence, record, read, same⟩ := drew
      obtain ⟨after, readAfter, sameAfter⟩ := kept ref record read
      exact ⟨moreIds drewId, moreSequences drewSequence, after, readAfter, sameAfter.trans same⟩
  | raced entry ref =>
      obtain ⟨drewId, drewSequence, record, read, same⟩ := drew
      obtain ⟨after, readAfter, sameAfter⟩ := kept ref record read
      exact ⟨moreIds drewId, moreSequences drewSequence, after, readAfter, sameAfter.trans same⟩
  | returnedHandle handle ref =>
      obtain ⟨drewId, record, read, drewSequence⟩ := drew
      obtain ⟨after, readAfter, sameAfter⟩ := kept ref record read
      exact ⟨moreIds drewId, after, readAfter, by rw [sameAfter]; exact moreSequences drewSequence⟩
  | _ => trivial

theorem Stage.Drew.step {env : Environment} {done : Bool} {task : Option Task}
    {options : SubmissionOptions} {shared next : Shared Task} {stage moved : Stage}
    (drew : stage.Drew shared.registry.heap ids sequences)
    (move : CallTransition env done (.submit task options) shared stage next moved) :
    moved.Drew next.registry.heap
      (ids ++ if Counter.jobId.draws stage then [shared.nextJobId] else [])
      (sequences ++ if Counter.sequence.draws stage then [shared.nextSequence] else []) := by
  have extended := extends_call move
  cases move with
  | drawId => exact List.mem_append_right _ (List.mem_singleton.mpr rfl)
  | drawSequence =>
      exact ⟨List.mem_append_left _ drew, List.mem_append_right _ (List.mem_singleton.mpr rfl)⟩
  | unjournaledSubmission unjournaled =>
      exact ⟨List.mem_append_left _ drew.1, List.mem_append_left _ drew.2⟩
  | journalSubmission is journaled durable typed appended =>
      exact ⟨List.mem_append_left _ drew.1, List.mem_append_left _ drew.2⟩
  | @registerSubmission draft job given is room =>
      refine ⟨List.mem_append_left _ drew.1, List.mem_append_left _ drew.2,
        submittedRecord job given draft, ?_, rfl⟩
      rw [Registry.heap_emplace]
      exact List.getElem?_concat_length
  | push accepted =>
      obtain ⟨drewId, drewSequence, record, read, rfl⟩ := drew
      exact ⟨List.mem_append_left _ drewId, record, read, List.mem_append_left _ drewSequence⟩
  | refuse refused =>
      obtain ⟨drewId, drewSequence, held⟩ := drew
      exact ⟨List.mem_append_left _ drewId, List.mem_append_left _ drewSequence, held⟩
  | @raced entry ref locked read =>
      obtain ⟨drewId, drewSequence, record, readRecord, rfl⟩ := drew
      obtain ⟨after, readAfter, same⟩ := extended.heap ref record readRecord
      refine ⟨List.mem_append_left _ drewId, after, readAfter, ?_⟩
      rw [same]
      exact List.mem_append_left _ drewSequence
  | advanceSequenceRestored recovered advanced => cases recovered
  | _ => trivial

theorem uses_drawn [ITask Task] {ready engine : State Task}
    {trace : List (Taken (State Task) (Action Task))}
    (traced : Traces State.step ready trace engine) {index : Nat} {id : JobId} {sequence : UInt64}
    (made : ready.calls.length ≤ index) (uses : engine.Uses index id sequence) :
    id ∈ Counter.jobId.drawn trace ∧ sequence ∈ Counter.sequence.drawn trace := by
  have drew : ∀ task options stage, engine.calls[index]? = some ⟨.submit task options, stage⟩ →
      stage.Drew engine.shared.registry.heap (Counter.jobId.drawn trace)
        (Counter.sequence.drawn trace) := by
    refine traced.invariant (fun trace state => ∀ task options stage,
      state.calls[index]? = some ⟨.submit task options, stage⟩ →
        stage.Drew state.shared.registry.heap (Counter.jobId.drawn trace)
          (Counter.sequence.drawn trace)) ?_ ?_
    · intro task options stage called
      exact absurd (List.getElem?_eq_some_iff.mp called).1 (Nat.not_lt.mpr made)
    · intro trace state action next ih stepped task options stage called
      have extended := extends_step stepped
      have kept : state.calls[index]? = some ⟨.submit task options, stage⟩ →
          stage.Drew next.shared.registry.heap
            (Counter.jobId.drawn (trace ++ [⟨state, action, next⟩]))
            (Counter.sequence.drawn (trace ++ [⟨state, action, next⟩])) := fun old =>
        (ih task options stage old).mono extended.heap (Counter.jobId.drawn_subset _ _)
          (Counter.sequence.drawn_subset _ _)
      cases transition_of_step stepped with
      | invoke request =>
          by_cases old : index < state.calls.length
          · exact kept ((List.getElem?_append_left old).symm.trans called)
          · rw [List.getElem?_append_right (Nat.not_lt.mp old)] at called
            cases List.mem_singleton.mp (List.mem_of_getElem? called)
            trivial
      | worker found move => exact kept called
      | @call moving env call moved shared found move =>
          by_cases same : moving = index
          · subst same
            have bound := (List.getElem?_eq_some_iff.mp found).1
            obtain ⟨request, before⟩ := call
            rw [List.getElem?_set_self bound] at called
            cases called
            rw [Counter.drawn_append_call _ found, Counter.drawn_append_call _ found]
            exact (ih task options before found).step move
          · exact kept ((List.getElem?_set_ne same).symm.trans called)
  obtain ⟨task, options, stage, called, names⟩ := uses
  exact (drew task options stage called).names names

end Uses

/-- The values drawn in a run exceed the history and one another. -/
def IdentitiesFollow (recovered : List JobSubmissionRecord)
    (trace : List (Taken (State Task) (Action Task))) : Prop :=
  ∀ counter : Counter, Follows (counter.history recovered) (counter.drawn trace)

/-- As many values as the run draws are left above the history. -/
def IdentityRoom (recovered : List JobSubmissionRecord)
    (trace : List (Taken (State Task) (Action Task))) : Prop :=
  ∀ counter : Counter, Room (counter.history recovered) (counter.drawn trace).length

/-- After a recovery that has reserved the identities of its history, what is drawn
follows the history exactly as long as there is room above it. Every submission
then has an identity that exceeds the history and the identities of all submissions
that had theirs when it was made. -/
theorem identities_follow_iff_room [ITask Task] (recovered : List JobSubmissionRecord)
    (start ready later : State Task) (trace : List (Taken (State Task) (Action Task)))
    (started : Starts start) (reached : Reaches State.step (Recovers recovered) start ready)
    (reserved : Reserved recovered ready) (traced : Traces State.step ready trace later)
    (continues : ∀ taken ∈ trace, Continues recovered taken.action) :
    (IdentitiesFollow recovered trace ↔ IdentityRoom recovered trace) ∧
    (IdentityRoom recovered trace →
      (∀ index id sequence, ready.calls.length ≤ index → later.Uses index id sequence →
        id ≠ 0 ∧ ∀ submission ∈ recovered,
          submission.id < id ∧ submission.submissionSequence < sequence) ∧
      ∀ first second middle, trace = first ++ second → Traces State.step ready first middle →
        Traces State.step middle second later →
        ∀ index id sequence other otherId otherSequence, ready.calls.length ≤ index →
          middle.Uses index id sequence → middle.calls.length ≤ other →
          later.Uses other otherId otherSequence → id < otherId ∧ sequence < otherSequence) := by
  have recovering := Recovering.of_reaches started reached
  have serving := Serving.of_traces recovering reserved traced continues
  have same : IdentitiesFollow recovered trace ↔ IdentityRoom recovered trace :=
    forall_congr' fun counter => (serving.counts counter).follows_iff
      (recovering.past reserved counter) (recovering.reached counter)
  refine ⟨same, fun room => ?_⟩
  have follow := same.mpr room
  refine ⟨?_, ?_⟩
  · intro index id sequence made uses
    obtain ⟨drewId, drewSequence⟩ := uses_drawn traced made uses
    refine ⟨?_, ?_⟩
    · have positive := (follow .jobId).1 id drewId 0 List.mem_cons_self
      rintro rfl
      exact absurd positive (UInt64.lt_irrefl 0)
    · intro submission member
      exact ⟨(follow .jobId).1 id drewId _ (Counter.jobId.recorded_mem_history member),
        (follow .sequence).1 sequence drewSequence _ (Counter.sequence.recorded_mem_history member)⟩
  · rintro first second middle rfl before after index id sequence other otherId otherSequence made
      uses madeLater usesLater
    obtain ⟨drewId, drewSequence⟩ := uses_drawn before made uses
    obtain ⟨laterId, laterSequence⟩ := uses_drawn after madeLater usesLater
    have ordered : ∀ counter : Counter, ∀ left ∈ counter.drawn first, ∀ right ∈ counter.drawn second,
        left < right := by
      intro counter
      have pairwise := (follow counter).2
      rw [Counter.drawn, List.filterMap_append] at pairwise
      exact (List.pairwise_append.mp pairwise).2.2
    exact ⟨ordered .jobId id drewId otherId laterId,
      ordered .sequence sequence drewSequence otherSequence laterSequence⟩

/-! ## A history that ends at the largest id -/

/-- A job with the largest id there is. -/
def lastSubmission : JobSubmissionRecord :=
  ⟨0xFFFFFFFFFFFFFFFF, 0, text "step-3", 0, 3, ⟨text "step", text "3,0"⟩⟩

private theorem last_ran :
    (runAll State.step (Recovers [lastSubmission]) sampleStart
      (.invoke (.reserveRecoveredIdentity lastSubmission) ::
        List.replicate 4 (.call 0 {}))).isSome = true := by
  decide +kernel

/-- Its identity was reserved. -/
def lastReserved : State BuiltinTask := Option.get _ last_ran

private theorem reused_ran :
    (runAll State.step AnyStep lastReserved
      (.invoke (.submit (some sampleTask) sampleOptions) ::
        List.replicate 6 (.call 1 {}))).isSome = true := by
  decide +kernel

/-- A job was submitted after that. -/
def reusedState : State BuiltinTask := Option.get _ reused_ran

/-- The submission has the id one, not one above the history. -/
theorem submission_below_last_id :
    Starts sampleStart ∧
      Reaches State.step (Recovers [lastSubmission]) sampleStart lastReserved ∧
      Reserved [lastSubmission] lastReserved ∧
      Reaches State.step AnyStep lastReserved reusedState ∧
      reusedState.calls[1]? =
        some ⟨.submit (some sampleTask) sampleOptions, .returnedHandle 1 0⟩ ∧
      ¬ lastSubmission.id < 1 := by
  refine ⟨sampleStart_starts, reaches_of_runAll (Option.some_get last_ran).symm, ?_,
    reaches_of_runAll (Option.some_get reused_ran).symm, by decide +kernel, by decide +kernel⟩
  intro submission member
  rw [List.mem_singleton.mp member]
  decide +kernel

private theorem first_ran :
    (runAll State.step (Recovers [restoredSubmission]) sampleStart
      (.invoke (.reserveRecoveredIdentity restoredSubmission) ::
        List.replicate 5 (.call 0 {}))).isSome = true := by
  decide +kernel

/-- The identity of the first job was reserved. -/
def firstReserved : State BuiltinTask := Option.get _ first_ran

private theorem second_ran :
    (traceAll State.step firstReserved (.invoke (.submit (some sampleTask) sampleOptions) ::
      List.replicate 6 (.call 1 {}))).isSome = true := by
  decide +kernel

/-- Another job is submitted. -/
def secondRun : List (Taken (State BuiltinTask) (Action BuiltinTask)) × State BuiltinTask :=
  Option.get _ second_ran

theorem secondRun_follows :
    IdentitiesFollow [restoredSubmission] secondRun.1 ∧
      secondRun.2.calls[1]? =
        some ⟨.submit (some sampleTask) sampleOptions, .returnedHandle 2 0⟩ := by
  have ran : traceAll State.step firstReserved (.invoke (.submit (some sampleTask) sampleOptions) ::
      List.replicate 6 (.call 1 {})) = some (secondRun.1, secondRun.2) :=
    (Option.some_get second_ran).symm
  have reserved : Reserved [restoredSubmission] firstReserved := by
    intro submission member
    rw [List.mem_singleton.mp member]
    decide +kernel
  have continues : ∀ taken ∈ secondRun.1, Continues [restoredSubmission] taken.action := by
    intro taken member
    have is : taken.action ∈ secondRun.1.map (·.action) := List.mem_map_of_mem member
    rw [actions_of_traceAll ran] at is
    rcases List.mem_cons.mp is with made | moved
    · rw [made]
      trivial
    · rw [List.eq_of_mem_replicate moved]
      trivial
  refine ⟨(identities_follow_iff_room [restoredSubmission] sampleStart firstReserved secondRun.2
    secondRun.1 sampleStart_starts (reaches_of_runAll (Option.some_get first_ran).symm) reserved
    (traces_of_traceAll ran) continues).1.mpr ?_, by decide +kernel⟩
  intro counter
  cases counter with
  | jobId => decide +kernel
  | sequence => decide +kernel

end Kronos.Engine
