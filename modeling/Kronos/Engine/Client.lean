import Kronos.Engine.Shutdown

/-!
# One client

A client submits a list of jobs, one after the other, and shuts the engine down
after the last one. The scheduler may be changed at any time, nothing is
cancelled and no append fails. Then the jobs get the ids 1, 2, 3, .. in order.
-/

set_option autoImplicit false

namespace Kronos.Engine

open Threads

variable {Task : Type}

structure Job (Task : Type) where
  task : Task
  options : SubmissionOptions
  deriving DecidableEq

/-- A submission of the job is not rejected, with or without a journal. -/
structure Job.Acceptable (job : Job Task) : Prop where
  estimate : job.options.estimatedWorkUnits ≠ 0
  spec : ∃ spec, job.options.durableSpec = some spec ∧ spec.type ≠ []

/-- The submissions called so far. -/
def State.submitted (engine : State Task) : Nat := engine.calls.countP fun call => call.request.submits

/-- Every submission has returned or thrown. -/
def State.idle (engine : State Task) : Prop :=
  ∀ call ∈ engine.calls, call.request.submits = true → call.stage.ended = true

instance (engine : State Task) : Decidable engine.idle :=
  inferInstanceAs (Decidable (∀ call ∈ engine.calls, _))

/-- The calls come in the order in which the client makes them. -/
def InOrder (jobs : List (Job Task)) (engine : State Task) : Action Task → Prop
  | .invoke (.submit (some task) options) =>
      engine.idle ∧ jobs[engine.submitted]? = some ⟨task, options⟩
  | .invoke (.setScheduler _) => True
  | .invoke (.shutdown .drain) => engine.idle ∧ engine.submitted = jobs.length
  | .invoke _ => False
  | .worker _ _ => True
  | .call _ _ => True

instance [DecidableEq Task] (jobs : List (Job Task)) (engine : State Task) :
    DecidablePred (InOrder jobs engine)
  | .invoke (.submit (some task) options) =>
      inferInstanceAs (Decidable (engine.idle ∧ jobs[engine.submitted]? = some ⟨task, options⟩))
  | .invoke (.submit none _) => isFalse id
  | .invoke (.setScheduler _) => isTrue trivial
  | .invoke (.shutdown .drain) =>
      inferInstanceAs (Decidable (engine.idle ∧ engine.submitted = jobs.length))
  | .invoke (.shutdown .cancelPending) => isFalse id
  | .invoke (.restore _ _) => isFalse id
  | .invoke (.reserveRecoveredIdentity _) => isFalse id
  | .invoke (.cancel _) => isFalse id
  | .worker _ _ => isTrue trivial
  | .call _ _ => isTrue trivial

def ClientSteps (jobs : List (Job Task)) (engine : State Task) (action : Action Task) : Prop :=
  InOrder jobs engine action ∧ action.Appends

/-- A submission in this stage has not tried to register its job. -/
def Stage.unsettled : Stage → Nat
  | .entered => 1
  | .drawId => 1
  | .drawSequence _ => 1
  | .journalSubmission _ => 1
  | .registerSubmission _ => 1
  | _ => 0

def Call.unsettled (call : Call Task) : Nat :=
  if call.request.submits then call.stage.unsettled else 0

/-- The submission has registered its job or thrown. -/
def Call.settled (call : Call Task) : Nat :=
  if call.request.submits then 1 - call.stage.unsettled else 0

/-- The id a submission has drawn and not registered yet. -/
def Stage.drawn? : Stage → Option JobId
  | .drawSequence id => some id
  | .journalSubmission draft => some draft.id
  | .registerSubmission draft => some draft.id
  | _ => none

def Call.drawn (call : Call Task) : Nat :=
  if call.request.submits ∧ call.stage.drawn?.isSome then 1 else 0

/-- The submissions that have registered their job or thrown. -/
def State.settled (engine : State Task) : Nat := total Call.settled engine.calls

/-- The requests of the client and of whoever changes the scheduler. -/
def Request.OfClient : Request Task → Prop
  | .submit _ _ => True
  | .setScheduler _ => True
  | .shutdown .drain => True
  | _ => False

structure Client (jobs : List (Job Task)) (engine : State Task) : Prop where
  staged : Staged engine
  requests : ∀ call ∈ engine.calls, call.request.OfClient
  one : total Call.unsettled engine.calls ≤ 1
  current : ∀ call ∈ engine.calls, call.unsettled = 1 →
    ∃ job, jobs[engine.settled]? = some job ∧ call.request = .submit (some job.task) job.options ∧
      ∀ id ∈ call.stage.drawn?, id = UInt64.ofNat (engine.settled + 1)
  counter : engine.shared.nextJobId =
    UInt64.ofNat (engine.settled + 1 + total Call.drawn engine.calls)
  heap : engine.registry.heap.length = min engine.settled Registry.limit
  records : engine.registry.records.length = engine.registry.heap.length
  ids : ∀ (ref : RecordRef) (record : JobRecord Task), engine.registry.heap[ref]? = some record →
    record.snapshot.id = UInt64.ofNat (ref + 1) ∧
      engine.registry.find (UInt64.ofNat (ref + 1)) = some ref
  opened : (engine.shared.accepting = true ∧ engine.shared.queue.closed = false ∧
      ∀ call ∈ engine.calls, ∀ mode, call.request ≠ .shutdown mode) ∨
    (engine.settled = jobs.length ∧ engine.idle)
  accepted : ∀ call ∈ engine.calls, ∀ entry ref, call.stage ≠ .raced entry ref

theorem Starts.client {engine : State Task} (started : Starts engine) (jobs : List (Job Task)) :
    Client jobs engine := by
  have closing := started.closing
  obtain ⟨config, queue, requested, detected, journal, made, rfl⟩ := started
  have opened : queue.closed = false := by
    by_contra closed
    have isClosed : queue.closed = true := by simpa using closed
    rcases closing.closed.mp isClosed with joined | some
    · cases joined
    · exact absurd some (Nat.not_lt_zero _)
  refine ⟨closing.staged, ?_, Nat.zero_le _, ?_, rfl, rfl, rfl, ?_, .inl ⟨rfl, opened, ?_⟩, ?_⟩
  · intro call member
    cases member
  · intro call member
    cases member
  · intro ref record read
    cases read
  · intro call member
    cases member
  · intro call member
    cases member

section Steps

variable {jobs : List (Job Task)} {engine : State Task}

/-- Ids below the limit do not wrap. -/
theorem ofNat_succ_injective {first second : Nat} (small : first < Registry.limit)
    (also : second < Registry.limit)
    (same : UInt64.ofNat (first + 1) = UInt64.ofNat (second + 1)) : first = second := by
  have values := congrArg UInt64.toNat same
  simp only [UInt64.toNat_ofNat'] at values
  simp only [Registry.limit] at small also
  omega

theorem Client.heap_of_room (client : Client jobs engine)
    (room : engine.registry.records.length < Registry.limit) :
    engine.settled < Registry.limit ∧ engine.registry.heap.length = engine.settled := by
  have heap := client.heap
  have records := client.records
  omega

theorem Client.distinct (client : Client jobs engine) (sound : Sound engine)
    (action : Action Task) : IdsDistinct engine action := by
  cases action with
  | invoke request => trivial
  | worker index env => trivial
  | call index env =>
      intro call found
      obtain ⟨request, stage⟩ := call
      have member := List.mem_of_getElem? found
      cases stage with
      | registerSubmission draft =>
          obtain ⟨task, options, rfl⟩ := client.staged _ member
          obtain ⟨job, _, _, drawn⟩ := client.current _ member rfl
          have id : draft.id = UInt64.ofNat (engine.settled + 1) := drawn _ rfl
          by_cases full : Registry.limit ≤ engine.registry.records.length
          · simp [Stage.registersFree, full]
          · obtain ⟨small, length⟩ := client.heap_of_room (Nat.lt_of_not_le full)
            have free : engine.registry.find draft.id = none := by
              by_contra taken
              obtain ⟨ref, known⟩ := Option.ne_none_iff_exists'.mp taken
              obtain ⟨record, read, same⟩ := sound.registry.stored known
              have bound := (List.getElem?_eq_some_iff.mp read).1
              have numbered := (client.ids ref record read).1
              rw [same, id] at numbered
              have equal := ofNat_succ_injective small (by omega) numbered
              omega
            simp [Stage.registersFree, free]
      | _ => rfl

theorem Stage.unsettled_of_ended {stage : Stage} (ended : stage.ended = true) :
    stage.unsettled = 0 := by
  cases stage with
  | entered => cases ended
  | drawId => cases ended
  | drawSequence id => cases ended
  | journalSubmission draft => cases ended
  | registerSubmission draft => cases ended
  | _ => rfl

theorem settled_of_idle (idle : engine.idle) :
    total Call.unsettled engine.calls = 0 ∧ engine.submitted = engine.settled := by
  have zero : ∀ call ∈ engine.calls, call.unsettled = 0 := by
    intro call member
    unfold Call.unsettled
    split
    · next submits => exact Stage.unsettled_of_ended (idle call member submits)
    · rfl
  refine ⟨total_eq_zero_iff.mpr zero, ?_⟩
  have settled : ∀ call ∈ engine.calls, call.settled = if call.request.submits then 1 else 0 := by
    intro call member
    unfold Call.settled
    split
    · next submits => rw [Stage.unsettled_of_ended (idle call member submits)]
    · rfl
  rw [State.submitted, State.settled, total_congr settled, total_ite_eq_countP]

theorem Client.of_same {next : State Task} (client : Client jobs engine) (sound : Sound engine)
    {action : Action Task} [ITask Task] (stepped : engine.step action = some next)
    (requests : ∀ call ∈ next.calls, call.request.OfClient)
    (unsettled : total Call.unsettled next.calls = total Call.unsettled engine.calls)
    (settled : next.settled = engine.settled)
    (drawn : total Call.drawn next.calls = total Call.drawn engine.calls)
    (calls : ∀ call ∈ next.calls, call.unsettled = 1 → call ∈ engine.calls)
    (counter : next.shared.nextJobId = engine.shared.nextJobId)
    (heap : next.registry.heap.length = engine.registry.heap.length)
    (records : next.registry.records = engine.registry.records)
    (opened : (next.shared.accepting = true ∧ next.shared.queue.closed = false ∧
        ∀ call ∈ next.calls, ∀ mode, call.request ≠ .shutdown mode) ∨
      (next.settled = jobs.length ∧ next.idle))
    (accepted : ∀ call ∈ next.calls, ∀ entry ref, call.stage ≠ .raced entry ref) :
    Client jobs next := by
  refine ⟨client.staged.step stepped, requests, by rw [unsettled]; exact client.one, ?_, ?_, ?_, ?_,
    ?_, opened, accepted⟩
  · intro call member weighs
    rw [settled]
    exact client.current call (calls call member weighs) weighs
  · rw [counter, settled, drawn]
    exact client.counter
  · rw [heap, settled]
    exact client.heap
  · rw [records, heap]
    exact client.records
  · intro ref after read
    have bound : ref < engine.registry.heap.length :=
      lt_of_lt_of_eq (List.getElem?_eq_some_iff.mp read).1 heap
    obtain ⟨units, all⟩ := heapEvolves_step sound stepped
    obtain ⟨evolved, evolvedRead, evolves⟩ := all ref _ (List.getElem?_eq_getElem bound)
    rw [read] at evolvedRead
    cases evolvedRead
    obtain ⟨id, found⟩ := client.ids ref _ (List.getElem?_eq_getElem bound)
    exact ⟨evolves.sameIdentity.id.trans id, find_step sound stepped found⟩

theorem Client.worker [ITask Task] {env : Environment} {index : Nat} {next : State Task}
    (client : Client jobs engine) (sound : Sound engine)
    (stepped : engine.step (.worker index env) = some next) : Client jobs next := by
  have move := transition_of_step stepped
  cases move with
  | @worker _ _ worker moved shared found move =>
      have frame : shared.nextJobId = engine.shared.nextJobId ∧
          shared.accepting = engine.shared.accepting ∧
          shared.registry.heap.length = engine.registry.heap.length ∧
          shared.registry.records = engine.registry.records := by
        cases move with
        | dispatch read => exact ⟨rfl, rfl, by simp [State.registry], rfl⟩
        | slice read observed ran => exact ⟨rfl, rfl, by simp [State.registry], rfl⟩
        | record read => exact ⟨rfl, rfl, by simp [State.registry], rfl⟩
        | _ => exact ⟨rfl, rfl, rfl, rfl⟩
      obtain ⟨counter, accepting, heap, records⟩ := frame
      refine client.of_same sound stepped client.requests rfl rfl rfl (fun _ member _ => member)
        counter heap records ?_ client.accepted
      refine client.opened.imp_left ?_
      rintro ⟨accepts, opened, unstopped⟩
      exact ⟨accepting.trans accepts, (flags_worker move).1.trans opened, unstopped⟩

theorem Client.invoke_other [ITask Task] {request : Request Task} {next : State Task}
    (client : Client jobs engine) (sound : Sound engine) (ofClient : request.OfClient)
    (other : request.submits = false)
    (opened : (∀ mode, request ≠ .shutdown mode) ∨
      (engine.settled = jobs.length ∧ engine.idle))
    (stepped : engine.step (.invoke request) = some next) : Client jobs next := by
  have light : Call.unsettled (⟨request, .entered⟩ : Call Task) = 0 ∧
      Call.settled (⟨request, .entered⟩ : Call Task) = 0 := by
    simp [Call.unsettled, Call.settled, other]
  have step := stepped
  cases stepped
  have settled : State.settled { engine with calls := engine.calls ++ [{ request }] } =
      engine.settled := by
    simp [State.settled, light.2]
  refine client.of_same sound step (forall_mem_concat client.requests ofClient) ?_ settled ?_ ?_ rfl
    rfl rfl ?_ (forall_mem_concat client.accepted fun _ _ => by simp)
  · simp [light.1]
  · simp [Call.drawn, Stage.drawn?]
  · intro call member weighs
    rcases List.mem_append.mp member with old | added
    · exact old
    · rw [List.mem_singleton.mp added, light.1] at weighs
      cases weighs
  · have idles : engine.idle → State.idle { engine with calls := engine.calls ++ [{ request }] } := by
      intro idle
      refine forall_mem_concat idle fun submits => ?_
      rw [show request.submits = true from submits] at other
      cases other
    rw [settled]
    rcases client.opened with ⟨accepts, opens, unstopped⟩ | ⟨all, idle⟩
    · rcases opened with notShutdown | ⟨all, idle⟩
      · exact .inl ⟨accepts, opens, forall_mem_concat unstopped notShutdown⟩
      · exact .inr ⟨all, idles idle⟩
    · exact .inr ⟨all, idles idle⟩

theorem Client.invoke_submit [ITask Task] {task : Task} {options : SubmissionOptions}
    {next : State Task} (client : Client jobs engine) (idle : engine.idle)
    (is : jobs[engine.submitted]? = some ⟨task, options⟩)
    (stepped : engine.step (.invoke (.submit (some task) options)) = some next) :
    Client jobs next := by
  have staged := client.staged.step stepped
  obtain ⟨none, submitted⟩ := settled_of_idle idle
  have nobody := total_eq_zero_iff.mp none
  cases stepped
  have settled : State.settled
      { engine with calls := engine.calls ++ [⟨.submit (some task) options, .entered⟩] } =
      engine.settled := by
    simp [State.settled, Call.settled, Request.submits, Stage.unsettled]
  rw [submitted] at is
  refine ⟨staged, forall_mem_concat client.requests trivial, ?_, ?_, ?_, ?_, client.records,
    client.ids, ?_, forall_mem_concat client.accepted fun _ _ => by simp⟩
  · simp [none, Call.unsettled, Request.submits, Stage.unsettled]
  · rw [settled]
    refine forall_mem_concat (fun call member weighs => ?_) fun _ => ?_
    · rw [nobody call member] at weighs
      cases weighs
    · exact ⟨⟨task, options⟩, is, rfl, fun id drawn => by cases drawn⟩
  · rw [settled]
    simpa [Call.drawn, Stage.drawn?] using client.counter
  · rw [settled]
    exact client.heap
  · rcases client.opened with ⟨accepts, opened, unstopped⟩ | ⟨all, _⟩
    · exact .inl ⟨accepts, opened, forall_mem_concat unstopped fun _ => by simp⟩
    · rw [all, List.getElem?_eq_none le_rfl] at is
      cases is

theorem Client.invoke [ITask Task] {request : Request Task} {next : State Task}
    (client : Client jobs engine) (sound : Sound engine)
    (ordered : InOrder jobs engine (.invoke request))
    (stepped : engine.step (.invoke request) = some next) : Client jobs next := by
  cases request with
  | submit task options =>
      cases task with
      | none => exact ordered.elim
      | some task => exact client.invoke_submit ordered.1 ordered.2 stepped
  | setScheduler config =>
      exact client.invoke_other sound (show (Request.setScheduler config).OfClient from trivial) rfl
        (.inl fun _ => by simp) stepped
  | shutdown mode =>
      cases mode with
      | drain =>
          obtain ⟨idle, all⟩ := ordered
          have settled := (settled_of_idle idle).2
          exact client.invoke_other sound (show (Request.shutdown .drain).OfClient from trivial) rfl
            (.inr ⟨settled ▸ all, idle⟩) stepped
      | cancelPending => exact ordered.elim
  | restore task submission => exact ordered.elim
  | reserveRecoveredIdentity submission => exact ordered.elim
  | cancel id => exact ordered.elim

/-! ### Steps of the other calls -/

theorem makesJob_of_other {request : Request Task} (ofClient : request.OfClient)
    (other : request.submits = false) : request.makesJob = false ∧ request.recovered? = none ∧
      (∀ id, request ≠ .cancel id) ∧ request ≠ .shutdown .cancelPending := by
  cases request with
  | submit task options => cases other
  | setScheduler config => exact ⟨rfl, rfl, fun _ => by simp, by simp⟩
  | shutdown mode =>
      cases mode with
      | drain => exact ⟨rfl, rfl, fun _ => by simp, by simp⟩
      | cancelPending => exact ofClient.elim
  | _ => exact ofClient.elim

section Other

variable {env : Environment} {done : Bool} {request : Request Task} {shared : Shared Task}
  {stage moved : Stage}

/-- The calls that do not submit leave the records and the id counter alone. -/
theorem frame_other (ofClient : request.OfClient) (other : request.submits = false)
    (of : stage.Of request)
    (move : CallTransition env done request engine.shared stage shared moved) :
    shared.registry = engine.registry ∧ shared.nextJobId = engine.shared.nextJobId := by
  obtain ⟨makesNone, recoversNone, notCancel, notPending⟩ := makesJob_of_other ofClient other
  cases move with
  | drawId =>
      obtain ⟨_, _, rfl⟩ := of
      cases other
  | journalSubmission is journaled durable typed appended =>
      rw [is] at other
      cases other
  | registerSubmission is room =>
      rw [is] at other
      cases other
  | journalRestore is journaled appended =>
      rw [is] at makesNone
      cases makesNone
  | registerRestore is fresh =>
      rw [is] at makesNone
      cases makesNone
  | advanceJobIdAgain recovered advanced =>
      rw [recoversNone] at recovered
      cases recovered
  | advanceJobId recovered advanced =>
      rw [recoversNone] at recovered
      cases recovered
  | raced read =>
      rw [show request.makesJob = true from of] at makesNone
      cases makesNone
  | cancel read =>
      obtain ⟨id, is⟩ := of
      exact absurd is (notCancel id)
  | cancelPending => exact absurd of notPending
  | _ => exact ⟨rfl, rfl⟩

theorem opened_other (running : ∀ mode, request ≠ .shutdown mode)
    (move : CallTransition env done request engine.shared stage shared moved)
    (of : stage.Of request) (accepting : engine.shared.accepting = true)
    (opened : engine.shared.queue.closed = false) :
    shared.accepting = true ∧ shared.queue.closed = false := by
  cases move with
  | push accepted => exact ⟨accepting, (TaskQueue.pushExternal_eq_some accepted).2.1⟩
  | swapScheduler is swapped => exact ⟨accepting, (TaskQueue.setScheduler_eq_ok swapped).2.1⟩
  | stopAccepting =>
      obtain ⟨mode, is⟩ := of
      exact absurd is (running mode)
  | closeDrain is => exact absurd is (running _)
  | closeCancel is => exact absurd is (running _)
  | _ => exact ⟨accepting, opened⟩

end Other

theorem Client.call_other [ITask Task] {env : Environment} {index : Nat} {next : State Task}
    {call : Call Task} (client : Client jobs engine) (sound : Sound engine)
    (found : engine.calls[index]? = some call) (other : call.request.submits = false)
    (stepped : engine.step (.call index env) = some next) : Client jobs next := by
  have member := List.mem_of_getElem? found
  have ofClient := client.requests call member
  have of := client.staged call member
  have transition := transition_of_step stepped
  cases transition with
  | @call _ _ call' moved shared found' move =>
      rw [found] at found'
      cases found'
      have ofMoved := of.step move
      obtain ⟨registry, counter⟩ := frame_other ofClient other of move
      have light : ∀ stage, Call.unsettled { call with stage } = 0 ∧
          Call.settled { call with stage } = 0 ∧ Call.drawn { call with stage } = 0 := by
        intro stage
        simp [Call.unsettled, Call.settled, Call.drawn, other]
      have unsettled := total_set Call.unsettled found { call with stage := moved }
      have settled := total_set Call.settled found { call with stage := moved }
      have drawn := total_set Call.drawn found { call with stage := moved }
      have before := light call.stage
      have after := light moved
      change call.unsettled = 0 ∧ call.settled = 0 ∧ call.drawn = 0 at before
      have sameSettled : State.settled
          { engine with shared, calls := engine.calls.set index { call with stage := moved } } =
          engine.settled := by
        simp only [State.settled]
        omega
      refine client.of_same sound stepped (forall_mem_set client.requests ofClient)
        (by simp only; omega) sameSettled (by simp only; omega) ?_ counter
        (by simp only [State.registry, registry]) (by simp only [State.registry, registry]) ?_ ?_
      · intro other member weighs
        rcases List.mem_or_eq_of_mem_set member with old | rfl
        · exact old
        · rw [after.1] at weighs
          cases weighs
      · rw [sameSettled]
        have idles : engine.idle → State.idle
            { engine with shared, calls := engine.calls.set index { call with stage := moved } } :=
          fun idle => forall_mem_set idle fun submits => by rw [other] at submits; cases submits
        rcases client.opened with ⟨accepts, opened, unstopped⟩ | ⟨all, idle⟩
        · obtain ⟨stillAccepts, stillOpen⟩ :=
            opened_other (unstopped call member) move of accepts opened
          exact .inl ⟨stillAccepts, stillOpen, forall_mem_set unstopped (unstopped call member)⟩
        · exact .inr ⟨all, idles idle⟩
      · refine forall_mem_set client.accepted fun entry ref => ?_
        rintro rfl
        have makes : call.request.makesJob = true := ofMoved
        rw [(makesJob_of_other ofClient other).1] at makes
        cases makes

/-! ### Steps of a submission -/

theorem Call.drawn_le_unsettled (call : Call Task) : call.drawn ≤ call.unsettled := by
  obtain ⟨request, stage⟩ := call
  unfold Call.drawn Call.unsettled
  split
  · next drawn =>
      rw [if_pos drawn.1]
      cases stage with
      | drawSequence id => exact le_rfl
      | journalSubmission draft => exact le_rfl
      | registerSubmission draft => exact le_rfl
      | _ => exact absurd drawn.2 (by simp [Stage.drawn?])
  · exact Nat.zero_le _

/-- The submission that is not settled is the only one, and the engine is open. -/
theorem Client.alone (client : Client jobs engine) {call : Call Task} (member : call ∈ engine.calls)
    (weighs : call.unsettled = 1) :
    total Call.unsettled engine.calls = 1 ∧
      total Call.drawn engine.calls + (1 - call.drawn) ≤ 1 ∧
      engine.shared.accepting = true ∧ engine.shared.queue.closed = false ∧
      ∀ other ∈ engine.calls, ∀ mode, other.request ≠ .shutdown mode := by
  have bound := @weight_le_total _ Call.unsettled _ _ member
  have one := client.one
  have drawn := total_add_sub_le Call.drawn_le_unsettled member
  obtain ⟨job, is, _⟩ := client.current call member weighs
  rcases client.opened with opened | ⟨all, _⟩
  · exact ⟨by omega, by omega, opened⟩
  · rw [all, List.getElem?_eq_none le_rfl] at is
    cases is

theorem Client.of_progress {index : Nat} {request : Request Task} {stage moved : Stage}
    {shared : Shared Task} (client : Client jobs engine)
    (found : engine.calls[index]? = some ⟨request, stage⟩) (submits : request.submits = true)
    (before : stage.unsettled = 1) (after : moved.unsettled = 1) (of : moved.Of request)
    (heap : shared.registry.heap = engine.registry.heap)
    (records : shared.registry.records = engine.registry.records)
    (queue : shared.queue = engine.shared.queue)
    (accepting : shared.accepting = engine.shared.accepting)
    (draws : (moved.drawn? = stage.drawn? ∧ shared.nextJobId = engine.shared.nextJobId) ∨
      (stage.drawn? = none ∧ moved.drawn? = some engine.shared.nextJobId ∧
        shared.nextJobId = engine.shared.nextJobId + 1)) :
    Client jobs { engine with shared, calls := engine.calls.set index ⟨request, moved⟩ } := by
  have member := List.mem_of_getElem? found
  have weighs : Call.unsettled ⟨request, stage⟩ = 1 := by simp [Call.unsettled, submits, before]
  have weighsAfter : Call.unsettled ⟨request, moved⟩ = 1 := by simp [Call.unsettled, submits, after]
  obtain ⟨alone, undrawn, accepts, opened, unstopped⟩ := client.alone member weighs
  obtain ⟨job, is, isRequest, drawnId⟩ := client.current _ member weighs
  have unsettled := total_set Call.unsettled found ⟨request, moved⟩
  have settles := total_set Call.settled found ⟨request, moved⟩
  have drawn := total_set Call.drawn found ⟨request, moved⟩
  have neither : Call.settled ⟨request, stage⟩ = 0 ∧ Call.settled ⟨request, moved⟩ = 0 := by
    simp [Call.settled, before, after]
  have settled : State.settled
      { engine with shared, calls := engine.calls.set index ⟨request, moved⟩ } = engine.settled := by
    simp only [State.settled]
    omega
  refine ⟨forall_mem_set client.staged of,
    forall_mem_set client.requests (client.requests ⟨request, stage⟩ member), by simp only; omega, ?_, ?_, ?_, ?_,
    ?_, .inl ⟨accepting.trans accepts, ?_, forall_mem_set unstopped (unstopped ⟨request, stage⟩ member)⟩, ?_⟩
  · rw [settled]
    intro other otherMember otherWeighs
    rcases List.mem_or_eq_of_mem_set otherMember with old | rfl
    · exact client.current other old otherWeighs
    · refine ⟨job, is, isRequest, ?_⟩
      rcases draws with ⟨same, _⟩ | ⟨none, drew, _⟩
      · rw [show (⟨request, moved⟩ : Call Task).stage.drawn? = stage.drawn? from same]
        exact drawnId
      · intro id isId
        rw [show (⟨request, moved⟩ : Call Task).stage.drawn? = _ from drew] at isId
        cases isId
        have zero : Call.drawn ⟨request, stage⟩ = 0 := by simp [Call.drawn, none]
        rw [client.counter, show total Call.drawn engine.calls = 0 by omega, Nat.add_zero]
  · rw [settled]
    rcases draws with ⟨same, counter⟩ | ⟨none, drew, counter⟩
    · have equal : Call.drawn ⟨request, moved⟩ = Call.drawn ⟨request, stage⟩ := by
        simp [Call.drawn, same]
      have total' : total Call.drawn (engine.calls.set index ⟨request, moved⟩) =
          total Call.drawn engine.calls := by omega
      simp only [total', counter]
      exact client.counter
    · have zero : Call.drawn ⟨request, stage⟩ = 0 := by simp [Call.drawn, none]
      have one : Call.drawn ⟨request, moved⟩ = 1 := by simp [Call.drawn, drew, submits]
      have total' : total Call.drawn (engine.calls.set index ⟨request, moved⟩) =
          total Call.drawn engine.calls + 1 := by omega
      simp only [total', counter, client.counter]
      exact (UInt64.ofNat_add _ 1).symm
  · rw [settled, State.registry, heap]
    exact client.heap
  · simp only [State.registry, heap, records]
    exact client.records
  · intro ref record read
    change shared.registry.heap[ref]? = some record at read
    rw [heap] at read
    have known := client.ids ref record read
    refine ⟨known.1, ?_⟩
    change shared.registry.records.lookup _ = _
    rw [records]
    exact known.2
  · simp only [queue]
    exact opened
  · refine forall_mem_set client.accepted fun entry ref => ?_
    rintro rfl
    cases after

/-- A submission settles: it registers its job, or there is no room for it. -/
theorem Client.of_settling {index : Nat} {request : Request Task} {draft : Draft} {moved : Stage}
    {shared : Shared Task} (client : Client jobs engine)
    (found : engine.calls[index]? = some ⟨request, .registerSubmission draft⟩)
    (submits : request.submits = true) (after : moved.unsettled = 0) (of : moved.Of request)
    (accepted : ∀ entry ref, moved ≠ .raced entry ref)
    (heap : shared.registry.heap.length = min (engine.settled + 1) Registry.limit)
    (records : shared.registry.records.length = shared.registry.heap.length)
    (ids : ∀ (ref : RecordRef) (record : JobRecord Task), shared.registry.heap[ref]? = some record →
      record.snapshot.id = UInt64.ofNat (ref + 1) ∧
        shared.registry.find (UInt64.ofNat (ref + 1)) = some ref)
    (counter : shared.nextJobId = engine.shared.nextJobId)
    (queue : shared.queue = engine.shared.queue)
    (accepting : shared.accepting = engine.shared.accepting) :
    Client jobs { engine with shared, calls := engine.calls.set index ⟨request, moved⟩ } := by
  have member := List.mem_of_getElem? found
  have weighs : Call.unsettled ⟨request, .registerSubmission draft⟩ = 1 := by
    simp [Call.unsettled, submits, Stage.unsettled]
  obtain ⟨alone, undrawn, accepts, opened, unstopped⟩ := client.alone member weighs
  have unsettled := total_set Call.unsettled found ⟨request, moved⟩
  have settles := total_set Call.settled found ⟨request, moved⟩
  have drawn := total_set Call.drawn found ⟨request, moved⟩
  have undrawnAfter : moved.drawn? = none := by
    cases moved with
    | drawSequence id => cases after
    | journalSubmission draft => cases after
    | registerSubmission draft => cases after
    | _ => rfl
  have weights : Call.settled ⟨request, .registerSubmission draft⟩ = 0 ∧
      Call.settled ⟨request, moved⟩ = 1 ∧ Call.unsettled ⟨request, moved⟩ = 0 ∧
      Call.drawn ⟨request, .registerSubmission draft⟩ = 1 ∧ Call.drawn ⟨request, moved⟩ = 0 := by
    have unsettled : (Stage.registerSubmission draft).unsettled = 1 := rfl
    have drawn : (Stage.registerSubmission draft).drawn? = some draft.id := rfl
    simp [Call.settled, Call.unsettled, Call.drawn, after, submits, undrawnAfter, unsettled, drawn]
  have settled : State.settled
      { engine with shared, calls := engine.calls.set index ⟨request, moved⟩ } =
      engine.settled + 1 := by
    simp only [State.settled]
    omega
  have drawnBefore : 1 ≤ total Call.drawn engine.calls :=
    weights.2.2.2.1 ▸ weight_le_total member
  refine ⟨forall_mem_set client.staged of,
    forall_mem_set client.requests (client.requests ⟨request, .registerSubmission draft⟩ member),
    by simp only; omega, ?_, ?_, by rw [settled]; exact heap, records, ids,
    .inl ⟨accepting.trans accepts, by simp only [queue]; exact opened,
      forall_mem_set unstopped (unstopped ⟨request, .registerSubmission draft⟩ member)⟩,
    forall_mem_set client.accepted accepted⟩
  · -- no submission is left that has not settled
    have none : total Call.unsettled (engine.calls.set index ⟨request, moved⟩) = 0 := by omega
    intro other otherMember otherWeighs
    rw [total_eq_zero_iff.mp none other otherMember] at otherWeighs
    cases otherWeighs
  · have total' : total Call.drawn (engine.calls.set index ⟨request, moved⟩) = 0 := by omega
    have before : total Call.drawn engine.calls = 1 := by omega
    simp only [settled, total', counter, client.counter, before, Nat.add_zero]

theorem Client.register [ITask Task] {index : Nat} {draft : Draft} {task : Task}
    {options : SubmissionOptions} {shared : Shared Task} (client : Client jobs engine)
    (sound : Sound engine)
    (found : engine.calls[index]? = some ⟨.submit (some task) options, .registerSubmission draft⟩)
    (room : engine.registry.records.length < Registry.limit)
    (registered : shared.registry = (engine.registry.make (submittedRecord task options draft)).emplace
      draft.id engine.registry.heap.length)
    (counter : shared.nextJobId = engine.shared.nextJobId)
    (queue : shared.queue = engine.shared.queue)
    (accepting : shared.accepting = engine.shared.accepting) :
    Client jobs { engine with
      shared
      calls := engine.calls.set index ⟨.submit (some task) options,
        .push (submittedEntry options draft) engine.registry.heap.length⟩ } := by
  have member := List.mem_of_getElem? found
  have free : engine.registry.find draft.id = none :=
    Stage.find_of_registersFree (client.distinct sound (.call index {}) _ found) room
  obtain ⟨job, _, _, drawn⟩ := client.current _ member rfl
  obtain ⟨small, length⟩ := client.heap_of_room room
  have id : draft.id = UInt64.ofNat (engine.registry.heap.length + 1) := by
    rw [length]
    exact drawn _ rfl
  have heap : shared.registry.heap = engine.registry.heap ++ [submittedRecord task options draft] := by
    rw [registered, Registry.heap_emplace]
    rfl
  have records : shared.registry.records =
      engine.registry.records ++ [(draft.id, engine.registry.heap.length)] := by
    rw [registered]
    simp only [Registry.emplace, Registry.find_make, free]
    rfl
  refine client.of_settling found rfl rfl rfl (by simp) ?_ ?_ ?_ counter queue accepting
  · rw [heap, List.length_append, length, List.length_singleton]
    omega
  · rw [heap, records, List.length_append, List.length_append, client.records]
    rfl
  · intro ref record read
    rw [registered, Registry.find_register _ _ free]
    rw [heap, List.getElem?_append] at read
    split at read
    · next old =>
        obtain ⟨sameId, known⟩ := client.ids ref record read
        refine ⟨sameId, ?_⟩
        rw [if_neg]
        · exact known
        · intro same
          rw [same] at known
          rw [known] at free
          cases free
    · next new =>
        have position : @Eq Nat ref engine.registry.heap.length := by
          have bound := (List.getElem?_eq_some_iff.mp read).1
          simp only [List.length_singleton] at bound
          omega
        subst position
        simp only [Nat.sub_self, List.getElem?_cons_zero, Option.some.injEq] at read
        rw [← read, ← id]
        exact ⟨rfl, if_pos rfl⟩

theorem Client.settles_full [ITask Task] {env : Environment} {done : Bool} {index : Nat}
    {shared : Shared Task} {task : Option Task} {options : SubmissionOptions} {stage : Stage}
    {what : Bytes} (client : Client jobs engine)
    (acceptable : ∀ job ∈ jobs, job.Acceptable) (appends : ∀ id, env.appendError id = none)
    (found : engine.calls[index]? = some ⟨.submit task options, stage⟩)
    (unsettled : stage.unsettled = 1)
    (threw : callStep env engine.shared done (.submit task options) stage =
      some (shared, .threw what)) :
    Client jobs { engine with
      shared
      calls := engine.calls.set index ⟨.submit task options, .threw what⟩ } := by
  have member := List.mem_of_getElem? found
  have weighs : Call.unsettled ⟨.submit task options, stage⟩ = 1 := unsettled
  obtain ⟨job, known, is, _⟩ := client.current _ member weighs
  obtain ⟨_, _, accepts, _⟩ := client.alone member weighs
  have fine := acceptable job (List.mem_of_getElem? known)
  injection is with isTask isOptions
  subst isTask isOptions
  rcases submission_threw threw with ⟨rfl, bad⟩ | ⟨draft, rfl, bad⟩ | ⟨draft, rfl, full, rfl, rfl⟩
  · rcases bad with zero | ⟨closed, _⟩
    · exact absurd zero fine.estimate
    · rw [accepts] at closed
      cases closed
  · obtain ⟨spec, durable, typed⟩ := fine.spec
    rcases bad with untyped | failing
    · exact absurd (untyped spec durable) typed
    · exact absurd (appends draft.id) failing
  · refine client.of_settling found rfl rfl trivial (by simp) ?_ client.records client.ids rfl rfl rfl
    have heap := client.heap
    have records := client.records
    change engine.registry.heap.length = _
    change Registry.limit ≤ engine.registry.records.length at full
    omega

theorem Client.submission [ITask Task] {env : Environment} {index : Nat} {next : State Task}
    {task : Option Task} {options : SubmissionOptions} {stage : Stage}
    (client : Client jobs engine) (sound : Sound engine)
    (acceptable : ∀ job ∈ jobs, job.Acceptable) (appends : ∀ id, env.appendError id = none)
    (found : engine.calls[index]? = some ⟨.submit task options, stage⟩)
    (stepped : engine.step (.call index env) = some next) : Client jobs next := by
  have member := List.mem_of_getElem? found
  have of := client.staged _ member
  obtain ⟨shared, moved, ran, made⟩ := callStep_of_step found stepped
  simp only at ran made
  have move := callTransition_of_step ran
  have threw : ∀ {what}, stage.unsettled = 1 → moved = .threw what → Client jobs next := by
    rintro what unsettled rfl
    rw [made]
    exact client.settles_full acceptable appends found unsettled ran
  have progress : stage.unsettled = 1 → moved.unsettled = 1 →
      shared.registry.heap = engine.registry.heap →
      shared.registry.records = engine.registry.records →
      shared.queue = engine.shared.queue → shared.accepting = engine.shared.accepting →
      ((moved.drawn? = stage.drawn? ∧ shared.nextJobId = engine.shared.nextJobId) ∨
        (stage.drawn? = none ∧ moved.drawn? = some engine.shared.nextJobId ∧
          shared.nextJobId = engine.shared.nextJobId + 1)) → Client jobs next := by
    intro before after heap records queue accepting draws
    rw [made]
    exact client.of_progress found rfl before after (of.step move) heap records queue accepting draws
  cases stage with
  | entered =>
      cases move with
      | reject what early => exact threw rfl rfl
      | beginSubmit is accepting => exact progress rfl rfl rfl rfl rfl rfl (.inl ⟨rfl, rfl⟩)
      | beginRestore is accepting valid => cases is
      | beginReserve is nonzero => cases is
      | cancelMissing is missing => cases is
      | cancelFound is known => cases is
      | beginSetScheduler is => cases is
      | shutdownAgain is free joined => cases is
      | beginShutdown is free first => cases is
  | drawId =>
      cases move with
      | reject what early => cases early
      | drawId => exact progress rfl rfl rfl rfl rfl rfl (.inr ⟨rfl, rfl, rfl⟩)
  | drawSequence id =>
      cases move with
      | reject what early => cases early
      | drawSequence => exact progress rfl rfl rfl rfl rfl rfl (.inl ⟨rfl, rfl⟩)
  | journalSubmission draft =>
      cases move with
      | reject what early => exact threw rfl rfl
      | unjournaledSubmission unjournaled =>
          exact progress rfl rfl rfl rfl rfl rfl (.inl ⟨rfl, rfl⟩)
      | journalSubmission is journaled durable typed appended =>
          exact progress rfl rfl rfl rfl rfl rfl (.inl ⟨rfl, rfl⟩)
  | registerSubmission draft =>
      cases move with
      | reject what early => exact threw rfl rfl
      | registerSubmission is room =>
          cases is
          rw [made]
          exact client.register sound found room rfl rfl rfl rfl
  | push entry ref =>
      have opened : engine.shared.accepting = true ∧ engine.shared.queue.closed = false ∧
          ∀ call ∈ engine.calls, ∀ mode, call.request ≠ .shutdown mode := by
        rcases client.opened with opened | ⟨_, idle⟩
        · exact opened
        · cases idle _ member rfl
      cases move with
      | reject what early => cases early
      | refuse refused =>
          rw [TaskQueue.pushExternal_eq_none refused] at opened
          cases opened.2.1
      | push accepted =>
          rw [made] at stepped ⊢
          have unsettled := total_set Call.unsettled found
            ⟨.submit task options, .returnedHandle entry.id ref⟩
          have settles := total_set Call.settled found
            ⟨.submit task options, .returnedHandle entry.id ref⟩
          have drawn := total_set Call.drawn found
            ⟨.submit task options, .returnedHandle entry.id ref⟩
          simp only [Call.unsettled, Call.settled, Call.drawn, Request.submits, if_true,
            Stage.unsettled, Stage.drawn?] at unsettled settles drawn
          refine client.of_same sound stepped
            (forall_mem_set client.requests (show (Request.submit task options).OfClient from trivial))
            (Nat.add_right_cancel unsettled) (Nat.add_right_cancel settles)
            (Nat.add_right_cancel drawn) ?_ rfl rfl rfl
            (.inl ⟨opened.1, (TaskQueue.pushExternal_eq_some accepted).2.1, ?_⟩)
            (forall_mem_set client.accepted fun _ _ => by simp)
          · intro other otherMember weighs
            rcases List.mem_or_eq_of_mem_set otherMember with old | rfl
            · exact old
            · cases weighs
          · exact forall_mem_set opened.2.2 fun mode => by simp
  | raced entry ref => exact absurd rfl (client.accepted _ member entry ref)
  | returnedHandle id ref => cases ran
  | threw what => cases ran
  | journalRestore submittedAt =>
      obtain ⟨_, _, is⟩ := of
      cases is
  | registerRestore submittedAt =>
      obtain ⟨_, _, is⟩ := of
      cases is
  | advanceJobId restored current => cases ran
  | advanceSequence restored current => cases ran
  | cancelFound ref =>
      obtain ⟨_, is⟩ := of
      cases is
  | swapScheduler => cases ran
  | stopAccepting =>
      obtain ⟨_, is⟩ := of
      cases is
  | close => cases ran
  | cancelPending pending => cases of
  | join =>
      obtain ⟨_, is⟩ := of
      cases is
  | returnedBool answer => cases ran
  | returned => cases ran

/-- Every step the client admits keeps the order of the jobs. -/
theorem Client.step [ITask Task] {next : State Task} {action : Action Task}
    (client : Client jobs engine) (sound : Sound engine)
    (acceptable : ∀ job ∈ jobs, job.Acceptable) (admitted : ClientSteps jobs engine action)
    (stepped : engine.step action = some next) : Client jobs next := by
  cases action with
  | invoke request => exact client.invoke sound admitted.1 stepped
  | worker index env => exact client.worker sound stepped
  | call index env =>
      cases transition_of_step stepped with
      | @call _ _ call moved shared found move =>
          obtain ⟨request, stage⟩ := call
          cases request with
          | submit task options =>
              exact client.submission sound acceptable admitted.2 found stepped
          | _ => exact client.call_other sound found rfl stepped

end Steps

theorem Client.of_reaches [ITask Task] {jobs : List (Job Task)} {start engine : State Task}
    (started : Starts start) (acceptable : ∀ job ∈ jobs, job.Acceptable)
    (reached : Reaches State.step (ClientSteps jobs) start engine) :
    Client jobs engine ∧ Reaches State.step IdsDistinct start engine := by
  refine reached.invariant (fun state => Client jobs state ∧ Reaches State.step IdsDistinct start state)
    ⟨started.client jobs, .refl⟩ ?_
  rintro state action next ⟨client, distinct⟩ admitted stepped
  have sound := Sound.of_reaches started distinct
  exact ⟨client.step sound acceptable admitted stepped,
    .tail action distinct (client.distinct sound action) stepped⟩

end Kronos.Engine
