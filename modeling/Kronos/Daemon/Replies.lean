import Kronos.Common.Traces
import Kronos.Daemon.Requests
import Kronos.Daemon.World
import Kronos.Engine.RegistryGrowth
import Kronos.Engine.Rejection

/-!
# What an `ERROR` says

A request that is answered with an `ERROR` should have changed nothing. It may
have: the engine is called first, and what throws behind the call is answered in
the same way.
-/

set_option autoImplicit false

namespace Kronos.Daemon

open Engine Wal Ipc

/-- What a request can change: the registered jobs, the journaled submissions, the
stop requests of the jobs and the configuration of the scheduler. -/
structure Footprint where
  registered : List (JobId × RecordRef)
  journaled : Option (List JobSubmissionRecord)
  stops : List Bool
  config : SchedulerConfig
  deriving DecidableEq

def footprint (engine : State BuiltinTask) : Footprint :=
  ⟨engine.shared.registry.records, engine.shared.registry.journal.map submissions,
    engine.shared.registry.heap.map (·.stopRequested), engine.shared.queue.config⟩

/-- A stop was requested of the job. -/
def Footprint.stopOf (print : Footprint) (id : JobId) : Option Bool :=
  (print.registered.lookup id).bind fun ref => print.stops[ref]?

/-- What is asked of the engine, if anything. -/
def asked? (config : SchedulerConfig) (fields : List Bytes) : Option (Request BuiltinTask) :=
  fields.head?.bind fun command =>
    if command = text "submit" then (readSubmit fields).toOption
    else if command = text "kill" then (readKill fields).toOption.map .cancel
    else if command = text "scheduler" then
      (readScheduler config fields).toOption.map .setScheduler
    else none

/-- The request asks for something that is not so already. -/
def Footprint.Changes (print : Footprint) : Request BuiltinTask → Prop
  | .submit _ _ => True
  | .cancel id => print.stopOf id = some false
  | .setScheduler config => config ≠ print.config
  | _ => False

def Footprint.Demands (print : Footprint) (asked : Option (Request BuiltinTask)) : Prop :=
  ∃ request ∈ asked, print.Changes request

/-- The step throws behind what the engine was asked for: there is no thread for the
observer, the `OK` cannot be sent, or a journaled submission finds no room. -/
def Handler.FailsLate (engine : State BuiltinTask) (answers : Answers) : Handler → Prop
  | .submitting =>
      (∃ request draft, engine.calls.getLast? = some ⟨request, .registerSubmission draft⟩) ∧
        Registry.limit ≤ engine.shared.registry.records.length ∧
        engine.shared.registry.journal.isSome = true
  | .observing _ => answers.observer.isSome = true
  | .replying kind _ _ => kind = okKind ∧ answers.send.isSome = true
  | _ => False

def FailsLate (taken : Taken Service ServiceEvent) : Prop :=
  ∃ request handler answers, taken.before.handling = some (request, handler) ∧
    taken.action = .serve answers ∧ handler.FailsLate taken.before.life.engine answers

/-! ## The workers leave no footprint -/

theorem footprint_store {engine : State BuiltinTask} {shared : Shared BuiltinTask}
    {ref : RecordRef} {locked left : Locked BuiltinTask} {workers : List Worker}
    {calls : List (Call BuiltinTask)} (read : engine.shared.registry.locked ref = some locked)
    (extends' : locked.Extends left)
    (stored : shared.registry = engine.shared.registry.store ref left)
    (queue : shared.queue = engine.shared.queue) :
    footprint ⟨shared, workers, calls⟩ = { footprint engine with
      stops := (footprint engine).stops.set ref left.record.stopRequested } := by
  have journaled : left.journal.map submissions = engine.shared.registry.journal.map submissions := by
    rw [extends'.submissions, (Registry.locked_eq_some read).2]
  simp only [footprint, stored, queue, Registry.store, journaled, List.map_set]

theorem footprint_moves {engine : State BuiltinTask} {shared : Shared BuiltinTask}
    {ref : RecordRef} {locked left : Locked BuiltinTask} {workers : List Worker}
    {calls : List (Call BuiltinTask)} (read : engine.shared.registry.locked ref = some locked)
    (moves : locked.Moves left)
    (stored : shared.registry = engine.shared.registry.store ref left)
    (queue : shared.queue = engine.shared.queue) :
    footprint ⟨shared, workers, calls⟩ = footprint engine := by
  have readRecord := (Registry.locked_eq_some read).1
  have bound := (List.getElem?_eq_some_iff.mp readRecord).1
  have unset : (footprint engine).stops.set ref left.record.stopRequested =
      (footprint engine).stops := by
    refine List.ext_getElem? fun other => ?_
    by_cases same : ref = other
    · subst same
      rw [List.getElem?_set_self (by simpa only [footprint, List.length_map] using bound)]
      simp only [footprint, List.getElem?_map, readRecord, Option.map_some, moves.stop]
    · rw [List.getElem?_set_ne same]
  rw [footprint_store read moves.toExtends stored queue, unset]

/-- The steps of the workers leave the footprint of the engine alone. -/
theorem footprint_worker {engine : State BuiltinTask} {env : Environment}
    {shared : Shared BuiltinTask} {worker moved : Worker} {workers : List Worker}
    (move : WorkerTransition env engine.shared worker shared moved) :
    footprint ⟨shared, workers, engine.calls⟩ = footprint engine := by
  cases move with
  | exit popped => rfl
  | @pop dispatch rest popped =>
      have same : rest.config = engine.shared.queue.config := by
        unfold TaskQueue.pop at popped
        split at popped
        · cases popped
          rfl
        · split at popped <;> cases popped
      simp only [footprint, same]
  | miss missing => rfl
  | resolve found => rfl
  | dispatch read => exact footprint_moves read (moves_dispatchLocked _) rfl rfl
  | @slice dispatch ref record outcome task read observed ran =>
      have locked : engine.shared.registry.locked ref = some ⟨record, engine.shared.registry.journal⟩ := by
        simp [Registry.locked, read]
      exact @footprint_moves engine _ ref _ ⟨{ record with task }, engine.shared.registry.journal⟩
        workers engine.calls locked ⟨⟨.refl _, rfl, rfl⟩, rfl⟩ rfl rfl
  | record read => exact footprint_moves read (moves_recordSliceLocked _ _) rfl rfl
  | requeue => rfl

/-! ## The calls of the engine -/

/-- A submission in this stage has changed nothing but perhaps the journal, or it has
made its record. -/
def Submits (first print : Footprint) (late : Prop) : Stage → Prop
  | .entered | .drawId | .drawSequence _ | .journalSubmission _ => ¬ late ∧ print = first
  | .registerSubmission _ =>
      ¬ late ∧ print.stops = first.stops ∧ (print = first ↔ print.journaled = none)
  | .push _ _ | .raced _ _ | .returnedHandle _ _ =>
      ¬ late ∧ first.stops.length < print.stops.length
  | .threw _ => print = first ↔ ¬ late
  | _ => False

/-- A call of `cancel` that has answered `true` has requested the stop. -/
def Cancels (first print : Footprint) (id : JobId) : Stage → Prop
  | .entered => print = first
  | .cancelFound ref => print = first ∧ first.registered.lookup id = some ref
  | .returnedBool true => print = first ↔ first.stopOf id ≠ some false
  | .returnedBool false => print = first
  | _ => False

/-- A call of `set_scheduler` that has returned has changed the configuration. -/
def Swaps (first print : Footprint) (config : SchedulerConfig) : Stage → Prop
  | .entered | .swapScheduler | .threw _ => print = first
  | .returned => print = { first with config }
  | _ => False

section Calls

variable {engine : State BuiltinTask} {env : Environment} {shared : Shared BuiltinTask}
  {first : Footprint} {stage moved : Stage} {workers : List Worker}
  {calls : List (Call BuiltinTask)}

theorem stop_of_cancelLocked {locked : Locked BuiltinTask}
    (answered : (cancelLocked env locked).1 = true) :
    (cancelLocked env locked).2.record.stopRequested = true := by
  unfold cancelLocked at answered ⊢
  split at answered
  · cases answered
  · next running =>
      rw [if_neg running]
      simp only
      split
      · exact (moves_finishLocked _ _ _).stop
      · rfl

theorem cancelLocked_false {locked : Locked BuiltinTask}
    (answered : (cancelLocked env locked).1 = false) : (cancelLocked env locked).2 = locked := by
  unfold cancelLocked at answered ⊢
  split at answered
  · next terminal => rw [if_pos terminal]
  · simp only at answered
    split at answered <;> cases answered

/-- A stop request is new unless it was there. -/
theorem set_stop_eq_iff {stops : List Bool} {ref : RecordRef} (bound : ref < stops.length) :
    stops.set ref true = stops ↔ stops[ref]? ≠ some false := by
  constructor
  · intro same was
    rw [← same, List.getElem?_set_self bound] at was
    cases was
  · intro asked
    refine List.ext_getElem? fun other => ?_
    by_cases same : ref = other
    · subst same
      rw [List.getElem?_set_self bound, List.getElem?_eq_getElem bound]
      rw [List.getElem?_eq_getElem bound] at asked
      cases was : stops[ref] with
      | true => rfl
      | false => exact absurd (congrArg some was) asked
    · rw [List.getElem?_set_ne same]

theorem Cancels.step {id : JobId} {done : Bool}
    (cancels : Cancels first (footprint engine) id stage)
    (ran : callStep env engine.shared done (.cancel id) stage = some (shared, moved)) :
    Cancels first (footprint ⟨shared, workers, calls⟩) id moved := by
  cases stage with
  | entered =>
      simp only [callStep] at ran
      split at ran
      · cases ran
        exact cancels
      · next found =>
          cases ran
          exact ⟨cancels, cancels ▸ found⟩
  | cancelFound ref =>
      obtain ⟨rfl, found⟩ := cancels
      simp only [callStep] at ran
      split at ran
      · cases ran
      · next locked read =>
          cases ran
          cases answer : (cancelLocked env locked).1 with
          | false =>
              refine @footprint_moves engine _ ref locked _ workers calls read
                (Locked.Moves.refl locked) ?_ rfl
              rw [cancelLocked_false answer]
          | true =>
              have stored := @footprint_store engine { engine.shared with
                  registry := engine.shared.registry.store ref (cancelLocked env locked).2 }
                ref locked _ workers calls read (extends_cancelLocked locked) rfl rfl
              have bound : ref < (footprint engine).stops.length := by
                simpa only [footprint, List.length_map] using
                  (List.getElem?_eq_some_iff.mp (Registry.locked_eq_some read).1).1
              have asked : (footprint engine).stopOf id = (footprint engine).stops[ref]? := by
                rw [Footprint.stopOf, found, Option.bind_some]
              rw [stop_of_cancelLocked answer] at stored
              rw [Cancels, stored, asked, ← set_stop_eq_iff bound]
              exact ⟨congrArg Footprint.stops, fun same => by rw [same]⟩
  | returnedBool answer => cases ran
  | _ => exact False.elim cancels

theorem Swaps.step {config : SchedulerConfig} {done : Bool}
    (swaps : Swaps first (footprint engine) config stage)
    (ran : callStep env engine.shared done (.setScheduler config) stage = some (shared, moved)) :
    Swaps first (footprint ⟨shared, workers, calls⟩) config moved := by
  cases stage with
  | entered =>
      simp only [callStep] at ran
      split at ran <;> cases ran <;> exact swaps
  | swapScheduler =>
      simp only [callStep] at ran
      split at ran
      · cases ran
        exact swaps
      · next queue swapped =>
          cases ran
          have configured : queue.config = config := by
            unfold TaskQueue.setScheduler at swapped
            split at swapped
            · cases swapped
            · split at swapped
              · cases swapped
              · cases swapped
                rfl
          rw [Swaps, ← swaps]
          simp only [footprint, configured]
  | returned => cases ran
  | threw what => cases ran
  | _ => exact False.elim swaps

/-- A step of `submit` throws late only where the job is registered. -/
theorem not_failsLate_submitting {answers : Answers} {request : Request BuiltinTask} {late : Prop}
    (last : engine.calls.getLast? = some ⟨request, stage⟩)
    (other : ∀ draft, stage ≠ .registerSubmission draft) (calm : ¬ late) :
    ¬ (late ∨ Handler.submitting.FailsLate engine answers) := by
  rintro (already | ⟨⟨_, draft, is⟩, _⟩)
  · exact calm already
  · rw [last] at is
    cases is
    exact other draft rfl

theorem Submits.step {answers : Answers} {task : Option BuiltinTask} {options : SubmissionOptions}
    {done : Bool} {late : Prop} (submits : Submits first (footprint engine) late stage)
    (last : engine.calls.getLast? = some ⟨.submit task options, stage⟩)
    (ran : callStep env engine.shared done (.submit task options) stage = some (shared, moved)) :
    Submits first (footprint ⟨shared, workers, calls⟩)
      (late ∨ Handler.submitting.FailsLate engine answers) moved := by
  have calm := @not_failsLate_submitting engine stage answers _ late last
  cases callTransition_of_step ran with
  | reject what early =>
      cases stage with
      | entered =>
          have quiet := calm (fun draft is => by cases is) submits.1
          exact ⟨fun _ => quiet, fun _ => submits.2⟩
      | journalSubmission draft =>
          have quiet := calm (fun draft is => by cases is) submits.1
          exact ⟨fun _ => quiet, fun _ => submits.2⟩
      | registerSubmission draft =>
          obtain ⟨quiet, _, unjournaled⟩ := submits
          have full : Registry.limit ≤ engine.shared.registry.records.length :=
            Nat.not_lt.mp (not_accepts_of_threw rfl ran)
          have fails : Handler.submitting.FailsLate engine answers ↔
              engine.shared.registry.journal.isSome = true :=
            ⟨fun late => late.2.2, fun journaled => ⟨⟨_, draft, last⟩, full, journaled⟩⟩
          have journaled : (footprint engine).journaled = none ↔
              engine.shared.registry.journal = none := Option.map_eq_none_iff
          refine unjournaled.trans (journaled.trans ?_)
          rw [fails, or_iff_right quiet, Option.not_isSome_iff_eq_none]
      | journalRestore submittedAt => cases ran
      | registerRestore submittedAt => cases ran
      | swapScheduler => cases ran
      | _ => exact False.elim early
  | beginSubmit is accepting => exact ⟨calm (fun draft is => by cases is) submits.1, submits.2⟩
  | drawId => exact ⟨calm (fun draft is => by cases is) submits.1, submits.2⟩
  | drawSequence => exact ⟨calm (fun draft is => by cases is) submits.1, submits.2⟩
  | unjournaledSubmission unjournaled =>
      obtain ⟨quiet, rfl⟩ := submits
      refine ⟨calm (fun draft is => by cases is) quiet, rfl, fun _ => ?_, fun _ => rfl⟩
      simp only [footprint, unjournaled, Option.map_none]
  | journalSubmission is journaled durable typed appended =>
      obtain ⟨quiet, rfl⟩ := submits
      refine ⟨calm (fun draft is => by cases is) quiet, rfl, fun same => ?_, fun nothing => ?_⟩
      · have journals := congrArg Footprint.journaled same
        simp only [footprint, journaled, Option.map_some] at journals
        rw [submissions_append] at journals
        simp [submissions, JournalRecord.submission?] at journals
      · cases nothing
  | registerSubmission is room =>
      obtain ⟨quiet, stops, _⟩ := submits
      refine ⟨?_, ?_⟩
      · rintro (already | ⟨_, full, _⟩)
        · exact quiet already
        · exact absurd room (Nat.not_lt.mpr full)
      · rw [← stops]
        simp [footprint, Registry.heap_emplace, Registry.make]
  | push accepted => exact ⟨calm (fun draft is => by cases is) submits.1, submits.2⟩
  | refuse refused => exact ⟨calm (fun draft is => by cases is) submits.1, submits.2⟩
  | raced read =>
      refine ⟨calm (fun draft is => by cases is) submits.1, ?_⟩
      have same := @footprint_moves engine { engine.shared with
          registry := engine.shared.registry.store _ _ } _ _ _ workers calls read
        (@moves_finishLocked _ env _ .cancelled (racedMessage (.submit task options))) rfl rfl
      rw [same]
      exact submits.2
  | beginRestore is accepting valid => cases is
  | beginReserve is nonzero => cases is
  | cancelMissing is missing => cases is
  | cancelFound is found => cases is
  | beginSetScheduler is => cases is
  | shutdownAgain is free joined => cases is
  | beginShutdown is free unjoined => cases is
  | _ => exact False.elim submits

end Calls

/-- How the handler goes on from its beginning, when this is asked. -/
inductive Entered (engine : State BuiltinTask) (asked : Option (Request BuiltinTask)) :
    State BuiltinTask × Handler → Prop
  | reject : Entered engine asked (engine, .rejecting)
  | fail (what : Bytes) : Entered engine asked (engine, .failing what)
  | reply (nothing : asked = none) (message : Bytes) (stops : Bool) :
      Entered engine asked (engine, .replying okKind message stops)
  | submit {type : Bytes} {arguments : List Bytes} {priority : Int32}
      {request : Request BuiltinTask} (is : asked = some request)
      (commanded : (Command.submit type arguments priority).request? = some request) :
      Entered engine asked (call engine request .submitting)
  | kill {id : JobId} (is : asked = some (.cancel id)) (known : Bool) :
      Entered engine asked (call engine (.cancel id) (.killing id known))
  | schedule {config : SchedulerConfig} (is : asked = some (.setScheduler config)) :
      Entered engine asked (call engine (.setScheduler config) (.scheduling config))

theorem command_of_readSubmit {fields : List Bytes} {request : Request BuiltinTask}
    (read : readSubmit fields = .ok request) :
    ∃ type arguments priority, (Command.submit type arguments priority).request? = some request := by
  unfold readSubmit at read
  split at read
  · next type rest =>
      split at read
      · cases read
      · split at read
        · cases read
        · split at read
          · cases read
          · next priority _ =>
              split at read
              · cases read
              · next created made =>
                  cases read
                  exact ⟨type, rest.take (requiredArguments type), priority, by
                    simp only [Command.request?, made]⟩
  · cases read

theorem submits_of_command {type : Bytes} {arguments : List Bytes} {priority : Int32}
    {request : Request BuiltinTask}
    (is : (Command.submit type arguments priority).request? = some request) :
    request.submits = true := by
  simp only [Command.request?] at is
  split at is
  · cases is
    rfl
  · cases is

/-- A command that calls nothing. -/
theorem asked?_eq_none {config : SchedulerConfig} {fields : List Bytes} {command : Bytes}
    (head : fields.head? = some command) (submit : command ≠ text "submit")
    (kill : command ≠ text "kill") (scheduler : command ≠ text "scheduler") :
    asked? config fields = none := by
  simp only [asked?, head, Option.bind_some, if_neg submit, if_neg kill, if_neg scheduler]

theorem entered_dispatchCommand (engine : State BuiltinTask)
    (recovery : Except Bytes RecoveryReport) {fields : List Bytes} {command : Bytes}
    (head : fields.head? = some command) :
    Entered engine (asked? engine.shared.queue.config fields)
      (dispatchCommand engine recovery fields command) := by
  unfold dispatchCommand
  refine iteInduction (fun is => ?submit) fun submit => ?_
  case submit =>
    have asked : asked? engine.shared.queue.config fields = (readSubmit fields).toOption := by
      simp only [asked?, head, Option.bind_some, if_pos is]
    cases read : readSubmit fields with
    | error what => exact .fail what
    | ok request =>
        obtain ⟨type, arguments, priority, commanded⟩ := command_of_readSubmit read
        exact .submit (asked.trans (by rw [read]; rfl)) commanded
  refine iteInduction (fun is => ?ps) fun _ => ?_
  case ps =>
    have nothing := @asked?_eq_none engine.shared.queue.config _ _ head submit
      (is ▸ by decide) (is ▸ by decide)
    exact iteInduction (fun _ => .fail _) fun _ => .reply nothing _ _
  refine iteInduction (fun is => ?history) fun _ => ?_
  case history =>
    have nothing := @asked?_eq_none engine.shared.queue.config _ _ head submit
      (is ▸ by decide) (is ▸ by decide)
    refine iteInduction (fun _ => .fail _) fun _ => ?_
    cases recovery with
    | error what => exact .fail what
    | ok report => exact .reply nothing _ _
  refine iteInduction (fun is => ?kill) fun kill => ?_
  case kill =>
    have asked : asked? engine.shared.queue.config fields =
        (readKill fields).toOption.map .cancel := by
      simp only [asked?, head, Option.bind_some, if_neg submit, if_pos is]
    cases read : readKill fields with
    | error what => exact .fail what
    | ok id => exact .kill (asked.trans (by rw [read]; rfl)) _
  refine iteInduction (fun is => ?scheduler) fun scheduler => ?_
  case scheduler =>
    have asked : asked? engine.shared.queue.config fields =
        (readScheduler engine.shared.queue.config fields).toOption.map .setScheduler := by
      simp only [asked?, head, Option.bind_some, if_neg submit, if_neg kill, if_pos is]
    cases read : readScheduler engine.shared.queue.config fields with
    | error what => exact .fail what
    | ok config => exact .schedule (asked.trans (by rw [read]; rfl))
  have nothing := @asked?_eq_none engine.shared.queue.config _ _ head submit kill scheduler
  refine iteInduction (fun _ => .reply nothing _ _) fun _ => ?_
  refine iteInduction (fun _ => .reply nothing _ _) fun _ => ?_
  refine iteInduction (fun _ => ?shutdown) fun _ => .fail _
  case shutdown => exact iteInduction (fun _ => .fail _) fun _ => .reply nothing _ _

theorem entered_enter (engine : State BuiltinTask) (recovery : Except Bytes RecoveryReport)
    (request : ProtocolMessage) :
    Entered engine (asked? engine.shared.queue.config request.fields)
      (enter engine recovery request) := by
  unfold enter
  split
  · exact .reject
  · next command rest fields =>
      refine iteInduction (fun _ => .reject) fun _ => entered_dispatchCommand _ _ ?_
      rw [fields]
      rfl

theorem waitForCall_cases {engine next : State BuiltinTask} {env : Environment}
    {handler moved : Handler} (waited : waitForCall engine env handler = some (next, moved)) :
    ∃ last, engine.calls.getLast? = some last ∧
      ((resume handler last.stage = some moved ∧ next = engine) ∨
        (resume handler last.stage = none ∧ moved = handler ∧
          engine.step (.call (engine.calls.length - 1) env) = some next)) := by
  unfold waitForCall at waited
  split at waited
  · cases waited
  · next last found =>
      refine ⟨last, found, ?_⟩
      split at waited
      · next resumed =>
          cases waited
          exact .inl ⟨resumed, rfl⟩
      · next waits =>
          split at waited
          · cases waited
          · next stepped =>
              cases waited
              exact .inr ⟨waits, rfl, stepped⟩

theorem lastCall_step {engine next : State BuiltinTask} {env : Environment}
    {request : Request BuiltinTask} {stage : Stage}
    (last : engine.calls.getLast? = some ⟨request, stage⟩)
    (stepped : engine.step (.call (engine.calls.length - 1) env) = some next) :
    ∃ shared moved, callStep env engine.shared engine.done request stage = some (shared, moved) ∧
      next = ⟨shared, engine.workers,
        engine.calls.set (engine.calls.length - 1) ⟨request, moved⟩⟩ ∧
      next.calls.getLast? = some ⟨request, moved⟩ := by
  have found : engine.calls[engine.calls.length - 1]? = some ⟨request, stage⟩ := by
    rw [← List.getLast?_eq_getElem?, last]
  have bound := (List.getElem?_eq_some_iff.mp found).1
  obtain ⟨shared, moved, ran, rfl⟩ := callStep_of_step found stepped
  refine ⟨shared, moved, ran, rfl, ?_⟩
  rw [List.getLast?_eq_getElem?, List.length_set, List.getElem?_set_self bound]

/-! ## The steps of the handler -/

@[simp] theorem Footprint.demands_none (print : Footprint) : ¬ print.Demands none := by
  simp [Footprint.Demands]

@[simp] theorem Footprint.demands_some (print : Footprint) (request : Request BuiltinTask) :
    print.Demands (some request) ↔ print.Changes request := by
  simp [Footprint.Demands]

/-- What is known where the handler stands, from the footprint at the beginning, from
what is asked and from whether a step has thrown late. -/
def Handler.Accounts (first : Footprint) (asked : Option (Request BuiltinTask)) (late : Prop)
    (print : Footprint) (calls : List (Call BuiltinTask)) : Handler → Prop
  | .entered | .rejecting => ¬ late ∧ print = first
  | .submitting => ∃ task options stage, asked = some (.submit task options) ∧
      calls.getLast? = some ⟨.submit task options, stage⟩ ∧ Submits first print late stage
  | .killing id _ => ¬ late ∧ asked = some (.cancel id) ∧
      ∃ stage, calls.getLast? = some ⟨.cancel id, stage⟩ ∧ Cancels first print id stage
  | .scheduling config => ¬ late ∧ asked = some (.setScheduler config) ∧
      ∃ stage, calls.getLast? = some ⟨.setScheduler config, stage⟩ ∧ Swaps first print config stage
  | .observing _ => ¬ late ∧ first.Demands asked ∧ print ≠ first
  | .replying kind _ _ => ¬ late ∧ ((kind = okKind ∧ (print = first ↔ ¬ first.Demands asked)) ∨
      (kind = errorKind ∧ print = first))
  | .failing _ => print = first ↔ ¬ (first.Demands asked ∧ late)
  | .left reply => ∀ delivered ∈ reply, delivered.kind = errorKind →
      (print = first ↔ ¬ (first.Demands asked ∧ late))

/-- Nothing has thrown late, and nothing is changed. -/
theorem unchanged_iff {first print : Footprint} {asked : Option (Request BuiltinTask)} {late : Prop}
    (quiet : ¬ late) (same : print = first) : print = first ↔ ¬ (first.Demands asked ∧ late) :=
  ⟨fun _ both => quiet both.2, fun _ => same⟩

section Steps

variable {engine next : State BuiltinTask} {answers : Answers} {request : ProtocolMessage}
  {handler moved : Handler} {first : Footprint} {asked : Option (Request BuiltinTask)} {late : Prop}

theorem accounts_entered (quiet : ¬ late)
    (entered : Entered engine (asked? engine.shared.queue.config request.fields) (next, moved)) :
    moved.Accounts (footprint engine) (asked? engine.shared.queue.config request.fields) late
      (footprint next) next.calls := by
  cases entered with
  | reject => exact ⟨quiet, rfl⟩
  | fail what => exact unchanged_iff quiet rfl
  | reply nothing message stops =>
      refine ⟨quiet, .inl ⟨rfl, fun _ => ?_, fun _ => rfl⟩⟩
      rw [nothing]
      exact Footprint.demands_none _
  | @submit _ _ _ request is commanded =>
      have submits := submits_of_command commanded
      cases request with
      | submit task options => exact ⟨task, options, .entered, is, List.getLast?_concat, quiet, rfl⟩
      | _ => cases submits
  | kill is known => exact ⟨quiet, is, .entered, List.getLast?_concat, rfl⟩
  | schedule is => exact ⟨quiet, is, .entered, List.getLast?_concat, rfl⟩

theorem accounts_submitting
    (accounts : Handler.submitting.Accounts first asked late (footprint engine) engine.calls)
    (waited : waitForCall engine answers.env .submitting = some (next, moved)) :
    moved.Accounts first asked (late ∨ Handler.submitting.FailsLate engine answers)
      (footprint next) next.calls := by
  obtain ⟨task, options, stage, is, last, submits⟩ := accounts
  have demands : first.Demands asked := by
    rw [is, Footprint.demands_some]
    trivial
  obtain ⟨found, same, ⟨resumed, rfl⟩ | ⟨_, rfl, ran⟩⟩ := waitForCall_cases waited
  · rw [last] at same
    cases same
    have calm := fun other => @not_failsLate_submitting _ _ answers _ late last other
    cases stage with
    | threw what =>
        cases resumed
        apply submits.trans
        apply not_congr
        constructor
        · exact fun already => ⟨demands, .inl already⟩
        · intro both
          by_contra quiet
          exact calm (fun draft is => by cases is) quiet both.2
    | returnedHandle id ref =>
        cases resumed
        refine ⟨calm (fun draft is => by cases is) submits.1, demands, fun same => ?_⟩
        exact absurd submits.2 (by rw [same]; exact Nat.lt_irrefl _)
    | _ => cases resumed
  · obtain ⟨shared, moved, called, rfl, lastNext⟩ := lastCall_step last ran
    exact ⟨task, options, moved, is, lastNext, submits.step last called⟩

theorem accounts_killing {id : JobId} {known : Bool}
    (accounts : (Handler.killing id known).Accounts first asked late (footprint engine)
      engine.calls)
    (waited : waitForCall engine answers.env (.killing id known) = some (next, moved)) :
    moved.Accounts first asked late (footprint next) next.calls := by
  obtain ⟨quiet, is, stage, last, cancels⟩ := accounts
  obtain ⟨found, same, ⟨resumed, rfl⟩ | ⟨_, rfl, ran⟩⟩ := waitForCall_cases waited
  · rw [last] at same
    cases same
    cases stage with
    | returnedBool answer =>
        cases resumed
        cases answer with
        | true =>
            refine ⟨quiet, .inl ⟨rfl, cancels.trans ?_⟩⟩
            rw [is, Footprint.demands_some]
            exact Iff.rfl
        | false => exact ⟨quiet, .inr ⟨rfl, cancels⟩⟩
    | threw what => exact cancels.elim
    | _ => cases resumed
  · obtain ⟨shared, moved, called, rfl, lastNext⟩ := lastCall_step last ran
    exact ⟨quiet, is, moved, lastNext, cancels.step called⟩

theorem accounts_scheduling {config : SchedulerConfig}
    (accounts : (Handler.scheduling config).Accounts first asked late (footprint engine)
      engine.calls)
    (waited : waitForCall engine answers.env (.scheduling config) = some (next, moved)) :
    moved.Accounts first asked late (footprint next) next.calls := by
  obtain ⟨quiet, is, stage, last, swaps⟩ := accounts
  obtain ⟨found, same, ⟨resumed, rfl⟩ | ⟨_, rfl, ran⟩⟩ := waitForCall_cases waited
  · rw [last] at same
    cases same
    cases stage with
    | returned =>
        cases resumed
        refine ⟨quiet, .inl ⟨rfl, ?_⟩⟩
        rw [is, Footprint.demands_some, show footprint next = { first with config } from swaps]
        constructor
        · exact fun same other => other (congrArg Footprint.config same)
        · intro same
          rw [not_not.mp same]
    | threw what =>
        cases resumed
        exact unchanged_iff quiet swaps
    | _ => cases resumed
  · obtain ⟨shared, moved, called, rfl, lastNext⟩ := lastCall_step last ran
    exact ⟨quiet, is, moved, lastNext, swaps.step called⟩

/-- What is known is kept by a step of the handler, which may be one that throws late. -/
theorem Handler.Accounts.step
    (accounts : handler.Accounts first (asked? first.config request.fields) late
      (footprint engine) engine.calls)
    (stepped : handleRequest engine answers request handler = some (next, moved)) :
    moved.Accounts first (asked? first.config request.fields)
      (late ∨ handler.FailsLate engine answers) (footprint next) next.calls := by
  cases handler with
  | entered =>
      obtain ⟨quiet, rfl⟩ := accounts
      have entered := entered_enter engine answers.recovery request
      rw [Option.some.inj stepped] at entered
      exact accounts_entered (not_or.mpr ⟨quiet, not_false⟩) entered
  | submitting => exact accounts_submitting accounts stepped
  | killing id known =>
      rw [show late ∨ (Handler.killing id known).FailsLate engine answers ↔ late from
        or_iff_left not_false]
      exact accounts_killing accounts stepped
  | scheduling config =>
      rw [show late ∨ (Handler.scheduling config).FailsLate engine answers ↔ late from
        or_iff_left not_false]
      exact accounts_scheduling accounts stepped
  | observing id =>
      obtain ⟨quiet, demands, changed⟩ := accounts
      simp only [handleRequest] at stepped
      split at stepped
      · next what failed =>
          cases stepped
          have late : (Handler.observing id).FailsLate engine answers := by
            rw [Handler.FailsLate, failed]
            rfl
          exact ⟨fun same => absurd same changed, fun calm => absurd ⟨demands, .inr late⟩ calm⟩
      · next created =>
          cases stepped
          constructor
          · apply not_or.mpr
            exact ⟨quiet, fun fails => by rw [Handler.FailsLate, created] at fails; cases fails⟩
          · exact .inl ⟨rfl, fun same => absurd same changed, fun calm => absurd demands calm⟩
  | replying kind message stops =>
      obtain ⟨quiet, which⟩ := accounts
      simp only [handleRequest] at stepped
      split at stepped
      · next what failed =>
          cases stepped
          rcases which with ⟨ok, same⟩ | ⟨error, same⟩
          · have late : (Handler.replying kind message stops).FailsLate engine answers :=
              ⟨ok, by rw [failed]; rfl⟩
            apply same.trans
            exact not_congr ⟨fun demands => ⟨demands, .inr late⟩, And.left⟩
          · apply fun calm => unchanged_iff calm same
            apply not_or.mpr
            exact ⟨quiet, fun fails => absurd (fails.1.symm.trans error) (by decide)⟩
      · next sent =>
          cases stepped
          rintro delivered ⟨⟩ is
          rcases which with ⟨ok, _⟩ | ⟨_, same⟩
          · exact absurd (ok.symm.trans is) (by decide)
          · apply fun calm => unchanged_iff calm same
            apply not_or.mpr
            exact ⟨quiet, fun fails => by rw [Handler.FailsLate, sent] at fails; cases fails.2⟩
  | failing what =>
      rw [show late ∨ (Handler.failing what).FailsLate engine answers ↔ late from
        or_iff_left not_false]
      simp only [handleRequest] at stepped
      split at stepped
      · cases stepped
        exact fun delivered member => by cases member
      · cases stepped
        exact fun _ _ _ => accounts
  | rejecting =>
      obtain ⟨quiet, unchanged⟩ := accounts
      simp only [handleRequest] at stepped
      split at stepped
      · cases stepped
        exact fun delivered member => by cases member
      · cases stepped
        exact fun _ _ _ => unchanged_iff (not_or.mpr ⟨quiet, not_false⟩) unchanged
  | left reply => cases stepped

end Steps

/-! ## The handling of a request -/

/-- The daemon has received a request. -/
def Service.receives (service : Service) (request : ProtocolMessage) : Service :=
  { service with handling := some (request, .entered) }

/-- The handling of a request so far. -/
structure Handled (first : Footprint) (request : ProtocolMessage)
    (trace : List (Taken Service ServiceEvent)) (service : Service) : Prop where
  ready : service.life.ready = true
  accounts : ∃ handler, service.handling = some (request, handler) ∧
    handler.Accounts first (asked? first.config request.fields)
      (∃ taken ∈ trace, FailsLate taken) (footprint service.life.engine) service.life.engine.calls

section Handling

variable {first : Footprint} {request : ProtocolMessage} {service next : Service}
  {trace : List (Taken Service ServiceEvent)} {event : ServiceEvent}

theorem failsLate_append (last : Taken Service ServiceEvent) :
    (∃ taken ∈ trace ++ [last], FailsLate taken) ↔
      (∃ taken ∈ trace, FailsLate taken) ∨ FailsLate last := by
  simp only [List.mem_append, List.mem_singleton, or_and_right, exists_or, exists_eq_left]

theorem failsLate_serve {handler : Handler} {answers : Answers} {after : Service}
    (handling : service.handling = some (request, handler)) :
    FailsLate ⟨service, .serve answers, after⟩ ↔ handler.FailsLate service.life.engine answers := by
  constructor
  · rintro ⟨_, _, _, found, ⟨⟩, late⟩
    rw [handling] at found
    cases found
    exact late
  · exact fun late => ⟨request, handler, answers, handling, rfl, late⟩

theorem Handled.worker {index : Nat} {env : Environment}
    (handled : Handled first request trace service)
    (stepped : service.step (.worker index env) = some next) :
    Handled first request (trace ++ [⟨service, .worker index env, next⟩]) next := by
  obtain ⟨handler, handling, accounts⟩ := handled.accounts
  obtain ⟨engine, ran, rfl⟩ := Option.map_eq_some_iff.mp stepped
  have same : footprint engine = footprint service.life.engine ∧
      engine.calls = service.life.engine.calls := by
    cases transition_of_step ran with
    | worker found move => exact ⟨footprint_worker move, rfl⟩
  have harmless : ¬ FailsLate ⟨service, .worker index env,
      { service with life := { service.life with engine } }⟩ := by
    rintro ⟨_, _, _, _, ⟨⟩, _⟩
  refine ⟨handled.ready, handler, handling, ?_⟩
  rw [failsLate_append, or_iff_left harmless]
  simp only [same]
  exact accounts

theorem Handled.serve {answers : Answers} (handled : Handled first request trace service)
    (stepped : service.step (.serve answers) = some next) :
    Handled first request (trace ++ [⟨service, .serve answers, next⟩]) next := by
  obtain ⟨handler, handling, accounts⟩ := handled.accounts
  simp only [Service.step, handling] at stepped
  split at stepped
  · cases stepped
  · next engine moved ran =>
      cases stepped
      refine ⟨handled.ready, moved, rfl, ?_⟩
      rw [failsLate_append, failsLate_serve handling]
      exact accounts.step ran

theorem startup_of_ready {life : Lifetime} (ready : life.ready = true) (env : Environment)
    (observer : Option Bytes) : life.startup env observer = none := by
  simp only [Lifetime.ready, Bool.and_eq_true, Option.isNone_iff_eq_none, List.isEmpty_iff] at ready
  simp only [Lifetime.startup, ready.1, ready.2]

theorem Handled.step (handled : Handled first request trace service)
    (other : ∀ again, event ≠ .receive again) (stepped : service.step event = some next) :
    Handled first request (trace ++ [⟨service, event, next⟩]) next := by
  cases event with
  | startup env observer =>
      simp only [Service.step, startup_of_ready handled.ready] at stepped
      cases stepped
  | worker index env => exact handled.worker stepped
  | receive again => exact absurd rfl (other again)
  | serve answers => exact handled.serve stepped

theorem Handled.of_traces (ready : service.life.ready = true)
    (traced : Traces Service.step (service.receives request) trace next)
    (alone : ∀ taken ∈ trace, ∀ again, taken.action ≠ .receive again) :
    Handled (footprint service.life.engine) request trace next := by
  induction traced with
  | refl =>
      refine ⟨ready, .entered, rfl, ?_, rfl⟩
      rintro ⟨taken, member, _⟩
      exact absurd member List.not_mem_nil
  | tail event _ stepped ih =>
      obtain ⟨old, last⟩ := List.forall_mem_append.mp alone
      exact (ih old).step (last _ List.mem_cons_self) stepped

end Handling

/-- A request that is answered with an `ERROR` has left the registered jobs, the
journaled submissions, the stop requests and the configuration of the scheduler as
they were, unless it asks for a change and a step has thrown behind it: there is no
thread for the observer, the `OK` cannot be sent, or a submission finds no room. -/
theorem error_unchanged_iff (service later : Service) (request delivered : ProtocolMessage)
    (trace : List (Taken Service ServiceEvent)) (ready : service.life.ready = true)
    (traced : Traces Service.step (service.receives request) trace later)
    (alone : ∀ taken ∈ trace, ∀ again, taken.action ≠ .receive again)
    (answered : later.handling = some (request, .left (some delivered)))
    (error : delivered.kind = errorKind) :
    footprint later.life.engine = footprint service.life.engine ↔
      ¬ ((footprint service.life.engine).Demands
          (asked? service.life.engine.shared.queue.config request.fields) ∧
        ∃ taken ∈ trace, FailsLate taken) := by
  obtain ⟨handler, handling, accounts⟩ := (Handled.of_traces ready traced alone).accounts
  rw [answered] at handling
  cases handling
  exact accounts delivered rfl error

/-! ## A submission whose observer cannot be made -/

/-- A daemon with one worker on an empty log. -/
def idleService : Service where
  life := { engine := .make ⟨.fifo [], {}, false⟩ 1 0 (some []) }

def primeRequest : ProtocolMessage := ⟨7, requestKind, [text "submit", text "prime", text "10"]⟩

/-- The job is accepted, there is no thread for its observer, and the error is sent. -/
def unobservedEvents : List ServiceEvent :=
  List.replicate 8 (.serve {}) ++
    [.serve { observer := some (text "Resource temporarily unavailable") }, .serve {}]

private theorem unobserved_ran :
    (traceAll Service.step (idleService.receives primeRequest) unobservedEvents).isSome = true := by
  decide +kernel

def unobservedRun : List (Taken Service ServiceEvent) × Service := Option.get _ unobserved_ran

theorem unobservedRun_traced :
    Traces Service.step (idleService.receives primeRequest) unobservedRun.1 unobservedRun.2 :=
  traces_of_traceAll (Option.some_get unobserved_ran).symm

/-- The reply is an `ERROR`, and the job is there. -/
theorem accepted_submission_answered_with_error :
    (World.step {} (.start {} 1 0)).bind World.life = some idleService.life ∧
      idleService.life.ready = true ∧
      Traces Service.step (idleService.receives primeRequest) unobservedRun.1 unobservedRun.2 ∧
      unobservedRun.2.handling = some (primeRequest,
        .left (some ⟨7, errorKind, [text "Resource temporarily unavailable"]⟩)) ∧
      (footprint idleService.life.engine).registered = [] ∧
      (footprint unobservedRun.2.life.engine).registered = [(1, 0)] ∧
      (footprint unobservedRun.2.life.engine).journaled.map List.length = some 1 :=
  ⟨by decide +kernel, rfl, unobservedRun_traced, by decide +kernel, rfl, by decide +kernel,
    by decide +kernel⟩

def killRequest : ProtocolMessage := ⟨8, requestKind, [text "kill", text "5"]⟩

private theorem unknown_ran :
    (traceAll Service.step (idleService.receives killRequest)
      (List.replicate 4 (.serve {}))).isSome = true := by
  decide +kernel

/-- A job is to be killed that is not there. -/
def unknownRun : List (Taken Service ServiceEvent) × Service := Option.get _ unknown_ran

theorem unknownRun_unchanged :
    unknownRun.2.handling = some (killRequest, .left (some ⟨8, errorKind, [text "job not found"]⟩)) ∧
      footprint unknownRun.2.life.engine = footprint idleService.life.engine := by
  have ran : traceAll Service.step (idleService.receives killRequest) (List.replicate 4 (.serve {})) =
      some (unknownRun.1, unknownRun.2) := (Option.some_get unknown_ran).symm
  have answered : unknownRun.2.handling =
      some (killRequest, .left (some ⟨8, errorKind, [text "job not found"]⟩)) := by decide +kernel
  have alone : ∀ taken ∈ unknownRun.1, ∀ again, taken.action ≠ .receive again := by
    intro taken member again
    have is : taken.action ∈ unknownRun.1.map (·.action) := List.mem_map_of_mem member
    rw [actions_of_traceAll ran] at is
    rw [List.eq_of_mem_replicate is]
    nofun
  have unasked : ¬ (footprint idleService.life.engine).Demands
      (asked? idleService.life.engine.shared.queue.config killRequest.fields) := by
    rw [show asked? idleService.life.engine.shared.queue.config killRequest.fields =
      some (.cancel 5) from rfl, Footprint.demands_some]
    exact fun changes => by cases changes
  exact ⟨answered, (error_unchanged_iff idleService unknownRun.2 killRequest _ unknownRun.1 rfl
    (traces_of_traceAll ran) alone answered rfl).mpr fun both => unasked both.1⟩

end Kronos.Daemon
