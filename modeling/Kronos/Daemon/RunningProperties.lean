import Kronos.Daemon.History
import Kronos.Daemon.RunningMoves

/-!
# The observers of the running daemon

Every handle of a call is observed by one observer, and an observer that has found its
future ready holds the result that was published. The observers are joined when the
engine is drained.
-/

set_option autoImplicit false

namespace Kronos.Daemon

open Engine Wal Ipc Threads

/-- The job that an observer has not announced yet. -/
def Observer.pending? (observer : Observer) : Option JobId :=
  if observer.watch = .finished then none else some observer.id

namespace Running

/-- The calls whose handles have been dealt with. -/
def settled (running : Running) : List (Call BuiltinTask) :=
  if running.awaits then running.calls.dropLast else running.calls

/-- The jobs that were announced, missed or are still observed. -/
def watched (running : Running) : List JobId :=
  running.announced.map (·.id) ++ running.missed ++
    running.observers.filterMap Observer.pending?

/-- The handles of the daemon's calls are observed once. -/
structure Attended (running : Running) : Prop where
  serial : ∀ call ∈ running.calls.dropLast, call.stage.ended = true
  rest : running.waits = false → ∀ call ∈ running.calls, call.stage.ended = true
  asked : running.waits = true →
    ∃ call, running.calls.getLast? = some call ∧ running.awaits = call.request.makesJob
  accounted : running.watched.Perm ((handles running.settled).map Prod.fst)

section Steps

variable {running next : Running}

theorem handles_concat (calls : List (Call BuiltinTask)) (call : Call BuiltinTask) :
    handles (calls ++ [call]) = handles calls ++ call.handle?.toList := by
  rw [handles, handles, List.filterMap_append, filterMap_cons_toList]
  simp

theorem Unwatched.watched_eq (unwatched : Unwatched running next) :
    next.watched = running.watched := by
  rw [watched, watched, unwatched.observers, unwatched.announced, unwatched.missed]

/-- What is settled with and without the last call. -/
theorem handles_settled {earlier : List (Call BuiltinTask)} {call : Call BuiltinTask}
    (calls : running.calls = earlier ++ [call]) :
    handles running.settled =
      handles earlier ++ if running.awaits then [] else call.handle?.toList := by
  rw [settled, calls, List.dropLast_concat]
  cases running.awaits with
  | true => exact (List.append_nil _).symm
  | false => exact handles_concat earlier call

theorem serial_last {call : Call BuiltinTask} (attended : Attended running)
    (last : running.calls.getLast? = some call) (ended : call.stage.ended = true) :
    ∀ other ∈ running.calls, other.stage.ended = true := by
  obtain ⟨earlier, calls⟩ := List.getLast?_eq_some_iff.mp last
  have serial := attended.serial
  rw [calls, List.dropLast_concat] at serial
  rw [calls]
  exact forall_mem_concat serial ended

theorem ended_of_handle {call : Call BuiltinTask} {handle : JobId × RecordRef}
    (returned : call.handle? = some handle) : call.stage.ended = true := by
  obtain ⟨request, stage⟩ := call
  cases stage with
  | returnedHandle id ref => rfl
  | _ => cases returned

/-- A handle is observed, or its job is missed. -/
theorem watched_observe (running : Running) (failure : Option Bytes) (id : JobId)
    (ref : RecordRef) :
    (running.observe failure (some (id, ref))).watched.Perm (running.watched ++ [id]) := by
  cases failure with
  | none =>
      have added : (running.observers ++ [(⟨id, ref, .waiting⟩ : Observer)]).filterMap
          Observer.pending? = running.observers.filterMap Observer.pending? ++ [id] := by
        rw [List.filterMap_append]
        rfl
      rw [watched, watched, observe, added, List.append_assoc _ _ [id]]
  | some what =>
      simp only [watched, observe]
      rw [List.append_assoc, List.append_assoc, List.append_assoc, List.append_assoc]
      exact (List.perm_append_comm.append_left _).append_left _

theorem Attended.moves (attended : Attended running) (tidy : Tidy running)
    (moves : Moves running next) : Attended next := by
  obtain ⟨serial, rest, asked, accounted⟩ := attended
  cases moves with
  | stay calls waits awaits unwatched =>
      refine ⟨?_, ?_, ?_, ?_⟩
      · rw [calls]
        exact serial
      · rw [calls, waits]
        exact rest
      · rw [calls, waits, awaits]
        exact asked
      · rw [unwatched.watched_eq, settled, awaits, calls]
        exact accounted
  | @enter request calls free waits awaits unwatched =>
      refine ⟨?_, ?_, ?_, ?_⟩
      · rw [calls, List.dropLast_concat]
        exact rest free.1
      · intro unwaiting
        rw [waits] at unwaiting
        cases unwaiting
      · intro _
        exact ⟨⟨request, .entered⟩, by rw [calls, List.getLast?_concat], awaits⟩
      · have before : running.settled = running.calls := by
          rw [settled, free.2]
          rfl
        rw [before] at accounted
        rw [unwatched.watched_eq, handles_settled calls]
        have nothing : (if next.awaits then [] else
            (Call.handle? (⟨request, .entered⟩ : Call BuiltinTask)).toList) = [] := by
          split <;> rfl
        rw [nothing, List.append_nil]
        exact accounted
  | @move call stage last calls of waiting waits awaits unwatched =>
      obtain ⟨earlier, split⟩ := List.getLast?_eq_some_iff.mp last
      have after : next.calls = earlier ++ [{ call with stage }] := by
        rw [calls, split]
        simp
      obtain ⟨_, isLast, job⟩ := asked waiting
      rw [last] at isLast
      cases isLast
      refine ⟨?_, ?_, ?_, ?_⟩
      · rw [after, List.dropLast_concat]
        rw [split, List.dropLast_concat] at serial
        exact serial
      · intro unwaiting
        rw [waits] at unwaiting
        cases unwaiting
      · intro _
        refine ⟨{ call with stage }, ?_, awaits.trans job⟩
        rw [after, List.getLast?_concat]
      · rw [unwatched.watched_eq, handles_settled after, awaits]
        rw [handles_settled split] at accounted
        by_cases makes : running.awaits = true
        · rw [if_pos makes] at accounted ⊢
          exact accounted
        · -- a call that makes no job returns no handle
          have other : call.request.makesJob = false := by
            rw [← job]
            simpa using makes
          have inside : call ∈ running.life.engine.calls := List.mem_of_getLast? last
          rw [if_neg makes, silent_of_ended (tidy.staged call inside) other] at accounted
          rw [if_neg makes, show Call.handle? { call with stage } = none from
            silent_of_ended of other]
          exact accounted
  | @finish call last ended silent calls waits awaits unwatched =>
      have all := serial_last ⟨serial, rest, asked, accounted⟩ last ended
      obtain ⟨earlier, split⟩ := List.getLast?_eq_some_iff.mp last
      refine ⟨?_, ?_, ?_, ?_⟩
      · rw [calls]
        exact serial
      · rw [calls]
        exact fun _ => all
      · intro waiting
        rw [waits] at waiting
        cases waiting
      · rw [unwatched.watched_eq, handles_settled (calls.trans split), silent]
        rw [handles_settled split, silent] at accounted
        simpa using accounted
  | @take call last ended calls waits awaits unwatched =>
      have all := serial_last ⟨serial, rest, asked, accounted⟩ last ended
      refine ⟨?_, ?_, ?_, ?_⟩
      · rw [calls]
        exact serial
      · rw [calls]
        exact fun _ => all
      · intro waiting
        rw [waits] at waiting
        cases waiting
      · rw [unwatched.watched_eq, settled, awaits.1, calls]
        rw [settled, awaits.2] at accounted
        exact accounted
  | @observe call id ref failure last returned calls awaiting waits awaits observed =>
      have all := serial_last ⟨serial, rest, asked, accounted⟩ last (ended_of_handle returned)
      obtain ⟨earlier, split⟩ := List.getLast?_eq_some_iff.mp last
      refine ⟨?_, ?_, ?_, ?_⟩
      · rw [calls]
        exact serial
      · rw [calls]
        exact fun _ => all
      · intro waiting
        rw [waits] at waiting
        cases waiting
      · rw [observed.watched_eq, handles_settled (calls.trans split), awaits, returned]
        rw [handles_settled split, awaiting] at accounted
        refine (watched_observe running failure id ref).trans ?_
        have grown := accounted.append_right [id]
        simpa using grown

/-! ## Observers -/

/-- The result is the one that was given to the promise of its job, which is finished. -/
def Published (engine : State BuiltinTask) (result : JobResult) : Prop :=
  engine.published result.id = some [result] ∧ isTerminal result.state = true

/-- What the observers know is true of the engine. -/
structure Watching (running : Running) : Prop where
  observers : ∀ observer ∈ running.observers,
    running.life.engine.registry.find observer.id = some observer.ref ∧
      ∀ result, observer.watch = .announcing result →
        result.id = observer.id ∧ Published running.life.engine result
  announced : ∀ result ∈ running.announced, Published running.life.engine result

/-- A future that is ready holds the result of its job. -/
theorem published_of_result? (sound : Sound running.life.engine) {id : JobId} {ref : RecordRef}
    {result : JobResult} (found : running.life.engine.registry.find id = some ref)
    (ready : running.result? ref = some result) :
    result.id = id ∧ Published running.life.engine result := by
  obtain ⟨record, known, read, same⟩ := sound.registry.recordOf_eq found
  have ok := (sound.registry.recordOf_ok known).1
  have head : record.promise.head? = some result := by
    rw [result?, show running.life.engine.shared.registry.heap[ref]? = some record from read]
      at ready
    exact ready
  have promise := ok.promise
  rw [ok.published] at promise
  cases terminal : isTerminal record.snapshot.state with
  | false =>
      rw [promise, terminal] at head
      cases head
  | true =>
      rw [terminal, if_pos rfl] at promise
      rw [promise] at head
      cases head
      refine ⟨same, ?_, terminal⟩
      rw [State.published, show record.snapshot.result.id = id from same, known]
      exact congrArg some promise

theorem pending_set {index : Nat} {old : Observer} (new : Observer)
    (found : running.observers[index]? = some old) :
    (old.pending?.toList ++ (running.observers.set index new).filterMap Observer.pending?).Perm
      (new.pending?.toList ++ running.observers.filterMap Observer.pending?) :=
  filterMap_set_perm Observer.pending? found new

theorem Attended.watches (attended : Attended running) (watching : Watching running)
    (watches : Watches running next) : Attended next := by
  obtain ⟨serial, rest, asked, accounted⟩ := attended
  cases watches with
  | @ready index id ref result found published =>
      refine ⟨serial, rest, asked, List.Perm.trans ?_ accounted⟩
      have moved := pending_set ⟨id, ref, .announcing result⟩ found
      exact ((List.perm_append_left_iff [id]).mp moved).append_left _
  | @deliver index id ref result found =>
      refine ⟨serial, rest, asked, List.Perm.trans ?_ accounted⟩
      have moved := pending_set ⟨id, ref, .finished⟩ found
      have same := ((watching.observers _ (List.mem_of_getElem? found)).2 result rfl).1
      rw [watched, List.map_append, List.map_singleton, same, List.append_assoc _ [id]]
      refine ((List.perm_append_comm.append_left _).append_right _).trans ?_
      rw [← List.append_assoc, List.append_assoc _ [id]]
      exact moved.append_left _
  | @lose index id ref result found =>
      refine ⟨serial, rest, asked, List.Perm.trans ?_ accounted⟩
      have moved := pending_set ⟨id, ref, .finished⟩ found
      rw [watched, ← List.append_assoc, List.append_assoc _ [id]]
      exact moved.append_left _

/-! ## The lifetime -/

/-- What a step is for the lifetime of the daemon, what its appends do and whether its
observer is made. -/
def Lives (life next : Lifetime) (env : Environment) (observer : Option Bytes) : Prop :=
  next = life ∨ ∃ event : Event, life.step event = some next ∧
    (event.env = env ∨ event.env = {}) ∧ (event.observer = observer ∨ event.observer = none)

theorem lives_handle {life : Lifetime} {engine : State BuiltinTask} {answers : Answers}
    {request : ProtocolMessage} {handler moved : Handler} (ready : life.ready = true)
    (handled : handleRequest life.engine answers request handler = some (engine, moved)) :
    Lives life { life with engine } answers.env none := by
  have same : engine = life.engine → Lives life { life with engine } answers.env none := by
    rintro rfl
    exact .inl rfl
  have waits : ∀ handler, waitForCall life.engine answers.env handler = some (engine, moved) →
      Lives life { life with engine } answers.env none := by
    intro handler waited
    obtain ⟨last, found, ⟨_, is⟩ | ⟨_, _, ran⟩⟩ := waitForCall_cases waited
    · exact same is
    · refine .inr ⟨.call (life.engine.calls.length - 1) answers.env, ?_, .inl rfl, .inl rfl⟩
      simp only [Lifetime.step, ran, Option.map_some]
  have invokes : ∀ {command : Command} {request : Request BuiltinTask},
      command.request? = some request →
      Lives life { life with engine := (call life.engine request moved).1 } answers.env none := by
    intro command request is
    refine .inr ⟨.invoke command, ?_, .inr rfl, .inl rfl⟩
    simp only [Lifetime.step, ready, if_true, is, State.step, Option.map_some, call]
  cases handler with
  | entered =>
      have entered := entered_enter life.engine answers.recovery request
      rw [Option.some.inj handled] at entered
      cases entered with
      | reject => exact same rfl
      | fail what => exact same rfl
      | reply nothing message stops => exact same rfl
      | submit is commanded => exact invokes commanded
      | @kill id is known => exact invokes (show (Command.cancel id).request? = _ from rfl)
      | @schedule config is =>
          exact invokes (show (Command.setScheduler config).request? = _ from rfl)
  | submitting => exact waits _ handled
  | killing id known => exact waits _ handled
  | scheduling config => exact waits _ handled
  | left reply => cases handled
  | _ =>
      simp only [handleRequest] at handled
      split at handled <;> cases handled <;> exact same rfl

theorem lives_step {event : RunEvent} (tidy : Tidy running)
    (stepped : running.step event = some next) :
    Lives running.life next.life event.env event.observer := by
  cases event with
  | construct env observer =>
      obtain ⟨life, constructed, rfl⟩ := Option.map_eq_some_iff.mp stepped
      rw [life_observe]
      unfold Daemon.construct at constructed
      split at constructed
      · next started =>
          cases constructed
          exact .inr ⟨.startup env observer, started, .inl rfl, .inl rfl⟩
      · split at constructed
        · exact .inr ⟨.call _ env, constructed, .inl rfl, .inr rfl⟩
        · cases constructed
  | worker index env =>
      obtain ⟨engine, ran, rfl⟩ := Option.map_eq_some_iff.mp stepped
      refine .inr ⟨.worker index env, ?_, .inl rfl, .inl rfl⟩
      simp only [Lifetime.step, ran, Option.map_some]
      rfl
  | receive request =>
      simp only [step] at stepped
      split at stepped
      · obtain ⟨service, received, rfl⟩ := Option.map_eq_some_iff.mp stepped
        simp only [Service.step] at received
        left
        split at received
        · split at received
          · cases received
            rfl
          · cases received
            rfl
          · cases received
        · cases received
      · cases stepped
  | serve answers =>
      simp only [step] at stepped
      split at stepped
      · obtain ⟨service, served, rfl⟩ := Option.map_eq_some_iff.mp stepped
        rw [life_observe]
        simp only [Service.step] at served
        split at served
        · cases served
        · next request handler handling =>
            have ready : running.life.ready = true := by
              by_contra unready
              have idle := (tidy.starting (by simpa using unready)).1
              rw [handling] at idle
              cases idle
            split at served
            · cases served
            · next engine moved handled =>
                cases served
                exact lives_handle ready handled
      · cases stepped
  | leave =>
      simp only [step] at stepped
      split at stepped
      · next free =>
          obtain ⟨engine, ran, rfl⟩ := Option.map_eq_some_iff.mp stepped
          refine .inr ⟨.invoke (.shutdown .drain), ?_, .inr rfl, .inl rfl⟩
          simp only [Lifetime.step, free.2.1, if_true, Command.request?, ran, Option.map_some]
          rfl
      · cases stepped
  | drain env =>
      simp only [step] at stepped
      split at stepped
      · split at stepped
        · cases stepped
          exact .inl rfl
        · obtain ⟨engine, ran, rfl⟩ := Option.map_eq_some_iff.mp stepped
          refine .inr ⟨.call (running.calls.length - 1) env, ?_, .inl rfl, .inl rfl⟩
          simp only [Lifetime.step, ran, Option.map_some]
          rfl
      · cases stepped
  | join =>
      left
      simp only [step] at stepped
      split at stepped
      · split at stepped
        · cases stepped
          rfl
        · split at stepped
          · cases stepped
            rfl
          · cases stepped
      · cases stepped
  | ready index =>
      left
      simp only [step] at stepped
      split at stepped
      · obtain ⟨result, _, rfl⟩ := Option.map_eq_some_iff.mp stepped
        rfl
      · cases stepped
  | announce index send =>
      left
      simp only [step] at stepped
      split at stepped
      · split at stepped
        · cases stepped
          rfl
        · cases stepped
          rfl
      · cases stepped

/-- Registered jobs stay registered, and published results stay published. -/
structure Lasting (before after : State BuiltinTask) : Prop where
  found : ∀ id ref, before.registry.find id = some ref → after.registry.find id = some ref
  published : ∀ result, Published before result → Published after result

theorem Lasting.refl (engine : State BuiltinTask) : Lasting engine engine :=
  ⟨fun _ _ found => found, fun _ published => published⟩

theorem lasting_lifetime {life next : Lifetime} {event : Event} (sound : Sound life.engine)
    (stepped : life.step event = some next) : Lasting life.engine next.engine := by
  rcases Lifetime.step_cases stepped with ⟨action, ran, _⟩ | ⟨record, same⟩ | same
  · refine ⟨fun id ref found => find_step sound ran found, fun result published => ?_⟩
    obtain ⟨given, terminal⟩ := published
    obtain ⟨record, known, promise⟩ := Option.map_eq_some_iff.mp given
    have ok := (sound.registry.recordOf_ok known).1
    have finished : isTerminal record.snapshot.state = true := by
      by_contra live
      have nothing := ok.promise
      rw [ok.published, if_neg live, promise] at nothing
      cases nothing
    refine ⟨?_, terminal⟩
    rw [State.published, recordOf_step_of_terminal sound ran known finished]
    exact congrArg some promise
  · rw [same]
    exact ⟨fun _ _ found => found, fun _ published => published⟩
  · rw [same]
    exact .refl _

theorem Lives.lasting {life next : Lifetime} {env : Environment} {observer : Option Bytes}
    (lives : Lives life next env observer) (sound : Sound life.engine) :
    Lasting life.engine next.engine := by
  rcases lives with rfl | ⟨event, stepped, _⟩
  · exact .refl _
  · exact lasting_lifetime sound stepped

theorem Watching.lasts (watching : Watching running)
    (lasting : Lasting running.life.engine next.life.engine)
    (observers : ∀ observer ∈ next.observers, observer ∈ running.observers ∨
      (observer.watch = .waiting ∧
        running.life.engine.registry.find observer.id = some observer.ref))
    (announced : next.announced = running.announced) : Watching next := by
  refine ⟨?_, ?_⟩
  · intro observer member
    rcases observers observer member with old | ⟨waiting, found⟩
    · obtain ⟨found, told⟩ := watching.observers observer old
      refine ⟨lasting.found _ _ found, fun result announcing => ?_⟩
      obtain ⟨same, published⟩ := told result announcing
      exact ⟨same, lasting.published _ published⟩
    · refine ⟨lasting.found _ _ found, fun result announcing => ?_⟩
      rw [waiting] at announcing
      cases announcing
  · rw [announced]
    exact fun result member => lasting.published _ (watching.announced result member)

theorem Watching.moves (watching : Watching running) (sound : Sound running.life.engine)
    (lasting : Lasting running.life.engine next.life.engine) (moves : Moves running next) :
    Watching next := by
  have kept : Unwatched running next → Watching next := fun unwatched =>
    watching.lasts lasting (fun observer member => .inl (unwatched.observers ▸ member))
      unwatched.announced
  cases moves with
  | stay calls waits awaits unwatched => exact kept unwatched
  | enter calls free waits awaits unwatched => exact kept unwatched
  | move last calls of waiting waits awaits unwatched => exact kept unwatched
  | finish last ended silent calls waits awaits unwatched => exact kept unwatched
  | take last ended calls waits awaits unwatched => exact kept unwatched
  | @observe call id ref failure last returned calls awaiting waits awaits observed =>
      have found : running.life.engine.registry.find id = some ref := by
        have refers := sound.calls call (List.mem_of_getLast? last)
        obtain ⟨request, stage⟩ := call
        cases stage with
        | returnedHandle one two =>
            cases returned
            exact refers
        | _ => cases returned
      refine watching.lasts lasting (fun observer member => ?_) ?_
      · rw [observed.observers] at member
        cases failure with
        | none =>
            rcases List.mem_append.mp member with old | new
            · exact .inl old
            · rw [List.mem_singleton.mp new]
              exact .inr ⟨rfl, found⟩
        | some what => exact .inl member
      · rw [observed.announced]
        cases failure <;> rfl

theorem Watching.watches (watching : Watching running) (sound : Sound running.life.engine)
    (watches : Watches running next) : Watching next := by
  cases watches with
  | ready found published =>
      have known := (watching.observers _ (List.mem_of_getElem? found)).1
      refine ⟨forall_mem_set watching.observers ⟨known, fun result announcing => ?_⟩,
        watching.announced⟩
      cases announcing
      exact published_of_result? sound known published
  | deliver found =>
      obtain ⟨known, told⟩ := watching.observers _ (List.mem_of_getElem? found)
      refine ⟨forall_mem_set watching.observers ⟨known, fun result announcing => ?_⟩,
        forall_mem_concat watching.announced (told _ rfl).2⟩
      cases announcing
  | lose found =>
      have known := (watching.observers _ (List.mem_of_getElem? found)).1
      refine ⟨forall_mem_set watching.observers ⟨known, fun result announcing => ?_⟩,
        watching.announced⟩
      cases announcing

/-! ## The joins -/

/-- The observers are joined when the engine is drained, one after the other. -/
structure Joined (running : Running) : Prop where
  ended : ∀ index, running.stage = .joining index → index ≤ running.observers.length ∧
    ∀ observer ∈ running.observers.take index, observer.watch = .finished
  returned : running.stage = .returned →
    ∀ observer ∈ running.observers, observer.watch = .finished
  shut : (∃ index, running.stage = .joining index) ∨ running.stage = .returned →
    ∃ call ∈ running.calls, call.shutDown

theorem Joined.of_other (serving : next.stage = .serving ∨ next.stage = .draining) :
    Joined next := by
  refine ⟨fun index joining => ?_, fun returned => ?_, fun later => ?_⟩
  · rcases serving with is | is <;> rw [is] at joining <;> cases joining
  · rcases serving with is | is <;> rw [is] at returned <;> cases returned
  · rcases serving with is | is <;> rcases later with ⟨index, joining⟩ | returned
    · rw [is] at joining
      cases joining
    · rw [is] at returned
      cases returned
    · rw [is] at joining
      cases joining
    · rw [is] at returned
      cases returned

/-- An observer that is not finished has not been joined. -/
theorem Joined.set (joined : Joined running) {position : Nat} {old new : Observer}
    (found : running.observers[position]? = some old) (unfinished : old.watch ≠ .finished)
    (service : next.service = running.service) (stage : next.stage = running.stage)
    (observers : next.observers = running.observers.set position new) : Joined next := by
  have calls : next.calls = running.calls :=
    congrArg (fun service : Service => service.life.engine.calls) service
  refine ⟨fun index joining => ?_, fun returned => ?_, ?_⟩
  · rw [stage] at joining
    obtain ⟨within, finished⟩ := joined.ended index joining
    have beyond : index ≤ position := by
      by_contra early
      have kept : (running.observers.take index)[position]? = some old := by
        rw [List.getElem?_take_of_lt (Nat.not_le.mp early)]
        exact found
      refine unfinished (finished old (List.mem_of_getElem? kept))
    rw [observers, List.length_set, List.take_set_of_le beyond]
    exact ⟨within, finished⟩
  · rw [stage] at returned
    exact absurd (joined.returned returned old (List.mem_of_getElem? found)) unfinished
  · rw [stage, calls]
    exact joined.shut

theorem Joined.step {event : RunEvent} (joined : Joined running) (tidy : Tidy running)
    (stepped : running.step event = some next) : Joined next := by
  cases event with
  | construct env observer =>
      obtain ⟨life, constructed, rfl⟩ := Option.map_eq_some_iff.mp stepped
      have serving := (tidy.starting (constructs_of_construct constructed).2).2
      refine .of_other (.inl ?_)
      cases running.observes? (.construct env observer) with
      | none => exact serving
      | some handle => cases observer <;> exact serving
  | worker index env =>
      obtain ⟨engine, ran, rfl⟩ := Option.map_eq_some_iff.mp stepped
      have calls : (running.withEngine engine).calls = running.calls := by
        cases transition_of_step ran with
        | worker found move => rfl
      refine ⟨joined.ended, joined.returned, ?_⟩
      rw [calls]
      exact joined.shut
  | receive request =>
      simp only [Running.step] at stepped
      split at stepped
      · next serving =>
          obtain ⟨service, received, rfl⟩ := Option.map_eq_some_iff.mp stepped
          exact .of_other (.inl serving)
      · cases stepped
  | serve answers =>
      simp only [Running.step] at stepped
      split at stepped
      · next serving =>
          obtain ⟨service, served, rfl⟩ := Option.map_eq_some_iff.mp stepped
          refine .of_other (.inl ?_)
          cases running.observes? (.serve answers) with
          | none => exact serving
          | some handle => cases answers.observer <;> exact serving
      · cases stepped
  | leave =>
      simp only [Running.step] at stepped
      split at stepped
      · obtain ⟨engine, ran, rfl⟩ := Option.map_eq_some_iff.mp stepped
        exact .of_other (.inr rfl)
      · cases stepped
  | drain env =>
      simp only [Running.step] at stepped
      split at stepped
      · next draining =>
          obtain ⟨stage, last⟩ := tidy.draining draining
          split at stepped
          · next returned =>
              cases stepped
              rw [last] at returned
              cases returned
              refine ⟨fun index joining => ?_, fun returned => (by cases returned), fun _ => ?_⟩
              · cases joining
                refine ⟨Nat.zero_le _, fun observer member => ?_⟩
                cases member
              · exact ⟨_, List.mem_of_getLast? last, rfl, .drain, rfl⟩
          · obtain ⟨engine, ran, rfl⟩ := Option.map_eq_some_iff.mp stepped
            exact .of_other (.inr draining)
      · cases stepped
  | join =>
      simp only [Running.step] at stepped
      split at stepped
      · next index joining =>
          obtain ⟨within, finished⟩ := joined.ended index joining
          have shut := joined.shut (.inl ⟨index, joining⟩)
          split at stepped
          · next none =>
              cases stepped
              refine ⟨fun other joining => (by cases joining), fun _ => ?_, fun _ => shut⟩
              rw [List.take_of_length_le (List.getElem?_eq_none_iff.mp none)] at finished
              exact finished
          · next observer found =>
              split at stepped
              · next watch =>
                  cases stepped
                  refine ⟨fun other joining => ?_, fun returned => (by cases returned),
                    fun _ => shut⟩
                  cases joining
                  obtain ⟨bound, is⟩ := List.getElem?_eq_some_iff.mp found
                  refine ⟨bound, ?_⟩
                  rw [List.take_add_one, found]
                  exact forall_mem_concat finished watch
              · cases stepped
      · cases stepped
  | ready index =>
      simp only [Running.step] at stepped
      split at stepped
      · next id ref found =>
          obtain ⟨result, published, rfl⟩ := Option.map_eq_some_iff.mp stepped
          exact joined.set found (fun other => by cases other) rfl rfl rfl
      · cases stepped
  | announce index send =>
      simp only [Running.step] at stepped
      split at stepped
      · next id ref result found =>
          split at stepped
          · cases stepped
            exact joined.set found (fun other => by cases other) rfl rfl rfl
          · cases stepped
            exact joined.set found (fun other => by cases other) rfl rfl rfl
      · cases stepped

/-! ## Whole runs -/

/-- What holds of the running daemon between its steps. -/
structure Healthy (running : Running) : Prop where
  tidy : Tidy running
  attended : Attended running
  watching : Watching running
  joined : Joined running
  closing : Closing running.life.engine
  keyed : running.life.engine.registry.Keyed
  owned : Owned running.life.engine
  once : OwnedOnce running.life.engine

/-- What every step of the engine keeps, and every append, the lifetime keeps. -/
theorem Lives.keeps {life next : Lifetime} {env : Environment} {observer : Option Bytes}
    {property : State BuiltinTask → Prop} (lives : Lives life next env observer)
    (holds : property life.engine)
    (steps : ∀ action engine, life.engine.step action = some engine → property engine)
    (appends : ∀ record, property (appendTransition life.engine record)) : property next.engine := by
  rcases lives with rfl | ⟨event, stepped, _⟩
  · exact holds
  · rcases Lifetime.step_cases stepped with ⟨action, ran, _⟩ | ⟨record, same⟩ | same
    · exact steps action _ ran
    · rw [same]
      exact appends record
    · rw [same]
      exact holds

theorem Healthy.step {event : RunEvent} (healthy : Healthy running)
    (sound : Sound running.life.engine) (stepped : running.step event = some next) :
    Healthy next := by
  have lives := lives_step healthy.tidy stepped
  have lasting := lives.lasting sound
  obtain ⟨tidy, moves⟩ := moves_step healthy.tidy stepped
  constructor
  · exact tidy
  · rcases moves with moves | watches
    · exact healthy.attended.moves healthy.tidy moves
    · exact healthy.attended.watches healthy.watching watches
  · rcases moves with moves | watches
    · exact healthy.watching.moves sound lasting moves
    · exact healthy.watching.watches sound watches
  · exact healthy.joined.step healthy.tidy stepped
  · exact lives.keeps healthy.closing (fun action engine ran => healthy.closing.step ran)
      fun record => closing_append healthy.closing
  · exact lives.keeps healthy.keyed (fun action engine ran => keyed_step healthy.keyed ran)
      fun record => healthy.keyed
  · exact lives.keeps healthy.owned (fun action engine ran => healthy.owned.step sound ran)
      fun record => healthy.owned
  · exact lives.keeps healthy.once (fun action engine ran => healthy.once.step ran)
      fun record => healthy.once

end Steps

/-- The daemon whose constructor has just recovered the log. -/
def start (life : Lifetime) : Running := { service := { life } }

theorem healthy_start {life : Lifetime} (starts : Starts life.engine) (idle : life.running = none) :
    Healthy (start life) := by
  have calls : life.engine.calls = [] := by
    obtain ⟨config, queue, requested, detected, journal, made, engine⟩ := starts
    rw [engine]
    rfl
  have records : life.engine.registry.records = [] := by
    obtain ⟨config, queue, requested, detected, journal, made, engine⟩ := starts
    rw [engine]
    rfl
  constructor
  · constructor
    · exact starts.closing.staged
    · exact fun _ => ⟨rfl, rfl⟩
    · exact fun other => absurd rfl other
    · intro request handler handling
      cases handling
    · intro item waits
      rw [start, Running.life, idle] at waits
      cases waits
    · intro draining
      cases draining
  · have waits : (start life).waits = false := by
      simp [Running.waits, handlers, start, Running.life, idle]
    have uncalled : (start life).calls = [] := calls
    have settled : (start life).settled = [] := by
      rw [settled, uncalled]
      exact ite_self _
    constructor
    · simp [uncalled]
    · simp [uncalled]
    · simp [waits]
    · rw [settled]
      exact .nil
  · constructor
    · intro observer member
      cases member
    · intro result member
      cases member
  · exact .of_other (.inl rfl)
  · exact starts.closing
  · rw [Registry.Keyed, show (start life).life.engine.registry.records = [] from records]
    exact List.nodup_nil
  · intro id ref found
    rw [Registry.find, show (start life).life.engine.registry.records = [] from records] at found
    cases found
  · exact OwnedOnce.of_reaches starts (@Reaches.refl _ _ State.step (fun _ _ => True) _)

end Running

end Kronos.Daemon
