import Kronos.Daemon.LifetimeProperties
import Kronos.Daemon.Replies
import Kronos.Daemon.Running

/-!
# The calls of the running daemon

Only one thread of the daemon calls the engine: that of the constructor and of `run`.
So the last call is the only one that may not have ended, and the handle of each call
is observed before the next one is made.
-/

set_option autoImplicit false

namespace Kronos.Daemon

open Engine Wal Ipc Threads

/-- The handler is in a call of the engine. -/
def Handler.waits : Handler → Bool
  | .submitting => true
  | .killing _ _ => true
  | .scheduling _ => true
  | _ => false

/-- The handler is going to observe the handle of the last call. -/
def Handler.awaits : Handler → Bool
  | .submitting => true
  | .observing _ => true
  | _ => false

def Startup.makesJob : Startup → Bool
  | .reserve _ => false
  | .restore _ => true

/-- What the handler knows of the last call. -/
def Handler.At (last : Option (Call BuiltinTask)) : Handler → Prop
  | .submitting => ∃ call, last = some call ∧ call.request.makesJob = true
  | .killing _ _ => ∃ call, last = some call ∧ call.request.makesJob = false
  | .scheduling _ => ∃ call, last = some call ∧ call.request.makesJob = false
  | .observing _ => ∃ call handle, last = some call ∧ call.handle? = some handle
  | _ => True

namespace Running

def handlers (running : Running) (property : Handler → Bool) : Bool :=
  match running.service.handling with
  | some (_, handler) => property handler
  | none => false

/-- The thread is in its last call. -/
def waits (running : Running) : Bool :=
  running.life.running.isSome || running.handlers Handler.waits ||
    decide (running.stage = .draining)

/-- The thread is going to observe the handle of its last call. -/
def awaits (running : Running) : Bool :=
  running.life.running.any Startup.makesJob || running.handlers Handler.awaits

/-- The observers and what became of them stay as they are. -/
structure Unwatched (running next : Running) : Prop where
  observers : next.observers = running.observers
  announced : next.announced = running.announced
  missed : next.missed = running.missed

/-- What a step is for the calls of the engine and their handles. -/
inductive Moves (running next : Running) : Prop
  /-- the last call and the thread stay where they are -/
  | stay (calls : next.calls = running.calls) (waits : next.waits = running.waits)
      (awaits : next.awaits = running.awaits) (unwatched : Unwatched running next)
  /-- a call is made -/
  | enter {request : Request BuiltinTask} (calls : next.calls = running.calls ++ [⟨request, .entered⟩])
      (free : running.waits = false ∧ running.awaits = false) (waits : next.waits = true)
      (awaits : next.awaits = request.makesJob) (unwatched : Unwatched running next)
  /-- the last call takes a step -/
  | move {call : Call BuiltinTask} {stage : Stage} (last : running.calls.getLast? = some call)
      (calls : next.calls = running.calls.set (running.calls.length - 1) { call with stage })
      (of : stage.Of call.request) (waiting : running.waits = true)
      (waits : next.waits = true) (awaits : next.awaits = running.awaits)
      (unwatched : Unwatched running next)
  /-- the last call has ended without a handle -/
  | finish {call : Call BuiltinTask} (last : running.calls.getLast? = some call)
      (ended : call.stage.ended = true) (silent : call.handle? = none)
      (calls : next.calls = running.calls) (waits : next.waits = false)
      (awaits : next.awaits = false) (unwatched : Unwatched running next)
  /-- the handle of the last call is taken -/
  | take {call : Call BuiltinTask} (last : running.calls.getLast? = some call)
      (ended : call.stage.ended = true) (calls : next.calls = running.calls)
      (waits : next.waits = false) (awaits : next.awaits = true ∧ running.awaits = true)
      (unwatched : Unwatched running next)
  /-- the handle of the last call is observed, or fails to be -/
  | observe {call : Call BuiltinTask} {id : JobId} {ref : RecordRef} {failure : Option Bytes}
      (last : running.calls.getLast? = some call) (returned : call.handle? = some (id, ref))
      (calls : next.calls = running.calls) (awaiting : running.awaits = true)
      (waits : next.waits = false) (awaits : next.awaits = false)
      (observed : Unwatched (running.observe failure (some (id, ref))) next)

/-- Where the constructor, the handler and `run` stand with each other and with the last
call. -/
structure Tidy (running : Running) : Prop where
  staged : Staged running.life.engine
  starting : running.life.ready = false →
    running.service.handling = none ∧ running.stage = .serving
  stopped : running.stage ≠ .serving → running.service.idle = true
  handler : ∀ request handler, running.service.handling = some (request, handler) →
    handler.At running.calls.getLast?
  startup : ∀ item, running.life.running = some item →
    ∃ call, running.calls.getLast? = some call ∧ item.Makes call.request
  draining : running.stage = .draining →
    ∃ stage, running.calls.getLast? = some ⟨.shutdown .drain, stage⟩

variable {running next : Running}

theorem Unwatched.refl (running : Running) : Unwatched running running := ⟨rfl, rfl, rfl⟩

/-- The last call takes a step. -/
theorem last_step {engine next : State BuiltinTask} {env : Environment} (staged : Staged engine)
    (stepped : engine.step (.call (engine.calls.length - 1) env) = some next) :
    ∃ (call : Call BuiltinTask) (stage : Stage), engine.calls.getLast? = some call ∧
      next.calls = engine.calls.set (engine.calls.length - 1) { call with stage } ∧
      stage.Of call.request ∧ call.stage.ended = false ∧
      next.calls.getLast? = some { call with stage } := by
  cases transition_of_step stepped with
  | @call index _ call stage shared found move =>
      have last : engine.calls.getLast? = some call := by
        rw [List.getLast?_eq_getElem?]
        exact found
      have bound := (List.getElem?_eq_some_iff.mp found).1
      refine ⟨call, stage, last, rfl, (staged call (List.mem_of_getElem? found)).step move, ?_, ?_⟩
      · by_contra ended
        exact ended_stuck (by simpa using ended) move
      · rw [List.getLast?_eq_getElem?, List.length_set]
        exact List.getElem?_set_self bound

theorem silent_of_ended {call : Call BuiltinTask} (of : call.stage.Of call.request)
    (other : call.request.makesJob = false) : call.handle? = none := by
  obtain ⟨request, stage⟩ := call
  cases stage with
  | returnedHandle id ref =>
      rw [show request.makesJob = true from of] at other
      cases other
  | _ => rfl

/-! ## The constructor -/

/-- How the constructor goes on. -/
inductive Constructs (life next : Lifetime) : Prop
  | enter {item : Startup} {request : Request BuiltinTask} (idle : life.running = none)
      (makes : item.Makes request)
      (ran : life.engine.step (.invoke request) = some next.engine)
      (running : next.running = some item)
  | skip (idle : life.running = none) (calls : next.engine.calls = life.engine.calls)
      (running : next.running = none)
  | leave {item : Startup} {call : Call BuiltinTask} (waits : life.running = some item)
      (last : life.engine.calls.getLast? = some call) (ended : call.stage.ended = true)
      (calls : next.engine.calls = life.engine.calls) (running : next.running = none)
  | call {item : Startup} {env : Environment} (waits : life.running = some item)
      (ran : life.engine.step (.call (life.engine.calls.length - 1) env) = some next.engine)
      (running : next.running = some item)

theorem giveUp_cases {life next : Lifetime} {env : Environment} {job : RecoveredJob} {what : Bytes}
    (failed : life.giveUp env job what = some next) :
    next.engine.calls = life.engine.calls ∧ next.running = none := by
  simp only [Lifetime.giveUp] at failed
  split at failed
  · cases failed
  · cases failed
    exact ⟨rfl, rfl⟩

theorem constructs_of_startup {life next : Lifetime} {env : Environment}
    {observer : Option Bytes} (stepped : life.startup env observer = some next) :
    Constructs life next := by
  unfold Lifetime.startup at stepped
  split at stepped
  · next item waits =>
      split at stepped
      · cases stepped
      · next call last =>
          obtain ⟨ended, ⟨_, _, _, failed, _⟩ | ⟨_, rfl⟩⟩ := Lifetime.leave_cases stepped
          · obtain ⟨calls, running⟩ := giveUp_cases failed
            exact .leave waits last ended calls running
          · exact .leave waits last ended rfl rfl
  · next idle =>
      split at stepped
      · cases stepped
      · next submission rest first =>
          obtain ⟨engine, ran, rfl⟩ := Option.map_eq_some_iff.mp stepped
          exact .enter idle (show Startup.Makes (.reserve submission) _ from rfl) ran rfl
      · next job rest first =>
          split at stepped
          · obtain ⟨calls, running⟩ := giveUp_cases stepped
            exact .skip idle calls running
          · next task made =>
              obtain ⟨engine, ran, rfl⟩ := Option.map_eq_some_iff.mp stepped
              exact .enter idle (show Startup.Makes (.restore job) _ from ⟨task, rfl⟩) ran rfl

theorem constructs_of_construct {life next : Lifetime} {env : Environment}
    {observer : Option Bytes} (stepped : construct life env observer = some next) :
    Constructs life next ∧ life.ready = false := by
  unfold construct at stepped
  split at stepped
  · next started =>
      cases stepped
      refine ⟨constructs_of_startup started, ?_⟩
      by_contra ready
      rw [startup_of_ready (by simpa using ready)] at started
      cases started
  · split at stepped
    · next waits =>
        obtain ⟨engine, ran, rfl⟩ := Option.map_eq_some_iff.mp stepped
        obtain ⟨item, is⟩ := Option.isSome_iff_exists.mp waits
        exact ⟨.call is ran is, by simp [Lifetime.ready, is]⟩
    · cases stepped

theorem makesJob_of_makes {item : Startup} {request : Request BuiltinTask}
    (makes : item.Makes request) : item.makesJob = request.makesJob := by
  cases item with
  | reserve submission =>
      cases makes
      rfl
  | restore job =>
      obtain ⟨task, rfl⟩ := makes
      rfl

/-- The running daemon while it is constructed. -/
structure Constructing (running : Running) : Prop where
  unhandled : running.service.handling = none
  serving : running.stage = .serving

theorem Constructing.observe (constructing : Constructing running) (failure : Option Bytes)
    (handle : Option (JobId × RecordRef)) : Constructing (running.observe failure handle) := by
  cases handle with
  | none => exact constructing
  | some handle =>
      cases failure <;> exact ⟨constructing.unhandled, constructing.serving⟩

@[simp] theorem life_observe (running : Running) (failure : Option Bytes)
    (handle : Option (JobId × RecordRef)) : (running.observe failure handle).life = running.life := by
  cases handle with
  | none => rfl
  | some handle => cases failure <;> rfl

theorem Constructing.waits (constructing : Constructing running) :
    running.waits = running.life.running.isSome := by
  simp [Running.waits, handlers, constructing.unhandled, constructing.serving]

theorem Constructing.awaits (constructing : Constructing running) :
    running.awaits = running.life.running.any Startup.makesJob := by
  simp [Running.awaits, handlers, constructing.unhandled]

theorem Constructing.tidy (constructing : Constructing running)
    (staged : Staged running.life.engine)
    (startup : ∀ item, running.life.running = some item →
      ∃ call, running.calls.getLast? = some call ∧ item.Makes call.request) : Tidy running where
  staged
  starting _ := ⟨constructing.unhandled, constructing.serving⟩
  stopped other := absurd constructing.serving other
  handler request handler handling := by
    rw [constructing.unhandled] at handling
    cases handling
  startup
  draining stage := by
    rw [constructing.serving] at stage
    cases stage

theorem staged_of_calls (staged : Staged running.life.engine) (same : next.calls = running.calls) :
    Staged next.life.engine := by
  intro call member
  have inside : call ∈ next.calls := member
  rw [same] at inside
  exact staged call inside

theorem moves_construct {env : Environment} {observer : Option Bytes} (tidy : Tidy running)
    (stepped : running.step (.construct env observer) = some next) :
    Tidy next ∧ Moves running next := by
  obtain ⟨life, constructed, is⟩ := Option.map_eq_some_iff.mp stepped
  obtain ⟨constructs, unready⟩ := constructs_of_construct constructed
  obtain ⟨unhandled, serving⟩ := tidy.starting unready
  have before : Constructing running := ⟨unhandled, serving⟩
  have base : Constructing { running with service := { running.service with life } } :=
    ⟨unhandled, serving⟩
  have after : Constructing next := is ▸ base.observe _ _
  have sameLife : next.life = life := by
    rw [← is, life_observe]
    rfl
  have unobserved : running.observes? (.construct env observer) = none → Unwatched running next := by
    intro nothing
    rw [← is, nothing]
    exact ⟨rfl, rfl, rfl⟩
  cases constructs with
  | @enter item request idle makes ran waiting =>
      have staged := tidy.staged.step ran
      have calls : life.engine.calls = running.calls ++ [⟨request, .entered⟩] := by
        rw [← Option.some.inj ran]
        rfl
      refine ⟨after.tidy (sameLife ▸ staged) ?_,
        @Moves.enter _ _ request ?_ ?_ ?_ ?_ (unobserved ?_)⟩
      · intro other is
        rw [sameLife, waiting, Option.some.injEq] at is
        subst is
        refine ⟨⟨request, .entered⟩, ?_, makes⟩
        rw [Running.calls, sameLife, calls, List.getLast?_concat]
      · rw [Running.calls, sameLife]
        exact calls
      · rw [before.waits, before.awaits, idle]
        exact ⟨rfl, rfl⟩
      · rw [after.waits, sameLife, waiting]
        rfl
      · rw [after.awaits, sameLife, waiting]
        exact makesJob_of_makes makes
      · simp [observes?, idle]
  | skip idle calls stopped =>
      have same : next.calls = running.calls := by
        rw [Running.calls, sameLife]
        exact calls
      refine ⟨after.tidy ?_ ?_, .stay same ?_ ?_ (unobserved ?_)⟩
      · exact staged_of_calls tidy.staged same
      · intro item is
        rw [sameLife, stopped] at is
        cases is
      · rw [after.waits, before.waits, sameLife, stopped, idle]
      · rw [after.awaits, before.awaits, sameLife, stopped, idle]
      · simp [observes?, idle]
  | @leave item call waiting last ended calls stopped =>
      have same : next.calls = running.calls := by
        rw [Running.calls, sameLife]
        exact calls
      have waits : next.waits = false := by
        rw [after.waits, sameLife, stopped]
        rfl
      have awaits : next.awaits = false := by
        rw [after.awaits, sameLife, stopped]
        rfl
      refine ⟨after.tidy ?_ ?_, ?_⟩
      · exact staged_of_calls tidy.staged same
      · intro item is
        rw [sameLife, stopped] at is
        cases is
      · have of := tidy.staged call (List.mem_of_getLast? last)
        obtain ⟨_, isLast, makes⟩ := tidy.startup item waiting
        rw [show running.calls.getLast? = some call from last] at isLast
        cases isLast
        cases item with
        | reserve submission =>
            have silent : call.handle? = none :=
              silent_of_ended of (makesJob_of_makes makes).symm
            exact .finish last ended silent same waits awaits
              (unobserved (by simp [observes?, waiting]))
        | restore job =>
            have observed : running.observes? (.construct env observer) = call.handle? := by
              simp only [observes?, waiting]
              rw [show running.calls.getLast? = some call from last]
              rfl
            cases returned : call.handle? with
            | none =>
                exact .finish last ended returned same waits awaits
                  (unobserved (observed.trans returned))
            | some handle =>
                refine @Moves.observe _ _ call handle.1 handle.2 observer last returned same ?_ waits
                  awaits ?_
                · rw [before.awaits, waiting]
                  rfl
                · rw [← is, observed, returned]
                  cases observer <;> exact ⟨rfl, rfl, rfl⟩
  | @call item _ waiting ran goesOn =>
      obtain ⟨call, stage, last, calls, of, running', isLast⟩ := last_step tidy.staged ran
      obtain ⟨_, wasLast, makes⟩ := tidy.startup item waiting
      rw [show running.calls.getLast? = some call from last] at wasLast
      cases wasLast
      have silent : call.handle? = none := by
        obtain ⟨request, before⟩ := call
        cases before with
        | returnedHandle id ref => cases running'
        | _ => rfl
      refine ⟨after.tidy (sameLife ▸ tidy.staged.step ran) ?_,
        .move last ?_ of ?_ ?_ ?_ (unobserved ?_)⟩
      · intro other is
        rw [sameLife, goesOn, Option.some.injEq] at is
        subst is
        refine ⟨{ call with stage }, ?_, makes⟩
        rw [Running.calls, sameLife]
        exact isLast
      · rw [Running.calls, sameLife]
        exact calls
      · rw [before.waits, waiting]
        rfl
      · rw [after.waits, sameLife, goesOn]
        rfl
      · rw [after.awaits, before.awaits, sameLife, goesOn, waiting]
      · cases item with
        | reserve submission => simp [observes?, waiting]
        | restore job =>
            simp only [observes?, waiting]
            rw [show running.calls.getLast? = some call from last]
            exact silent

/-! ## Requests -/

/-- The running daemon while a request is handled. -/
structure Serving (running : Running) (request : ProtocolMessage) (handler : Handler) : Prop where
  handling : running.service.handling = some (request, handler)
  serving : running.stage = .serving
  ready : running.life.ready = true

variable {request : ProtocolMessage} {handler moved : Handler}

theorem Serving.waits (serving : Serving running request handler) :
    running.waits = handler.waits := by
  have ready := serving.ready
  simp only [Lifetime.ready, Bool.and_eq_true, Option.isNone_iff_eq_none] at ready
  simp [Running.waits, handlers, serving.handling, serving.serving, ready.1]

theorem Serving.awaits (serving : Serving running request handler) :
    running.awaits = handler.awaits := by
  have ready := serving.ready
  simp only [Lifetime.ready, Bool.and_eq_true, Option.isNone_iff_eq_none] at ready
  simp [Running.awaits, handlers, serving.handling, ready.1]

theorem Serving.tidy (serving : Serving running request handler)
    (staged : Staged running.life.engine) (at' : handler.At running.calls.getLast?) :
    Tidy running where
  staged
  starting unready := by
    rw [serving.ready] at unready
    cases unready
  stopped other := absurd serving.serving other
  handler other moved handling := by
    rw [serving.handling, Option.some.injEq, Prod.mk.injEq] at handling
    rw [← handling.2]
    exact at'
  startup item is := by
    have ready := serving.ready
    simp [Lifetime.ready, is] at ready
  draining stage := by
    rw [serving.serving] at stage
    cases stage

/-- What the handler does when its call has ended. -/
theorem resume_cases {stage : Stage} (resumed : resume handler stage = some moved) :
    stage.ended = true ∧
      ((∃ id ref, stage = .returnedHandle id ref ∧ handler = .submitting ∧ moved = .observing id) ∨
        ((∀ id ref, stage ≠ .returnedHandle id ref) ∧ moved.waits = false ∧ moved.awaits = false ∧
          ∀ last, moved.At last)) := by
  cases stage with
  | threw what =>
      cases resumed
      exact ⟨rfl, .inr ⟨fun id ref other => (by cases other), rfl, rfl, fun _ => trivial⟩⟩
  | returnedHandle id ref =>
      cases handler with
      | submitting =>
          cases resumed
          exact ⟨rfl, .inl ⟨id, ref, rfl, rfl, rfl⟩⟩
      | _ => cases resumed
  | returnedBool answer =>
      cases handler with
      | killing id known =>
          cases resumed
          refine ⟨rfl, .inr ⟨fun id ref other => (by cases other), ?_⟩⟩
          cases answer <;> exact ⟨rfl, rfl, fun _ => trivial⟩
      | _ => cases resumed
  | returned =>
      cases handler with
      | scheduling config =>
          cases resumed
          exact ⟨rfl, .inr ⟨fun id ref other => (by cases other), rfl, rfl, fun _ => trivial⟩⟩
      | _ => cases resumed
  | _ =>
      cases handler <;> cases resumed

/-- The handler is in its call, or the call has ended. -/
theorem moves_wait {answers : Answers} {engine : State BuiltinTask} (tidy : Tidy running)
    (before : Serving running request handler) (after : Serving next request moved)
    (waits : handler.waits = true) (unwatched : Unwatched running next)
    (engines : next.life.engine = engine)
    (waited : waitForCall running.life.engine answers.env handler = some (engine, moved)) :
    Tidy next ∧ Moves running next := by
  obtain ⟨call, last, ⟨resumed, rfl⟩ | ⟨_, rfl, ran⟩⟩ := waitForCall_cases waited
  · have same : next.calls = running.calls := congrArg State.calls engines
    have staged := staged_of_calls tidy.staged same
    obtain ⟨ended, ⟨id, ref, stage, rfl, rfl⟩ | ⟨other, still, unawaited, at'⟩⟩ :=
      resume_cases resumed
    · have returned : call.handle? = some (id, ref) := by
        rw [Call.handle?, stage]
      refine ⟨after.tidy staged ⟨call, _, ?_, returned⟩, .take last ended same ?_ ⟨?_, ?_⟩ unwatched⟩
      · rw [same]
        exact last
      · exact after.waits
      · exact after.awaits
      · exact before.awaits
    · have silent : call.handle? = none := by
        obtain ⟨asked, stage⟩ := call
        cases stage with
        | returnedHandle id ref => exact absurd rfl (other id ref)
        | _ => rfl
      exact ⟨after.tidy staged (at' _), .finish last ended silent same (after.waits.trans still)
        (after.awaits.trans unawaited) unwatched⟩
  · obtain ⟨moving, stage, isLast, calls, of, _, nextLast⟩ := last_step tidy.staged ran
    rw [last] at isLast
    cases isLast
    have same : next.calls = engine.calls := congrArg State.calls engines
    have asked := tidy.handler request moved before.handling
    rw [show running.calls.getLast? = some call from last] at asked
    refine ⟨after.tidy (engines ▸ tidy.staged.step ran) ?_, .move last (same.trans calls) of
      (before.waits.trans waits) (after.waits.trans waits)
      (after.awaits.trans before.awaits.symm) unwatched⟩
    rw [same, nextLast]
    cases moved with
    | submitting =>
        obtain ⟨_, is, makes⟩ := asked
        cases is
        exact ⟨_, rfl, makes⟩
    | killing id known =>
        obtain ⟨_, is, other⟩ := asked
        cases is
        exact ⟨_, rfl, other⟩
    | scheduling config =>
        obtain ⟨_, is, other⟩ := asked
        cases is
        exact ⟨_, rfl, other⟩
    | _ => cases waits

theorem Serving.observe (serving : Serving running request handler) (failure : Option Bytes)
    (handle : Option (JobId × RecordRef)) :
    Serving (running.observe failure handle) request handler := by
  cases handle with
  | none => exact serving
  | some handle => cases failure <;> exact ⟨serving.handling, serving.serving, serving.ready⟩

theorem makesJob_of_submits {asked : Request BuiltinTask} (submits : asked.submits = true) :
    asked.makesJob = true := by
  cases asked with
  | submit task options => rfl
  | _ => cases submits

/-- What the thread of `run` does with a request it has. -/
theorem moves_handle {answers : Answers} {engine : State BuiltinTask} (tidy : Tidy running)
    (before : Serving running request handler) (after : Serving next request moved)
    (engines : next.life.engine = engine)
    (observed : Unwatched (running.observe answers.observer (running.observes? (.serve answers)))
      next)
    (handled : handleRequest running.life.engine answers request handler = some (engine, moved)) :
    Tidy next ∧ Moves running next := by
  have same : engine = running.life.engine → next.calls = running.calls := by
    intro same
    rw [same] at engines
    exact congrArg State.calls engines
  have unwatched : running.observes? (.serve answers) = none → Unwatched running next := by
    intro nothing
    rw [nothing] at observed
    exact observed
  -- a call is made
  have enters : ∀ {asked : Request BuiltinTask}, handler.waits = false → handler.awaits = false →
      running.observes? (.serve answers) = none → moved.waits = true →
      moved.awaits = asked.makesJob →
      (∀ call, call.request = asked → moved.At (some call)) →
      engine = { running.life.engine with
        calls := running.life.engine.calls ++ [⟨asked, .entered⟩] } →
      Tidy next ∧ Moves running next := by
    intro asked free unawaited nothing waits awaits at' is
    have calls : next.calls = running.calls ++ [⟨asked, .entered⟩] := by
      rw [is] at engines
      exact congrArg State.calls engines
    refine ⟨after.tidy ?_ ?_, .enter calls ?_ ?_ ?_ (unwatched nothing)⟩
    · intro call member
      have inside : call ∈ next.calls := member
      rw [calls] at inside
      refine forall_mem_concat tidy.staged ?_ call inside
      trivial
    · rw [calls, List.getLast?_concat]
      exact at' _ rfl
    · exact ⟨before.waits.trans free, before.awaits.trans unawaited⟩
    · exact after.waits.trans waits
    · exact after.awaits.trans awaits
  -- nothing happens to the calls
  have stays : engine = running.life.engine → handler.waits = moved.waits →
      handler.awaits = moved.awaits → running.observes? (.serve answers) = none →
      (∀ last, moved.At last) → Tidy next ∧ Moves running next := by
    intro is waits awaits nothing at'
    refine ⟨after.tidy (staged_of_calls tidy.staged (same is)) (at' _),
      .stay (same is) ?_ ?_ (unwatched nothing)⟩
    · rw [after.waits, before.waits, waits]
    · rw [after.awaits, before.awaits, awaits]
  have nothing : (∀ id, handler ≠ .observing id) → running.observes? (.serve answers) = none := by
    intro other
    rw [observes?, before.handling]
    cases handler with
    | observing id => exact absurd rfl (other id)
    | _ => rfl
  cases handler with
  | entered =>
      have free := nothing fun id other => by cases other
      have entered := entered_enter running.life.engine answers.recovery request
      rw [Option.some.inj handled] at entered
      cases entered with
      | reject => exact stays rfl rfl rfl free fun _ => trivial
      | fail what => exact stays rfl rfl rfl free fun _ => trivial
      | reply nothing message stops => exact stays rfl rfl rfl free fun _ => trivial
      | submit is commanded =>
          have makes := makesJob_of_submits (submits_of_command commanded)
          exact enters rfl rfl free rfl makes.symm (fun call same => ⟨call, rfl, same ▸ makes⟩) rfl
      | @kill id is known =>
          exact @enters (.cancel id) rfl rfl free rfl rfl
            (fun call same => ⟨call, rfl, by rw [same]; rfl⟩) rfl
      | @schedule config is =>
          exact @enters (.setScheduler config) rfl rfl free rfl rfl
            (fun call same => ⟨call, rfl, by rw [same]; rfl⟩) rfl
  | submitting =>
      exact moves_wait tidy before after rfl (unwatched (nothing fun id other => by cases other))
        engines handled
  | killing id known =>
      exact moves_wait tidy before after rfl (unwatched (nothing fun id other => by cases other))
        engines handled
  | scheduling config =>
      exact moves_wait tidy before after rfl (unwatched (nothing fun id other => by cases other))
        engines handled
  | observing id =>
      obtain ⟨call, handle, last, returned⟩ := tidy.handler request _ before.handling
      have handles : running.observes? (.serve answers) = some handle := by
        rw [observes?, before.handling]
        simp only [last]
        exact returned
      have outcome : engine = running.life.engine ∧ moved.waits = false ∧ moved.awaits = false ∧
          ∀ last, moved.At last := by
        simp only [handleRequest] at handled
        split at handled <;> cases handled <;> exact ⟨rfl, rfl, rfl, fun _ => trivial⟩
      obtain ⟨is, waits, awaits, at'⟩ := outcome
      rw [handles] at observed
      exact ⟨after.tidy (staged_of_calls tidy.staged (same is)) (at' _),
        .observe last returned (same is) before.awaits (after.waits.trans waits)
          (after.awaits.trans awaits) observed⟩
  | left reply => cases handled
  | _ =>
      simp only [handleRequest] at handled
      split at handled <;> cases handled <;>
        exact stays rfl rfl rfl (nothing fun id other => by cases other) fun _ => trivial

theorem moves_serve {answers : Answers} (tidy : Tidy running)
    (stepped : running.step (.serve answers) = some next) : Tidy next ∧ Moves running next := by
  simp only [step] at stepped
  split at stepped
  · next serving =>
      obtain ⟨service, served, is⟩ := Option.map_eq_some_iff.mp stepped
      simp only [Service.step] at served
      split at served
      · cases served
      · next request handler handling =>
          have ready : running.life.ready = true := by
            by_contra unready
            have idle := (tidy.starting (by simpa using unready)).1
            rw [handling] at idle
            cases idle
          split at served
          · cases served
          · next engine moved handled =>
              have before : Serving running request handler := ⟨handling, serving, ready⟩
              have base : Serving { running with service } request moved := by
                rw [← Option.some.inj served]
                exact ⟨rfl, serving, ready⟩
              have after : Serving next request moved := is ▸ base.observe _ _
              have engines : next.life.engine = engine := by
                rw [← is, life_observe, ← Option.some.inj served]
                rfl
              refine moves_handle tidy before after engines ?_ handled
              rw [← is]
              cases running.observes? (.serve answers) with
              | none => exact ⟨rfl, rfl, rfl⟩
              | some handle => cases answers.observer <;> exact ⟨rfl, rfl, rfl⟩
  · cases stepped

theorem moves_receive {request : ProtocolMessage} (tidy : Tidy running)
    (stepped : running.step (.receive request) = some next) : Tidy next ∧ Moves running next := by
  simp only [step] at stepped
  split at stepped
  · next serving =>
      obtain ⟨service, received, is⟩ := Option.map_eq_some_iff.mp stepped
      simp only [Service.step] at received
      split at received
      · next free =>
          have entered : running.waits = false ∧ running.awaits = false →
              service = { running.service with handling := some (request, .entered) } →
              Tidy next ∧ Moves running next := by
            rintro ⟨unwaiting, unawaited⟩ rfl
            have after : Serving next request .entered := is ▸ ⟨rfl, serving, free.1⟩
            have same : next.calls = running.calls := by
              rw [← is]
              rfl
            refine ⟨after.tidy (staged_of_calls tidy.staged same) trivial, .stay same ?_ ?_ ?_⟩
            · rw [after.waits, unwaiting]
              rfl
            · rw [after.awaits, unawaited]
              rfl
            · rw [← is]
              exact ⟨rfl, rfl, rfl⟩
          have ready := free.1
          simp only [Lifetime.ready, Bool.and_eq_true, Option.isNone_iff_eq_none] at ready
          split at received
          · next idle =>
              refine entered ⟨?_, ?_⟩ (Option.some.inj received).symm
              · simp [waits, handlers, idle, serving, life, ready.1]
              · simp [awaits, handlers, idle, life, ready.1]
          · next asked reply left =>
              have before : Serving running asked (.left reply) := ⟨left, serving, free.1⟩
              exact entered ⟨before.waits, before.awaits⟩ (Option.some.inj received).symm
          · cases received
      · cases received
  · cases stepped

/-- A worker takes a step. -/
theorem moves_worker {index : Nat} {env : Environment} (tidy : Tidy running)
    (stepped : running.step (.worker index env) = some next) : Tidy next ∧ Moves running next := by
  obtain ⟨engine, ran, rfl⟩ := Option.map_eq_some_iff.mp stepped
  have calls : engine.calls = running.calls := by
    cases transition_of_step ran with
    | worker found move => rfl
  refine ⟨⟨tidy.staged.step ran, tidy.starting, tidy.stopped, ?_, ?_, ?_⟩,
    .stay calls rfl rfl ⟨rfl, rfl, rfl⟩⟩
  · intro request handler handling
    rw [show (running.withEngine engine).calls = running.calls from calls]
    exact tidy.handler request handler handling
  · intro item waits
    rw [show (running.withEngine engine).calls = running.calls from calls]
    exact tidy.startup item waits
  · intro draining
    rw [show (running.withEngine engine).calls = running.calls from calls]
    exact tidy.draining draining

/-! ## The end of `run` -/

/-- The running daemon while no request is handled. -/
structure Free (running : Running) : Prop where
  idle : running.service.idle = true
  ready : running.life.ready = true

theorem Free.handlers (free : Free running) {property : Handler → Bool}
    (left : ∀ reply, property (.left reply) = false) : running.handlers property = false := by
  have idle := free.idle
  unfold Service.idle at idle
  rw [Running.handlers]
  split
  · next request handler handling =>
      rw [handling] at idle
      cases handler with
      | left reply => exact left reply
      | _ => cases idle
  · rfl

theorem Free.waits (free : Free running) : running.waits = decide (running.stage = .draining) := by
  have ready := free.ready
  simp only [Lifetime.ready, Bool.and_eq_true, Option.isNone_iff_eq_none] at ready
  rw [Running.waits, free.handlers fun _ => rfl, ready.1]
  rfl

theorem Free.awaits (free : Free running) : running.awaits = false := by
  have ready := free.ready
  simp only [Lifetime.ready, Bool.and_eq_true, Option.isNone_iff_eq_none] at ready
  rw [Running.awaits, free.handlers fun _ => rfl, ready.1]
  rfl

theorem Free.tidy (free : Free running) (staged : Staged running.life.engine)
    (draining : running.stage = .draining →
      ∃ stage, running.calls.getLast? = some ⟨.shutdown .drain, stage⟩) : Tidy running where
  staged
  starting unready := by
    rw [free.ready] at unready
    cases unready
  stopped _ := free.idle
  handler request handler handling := by
    have idle := free.idle
    rw [Service.idle, handling] at idle
    cases handler with
    | left reply => trivial
    | _ => cases idle
  startup item is := by
    have ready := free.ready
    simp [Lifetime.ready, is] at ready
  draining

theorem Tidy.free (tidy : Tidy running) (stopped : running.stage ≠ .serving) : Free running := by
  refine ⟨tidy.stopped stopped, ?_⟩
  by_contra unready
  exact stopped (tidy.starting (by simpa using unready)).2

theorem moves_leave (tidy : Tidy running) (stepped : running.step .leave = some next) :
    Tidy next ∧ Moves running next := by
  simp only [step] at stepped
  split at stepped
  · next free =>
      obtain ⟨engine, ran, rfl⟩ := Option.map_eq_some_iff.mp stepped
      have before : Free running := ⟨free.2.2, free.2.1⟩
      have staged := tidy.staged.step ran
      cases ran
      have after : Free { running.withEngine { running.life.engine with
          calls := running.life.engine.calls ++ [⟨.shutdown .drain, .entered⟩] } with
          stage := .draining } := ⟨free.2.2, free.2.1⟩
      refine ⟨after.tidy staged fun _ => ⟨.entered, List.getLast?_concat⟩,
        @Moves.enter _ _ (.shutdown .drain) rfl ⟨?_, before.awaits⟩ ?_ after.awaits
          ⟨rfl, rfl, rfl⟩⟩
      · rw [before.waits, free.1]
        rfl
      · rw [after.waits]
        rfl
  · cases stepped

theorem moves_drain {env : Environment} (tidy : Tidy running)
    (stepped : running.step (.drain env) = some next) : Tidy next ∧ Moves running next := by
  simp only [step] at stepped
  split at stepped
  · next draining =>
      have before := tidy.free (by rw [draining]; exact fun other => by cases other)
      obtain ⟨stage, last⟩ := tidy.draining draining
      rw [last] at stepped
      have waiting : running.waits = true := by
        rw [before.waits, draining]
        rfl
      by_cases returned : stage = .returned
      · subst returned
        cases stepped
        have after : Free { running with stage := .joining 0 } := ⟨before.idle, before.ready⟩
        refine ⟨after.tidy tidy.staged fun other => (by cases other),
          .finish last rfl rfl rfl ?_ after.awaits ⟨rfl, rfl, rfl⟩⟩
        rw [after.waits]
        rfl
      · have goesOn : (running.life.engine.step
            (.call (running.life.engine.calls.length - 1) env)).map running.withEngine =
            some next := by
          cases stage with
          | returned => exact absurd rfl returned
          | _ => exact stepped
        obtain ⟨engine, ran, rfl⟩ := Option.map_eq_some_iff.mp goesOn
        obtain ⟨call, moved, isLast, calls, of, _, nextLast⟩ := last_step tidy.staged ran
        rw [show running.life.engine.calls.getLast? = _ from last] at isLast
        cases isLast
        have after : Free (running.withEngine engine) := ⟨before.idle, before.ready⟩
        refine ⟨after.tidy (tidy.staged.step ran) fun _ => ⟨moved, nextLast⟩,
          .move last calls of waiting ?_ (after.awaits.trans before.awaits.symm)
            ⟨rfl, rfl, rfl⟩⟩
        rw [after.waits, show (running.withEngine engine).stage = .draining from draining]
        rfl
  · cases stepped

theorem moves_join (tidy : Tidy running) (stepped : running.step .join = some next) :
    Tidy next ∧ Moves running next := by
  have joins : ∀ {index : Nat} {stage : RunStage}, running.stage = .joining index →
      stage ≠ .draining → Tidy { running with stage } ∧ Moves running { running with stage } := by
    intro index stage joining other
    have before := tidy.free (by rw [joining]; exact fun serving => by cases serving)
    have after : Free { running with stage } := ⟨before.idle, before.ready⟩
    refine ⟨after.tidy tidy.staged fun draining => absurd draining other,
      .stay rfl ?_ (after.awaits.trans before.awaits.symm) ⟨rfl, rfl, rfl⟩⟩
    rw [after.waits, before.waits, joining]
    simpa using other
  simp only [step] at stepped
  split at stepped
  · next index joining =>
      split at stepped
      · cases stepped
        exact joins joining fun other => by cases other
      · split at stepped
        · cases stepped
          exact joins joining fun other => by cases other
        · cases stepped
  · cases stepped

/-- What an observer does. -/
inductive Watches (running : Running) : Running → Prop
  | ready {index : Nat} {id : JobId} {ref : RecordRef} {result : JobResult}
      (found : running.observers[index]? = some ⟨id, ref, .waiting⟩)
      (published : running.result? ref = some result) :
      Watches running
        { running with observers := running.observers.set index ⟨id, ref, .announcing result⟩ }
  | deliver {index : Nat} {id : JobId} {ref : RecordRef} {result : JobResult}
      (found : running.observers[index]? = some ⟨id, ref, .announcing result⟩) :
      Watches running
        { running with
          observers := running.observers.set index ⟨id, ref, .finished⟩
          announced := running.announced ++ [result] }
  | lose {index : Nat} {id : JobId} {ref : RecordRef} {result : JobResult}
      (found : running.observers[index]? = some ⟨id, ref, .announcing result⟩) :
      Watches running
        { running with
          observers := running.observers.set index ⟨id, ref, .finished⟩
          missed := running.missed ++ [id] }

theorem tidy_of_same (tidy : Tidy running) (service : next.service = running.service)
    (stage : next.stage = running.stage) : Tidy next := by
  have life : next.life = running.life := congrArg Service.life service
  have calls : next.calls = running.calls := congrArg (fun life => life.engine.calls) life
  refine ⟨life ▸ tidy.staged, ?_, ?_, ?_, ?_, ?_⟩
  · rw [life, service, stage]
    exact tidy.starting
  · rw [service, stage]
    exact tidy.stopped
  · rw [service, calls]
    exact tidy.handler
  · rw [life, calls]
    exact tidy.startup
  · rw [stage, calls]
    exact tidy.draining

/-- Every step is one for the calls, or one of an observer. -/
theorem moves_step {event : RunEvent} (tidy : Tidy running)
    (stepped : running.step event = some next) :
    Tidy next ∧ (Moves running next ∨ Watches running next) := by
  have watched : Watches running next → next.service = running.service →
      next.stage = running.stage → Tidy next ∧ (Moves running next ∨ Watches running next) :=
    fun watches service stage => ⟨tidy_of_same tidy service stage, .inr watches⟩
  cases event with
  | construct env observer => exact (moves_construct tidy stepped).imp_right .inl
  | worker index env => exact (moves_worker tidy stepped).imp_right .inl
  | receive request => exact (moves_receive tidy stepped).imp_right .inl
  | serve answers => exact (moves_serve tidy stepped).imp_right .inl
  | leave => exact (moves_leave tidy stepped).imp_right .inl
  | drain env => exact (moves_drain tidy stepped).imp_right .inl
  | join => exact (moves_join tidy stepped).imp_right .inl
  | ready index =>
      simp only [step] at stepped
      split at stepped
      · next id ref found =>
          obtain ⟨result, published, rfl⟩ := Option.map_eq_some_iff.mp stepped
          exact watched (.ready found published) rfl rfl
      · cases stepped
  | announce index send =>
      simp only [step] at stepped
      split at stepped
      · next id ref result found =>
          split at stepped
          · cases stepped
            exact watched (.deliver found) rfl rfl
          · cases stepped
            exact watched (.lose found) rfl rfl
      · cases stepped

end Running

end Kronos.Daemon
