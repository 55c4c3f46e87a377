import Kronos.Daemon.RunningProperties

/-!
# Every job is announced once

A daemon that runs is a lifetime of a world, so all that holds of these holds of it. No
job is announced twice, what is announced is what was published, and when `run` returns,
every job is finished and was announced, unless an exception lost its `EVENT`.
-/

set_option autoImplicit false

namespace Kronos.Daemon

open Engine Wal Ipc Threads Running

/-- No append fails, and every restored job is observed. -/
def Running.Undisturbed (_ : Running) (event : RunEvent) : Prop :=
  (∀ id, event.env.appendError id = none) ∧ event.observer = none

/-- A daemon that was started on the log of this world, some undisturbed steps later. -/
def World.Runs (world : World) (running : Running) : Prop :=
  ∃ config requested detected next life,
    world.step (.start config requested detected) = some next ∧ next.life = some life ∧
      Reaches Running.step Running.Undisturbed (Running.start life) running

/-! ## A world with the lifetime of the daemon -/

theorem lives_world {world : World} {life next : Lifetime} {env : Environment}
    (lives : Lives life next env none) (alive : world.life = some life)
    (appends : ∀ id, env.appendError id = none) :
    ∃ later, Reaches World.step Undisturbed world later ∧ later.life = some next ∧
      later.past = world.past := by
  rcases lives with rfl | ⟨event, stepped, same, observed⟩
  · exact ⟨world, .refl, alive, rfl⟩
  · have fine : Undisturbed world (.run event fun _ => 0) := by
      refine ⟨?_, or_self_iff.mp observed⟩
      intro id
      rcases same with is | is
      · rw [is]
        exact appends id
      · rw [is]
    have moved : world.step (.run event fun _ => 0) = some { world with
        file := world.file ++ encodeAll (appended life next fun _ => 0)
        log := world.log ++ appended life next fun _ => 0
        life := some next } := by
      simp only [World.step, alive, stepped]
    exact ⟨_, .tail _ .refl fine moved, rfl, rfl⟩

theorem drawn_of_reaches {world later : World}
    (proper : ∀ life, world.life = some life → life.Proper)
    (reached : Reaches World.step Undisturbed world later) :
    (∀ life, later.life = some life → life.Proper) ∧ world.drawn ≤ later.drawn := by
  induction reached with
  | refl => exact ⟨proper, Nat.le_refl _⟩
  | tail happening _ undisturbed stepped ih =>
      obtain ⟨kept, more⟩ := drawn_step ih.1 undisturbed.1 stepped
      exact ⟨kept, ih.2.trans more⟩

theorem drawn_of_alive {world : World} {life : Lifetime} (alive : world.life = some life) :
    world.drawn = total State.drawn world.past + life.engine.drawn := by
  simp [World.drawn, World.engines, alive]

theorem Sane.sound {world : World} {life : Lifetime} (sane : Sane world)
    (alive : world.life = some life) : Sound life.engine :=
  (sane.living life alive).journaled.journal.sound

/-- A daemon is started with an engine that is made anew. -/
theorem World.started {world next : World} {life : Lifetime} {config : SchedulerConfig}
    {requested detected : Nat} (stepped : world.step (.start config requested detected) = some next)
    (alive : next.life = some life) :
    Starts life.engine ∧ life.running = none ∧ next.past = world.past ∧
      world.drawn = total State.drawn world.past := by
  simp only [World.step] at stepped
  split at stepped
  · next queue dead made =>
      have drawn : world.drawn = total State.drawn world.past := by
        simp [World.drawn, World.engines, dead]
      cases stepped
      dsimp only at alive
      split at alive
      · cases alive
      · cases alive
        exact ⟨⟨config, queue, requested, detected, _, made, rfl⟩, rfl, rfl, drawn⟩
  · cases stepped

/-- What holds of the daemon as long as few jobs are submitted. -/
theorem World.Runs.mirrored {world : World} {running : Running}
    (reached : Reaches World.step Undisturbed {} world) (runs : world.Runs running) :
    ∃ mirror, Reaches World.step Undisturbed {} mirror ∧ mirror.life = some running.life ∧
      mirror.drawn = world.drawn + running.life.engine.drawn ∧
      (mirror.drawn < Registry.limit → Healthy running) := by
  obtain ⟨config, requested, detected, next, life, started, alive, ran⟩ := runs
  obtain ⟨starts, idle, past, drawn⟩ := World.started started alive
  have holds := ran.invariant
    (fun running => Tidy running ∧ ∃ mirror, Reaches World.step Undisturbed {} mirror ∧
      mirror.life = some running.life ∧ mirror.past = world.past ∧
      (mirror.drawn < Registry.limit → Healthy running)) ?_ ?_
  · obtain ⟨_, mirror, mirrored, lives, same, healthy⟩ := holds
    refine ⟨mirror, mirrored, lives, ?_, healthy⟩
    rw [drawn_of_alive lives, same, drawn]
  · have healthy := healthy_start starts idle
    have begun : Reaches World.step Undisturbed {} next :=
      .tail (.start config requested detected) reached ⟨rfl, trivial⟩ started
    exact ⟨healthy.tidy, next, begun, alive, past, fun _ => healthy⟩
  · intro state event after holds undisturbed stepped
    obtain ⟨tidy, mirror, mirrored, lives, same, healthy⟩ := holds
    have moves := lives_step tidy stepped
    rw [undisturbed.2] at moves
    obtain ⟨later, moved, livesLater, sameLater⟩ := lives_world moves lives undisturbed.1
    have unborn : ∀ life, (({} : World).life = some life) → life.Proper := by
      intro life is
      cases is
    have more := (drawn_of_reaches (drawn_of_reaches unborn mirrored).1 moved).2
    refine ⟨(moves_step tidy stepped).1, later, mirrored.trans moved, livesLater,
      sameLater.trans same, fun few => ?_⟩
    have fewer := Nat.lt_of_le_of_lt more few
    exact (healthy fewer).step ((Sane.of_reaches mirrored fewer).sound lives) stepped

theorem World.Runs.healthy {world : World} {running : Running}
    (reached : Reaches World.step Undisturbed {} world) (runs : world.Runs running)
    (few : world.drawn + running.life.engine.drawn < Registry.limit) :
    Healthy running ∧ Sound running.life.engine := by
  obtain ⟨mirror, mirrored, lives, drawn, healthy⟩ := runs.mirrored reached
  rw [← drawn] at few
  exact ⟨healthy few, (Sane.of_reaches mirrored few).sound lives⟩

/-! ## The events -/

section Events

variable {running : Running}

theorem Running.Healthy.nodup (healthy : Healthy running) (sound : Sound running.life.engine) :
    running.watched.Nodup := by
  have settled : (handles running.settled).Sublist (handles running.calls) := by
    rw [Running.settled]
    split
    · exact (List.dropLast_sublist _).filterMap _
    · exact .refl _
  have ids := (settled.map Prod.fst).nodup (ids_handles healthy.once sound)
  exact healthy.attended.accounted.nodup_iff.mpr ids

/-- A published result is the one that the row of its job shows. -/
theorem shown_of_published {engine : State BuiltinTask} {result : JobResult} (sound : Sound engine)
    (keyed : engine.registry.Keyed) (published : Published engine result) :
    ∃ shown ∈ snapshot engine, shown.result = result ∧ isTerminal shown.state = true := by
  obtain ⟨record, known, promise⟩ := Option.map_eq_some_iff.mp published.1
  obtain ⟨ok, same⟩ := sound.registry.recordOf_ok known
  have fulfilled := ok.promise
  rw [ok.published, promise] at fulfilled
  cases terminal : isTerminal record.snapshot.state with
  | false =>
      rw [terminal] at fulfilled
      cases fulfilled
  | true =>
      rw [terminal, if_pos rfl, List.cons.injEq] at fulfilled
      refine ⟨record.snapshot, (mem_snapshot sound keyed).mpr ⟨record, ?_, rfl⟩,
        fulfilled.1.symm, terminal⟩
      rw [same]
      exact known

theorem eq_of_shown {engine : State BuiltinTask} {left right : JobSnapshot} (sound : Sound engine)
    (keyed : engine.registry.Keyed) (inLeft : left ∈ snapshot engine)
    (inRight : right ∈ snapshot engine) (same : left.id = right.id) : left = right := by
  obtain ⟨one, known, rfl⟩ := (mem_snapshot sound keyed).mp inLeft
  obtain ⟨two, knownRight, rfl⟩ := (mem_snapshot sound keyed).mp inRight
  rw [same, knownRight] at known
  cases known
  rfl

/-- As long as no append fails, torn tails are repaired and every restored job is observed:
each `EVENT` tells the published result of a job, and no job has two or has one after its
`EVENT` was lost. -/
theorem events_announce_results (world : World)
    (reached : Reaches World.step Undisturbed {} world) (running : Running)
    (runs : world.Runs running)
    (few : world.drawn + running.life.engine.drawn < 2 ^ 64 - 1) :
    ∃ results : List JobResult, running.events = results.map announcement ∧
      (results.map (·.id) ++ running.missed).Nodup ∧
      ∀ result ∈ results, running.life.engine.published result.id = some [result] ∧
        ∃ shown ∈ snapshot running.life.engine, shown.result = result ∧
          isTerminal shown.state = true := by
  obtain ⟨healthy, sound⟩ := runs.healthy reached few
  refine ⟨running.announced, rfl, (List.nodup_append.mp (healthy.nodup sound)).1, ?_⟩
  intro result member
  have published := healthy.watching.announced result member
  exact ⟨published.1, shown_of_published sound healthy.keyed published⟩

def stepRequest : ProtocolMessage :=
  ⟨7, requestKind, [text "submit", text "step", text "1", text "0"]⟩

/-- A job is submitted, runs and is announced, and the daemon is told to stop. -/
def servedEvents : List RunEvent :=
  .receive stepRequest :: List.replicate 10 (.serve {}) ++ List.replicate 5 (.worker 0 {}) ++
    [.ready 0, .announce 0 none, .leave] ++ List.replicate 3 (.drain {}) ++
    [.worker 0 {}, .drain {}, .drain {}, .join, .join]

private theorem served_ran :
    (@runAll _ _ Running.step (fun _ _ => True) (fun _ _ => instDecidableTrue)
      (Running.start idleService.life) servedEvents).isSome = true := by
  decide +kernel

def servedRunning : Running := Option.get _ served_ran

private theorem served_runs : World.Runs {} servedRunning := by
  refine ⟨{}, 1, 0, _, idleService.life, rfl, rfl, ?_⟩
  refine (@reaches_of_runAll_of_forall _ _ _ _ _ (Running.Undisturbed servedRunning) _ _ _
    (Option.some_get served_ran).symm ?_).mono fun _ event admitted => admitted.2
  simp [servedEvents, or_imp, forall_and, Running.Undisturbed, RunEvent.env, RunEvent.observer]

theorem servedRunning_events :
    servedRunning.events = [⟨0, eventKind, [text "job 1 COMPLETED: steps completed: 1"]⟩] ∧
      ∃ results : List JobResult, servedRunning.events = results.map announcement ∧
        (results.map (·.id) ++ servedRunning.missed).Nodup := by
  obtain ⟨results, events, once, _⟩ :=
    events_announce_results {} .refl servedRunning served_runs (by decide +kernel)
  exact ⟨by decide +kernel, results, events, once⟩

/-- Once `run` has returned, the handles of all calls were dealt with. -/
theorem Running.Healthy.watched_of_stopped (healthy : Healthy running)
    (stopped : (∃ index, running.stage = .joining index) ∨ running.stage = .returned) :
    (∀ call ∈ running.calls, call.stage.ended = true) ∧ running.settled = running.calls := by
  obtain ⟨serving, draining⟩ : running.stage ≠ .serving ∧ running.stage ≠ .draining := by
    rcases stopped with ⟨index, is⟩ | is
    · rw [is]
      exact ⟨nofun, nofun⟩
    · rw [is]
      exact ⟨nofun, nofun⟩
  have free := healthy.tidy.free serving
  constructor
  · apply healthy.attended.rest
    rw [free.waits]
    exact decide_eq_false draining
  · rw [Running.settled, free.awaits]
    rfl

/-- Once the engine is drained, every job is finished. -/
theorem Running.Healthy.finished (healthy : Healthy running) (sound : Sound running.life.engine)
    (stopped : (∃ index, running.stage = .joining index) ∨ running.stage = .returned) {id : JobId}
    {record : JobRecord BuiltinTask} (known : running.life.engine.registry.recordOf id = some record) :
    isTerminal record.snapshot.state = true :=
  finished_of_shutDown healthy.closing sound (healthy.joined.shut stopped)
    (healthy.watched_of_stopped stopped).1 known

/-- Once the engine is drained, each registered job is announced, missed or observed. -/
theorem Running.Healthy.watched_of_shown (healthy : Healthy running)
    (sound : Sound running.life.engine)
    (stopped : (∃ index, running.stage = .joining index) ∨ running.stage = .returned)
    {shown : JobSnapshot} (member : shown ∈ snapshot running.life.engine) :
    shown.id ∈ running.watched := by
  obtain ⟨ended, settled⟩ := healthy.watched_of_stopped stopped
  obtain ⟨record, known, rfl⟩ := (mem_snapshot sound healthy.keyed).mp member
  obtain ⟨ref, found, read⟩ := Option.bind_eq_some_iff.mp known
  obtain ⟨other, handled⟩ := healthy.owned.handle ended found
  obtain ⟨same, _, readOther, is⟩ := sound.registry.recordOf_eq (find_of_handle sound handled)
  rw [read] at readOther
  cases readOther
  have dealt : (other, ref) ∈ handles running.settled := by
    rw [settled]
    exact handled
  refine healthy.attended.accounted.mem_iff.mpr ?_
  rw [is]
  exact List.mem_map.mpr ⟨_, dealt, rfl⟩

/-- As long as no append fails, torn tails are repaired and every restored job is observed:
when `run` has returned, every job is finished, every observer has ended, and the delivered
`EVENT`s are those of the jobs shown by `ps`, one for each job but for the ones lost to an
exception. -/
theorem run_returns_announced (world : World) (reached : Reaches World.step Undisturbed {} world)
    (running : Running) (runs : world.Runs running)
    (few : world.drawn + running.life.engine.drawn < 2 ^ 64 - 1)
    (returned : running.stage = .returned) :
    (∀ observer ∈ running.observers, observer.watch = .finished) ∧
      (∀ shown ∈ snapshot running.life.engine, isTerminal shown.state = true) ∧
      running.events.Perm (((snapshot running.life.engine).filter fun shown =>
        shown.id ∉ running.missed).map fun shown => announcement shown.result) := by
  obtain ⟨healthy, sound⟩ := runs.healthy reached few
  have finished := healthy.joined.returned returned
  have nodup := healthy.nodup sound
  have pending : running.observers.filterMap Observer.pending? = [] := by
    refine List.filterMap_eq_nil_iff.mpr fun observer member => ?_
    rw [Observer.pending?, if_pos (finished observer member)]
  rw [Running.watched, pending, List.append_nil] at nodup
  obtain ⟨announcedOnce, _, apart⟩ := List.nodup_append.mp nodup
  refine ⟨finished, ?_, ?_⟩
  · intro shown member
    obtain ⟨record, known, rfl⟩ := (mem_snapshot sound healthy.keyed).mp member
    exact healthy.finished sound (.inr returned) known
  have rows : (((snapshot running.life.engine).filter fun shown =>
      shown.id ∉ running.missed).map JobSnapshot.result).Nodup := by
    refine List.Nodup.of_map (·.id) ?_
    rw [List.map_map]
    exact ((List.filter_sublist).map _).nodup (ids_snapshot sound healthy.keyed)
  have same : running.announced.Perm (((snapshot running.life.engine).filter fun shown =>
      shown.id ∉ running.missed).map JobSnapshot.result) := by
    refine (List.perm_ext_iff_of_nodup (List.Nodup.of_map _ announcedOnce) rows).mpr ?_
    intro result
    constructor
    · intro member
      obtain ⟨shown, inside, is, _⟩ :=
        shown_of_published sound healthy.keyed (healthy.watching.announced result member)
      refine List.mem_map.mpr ⟨shown, List.mem_filter.mpr ⟨inside, decide_eq_true ?_⟩, is⟩
      intro lost
      refine apart _ (List.mem_map.mpr ⟨result, member, rfl⟩) _ lost ?_
      rw [← is]
      rfl
    · intro member
      obtain ⟨shown, kept, rfl⟩ := List.mem_map.mp member
      obtain ⟨inside, delivered⟩ := List.mem_filter.mp kept
      have watched := healthy.watched_of_shown sound (.inr returned) inside
      rw [Running.watched, pending, List.append_nil] at watched
      rcases List.mem_append.mp watched with announced | lost
      · obtain ⟨result, told, is⟩ := List.mem_map.mp announced
        obtain ⟨other, insideOther, sameResult, _⟩ :=
          shown_of_published sound healthy.keyed (healthy.watching.announced result told)
        have sameId : other.id = shown.id := by
          rw [← is, ← sameResult]
          rfl
        rw [← eq_of_shown sound healthy.keyed insideOther inside sameId, sameResult]
        exact told
      · exact absurd lost (of_decide_eq_true delivered)
  have events := same.map announcement
  rw [List.map_map] at events
  exact events

theorem servedRunning_returned :
    (snapshot servedRunning.life.engine).map (·.state) = [.completed] ∧
      (∀ observer ∈ servedRunning.observers, observer.watch = .finished) ∧
      servedRunning.events.Perm (((snapshot servedRunning.life.engine).filter fun shown =>
        shown.id ∉ servedRunning.missed).map fun shown => announcement shown.result) := by
  obtain ⟨ended, _, events⟩ :=
    run_returns_announced {} .refl servedRunning served_runs (by decide +kernel) (by decide +kernel)
  exact ⟨by decide +kernel, ended, events⟩

end Events

end Kronos.Daemon
