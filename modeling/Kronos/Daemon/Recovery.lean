import Kronos.Daemon.LifetimeProperties
import Kronos.Daemon.World

/-!
# Crash recovery

As long as no append fails and every restored job is observed, whatever the daemons
do and wherever they are cut, the file is a log that may grow further, possibly with
a part of one record behind it. So every recovery succeeds, no accepted job is lost,
no id is used twice and nothing that was reported as finished is reported otherwise
later. A restored job that cannot be observed is given up in the log alone.
-/

set_option autoImplicit false

namespace Kronos.Daemon

open Engine Wal Threads

/-! ## The start of a lifetime -/

theorem reserves_startupOf (report : RecoveryReport) :
    (startupOf report).filterMap Startup.reserves? = report.jobs.map (·.submission.id) := by
  simp [startupOf, List.filterMap_map, Function.comp_def, Startup.reserves?]

theorem restores_startupOf (report : RecoveryReport) :
    (startupOf report).filterMap Startup.restores? =
      (report.jobs.filter fun job => !isTerminal job.state).map (·.submission.id) := by
  simp [startupOf, List.filterMap_map, Function.comp_def, Startup.restores?]

theorem restore_mem_startupOf {report : RecoveryReport} {job : RecoveredJob} :
    .restore job ∈ startupOf report ↔ job ∈ report.jobs ∧ isTerminal job.state = false := by
  simp [startupOf]

theorem reserve_mem_startupOf {report : RecoveryReport} {submission : JobSubmissionRecord}
    (member : .reserve submission ∈ startupOf report) :
    ∃ job ∈ report.jobs, job.submission = submission := by
  simpa [startupOf] using member

/-- What a report on the log is. -/
structure Tells (report : RecoveryReport) (log : List JournalRecord) : Prop where
  jobs : ∀ job, job ∈ report.jobs ↔ job ∈ replay log
  ids : (report.jobs.map (·.submission.id)).Perm (submittedIds log)

theorem tells_sortBySequence (log : List JournalRecord) (tail : Bool) :
    Tells ⟨sortBySequence (replay log), tail⟩ log := by
  refine ⟨fun job => mem_sortBySequence, ?_⟩
  have sorted := (List.perm_insertionSort (fun left right : RecoveredJob =>
    left.submission.submissionSequence ≤ right.submission.submissionSequence) (replay log)).map
      (·.submission.id)
  rw [submittedIds, ← replay_submissions, List.map_map]
  exact sorted

theorem Grows.replayable {log : List JournalRecord} (grown : Grows [] log) : Replayable log := by
  have valid := (grown.valid trivial (by simp)).1
  rwa [List.nil_append] at valid

theorem alive_start {config : SchedulerConfig} {queue : TaskQueue} {requested detected before : Nat}
    {log : List JournalRecord} {report : RecoveryReport} (made : TaskQueue.make config = .ok queue)
    (grown : Grows [] log) (bounded : ∀ id ∈ submittedIds log, id.toNat ≤ before)
    (tells : Tells report log) :
    Alive before
      { engine := .make queue requested detected (some log), todo := startupOf report } log := by
  have starts : Starts (State.make queue requested detected (some log) : State BuiltinTask) :=
    ⟨config, queue, requested, detected, some log, made, rfl⟩
  have unreserved : Lifetime.unreserved
      { engine := .make queue requested detected (some log), todo := startupOf report } =
      report.jobs.map (·.submission.id) := by
    rw [Lifetime.unreserved, Lifetime.remaining, Option.toList_none, List.nil_append,
      reserves_startupOf]
  have known : ∀ job ∈ report.jobs, progressOf log job.submission.id = some job.progress :=
    fun job member => replay_progress (Grows.replayable grown) ((tells.jobs job).mp member)
  have silent : ∀ {property : Call BuiltinTask → Prop},
      ∀ call ∈ (State.make queue requested detected (some log) : State BuiltinTask).calls,
        property call := fun call member => absurd member List.not_mem_nil
  refine ⟨⟨starts.journalSound rfl (Grows.replayable grown), silent, ?_, silent⟩, silent,
    fun _ => silent, ?_, ?_, ?_, fun job waits => by cases waits⟩
  · rw [unreserved]
    refine ⟨show 0 < (1 : UInt64).toNat by decide, Nat.le_add_left _ _, bounded,
      fun id member => ?_, ?_, silent, ?_, silent⟩
    · exact .inr (tells.ids.mem_iff.mpr member)
    · intro id taken
      exact absurd rfl taken
    · exact fun id => Nat.zero_le _
  · rw [Lifetime.remaining, Option.toList_none, List.nil_append, restores_startupOf]
    refine List.Nodup.sublist ?_ (tells.ids.nodup_iff.mpr (Grows.replayable grown).nodup_ids)
    exact List.Sublist.map _ List.filter_sublist
  · intro submission member
    obtain ⟨job, inside, rfl⟩ := reserve_mem_startupOf member
    exact tells.ids.mem_iff.mp (List.mem_map.mpr ⟨job, inside, rfl⟩)
  · intro job member
    obtain ⟨inside, live⟩ := restore_mem_startupOf.mp member
    exact ⟨rfl, job.progress, known job inside, live⟩

/-! ## What a step appends -/

/-- A step that draws an id appends nothing. -/
theorem drawn_or_quiet {engine next : State BuiltinTask} {action : Action BuiltinTask}
    (stepped : engine.step action = some next) :
    next.drawn ≤ engine.drawn ∨ next.registry.journal = engine.registry.journal := by
  cases transition_of_step stepped with
  | invoke request => exact .inr rfl
  | worker found move => exact .inl (Nat.le_refl _)
  | @call index env call stage shared found move =>
      obtain ⟨request, stage'⟩ := call
      have counted := total_set Call.draws found ⟨request, stage⟩
      have same : stage'.draws = stage.draws →
          total Call.draws (engine.calls.set index ⟨request, stage⟩) ≤ engine.drawn := by
        intro same
        have equal : Call.draws (⟨request, stage'⟩ : Call BuiltinTask) =
            Call.draws ⟨request, stage⟩ := by
          simp [Call.draws, same]
        change _ = engine.drawn + _ at counted
        omega
      cases move with
      | journalSubmission is journaled durable typed appended => exact .inl (same rfl)
      | journalRestore is journaled appended => exact .inl (same rfl)
      | raced read => exact .inl (same rfl)
      | cancel read => exact .inl (same rfl)
      | cancelPending => exact .inl (same rfl)
      | registerSubmission is room => exact .inr (Registry.journal_emplace _ _ _)
      | registerRestore is fresh => exact .inr (Registry.journal_emplace _ _ _)
      | _ => exact .inr rfl

/-- What a step of a lifetime is for its engine: a step, an append for a job it does not
know, or nothing. -/
theorem Lifetime.step_cases {life next : Lifetime} {event : Event}
    (stepped : life.step event = some next) :
    (∃ action, life.engine.step action = some next.engine ∧
        ((∀ id, event.env.appendError id = none) → action.Appends) ∧
        ∀ request, action = .invoke request → request.Proper) ∨
      (∃ record, next.engine = appendTransition life.engine record) ∨
      next.engine = life.engine := by
  have gaveUp : ∀ {rest : Lifetime} {env : Environment} {job : RecoveredJob} {what : Bytes},
      rest.engine = life.engine → rest.giveUp env job what = some next →
      ∃ record, next.engine = appendTransition life.engine record := by
    intro rest env job what same failed
    simp only [Lifetime.giveUp] at failed
    split at failed
    · cases failed
    · cases failed
      exact ⟨_, by rw [same]⟩
  cases event with
  | startup env observer =>
      change life.startup env observer = some next at stepped
      unfold Lifetime.startup at stepped
      split at stepped
      · next item waits =>
          split at stepped
          · cases stepped
          · next call last =>
              obtain ⟨_, ⟨job, what, _, failed, _⟩ | ⟨_, rfl⟩⟩ := Lifetime.leave_cases stepped
              · exact .inr (.inl (gaveUp rfl failed))
              · exact .inr (.inr rfl)
      · split at stepped
        · cases stepped
        · next submission rest first =>
            obtain ⟨engine, invoked, rfl⟩ := Option.map_eq_some_iff.mp stepped
            refine .inl ⟨_, invoked, fun _ _ => rfl, ?_⟩
            rintro request ⟨⟩ task options ⟨⟩
        · next job rest first =>
            split at stepped
            · refine .inr (.inl (gaveUp ?_ stepped))
              rfl
            · obtain ⟨engine, invoked, rfl⟩ := Option.map_eq_some_iff.mp stepped
              refine .inl ⟨_, invoked, fun _ _ => rfl, ?_⟩
              rintro request ⟨⟩ task options ⟨⟩
  | invoke command =>
      simp only [Lifetime.step] at stepped
      split at stepped
      · split at stepped
        · cases stepped
        · next request requested =>
            obtain ⟨engine, invoked, rfl⟩ := Option.map_eq_some_iff.mp stepped
            refine .inl ⟨_, invoked, fun _ _ => rfl, ?_⟩
            rintro _ ⟨⟩
            exact (@Command.numbers _ _ [] requested).1.proper
      · cases stepped
  | worker index env =>
      obtain ⟨engine, moved, rfl⟩ := Option.map_eq_some_iff.mp stepped
      refine .inl ⟨_, moved, fun appends => appends, ?_⟩
      rintro _ ⟨⟩
  | call index env =>
      obtain ⟨engine, moved, rfl⟩ := Option.map_eq_some_iff.mp stepped
      refine .inl ⟨_, moved, fun appends => appends, ?_⟩
      rintro _ ⟨⟩

theorem Lifetime.drawn_or_quiet {life next : Lifetime} {event : Event}
    (stepped : life.step event = some next) :
    next.engine.drawn ≤ life.engine.drawn ∨ next.journal = life.journal := by
  rcases Lifetime.step_cases stepped with ⟨action, moved, _⟩ | ⟨record, same⟩ | same
  · exact (Daemon.drawn_or_quiet moved).imp_right fun same => by
      rw [Lifetime.journal, same]
      rfl
  · left
    rw [same]
    exact Nat.le_refl _
  · left
    rw [same]

/-- The calls of a lifetime are made with proper arguments. -/
def Lifetime.Proper (life : Lifetime) : Prop :=
  ∀ call ∈ life.engine.calls, call.request.Proper

theorem Lifetime.Proper.step {life next : Lifetime} {event : Event} (proper : life.Proper)
    (appends : ∀ id, event.env.appendError id = none) (stepped : life.step event = some next) :
    next.Proper ∧ life.engine.drawn ≤ next.engine.drawn := by
  rcases Lifetime.step_cases stepped with ⟨action, moved, appending, added⟩ | ⟨record, same⟩ | same
  · exact ⟨proper_step proper added moved, drawn_le_step proper (appending appends) moved⟩
  · rw [Lifetime.Proper, same]
    exact ⟨proper, Nat.le_refl _⟩
  · rw [Lifetime.Proper, same]
    exact ⟨proper, Nat.le_refl _⟩

/-! ## The world -/

/-- What the first outcome reports as finished, the second one reports in the same way. -/
def Settled (earlier later : Except String RecoveryReport) : Prop :=
  ∀ first second, earlier = .ok first → later = .ok second →
    ∀ job ∈ first.jobs, isTerminal job.state = true → job ∈ second.jobs

/-- The calls of one engine that were given the id. -/
def givenBy (id : JobId) (engine : State BuiltinTask) : Nat := total (Call.gives id) engine.calls

structure Sane (world : World) : Prop where
  grown : Grows [] (records world.log)
  file : ∃ torn, newline ∉ torn ∧ world.file = encodeAll world.log ++ torn ∧
    (world.life ≠ none → torn = [])
  recorded : ∀ engine ∈ world.past, ∀ call ∈ engine.calls,
    call.Recorded engine.registry.heap (records world.log)
  given : ∀ id, total (givenBy id) world.engines ≤ (submittedIds (records world.log)).count id
  bounded : ∀ id ∈ submittedIds (records world.log), id.toNat ≤ world.drawn
  reported : ∀ outcome ∈ world.recoveries, ∃ report, outcome = .ok report ∧
    ∀ job ∈ report.jobs, isTerminal job.state = true → job ∈ replay (records world.log)
  settled : world.recoveries.Pairwise Settled
  living : ∀ life, world.life = some life →
    Alive (total State.drawn world.past) life (records world.log)

/-- No append fails but for the end of the process, and the tails that it has left are
repaired. -/
def Appending (_ : World) : Happening → Prop
  | .start _ _ _ repair => repair = {}
  | .run event _ => ∀ id, event.env.appendError id = none
  | .history repair => repair = {}
  | .stop => True
  | .crash event _ _ _ => ∀ id, event.env.appendError id = none

/-- The creation of the observer of a restored job does not throw. -/
def Happening.Observed : Happening → Prop
  | .run event _ => event.observer = none
  | .crash event _ _ _ => event.observer = none
  | _ => True

/-- No append fails, and every restored job is observed. -/
def Undisturbed (world : World) (happening : Happening) : Prop :=
  Appending world happening ∧ happening.Observed

@[simp] theorem encodeAll_append (left right : List Stamped) :
    encodeAll (left ++ right) = encodeAll left ++ encodeAll right := by
  simp [encodeAll]

theorem newline_not_mem_tornLine (torn : Nat) (stamped : Option Stamped) :
    newline ∉ tornLine torn stamped := by
  cases stamped with
  | none => exact List.not_mem_nil
  | some stamped =>
      intro member
      refine newline_not_mem_body stamped.timestamp stamped.record ?_
      have inside := List.mem_of_mem_take member
      rwa [Stamped.line, encodeRecord_eq, List.dropLast_concat] at inside

theorem records_appended {life next : Lifetime} {log added : List JournalRecord}
    (before : life.engine.registry.journal = some log)
    (after : next.engine.registry.journal = some (log ++ added)) (times : Nat → Int64) :
    records (appended life next times) = added := by
  have kept : next.journal.drop life.journal.length = added := by
    simp [Lifetime.journal, before, after]
  rw [appended, kept, records]
  refine List.ext_getElem? fun index => ?_
  cases read : added[index]? <;> simp [List.getElem?_mapIdx, read]

section Steps

variable {world : World}

theorem Sane.recover (sane : Sane world) :
    ∃ report, Wal.recover world.file = (.ok report, encodeAll world.log) ∧
      Tells report (records world.log) := by
  obtain ⟨torn, unterminated, file, _⟩ := sane.file
  refine ⟨_, (congrArg Wal.recover file).trans (recover_grown sane.grown unterminated), ?_⟩
  exact tells_sortBySequence _ _

theorem Sane.settled_concat (sane : Sane world) {report : RecoveryReport}
    (tells : Tells report (records world.log)) :
    (world.recoveries ++ [Except.ok report]).Pairwise Settled := by
  refine List.pairwise_append.mpr ⟨sane.settled, List.pairwise_singleton _ _, ?_⟩
  intro earlier member later last first second is isLast job inside terminal
  rw [List.mem_singleton.mp last] at isLast
  cases isLast
  obtain ⟨same, isFirst, finished⟩ := sane.reported earlier member
  rw [isFirst] at is
  cases is
  exact (tells.jobs job).mpr (finished job inside terminal)

theorem Sane.reported_concat (sane : Sane world) {report : RecoveryReport}
    (tells : Tells report (records world.log)) :
    ∀ outcome ∈ world.recoveries ++ [Except.ok report], ∃ report, outcome = .ok report ∧
      ∀ job ∈ report.jobs, isTerminal job.state = true → job ∈ replay (records world.log) := by
  refine forall_mem_concat sane.reported ⟨report, rfl, fun job inside _ => ?_⟩
  exact (tells.jobs job).mp inside

/-- What the log has grown by leaves the reports true. -/
theorem Sane.reported_grown (sane : Sane world) {added : List JournalRecord}
    (grows : Grows (records world.log) added) :
    ∀ outcome ∈ world.recoveries, ∃ report, outcome = .ok report ∧
      ∀ job ∈ report.jobs, isTerminal job.state = true →
        job ∈ replay (records world.log ++ added) := by
  intro outcome member
  obtain ⟨report, is, finished⟩ := sane.reported outcome member
  refine ⟨report, is, fun job inside terminal => ?_⟩
  exact sane.grown.report_finished grows (finished job inside terminal) terminal

theorem recorded_grown {engine : State BuiltinTask} {log added : List JournalRecord}
    (recorded : ∀ call ∈ engine.calls, call.Recorded engine.registry.heap log) :
    ∀ call ∈ engine.calls, call.Recorded engine.registry.heap (log ++ added) := by
  intro call member
  refine (recorded call member).mono (.refl {} _) fun submission inside => ?_
  rw [submissions_append]
  exact List.mem_append_left _ inside

theorem Sane.start {config : SchedulerConfig} {requested detected : Nat} {next : World}
    (sane : Sane world) (stepped : world.step (.start config requested detected) = some next) :
    Sane next := by
  obtain ⟨report, recovered, tells⟩ := sane.recover
  rw [Wal.recover] at recovered
  simp only [World.step, recovered] at stepped
  split at stepped
  · next queue dead made =>
      cases stepped
      have drawn : world.drawn = total State.drawn world.past := by
        simp [World.drawn, World.engines, dead]
      have engines : ∀ weight : State BuiltinTask → Nat,
          total weight world.engines = total weight world.past := by
        intro weight
        simp [World.engines, dead]
      refine ⟨sane.grown, ⟨[], List.not_mem_nil, by simp, fun _ => rfl⟩, sane.recorded, ?_, ?_,
        sane.reported_concat tells, sane.settled_concat tells, ?_⟩
      · intro id
        have bound := sane.given id
        rw [engines] at bound
        simpa [World.engines, givenBy, State.make] using bound
      · intro id member
        have bound := sane.bounded id member
        rw [drawn] at bound
        simpa [World.drawn, World.engines, State.drawn, State.make] using bound
      · intro life is
        cases is
        exact alive_start made sane.grown (fun id member => drawn ▸ sane.bounded id member) tells
  · cases stepped

theorem Sane.history {next : World} (sane : Sane world)
    (stepped : world.step (.history) = some next) : Sane next := by
  obtain ⟨report, recovered, tells⟩ := sane.recover
  rw [Wal.recover] at recovered
  simp only [World.step, recovered] at stepped
  split at stepped
  · cases stepped
  · next life alive =>
      split at stepped
      · cases stepped
        exact ⟨sane.grown, ⟨[], List.not_mem_nil, by simp, fun _ => rfl⟩, sane.recorded, sane.given,
          sane.bounded, sane.reported_concat tells, sane.settled_concat tells, sane.living⟩
      · cases stepped

theorem Sane.stop {next : World} (sane : Sane world) (stepped : world.step .stop = some next) :
    Sane next := by
  simp only [World.step] at stepped
  split at stepped
  · cases stepped
  · next life alive =>
      cases stepped
      have engines : World.engines
          { world with life := none, past := world.past ++ [life.engine] } = world.engines := by
        simp [World.engines, alive]
      obtain ⟨torn, unterminated, file, whole⟩ := sane.file
      refine ⟨sane.grown, ⟨torn, unterminated, file, fun living => absurd rfl living⟩, ?_, ?_, ?_,
        sane.reported, sane.settled, fun living is => by cases is⟩
      · exact forall_mem_concat sane.recorded (sane.living life alive).journaled.recorded
      · rw [engines]
        exact sane.given
      · rw [World.drawn, engines]
        exact sane.bounded

theorem total_engines {life : Lifetime} (alive : world.life = some life)
    (weight : State BuiltinTask → Nat) :
    total weight world.engines = total weight world.past + weight life.engine := by
  simp [World.engines, alive]

theorem Sane.of_grown {life next : Lifetime} {stamps : List Stamped} {spoken : Option JobId}
    (sane : Sane world) (alive : world.life = some life)
    (after : Alive (total State.drawn world.past) next (records world.log ++ records stamps))
    (grown : Grown life.engine next.engine spoken (total State.drawn world.past)
      (records world.log) (records stamps)) :
    Sane { world with
      file := world.file ++ encodeAll stamps
      log := world.log ++ stamps
      life := some next } := by
  obtain ⟨torn, unterminated, file, whole⟩ := sane.file
  have nothing : torn = [] := whole (by simp [alive])
  have engines : ∀ weight : State BuiltinTask → Nat, total weight (World.engines
      { world with
        file := world.file ++ encodeAll stamps
        log := world.log ++ stamps
        life := some next }) = total weight world.past + weight next.engine :=
    fun weight => total_engines rfl weight
  refine ⟨?_, ⟨[], List.not_mem_nil, ?_, fun _ => rfl⟩, ?_, ?_, ?_, ?_, sane.settled, ?_⟩
  · rw [records_append]
    exact grows_append.mpr ⟨sane.grown, grown.grows⟩
  · rw [file, nothing, encodeAll_append]
    simp
  · rw [records_append]
    exact fun engine member => recorded_grown (sane.recorded engine member)
  · intro id
    have bound := sane.given id
    have gives := grown.gives id
    rw [total_engines alive] at bound
    rw [engines, records_append]
    simp only [givenBy] at bound ⊢
    omega
  · intro id member
    rw [records_append] at member
    rw [World.drawn, engines]
    exact after.journaled.numbered.bounded id member
  · rw [records_append]
    exact sane.reported_grown grown.grows
  · intro living is
    cases is
    rw [records_append]
    exact after

theorem Sane.run {event : Event} {times : Nat → Int64} {next : World} (sane : Sane world)
    (appends : ∀ id, event.env.appendError id = none) (observed : event.observer = none)
    (few : next.drawn < Registry.limit)
    (stepped : world.step (.run event times) = some next) : Sane next := by
  simp only [World.step] at stepped
  split at stepped
  · cases stepped
  · next life alive =>
      split at stepped
      · cases stepped
      · next later ran =>
          cases stepped
          have lives := sane.living life alive
          rw [World.drawn, @total_engines _ later rfl] at few
          obtain ⟨spoken, added, after, grown⟩ := lives.step appends observed few ran
          have stamps := records_appended lives.journaled.journal.all.journal grown.journaled times
          rw [← stamps] at after grown
          exact sane.of_grown alive after grown

/-- The process ends during a step: the log has grown by a part of what the step appends. -/
theorem Sane.of_cut {life : Lifetime} {stamps : List Stamped} {torn : Bytes} (sane : Sane world)
    (alive : world.life = some life) (grows : Grows (records world.log) (records stamps))
    (unterminated : newline ∉ torn)
    (bounded : ∀ id ∈ submittedIds (records world.log ++ records stamps),
      id.toNat ≤ total State.drawn world.past + life.engine.drawn) :
    Sane { world with
      file := world.file ++ encodeAll stamps ++ torn
      log := world.log ++ stamps
      life := none
      past := world.past ++ [life.engine] } := by
  obtain ⟨rest, _, file, whole⟩ := sane.file
  have nothing : rest = [] := whole (by simp [alive])
  have recorded := (sane.living life alive).journaled.recorded
  have engines : World.engines
      { world with
        file := world.file ++ encodeAll stamps ++ torn
        log := world.log ++ stamps
        life := none
        past := world.past ++ [life.engine] } = world.engines := by
    simp [World.engines, alive]
  refine ⟨?_, ⟨torn, unterminated, ?_, fun living => absurd rfl living⟩, ?_, ?_, ?_, ?_,
    sane.settled, fun living is => by cases is⟩
  · rw [records_append]
    exact grows_append.mpr ⟨sane.grown, grows⟩
  · rw [file, nothing, encodeAll_append]
    simp
  · rw [records_append]
    refine forall_mem_concat (fun engine member => ?_) (recorded_grown recorded)
    exact recorded_grown (sane.recorded engine member)
  · intro id
    rw [engines, records_append, submittedIds_append, List.count_append]
    exact (sane.given id).trans (Nat.le_add_right _ _)
  · intro id member
    rw [records_append] at member
    rw [World.drawn, engines, total_engines alive]
    exact bounded id member
  · rw [records_append]
    exact sane.reported_grown grows

theorem Sane.crash {event : Event} {times : Nat → Int64} {complete torn : Nat} {next : World}
    (sane : Sane world) (appends : ∀ id, event.env.appendError id = none)
    (observed : event.observer = none) (few : next.drawn < Registry.limit)
    (stepped : world.step (.crash event times complete torn) = some next) : Sane next := by
  simp only [World.step] at stepped
  split at stepped
  · cases stepped
  · next life alive =>
      split at stepped
      · cases stepped
      · next later ran =>
          cases stepped
          have lives := sane.living life alive
          have total' : total State.drawn world.past + life.engine.drawn < Registry.limit := by
            simpa [World.drawn, World.engines] using few
          obtain ⟨added, written, grows, bounded⟩ : ∃ added,
              records (appended life later times) = added ∧ Grows (records world.log) added ∧
                ∀ id ∈ submittedIds (records world.log ++ added),
                  id.toNat ≤ total State.drawn world.past + life.engine.drawn := by
            rcases Lifetime.drawn_or_quiet ran with same | quiet
            · obtain ⟨spoken, added, _, grown⟩ := lives.step appends observed (by omega) ran
              exact ⟨added, records_appended lives.journaled.journal.all.journal grown.journaled
                times, grown.grows, grown.bounded⟩
            · refine ⟨[], by simp [appended, quiet, records], trivial, ?_⟩
              rw [List.append_nil]
              exact lives.journaled.numbered.bounded
          have isPrefix : records ((appended life later times).take complete) <+: added := by
            rw [← written, records, List.map_take]
            exact List.take_prefix _ _
          refine sane.of_cut alive (grows.of_prefix isPrefix) (newline_not_mem_tornLine _ _) ?_
          intro id member
          obtain ⟨rest, whole⟩ := isPrefix
          refine bounded id ?_
          rw [← whole, ← List.append_assoc, submittedIds_append]
          exact List.mem_append_left _ member

/-- The calls of the living daemon are proper, and jobs are only ever added. -/
theorem drawn_step {happening : Happening} {next : World}
    (proper : ∀ life, world.life = some life → life.Proper)
    (appends : Appending world happening) (stepped : world.step happening = some next) :
    (∀ life, next.life = some life → life.Proper) ∧ world.drawn ≤ next.drawn := by
  cases happening with
  | start config requested detected repair =>
      simp only [World.step] at stepped
      split at stepped
      · next queue dead made =>
          cases stepped
          refine ⟨fun life is => ?_, ?_⟩
          · simp only at is
            split at is
            · cases is
            · cases is
              exact fun call member => absurd member List.not_mem_nil
          · simp [World.drawn, World.engines, dead]
      · cases stepped
  | run event times =>
      simp only [World.step] at stepped
      split at stepped
      · cases stepped
      · next life alive =>
          split at stepped
          · cases stepped
          · next later ran =>
              cases stepped
              obtain ⟨kept, more⟩ := (proper life alive).step appends ran
              refine ⟨fun living is => ?_, ?_⟩
              · cases is
                exact kept
              · rw [World.drawn, World.drawn, total_engines alive, @total_engines _ later rfl]
                exact Nat.add_le_add_left more _
  | history repair =>
      simp only [World.step] at stepped
      split at stepped
      · cases stepped
      · split at stepped
        · cases stepped
          exact ⟨proper, Nat.le_refl _⟩
        · cases stepped
  | stop =>
      simp only [World.step] at stepped
      split at stepped
      · cases stepped
      · next life alive =>
          cases stepped
          exact ⟨fun living is => (by cases is), by simp [World.drawn, World.engines, alive]⟩
  | crash event times complete torn =>
      simp only [World.step] at stepped
      split at stepped
      · cases stepped
      · next life alive =>
          split at stepped
          · cases stepped
          · cases stepped
            exact ⟨fun living is => (by cases is), by simp [World.drawn, World.engines, alive]⟩

theorem Sane.step {happening : Happening} {next : World} (sane : Sane world)
    (undisturbed : Undisturbed world happening) (few : next.drawn < Registry.limit)
    (stepped : world.step happening = some next) : Sane next := by
  obtain ⟨appends, observed⟩ := undisturbed
  cases happening with
  | start config requested detected repair =>
      obtain rfl : repair = {} := appends
      exact sane.start stepped
  | run event times => exact sane.run appends observed few stepped
  | history repair =>
      obtain rfl : repair = {} := appends
      exact sane.history stepped
  | stop => exact sane.stop stepped
  | crash event times complete torn => exact sane.crash appends observed few stepped

/-- The ids given to the jobs of all lifetimes. -/
def World.ids (world : World) : List JobId :=
  world.engines.flatMap fun engine => engine.calls.filterMap Call.given?

theorem count_given (calls : List (Call BuiltinTask)) (id : JobId) :
    (calls.filterMap Call.given?).count id = total (Call.gives id) calls := by
  induction calls with
  | nil => rfl
  | cons call rest ih =>
      rw [total_cons, ← ih, Call.gives]
      cases given : call.given? with
      | none => simp [given]
      | some other =>
          rw [List.filterMap_cons_some given, List.count_cons]
          simp [Nat.add_comm]

theorem count_ids (engines : List (State BuiltinTask)) (id : JobId) :
    (engines.flatMap fun engine => engine.calls.filterMap Call.given?).count id =
      total (givenBy id) engines := by
  induction engines with
  | nil => rfl
  | cons engine rest ih =>
      rw [List.flatMap_cons, List.count_append, count_given, ih, total_cons]
      rfl

theorem Sane.nodup_ids (sane : Sane world) : world.ids.Nodup := by
  rw [List.nodup_iff_count_le_one]
  intro id
  rw [World.ids, count_ids]
  have once := List.nodup_iff_count_le_one.mp (Grows.replayable sane.grown).nodup_ids id
  exact (sane.given id).trans once

end Steps

theorem sane_empty : Sane {} := by
  refine ⟨trivial, ⟨[], List.not_mem_nil, rfl, fun _ => rfl⟩, ?_, fun _ => Nat.zero_le _, ?_, ?_,
    List.Pairwise.nil, ?_⟩
  · exact fun engine member => absurd member List.not_mem_nil
  · exact fun id member => absurd member List.not_mem_nil
  · exact fun outcome member => absurd member List.not_mem_nil
  · intro life is
    cases is

theorem Sane.of_reaches {world : World} (reached : Reaches World.step Undisturbed {} world)
    (few : world.drawn < Registry.limit) : Sane world := by
  have holds := reached.invariant
    (fun world => (∀ life, world.life = some life → life.Proper) ∧
      (world.drawn < Registry.limit → Sane world))
    ⟨fun life is => (by cases is), fun _ => sane_empty⟩ ?_
  · exact holds.2 few
  · rintro state happening next ⟨proper, sane⟩ undisturbed stepped
    obtain ⟨kept, more⟩ := drawn_step proper undisturbed.1 stepped
    refine ⟨kept, fun few => ?_⟩
    exact (sane (Nat.lt_of_le_of_lt more few)).step undisturbed few stepped

/-- The report holds the job of a returned submission exactly once, as it was submitted. -/
def Reported (report : RecoveryReport) (heap : List (JobRecord BuiltinTask))
    (options : SubmissionOptions) (id : JobId) (ref : RecordRef) : Prop :=
  ∃ record spec, heap[ref]? = some record ∧ options.durableSpec = some spec ∧
    ∃ job ∈ report.jobs,
      job.submission = ⟨id, record.snapshot.submissionSequence, submittedName options,
        options.priority, options.estimatedWorkUnits, spec⟩ ∧
      ∀ other ∈ report.jobs, other.submission.id = id → other = job

/-- Crash recovery of the daemon, in every world that lifetimes on an initially
empty log lead to, as long as no append fails, torn tails are repaired and every
restored job is observed: all recoveries so far have succeeded and so does the next
one; it reports every job whose submission has returned in any lifetime exactly once
and as submitted; no two jobs were given the same id; and what was reported as
finished is reported in the same way ever after. -/
theorem crash_recovery (world : World) (reached : Reaches World.step Undisturbed {} world)
    (few : world.drawn < 2 ^ 64 - 1) :
    (∀ outcome ∈ world.recoveries, ∃ report, outcome = .ok report) ∧
      world.recoveries.Pairwise Settled ∧ world.ids.Nodup ∧
      ∃ report contents, recover world.file = (.ok report, contents) ∧
        (report.jobs.map (·.submission.id)).Nodup ∧
        (∀ engine ∈ world.engines, ∀ task options id ref,
          ⟨.submit task options, .returnedHandle id ref⟩ ∈ engine.calls →
            Reported report engine.registry.heap options id ref) ∧
        ∀ outcome ∈ world.recoveries, Settled outcome (.ok report) := by
  have sane := Sane.of_reaches reached few
  have replayable := Grows.replayable sane.grown
  obtain ⟨report, recovered, tells⟩ := sane.recover
  have settled := List.pairwise_append.mp (sane.settled_concat tells)
  refine ⟨?_, sane.settled, sane.nodup_ids, report, _, recovered, ?_, ?_, ?_⟩
  · intro outcome member
    obtain ⟨report, is, _⟩ := sane.reported outcome member
    exact ⟨report, is⟩
  · exact tells.ids.nodup_iff.mpr replayable.nodup_ids
  · intro engine member task options id ref returned
    have recorded : ∀ call ∈ engine.calls,
        call.Recorded engine.registry.heap (records world.log) := by
      rcases List.mem_append.mp member with earlier | present
      · exact sane.recorded engine earlier
      · obtain ⟨life, alive, rfl⟩ := Option.map_eq_some_iff.mp (Option.mem_toList.mp present)
        exact (sane.living life alive).journaled.recorded
    obtain ⟨record, spec, read, durable, submitted⟩ := recorded _ returned task options rfl
    obtain ⟨job, inside, same, unique⟩ := replay_of_submission replayable submitted
    refine ⟨record, spec, read, durable, job, (tells.jobs job).mpr inside, same, ?_⟩
    exact fun other otherInside => unique other ((tells.jobs other).mp otherInside)
  · intro outcome member
    exact settled.2.2 outcome member _ (List.mem_singleton.mpr rfl)

/-- A run whose happenings are admitted for what they are, whatever the world. -/
theorem reaches_of_happenings {admits : World → Happening → Prop} {happenings : List Happening}
    {final : World}
    (ran : @runAll _ _ World.step (fun _ _ => True) (fun _ _ => instDecidableTrue) {}
      happenings = some final)
    (anywhere : ∀ world happening, admits {} happening → admits world happening)
    (all : ∀ happening ∈ happenings, admits {} happening) :
    Reaches World.step admits {} final :=
  (@reaches_of_runAll_of_forall _ _ _ _ _ (admits {}) _ _ _ ran all).mono
    fun world happening admitted => anywhere world happening admitted.2

theorem Undisturbed.anywhere (world : World) (happening : Happening)
    (undisturbed : Undisturbed {} happening) : Undisturbed world happening := by
  cases happening <;> exact undisturbed

/-- A job is submitted, the daemon is cut while its first transition is appended,
and the next daemon restores the job. -/
def restartedHappenings : List Happening :=
  let step (event : Event) : Happening := .run event fun _ => 0
  .start {} 1 0 :: step (.invoke (.submit (text "step") [text "1", text "0"] 3)) ::
    List.replicate 6 (step (.call 0 {})) ++ List.replicate 2 (step (.worker 0 {})) ++
    .crash (.worker 0 {}) (fun _ => 0) 0 9 ::
    .start {} 1 0 :: step (.startup {} none) :: List.replicate 5 (step (.call 0 {})) ++
    List.replicate 2 (step (.startup {} none)) ++ List.replicate 6 (step (.call 1 {})) ++
    [step (.startup {} none), .history]

private theorem restarted_ran :
    (@runAll _ _ World.step (fun _ _ => True) (fun _ _ => instDecidableTrue) {}
      restartedHappenings).isSome = true := by
  decide +kernel

def restartedWorld : World := Option.get _ restarted_ran

private theorem restarted_reached : Reaches World.step Undisturbed {} restartedWorld := by
  apply reaches_of_happenings (Option.some_get restarted_ran).symm Undisturbed.anywhere
  simp [restartedHappenings, or_imp, forall_and, Undisturbed, Appending, Happening.Observed,
    Event.env, Event.observer]

theorem restartedWorld_recovered :
    restartedWorld.ids = [1] ∧ restartedWorld.recoveries.length = 3 ∧
      restartedWorld.recoveries.Pairwise Settled ∧
      ∃ report contents, recover restartedWorld.file = (.ok report, contents) ∧
        ∀ engine ∈ restartedWorld.engines, ∀ task options id ref,
          ⟨.submit task options, .returnedHandle id ref⟩ ∈ engine.calls →
            Reported report engine.registry.heap options id ref := by
  obtain ⟨_, settled, _, report, contents, recovered, _, returned, _⟩ :=
    crash_recovery restartedWorld restarted_reached (by decide +kernel)
  exact ⟨by decide +kernel, by decide +kernel, settled, report, contents, recovered, returned⟩

/-! ## A restored job whose observer cannot be made -/

instance (earlier later : Except String RecoveryReport) : Decidable (Settled earlier later) :=
  match earlier, later with
  | .ok first, .ok second =>
      decidable_of_iff (∀ job ∈ first.jobs, isTerminal job.state = true → job ∈ second.jobs)
        ⟨fun holds _ _ is isLater => by cases is; cases isLater; exact holds,
          fun settled => settled first second rfl rfl⟩
  | .error _, _ => .isTrue fun _ _ is => by cases is
  | .ok _, .error _ => .isTrue fun _ _ _ is => by cases is

/-- A job is restored and queued, there is no thread for its observer, and the workers
run it all the same. `history` is asked for before and after it. -/
def abandonedHappenings : List Happening :=
  let step (event : Event) : Happening := .run event fun _ => 0
  .start {} 1 0 :: step (.invoke (.submit (text "step") [text "1", text "0"] 3)) ::
    List.replicate 6 (step (.call 0 {})) ++
    [.stop, .start {} 1 0, step (.startup {} none)] ++ List.replicate 5 (step (.call 0 {})) ++
    List.replicate 2 (step (.startup {} none)) ++ List.replicate 6 (step (.call 1 {})) ++
    [step (.startup {} (some (text "Resource temporarily unavailable"))), .history] ++
    List.replicate 5 (step (.worker 0 {})) ++ [.history]

private theorem abandoned_ran :
    (@runAll _ _ World.step (fun _ _ => True) (fun _ _ => instDecidableTrue) {}
      abandonedHappenings).isSome = true := by
  decide +kernel

def abandonedWorld : World := Option.get _ abandoned_ran

private theorem abandoned_reached : Reaches World.step Appending {} abandonedWorld := by
  apply reaches_of_happenings (Option.some_get abandoned_ran).symm
  · intro world happening appends
    cases happening <;> exact appends
  · simp [abandonedHappenings, or_imp, forall_and, Appending, Event.env]

/-- The states of the jobs in a report. -/
def statesOf (outcome : Except String RecoveryReport) : Option (List JobState) :=
  outcome.toOption.map fun report => report.jobs.map (·.state)

/-- The job is reported as failed and then as completed, although no append fails. -/
theorem abandoned_job_completes :
    Reaches World.step Appending {} abandonedWorld ∧ abandonedWorld.drawn < 2 ^ 64 - 1 ∧
      abandonedWorld.recoveries.map statesOf =
        [some [], some [.ready], some [.failed], some [.completed]] ∧
      ¬ abandonedWorld.recoveries.Pairwise Settled :=
  ⟨abandoned_reached, by decide +kernel, by decide +kernel, by decide +kernel⟩

end Kronos.Daemon
