import Kronos.Daemon.Following
import Kronos.Daemon.Requests

/-!
# What `ps` and `history` show

`ps` shows the registry and `history` the log. As long as no append fails and every
restored job is observed they never contradict each other, and a job that was accepted
in any lifetime is shown by one of them.
-/

set_option autoImplicit false

namespace Kronos.Daemon

open Engine Wal Threads

/-! ## The rows of `ps` -/

section Rows

variable {engine : State BuiltinTask}

theorem find_of_entry {registry : Registry BuiltinTask} (keyed : registry.Keyed)
    {entry : JobId × RecordRef} (member : entry ∈ registry.records) :
    registry.find entry.1 = some entry.2 := by
  obtain ⟨ref, found⟩ := Option.ne_none_iff_exists'.mp
    (find_of_key (List.mem_map.mpr ⟨entry, member, rfl⟩))
  obtain ⟨earlier, later, split, _⟩ := List.lookup_eq_some_iff.mp found
  have inside : (entry.1, ref) ∈ registry.records := by
    rw [split]
    exact List.mem_append_right _ List.mem_cons_self
  have same := List.inj_on_of_nodup_map keyed inside member rfl
  rw [found, ← same]

/-- A row for every registered job, and no other. -/
theorem mem_snapshot (sound : Sound engine) (keyed : engine.registry.Keyed) {shown : JobSnapshot} :
    shown ∈ snapshot engine ↔
      ∃ record, engine.registry.recordOf shown.id = some record ∧ record.snapshot = shown := by
  rw [snapshot, List.mem_mergeSort, List.mem_filterMap]
  constructor
  · rintro ⟨entry, member, is⟩
    obtain ⟨record, read, rfl⟩ := Option.map_eq_some_iff.mp is
    obtain ⟨other, known, readOther, same⟩ :=
      sound.registry.recordOf_eq (find_of_entry keyed member)
    rw [show engine.registry.heap[entry.2]? = some record from read] at readOther
    cases readOther
    exact ⟨record, by rw [same]; exact known, rfl⟩
  · rintro ⟨record, known, rfl⟩
    obtain ⟨ref, found, read⟩ := Option.bind_eq_some_iff.mp known
    obtain ⟨earlier, later, split, _⟩ := List.lookup_eq_some_iff.mp found
    refine ⟨(record.snapshot.id, ref), ?_, ?_⟩
    · change _ ∈ engine.registry.records
      rw [split]
      exact List.mem_append_right _ List.mem_cons_self
    · change (engine.registry.heap[ref]?).map _ = _
      rw [read]
      rfl

/-- The rows show the ids that are registered. -/
theorem keys_snapshot (sound : Sound engine) (keyed : engine.registry.Keyed) :
    ((snapshot engine).map (·.id)).Perm (engine.registry.records.map Prod.fst) := by
  have rows : (engine.registry.records.filterMap fun entry =>
      engine.registry.heap[entry.2]?.map (·.snapshot)).map (·.id) =
        engine.registry.records.map Prod.fst := by
    rw [List.map_filterMap, ← List.filterMap_eq_map]
    refine List.filterMap_congr fun entry member => ?_
    obtain ⟨record, _, read, same⟩ := sound.registry.recordOf_eq (find_of_entry keyed member)
    rw [read]
    exact congrArg some same
  rw [← rows]
  exact (List.mergeSort_perm _ _).map _

theorem ids_snapshot (sound : Sound engine) (keyed : engine.registry.Keyed) :
    ((snapshot engine).map (·.id)).Nodup :=
  (keys_snapshot sound keyed).nodup_iff.mpr keyed

theorem sorted_snapshot (engine : State BuiltinTask) :
    (snapshot engine).Pairwise fun left right =>
      left.submissionSequence ≤ right.submissionSequence := by
  have sorted := @List.pairwise_mergeSort _
    (fun left right : JobSnapshot => decide (left.submissionSequence ≤ right.submissionSequence))
    (fun _ _ _ one other => decide_eq_true (UInt64.le_trans (of_decide_eq_true one)
      (of_decide_eq_true other)))
    (fun left right => by
      simpa using UInt64.le_total left.submissionSequence right.submissionSequence)
    (engine.shared.registry.records.filterMap fun entry =>
      engine.shared.registry.heap[entry.2]?.map (·.snapshot))
  exact sorted.imp fun below => of_decide_eq_true below

end Rows

/-! ## What both show -/

/-- The reported job is the one `ps` shows. While a slice runs `ps` still shows the
message from before. -/
structure Shows (job : RecoveredJob) (shown : JobSnapshot) : Prop where
  id : job.submission.id = shown.id
  name : job.submission.name = shown.name
  priority : job.submission.priority = shown.priority
  estimate : job.submission.estimatedWorkUnits = shown.estimatedWorkUnits
  sequence : job.submission.submissionSequence = shown.submissionSequence
  state : job.state = shown.state
  units : job.workUnitsConsumed = shown.workUnitsConsumed
  message : shown.state ≠ .running → job.message = shown.message

theorem Following.shows {life : Lifetime} {log : List JournalRecord} {before : Nat}
    (following : Following life log) (alive : Alive before life log) (replayable : Replayable log)
    {id : JobId} {record : JobRecord BuiltinTask}
    (known : life.engine.registry.recordOf id = some record) :
    ∃ job ∈ replay log, Shows job record.snapshot := by
  obtain ⟨⟨progress, told, state, units, message⟩, ⟨submission, member, same, fields⟩, _⟩ :=
    following.follows.replays alive.journaled.journal known
  obtain ⟨job, inside, rfl, _⟩ := replay_of_submission replayable member
  have is := replay_progress replayable inside
  rw [same, told, Option.some.injEq] at is
  subst is
  obtain ⟨name, priority, estimate, sequence⟩ := fields
  exact ⟨job, inside, same, name, priority, estimate, sequence, state, units, message⟩

/-- A job of the log that is registered is the one its record shows. -/
theorem Following.shows_registered {life : Lifetime} {log : List JournalRecord} {before : Nat}
    (following : Following life log) (alive : Alive before life log) (replayable : Replayable log)
    {job : RecoveredJob} {record : JobRecord BuiltinTask} (member : job ∈ replay log)
    (known : life.engine.registry.recordOf job.submission.id = some record) :
    Shows job record.snapshot := by
  obtain ⟨other, inside, shows'⟩ := following.shows alive replayable known
  have registered := (alive.journaled.journal.sound.registry.recordOf_ok known).2
  have submitted : job.submission ∈ submissions log := by
    rw [← replay_submissions]
    exact List.mem_map.mpr ⟨job, member, rfl⟩
  obtain ⟨_, _, _, unique⟩ := replay_of_submission replayable submitted
  rw [unique job member rfl, ← unique other inside (shows'.id.trans registered)]
  exact shows'

/-- In every world that lifetimes on an initially empty log lead to, as long as no append
fails, torn tails are repaired and every restored job is observed: `ps` shows each
registered job in one row, in the order of submission, and `history` finds it in the same
state. What `history` finds unfinished, `ps` shows, unless its submission is just being
registered. -/
theorem ps_agrees_with_history (world : World) (reached : Reaches World.step Undisturbed {} world)
    (few : world.drawn < 2 ^ 64 - 1) (life : Lifetime) (alive : world.life = some life)
    (ready : life.ready = true) :
    ((snapshot life.engine).map (·.id)).Perm (life.engine.registry.records.map Prod.fst) ∧
      ((snapshot life.engine).map (·.id)).Nodup ∧
      (snapshot life.engine).Pairwise
        (fun left right => left.submissionSequence ≤ right.submissionSequence) ∧
      ∃ report contents, recover world.file = (.ok report, contents) ∧
        (report.jobs.map (·.submission.id)).Nodup ∧
        (∀ shown ∈ snapshot life.engine,
          (∃ record, life.engine.registry.recordOf shown.id = some record ∧
            record.snapshot = shown) ∧
          ∃ job ∈ report.jobs, Shows job shown) ∧
        ∀ job ∈ report.jobs, isTerminal job.state = false →
          (∃ shown ∈ snapshot life.engine, Shows job shown) ∨
            ∃ call ∈ life.engine.calls, call.prepares job.submission.id ≠ 0 := by
  have sane := Sane.of_reaches reached few
  have following := World.follows_of_reaches reached few life alive
  have lives := sane.living life alive
  have sound := lives.journaled.journal.sound
  have replayable := Grows.replayable sane.grown
  have keyed := following.follows.keyed
  obtain ⟨report, recovered, tells⟩ := sane.recover
  refine ⟨keys_snapshot sound keyed, ids_snapshot sound keyed, sorted_snapshot life.engine,
    report, _, recovered, tells.ids.nodup_iff.mpr replayable.nodup_ids, ?_, ?_⟩
  · intro shown member
    obtain ⟨record, known, rfl⟩ := (mem_snapshot sound keyed).mp member
    obtain ⟨job, inside, same⟩ := following.shows lives replayable known
    exact ⟨⟨record, known, rfl⟩, job, (tells.jobs job).mpr inside, same⟩
  intro job member live
  have inside := (tells.jobs job).mp member
  have nothing : life.unrestored = [] := by
    obtain ⟨idle, finished⟩ : life.running = none ∧ life.todo = [] := by
      simpa [Lifetime.ready] using ready
    simp [Lifetime.unrestored, Lifetime.remaining, idle, finished]
  have told := replay_progress replayable inside
  rcases following.follows.tracked job.submission.id job.progress told live with
    found | prepared | waiting
  · left
    obtain ⟨ref, is⟩ := Option.ne_none_iff_exists'.mp found
    obtain ⟨record, known, _, same⟩ := sound.registry.recordOf_eq is
    refine ⟨record.snapshot, (mem_snapshot sound keyed).mpr ⟨record, ?_, rfl⟩, ?_⟩
    · rw [same]
      exact known
    · exact following.shows_registered lives replayable inside known
  · exact .inr prepared
  · rw [nothing] at waiting
    cases waiting

/-- The restored job runs its slice while the next one is about to be registered. -/
def resumedHappenings : List Happening :=
  let step (event : Event) : Happening := .run event fun _ => 0
  restartedHappenings ++ List.replicate 3 (step (.worker 0 {})) ++
    step (.invoke (.submit (text "prime") [text "5"] 2)) :: List.replicate 4 (step (.call 2 {}))

private theorem resumed_ran :
    (@runAll _ _ World.step (fun _ _ => True) (fun _ _ => instDecidableTrue) {}
      resumedHappenings).isSome = true := by
  decide +kernel

def resumedWorld : World := Option.get _ resumed_ran

private theorem resumed_reached : Reaches World.step Undisturbed {} resumedWorld := by
  apply reaches_of_happenings (Option.some_get resumed_ran).symm Undisturbed.anywhere
  simp [resumedHappenings, restartedHappenings, or_imp, forall_and, Undisturbed, Appending,
    Happening.Observed, Event.env, Event.observer]

private theorem resumed_alive : resumedWorld.life.isSome = true := by decide +kernel

def resumedLife : Lifetime := Option.get _ resumed_alive

theorem resumedWorld_shown :
    (snapshot resumedLife.engine).map (·.state) = [.running] ∧
      ((snapshot resumedLife.engine).map (·.id)).Perm
        (resumedLife.engine.registry.records.map Prod.fst) ∧
      ∃ report contents, recover resumedWorld.file = (.ok report, contents) ∧
        report.jobs.map (·.state) = [.running, .ready] ∧
        (∀ shown ∈ snapshot resumedLife.engine, ∃ job ∈ report.jobs, Shows job shown) ∧
        ∀ job ∈ report.jobs, isTerminal job.state = false →
          (∃ shown ∈ snapshot resumedLife.engine, Shows job shown) ∨
            ∃ call ∈ resumedLife.engine.calls, call.prepares job.submission.id ≠ 0 := by
  have told : (recover resumedWorld.file).1.toOption.map (fun report =>
      report.jobs.map (·.state)) = some [.running, .ready] := by
    decide +kernel
  obtain ⟨rows, _, _, report, contents, recovered, _, shown, live⟩ :=
    ps_agrees_with_history resumedWorld resumed_reached (by decide +kernel) resumedLife
      (Option.some_get resumed_alive).symm (by decide +kernel)
  rw [recovered] at told
  exact ⟨by decide +kernel, rows, report, contents, recovered, Option.some.inj told,
    fun row member => (shown row member).2, live⟩

/-! ## A graceful end -/

/-- No registered job is unfinished once a shutdown and all other calls have returned. -/
theorem finished_of_shutDown {engine : State BuiltinTask} (closing : Closing engine)
    (sound : Sound engine) (returned : ∃ call ∈ engine.calls, call.shutDown)
    (ended : ∀ call ∈ engine.calls, call.stage.ended = true) {id : JobId}
    {record : JobRecord BuiltinTask} (known : engine.registry.recordOf id = some record) :
    isTerminal record.snapshot.state = true := by
  rcases (closing.nothingLeft sound returned).jobs id record known with ⟨terminal, _⟩ | unpushed
  · exact terminal
  · obtain ⟨⟨request, stage⟩, member, carries⟩ := exists_of_total_pos unpushed
    have stopped := ended _ member
    cases stage with
    | push entry ref => cases stopped
    | raced entry ref => cases stopped
    | advanceJobId restored current => cases stopped
    | advanceSequence restored current => cases stopped
    | _ => cases carries

end Kronos.Daemon
