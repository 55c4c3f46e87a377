import Kronos.JournalProperties
import Kronos.Wal.RecoverProperties

/-!
# Growth of the journal

What a run of daemons may append: submissions of new jobs, and transitions of
jobs that are not finished. A log that has grown in this way can be recovered at
any time, and recovery never changes its mind about a finished job.
-/

set_option autoImplicit false

namespace Kronos

/-- The record may be appended to the log. -/
inductive Appendable (log : List JournalRecord) : JournalRecord → Prop
  | submission {record : JobSubmissionRecord} (fresh : record.id ∉ submittedIds log)
      (accepted : Wal.Accepted (.submission record)) : Appendable log (.submission record)
  | transition {record : JobTransitionRecord} {progress : Progress}
      (known : progressOf log record.id = some progress)
      (live : isTerminal progress.state = false) : Appendable log (.transition record)

/-- The records may be appended to the log, one after the other. -/
def Grows (log : List JournalRecord) : List JournalRecord → Prop
  | [] => True
  | record :: rest => Appendable log record ∧ Grows (log ++ [record]) rest

theorem grows_append {log first second : List JournalRecord} :
    Grows log (first ++ second) ↔ Grows log first ∧ Grows (log ++ first) second := by
  induction first generalizing log with
  | nil => simp [Grows]
  | cons record rest ih =>
      rw [List.cons_append, Grows, ih, Grows, and_assoc, List.append_assoc, List.singleton_append]

theorem Grows.of_prefix {log kept added : List JournalRecord} (grows : Grows log added)
    (isPrefix : kept <+: added) : Grows log kept := by
  obtain ⟨rest, rfl⟩ := isPrefix
  exact (grows_append.mp grows).1

theorem grows_singleton {log : List JournalRecord} {record : JournalRecord} :
    Grows log [record] ↔ Appendable log record := by
  simp [Grows]

/-- Every record of a grown log passes the checks of the append functions. -/
theorem Appendable.accepted {log : List JournalRecord} {record : JournalRecord}
    (accepted : ∀ earlier ∈ log, Wal.Accepted earlier) (appendable : Appendable log record) :
    Wal.Accepted record := by
  cases appendable with
  | submission fresh accepted => exact accepted
  | @transition record progress known live =>
      have member := progressOf_isSome_iff.mp (show (progressOf log record.id).isSome by simp [known])
      obtain ⟨submission, inside, same⟩ := List.mem_map.mp member
      obtain ⟨earlier, inLog, is⟩ := List.mem_filterMap.mp inside
      cases earlier with
      | transition other => cases is
      | submission other =>
          cases is
          have valid := accepted _ inLog
          change record.id ≠ 0
          rw [← same]
          exact valid.1

theorem Appendable.replayable {log : List JournalRecord} {record : JournalRecord}
    (replayable : Replayable log) (appendable : Appendable log record) :
    Replayable (log ++ [record]) := by
  cases appendable with
  | submission fresh accepted => exact replayable_append_submission.mpr ⟨replayable, fresh⟩
  | transition known live =>
      exact replayable_append_transition.mpr
        ⟨replayable, progressOf_isSome_iff.mp (by simp [known])⟩

theorem Grows.valid {log added : List JournalRecord} (grows : Grows log added)
    (replayable : Replayable log) (accepted : ∀ record ∈ log, Wal.Accepted record) :
    Replayable (log ++ added) ∧ ∀ record ∈ log ++ added, Wal.Accepted record := by
  induction added generalizing log with
  | nil => simpa using ⟨replayable, accepted⟩
  | cons record rest ih =>
      have also := grows.1.accepted accepted
      have next := ih grows.2 (grows.1.replayable replayable) (by
        intro earlier member
        rcases List.mem_append.mp member with old | added
        · exact accepted earlier old
        · rw [List.mem_singleton.mp added]
          exact also)
      simpa using next

theorem Grows.finished {log added : List JournalRecord} (grows : Grows log added) {id : JobId}
    {progress : Progress} (known : progressOf log id = some progress)
    (terminal : isTerminal progress.state = true) :
    progressOf (log ++ added) id = some progress := by
  induction added generalizing log with
  | nil => simpa using known
  | cons record rest ih =>
      have kept : progressOf (log ++ [record]) id = some progress := by
        by_cases same : record.id = id
        · cases grows.1 with
          | @submission record fresh accepted =>
              have member := progressOf_isSome_iff.mp (show (progressOf log id).isSome by simp [known])
              rw [← same] at member
              exact absurd member fresh
          | @transition record before knownBefore live =>
              rw [show record.id = id from same, known] at knownBefore
              cases knownBefore
              rw [terminal] at live
              cases live
        · rw [progressOf_append_other same]
          exact known
      have later := ih grows.2 kept
      simpa using later

/-! ## Reports on a grown log -/

open Wal in
/-- Recovery of a grown log with the first bytes of one more record behind it. -/
theorem recover_grown {log : List Stamped} {torn : Bytes} (grown : Grows [] (records log))
    (unterminated : newline ∉ torn) :
    recover (encodeAll log ++ torn) =
      (.ok ⟨sortBySequence (replay (records log)), decide (torn ≠ [])⟩, encodeAll log) := by
  obtain ⟨replayable, accepted⟩ := grown.valid trivial (by simp)
  rw [List.nil_append] at replayable accepted
  refine recover_encodeAll_append (fun stamped member => ?_) replayable unterminated
  exact accepted stamped.record (List.mem_map.mpr ⟨stamped, member, rfl⟩)

theorem mem_sortBySequence {jobs : List RecoveredJob} {job : RecoveredJob} :
    job ∈ Wal.sortBySequence jobs ↔ job ∈ jobs :=
  (List.perm_insertionSort _ _).mem_iff

/-- Replay of a grown log has one entry for each submission. -/
theorem replay_of_submission {log : List JournalRecord} (replayable : Replayable log)
    {submission : JobSubmissionRecord} (member : submission ∈ submissions log) :
    ∃ job ∈ replay log, job.submission = submission ∧
      ∀ other ∈ replay log, other.submission.id = submission.id → other = job := by
  have nodup : ((replay log).map (·.submission.id)).Nodup := by
    have ids := replayable.nodup_ids
    rw [submittedIds, ← replay_submissions, List.map_map] at ids
    exact ids
  rw [← replay_submissions] at member
  obtain ⟨job, inside, same⟩ := List.mem_map.mp member
  refine ⟨job, inside, same, fun other otherInside otherSame => ?_⟩
  exact List.inj_on_of_nodup_map nodup otherInside inside (otherSame.trans (by rw [same]))

/-- What was reported of a finished job is reported again. -/
theorem Grows.report_finished {log added : List JournalRecord} (grown : Grows [] log)
    (grows : Grows log added) {job : RecoveredJob} (member : job ∈ replay log)
    (terminal : isTerminal job.state = true) : job ∈ replay (log ++ added) := by
  have replayable := (grown.valid trivial (by simp)).1
  rw [List.nil_append] at replayable
  have replayableLater := (grows.valid replayable (by
    have accepted := (grown.valid trivial (by simp)).2
    rwa [List.nil_append] at accepted)).1
  have submitted : job.submission ∈ submissions (log ++ added) := by
    rw [submissions_append, ← replay_submissions log]
    exact List.mem_append_left _ (List.mem_map.mpr ⟨job, member, rfl⟩)
  obtain ⟨later, inside, same, _⟩ := replay_of_submission replayableLater submitted
  have before := replay_progress replayable member
  have after := replay_progress replayableLater inside
  rw [same, grows.finished before terminal, Option.some.injEq] at after
  have equal : later = job := by
    obtain ⟨submission, state, work, message⟩ := later
    obtain ⟨submission', state', work', message'⟩ := job
    simp only [RecoveredJob.progress, Progress.mk.injEq] at after
    obtain ⟨rfl, rfl, rfl⟩ := after
    simp only at same
    rw [same]
  rw [← equal]
  exact inside

end Kronos
