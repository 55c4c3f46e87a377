import Kronos.Wal.Corruption
import Kronos.Wal.IndexedRecover

/-!
# Recovery of arbitrary contents

Whatever the file holds, recovery throws or reports the replay of the records
that its complete lines read as. It throws when a line is malformed in any way,
and when a line does not fit the lines in front of it.
-/

set_option autoImplicit false

namespace Kronos

/-! ## The last transition of a job -/

def JournalRecord.transitionOf (id : JobId) : JournalRecord → Option JobTransitionRecord
  | .transition record => if record.id = id then some record else none
  | .submission _ => none

/-- What the last transition of a job says, or its submission when there is none. -/
def lastProgress (records : List JournalRecord) (id : JobId) : Progress :=
  match (records.filterMap (JournalRecord.transitionOf id)).getLast? with
  | some record => record.progress
  | none => .submitted

theorem Replayable.submitted_of_transition {records : List JournalRecord}
    (valid : Replayable records) {record : JobTransitionRecord}
    (member : .transition record ∈ records) : record.id ∈ submittedIds records := by
  induction records using List.reverseRecOn with
  | nil => exact absurd member List.not_mem_nil
  | append_singleton records last ih =>
      rw [submittedIds_append, List.mem_append]
      rcases List.mem_append.mp member with old | new
      · exact .inl (ih (replayable_append.mp valid).1 old)
      · rw [← List.mem_singleton.mp new] at valid
        exact .inl (replayable_append_transition.mp valid).2

theorem Replayable.no_transition {records : List JournalRecord} (valid : Replayable records)
    {id : JobId} (absent : id ∉ submittedIds records) :
    records.filterMap (JournalRecord.transitionOf id) = [] := by
  rw [List.filterMap_eq_nil_iff]
  intro record member
  cases record with
  | submission record => rfl
  | transition record =>
      refine if_neg fun same => absent ?_
      rw [← same]
      exact valid.submitted_of_transition member

theorem progressOf_eq_lastProgress {records : List JournalRecord} (valid : Replayable records)
    {id : JobId} (submitted : id ∈ submittedIds records) :
    progressOf records id = some (lastProgress records id) := by
  induction records using List.reverseRecOn with
  | nil => exact absurd submitted List.not_mem_nil
  | append_singleton records last ih =>
      have earlier := (replayable_append.mp valid).1
      cases last with
      | submission record =>
          have fresh := (replayable_append_submission.mp valid).2
          have kept : lastProgress (records ++ [.submission record]) id =
              lastProgress records id := by
            simp [lastProgress, JournalRecord.transitionOf]
          by_cases same : record.id = id
          · subst same
            rw [progressOf_append_submission fresh, kept, lastProgress, earlier.no_transition fresh]
            rfl
          · have before : id ∈ submittedIds records := by
              simpa [Ne.symm same] using submitted
            rw [progressOf_append_other (show (JournalRecord.submission record).id ≠ id from same),
              kept, ih earlier before]
      | transition record =>
          have before : id ∈ submittedIds records := by simpa using submitted
          by_cases same : record.id = id
          · subst same
            rw [progressOf_append_transition (ih earlier before)]
            simp [lastProgress, JournalRecord.transitionOf]
          · rw [progressOf_append_other (show (JournalRecord.transition record).id ≠ id from same),
              ih earlier before]
            simp [lastProgress, JournalRecord.transitionOf, same]

namespace Wal

/-! ## Lines and records -/

theorem ReadsAs.unique {line : Bytes} {first second : JournalRecord}
    (reads : ReadsAs line first) (again : ReadsAs line second) : first = second := by
  have different : text "S" ≠ text "T" := by decide
  cases reads with
  | @submission _ _ _ _ _ _ _ _ _ record _ _ fields _ idIs sequenceIs priorityIs estimateIs nameIs
      typeIs payloadIs =>
      cases again with
      | @submission _ _ _ _ _ _ _ _ _ other _ _ otherFields _ otherId otherSequence otherPriority
          otherEstimate otherName otherType otherPayload =>
          rw [fields] at otherFields
          cases otherFields
          obtain ⟨id, sequence, name, priority, estimate, ⟨type, payload⟩⟩ := record
          obtain ⟨id', sequence', name', priority', estimate', ⟨type', payload'⟩⟩ := other
          simp_all
      | transition _ otherFields =>
          rw [fields] at otherFields
          simp only [List.cons.injEq] at otherFields
          exact absurd otherFields.2.1 different
  | @transition _ _ _ _ _ _ record _ _ fields _ idIs stateIs workIs messageIs =>
      cases again with
      | submission _ otherFields =>
          rw [fields] at otherFields
          simp only [List.cons.injEq] at otherFields
          exact absurd otherFields.2.1.symm different
      | @transition _ _ _ _ _ _ other _ _ otherFields _ otherId otherState otherWork otherMessage =>
          rw [fields] at otherFields
          cases otherFields
          obtain ⟨id, state, work, message⟩ := record
          obtain ⟨id', state', work', message'⟩ := other
          simp_all

theorem forall₂_append_cons {α β : Type} {related : α → β → Prop} {before after : List α} {item : α}
    {values : List β} (all : List.Forall₂ related (before ++ item :: after) values) :
    ∃ first value last, values = first ++ value :: last ∧ List.Forall₂ related before first ∧
      related item value ∧ List.Forall₂ related after last := by
  induction before generalizing values with
  | nil =>
      cases all with
      | cons head tail => exact ⟨[], _, _, rfl, .nil, head, tail⟩
  | cons other before ih =>
      cases all with
      | cons head tail =>
          obtain ⟨first, value, last, rfl, earlier, here, later⟩ := ih tail
          exact ⟨_ :: first, value, last, rfl, .cons head earlier, here, later⟩

theorem replayLines_ok {lines : List Bytes} {known : List JobId} {recovered final : Recovered}
    {lineNumber : Nat} (ids : ∀ id, id ∈ known ↔ ∃ job ∈ recovered, job.submission.id = id)
    (replayed : replayLines recovered lineNumber lines = .ok final) :
    ∃ records, List.Forall₂ ReadsAs lines records ∧ ReplayableFrom known records ∧
      final = records.foldl replayRecord recovered ∧ ∀ line ∈ lines, line ≠ [] := by
  induction lines generalizing known recovered lineNumber with
  | nil =>
      cases replayed
      exact ⟨[], .nil, trivial, rfl, fun _ member => absurd member List.not_mem_nil⟩
  | cons line lines ih =>
      rw [replayLines] at replayed
      split at replayed
      · cases replayed
      · next nonempty =>
          split at replayed
          · next performed =>
              obtain ⟨record, reads, performs, rfl⟩ := replayLine_ok_iff.mp performed
              obtain ⟨records, read, valid, rfl, others⟩ := ih (ids_replayRecord ids) replayed
              refine ⟨record :: records, .cons reads read, ?_, rfl,
                List.forall_mem_cons.mpr ⟨nonempty, others⟩⟩
              cases record with
              | submission record =>
                  refine ⟨fun old => ?_, by simpa using valid⟩
                  obtain ⟨job, member, same⟩ := (ids record.id).mp old
                  exact performs job member same
              | transition record => exact ⟨(ids record.id).mpr performs, by simpa using valid⟩
          · cases replayed

/-- Successful recovery has read every complete line, and reports their replay. -/
theorem recover_ok {contents : Bytes} {report : RecoveryReport}
    (returned : (recover contents).1 = .ok report) :
    ∃ records, List.Forall₂ ReadsAs (terminatedLines contents) records ∧ Replayable records ∧
      report.jobs = sortBySequence (replay records) ∧
      ∀ line ∈ terminatedLines contents, line ≠ [] := by
  obtain ⟨lines, tail, clean, torn, rfl⟩ := Separated.exists_terminated newline contents
  have cut : terminatedLines (Separated.terminated newline lines ++ tail) = lines := by
    rw [terminatedLines, Separated.splitOn_terminated_append clean torn, List.dropLast_concat]
  rw [recover_terminated_append clean torn, replayReport] at returned
  rw [cut]
  split at returned
  · next replayed =>
      cases returned
      obtain ⟨records, reads, valid, rfl, nonempty⟩ := @replayLines_ok _ [] _ _ _ (by simp) replayed
      exact ⟨records, reads, valid, rfl, nonempty⟩
  · cases returned

/-! ## What is reported -/

/-- The report of the records that the lines of a file read as. -/
structure Reported (records : List JournalRecord) (report : RecoveryReport) : Prop where
  distinct : (report.jobs.map fun job => job.submission.id).Nodup
  values : ∀ job ∈ report.jobs, job.submission.id ≠ 0 ∧ job.submission.estimatedWorkUnits ≠ 0 ∧
    job.submission.task.type ≠ []
  ordered : report.jobs.Pairwise fun left right =>
    left.submission.submissionSequence ≤ right.submission.submissionSequence
  submissions : (report.jobs.map fun job => job.submission).Perm (submissions records)
  progress : ∀ job ∈ report.jobs, job.progress = lastProgress records job.submission.id

theorem reported_of_reads {lines : List Bytes} {records : List JournalRecord}
    {report : RecoveryReport} (reads : List.Forall₂ ReadsAs lines records)
    (valid : Replayable records) (jobs : report.jobs = sortBySequence (replay records)) :
    Reported records report := by
  have permuted : report.jobs.Perm (replay records) := by
    rw [jobs]
    exact List.perm_insertionSort _ _
  have submitted : (report.jobs.map fun job => job.submission).Perm (submissions records) := by
    rw [← replay_submissions]
    exact permuted.map _
  have distinct : (report.jobs.map fun job => job.submission.id).Nodup := by
    have ids := submitted.map fun submission => submission.id
    rw [List.map_map] at ids
    exact ids.nodup_iff.mpr valid.nodup_ids
  have accepted : ∀ record ∈ submissions records, Accepted (.submission record) := by
    intro record member
    obtain ⟨source, inside, is⟩ := List.mem_filterMap.mp member
    cases source with
    | transition _ => cases is
    | submission _ =>
        cases is
        obtain ⟨before, after, rfl⟩ := List.append_of_mem inside
        obtain ⟨_, line, _, _, _, read, _⟩ := forall₂_append_cons reads.flip
        cases read
        assumption
  refine ⟨distinct, fun job member => ?_, ?_, submitted, fun job member => ?_⟩
  · exact accepted _ (submitted.mem_iff.mp (List.mem_map_of_mem member))
  · rw [jobs]
    exact pairwise_sortBySequence _
  · have replayed := permuted.mem_iff.mp member
    have known : job.submission.id ∈ submittedIds records := by
      have inside := submitted.mem_iff.mp (List.mem_map_of_mem member)
      exact List.mem_map_of_mem inside
    have progress := replay_progress valid replayed
    rw [progressOf_eq_lastProgress valid known] at progress
    exact (Option.some.inj progress).symm

/-! ## What is rejected -/

/-- A field of a submission line, by its position, is as it has to be. -/
def submissionFieldReads : Nat → Bytes → Bool
  | 2, timestamp => (fromCharsInt64 timestamp).isSome
  | 3, id => (fromCharsUInt64 id).any (· ≠ 0)
  | 4, sequence => (fromCharsUInt64 sequence).isSome
  | 5, priority => (fromCharsInt32 priority).isSome
  | 6, estimate => (fromCharsUInt64 estimate).any (· ≠ 0)
  | 7, name => (hexDecode name).isOk
  | 8, type => (hexDecode type).toOption.any (· ≠ [])
  | 9, payload => (hexDecode payload).isOk
  | _, _ => true

/-- A field of a transition line, by its position, is as it has to be. -/
def transitionFieldReads : Nat → Bytes → Bool
  | 2, timestamp => (fromCharsInt64 timestamp).isSome
  | 3, id => (fromCharsUInt64 id).isSome
  | 4, state => (parseState state).isOk
  | 5, work => (fromCharsUInt64 work).isSome
  | 6, message => (hexDecode message).isOk
  | _, _ => true

/-- The ways a line can be wrong by itself. -/
inductive Malformed (line : Bytes) : Prop
  | empty (wrong : line = [])
  | checksum (wrong : ¬ Summed line)
  | version (wrong : (split line)[0]? ≠ some (text "K1"))
  | type (wrong : ∀ kind ∈ [text "S", text "T"], (split line)[1]? ≠ some kind)
  | submissionCount (is : (split line)[1]? = some (text "S")) (wrong : (split line).length ≠ 11)
  | transitionCount (is : (split line)[1]? = some (text "T")) (wrong : (split line).length ≠ 8)
  | submissionField {index : Nat} {field : Bytes} (is : (split line)[1]? = some (text "S"))
      (located : (split line)[index]? = some field)
      (wrong : submissionFieldReads index field = false)
  | transitionField {index : Nat} {field : Bytes} (is : (split line)[1]? = some (text "T"))
      (located : (split line)[index]? = some field)
      (wrong : transitionFieldReads index field = false)

theorem ReadsAs.submissionFieldReads {line : Bytes} {record : JobSubmissionRecord}
    (reads : ReadsAs line (.submission record)) {index : Nat} {field : Bytes}
    (located : (split line)[index]? = some field) : submissionFieldReads index field = true := by
  cases reads with
  | submission _ fields timestampIs idIs sequenceIs priorityIs estimateIs nameIs typeIs payloadIs
      accepted =>
      rw [fields] at located
      obtain ⟨idNonzero, estimateNonzero, typeNonempty⟩ := accepted
      match index, located with
      | 0, _ | 1, _ | 10, _ | _ + 11, _ => rfl
      | 2, located => cases located; simp [Wal.submissionFieldReads, timestampIs]
      | 3, located => cases located; simp [Wal.submissionFieldReads, idIs, idNonzero]
      | 4, located => cases located; simp [Wal.submissionFieldReads, sequenceIs]
      | 5, located => cases located; simp [Wal.submissionFieldReads, priorityIs]
      | 6, located => cases located; simp [Wal.submissionFieldReads, estimateIs, estimateNonzero]
      | 7, located => cases located; simp [Wal.submissionFieldReads, nameIs, Except.isOk, Except.toBool]
      | 8, located =>
          cases located
          simp [Wal.submissionFieldReads, typeIs, Except.toOption, typeNonempty]
      | 9, located =>
          cases located
          simp [Wal.submissionFieldReads, payloadIs, Except.isOk, Except.toBool]

theorem ReadsAs.transitionFieldReads {line : Bytes} {record : JobTransitionRecord}
    (reads : ReadsAs line (.transition record)) {index : Nat} {field : Bytes}
    (located : (split line)[index]? = some field) : transitionFieldReads index field = true := by
  cases reads with
  | transition _ fields timestampIs idIs stateIs workIs messageIs =>
      rw [fields] at located
      match index, located with
      | 0, _ | 1, _ | _ + 7, _ => rfl
      | 2, located => cases located; simp [Wal.transitionFieldReads, timestampIs]
      | 3, located => cases located; simp [Wal.transitionFieldReads, idIs]
      | 4, located =>
          cases located
          simp [Wal.transitionFieldReads, stateIs, Except.isOk, Except.toBool]
      | 5, located => cases located; simp [Wal.transitionFieldReads, workIs]
      | 6, located =>
          cases located
          simp [Wal.transitionFieldReads, messageIs, Except.isOk, Except.toBool]

theorem ReadsAs.version {line : Bytes} {record : JournalRecord} (reads : ReadsAs line record) :
    (split line)[0]? = some (text "K1") := by
  cases reads with
  | submission _ fields => simp [fields]
  | transition _ fields => simp [fields]

theorem Malformed.rejected {line : Bytes} (malformed : Malformed line) : Rejected line := by
  have different : text "S" ≠ text "T" := by decide
  cases malformed with
  | empty wrong => exact .inl wrong
  | checksum wrong => exact .inr fun record reads => wrong reads.summed
  | version wrong => exact .inr fun record reads => wrong reads.version
  | type wrong =>
      refine .inr fun record reads => ?_
      rcases reads.field_count with ⟨is, _⟩ | ⟨is, _⟩
      · exact wrong _ (by simp) is
      · exact wrong _ (by simp) is
  | submissionCount is wrong =>
      refine .inr fun record reads => ?_
      rcases reads.field_count with ⟨_, count⟩ | ⟨other, _⟩
      · exact wrong count
      · rw [is] at other
        exact different (Option.some.inj other)
  | transitionCount is wrong =>
      refine .inr fun record reads => ?_
      rcases reads.field_count with ⟨other, _⟩ | ⟨_, count⟩
      · rw [is] at other
        exact different (Option.some.inj other).symm
      · exact wrong count
  | submissionField is located wrong =>
      refine .inr fun record reads => ?_
      cases record with
      | submission record =>
          rw [reads.submissionFieldReads located] at wrong
          cases wrong
      | transition record =>
          cases reads with
          | transition _ fields =>
              rw [fields] at is
              exact different (Option.some.inj is).symm
  | transitionField is located wrong =>
      refine .inr fun record reads => ?_
      cases record with
      | submission record =>
          cases reads with
          | submission _ fields =>
              rw [fields] at is
              exact different (Option.some.inj is)
      | transition record =>
          rw [reads.transitionFieldReads located] at wrong
          cases wrong

/-- A line that does not fit the lines in front of it. -/
def Misplaced (before : List Bytes) (line : Bytes) : Prop :=
  (∃ record earlier other, ReadsAs line (.submission record) ∧ earlier ∈ before ∧
      ReadsAs earlier (.submission other) ∧ other.id = record.id) ∨
    ∃ record, ReadsAs line (.transition record) ∧
      ∀ earlier ∈ before, ∀ other, ReadsAs earlier (.submission other) → other.id ≠ record.id

theorem not_misplaced {before after : List Bytes} {line : Bytes} {records : List JournalRecord}
    (reads : List.Forall₂ ReadsAs (before ++ line :: after) records)
    (valid : Replayable records) : ¬ Misplaced before line := by
  obtain ⟨first, here, last, rfl, earlierReads, lineReads, _⟩ := forall₂_append_cons reads
  have follows := (replayable_append.mp valid).2
  rintro (⟨record, earlier, other, again, member, earlierRead, same⟩ | ⟨record, again, none⟩)
  · obtain rfl := lineReads.unique again
    obtain ⟨initial, rest, rfl⟩ := List.append_of_mem member
    obtain ⟨initialRecords, read, restRecords, rfl, _, known, _⟩ := forall₂_append_cons earlierReads
    obtain rfl := known.unique earlierRead
    refine follows.1 ?_
    simp [submittedIds_append, same]
  · obtain rfl := lineReads.unique again
    have submitted := follows.1
    obtain ⟨other, member, same⟩ := List.mem_map.mp submitted
    obtain ⟨source, inside, is⟩ := List.mem_filterMap.mp member
    cases source with
    | transition _ => cases is
    | submission _ =>
        cases is
        obtain ⟨initial, rest, rfl⟩ := List.append_of_mem inside
        obtain ⟨initialLines, earlier, restLines, rfl, _, read, _⟩ :=
          forall₂_append_cons earlierReads.flip
        exact none earlier (by simp) other read same

/-- Recovery of any contents comes to an end within bounds, and throws or
reports the records its complete lines read as. It throws when a complete line
is malformed, or does not fit the lines in front of it. -/
theorem recover_arbitrary (contents : Bytes) :
    (recoverIndexed contents).run = some (recover contents).1 ∧
    (∀ report, (recover contents).1 = .ok report →
      ∃ records, List.Forall₂ ReadsAs (terminatedLines contents) records ∧
        Reported records report) ∧
    ((∃ line ∈ terminatedLines contents, Malformed line) →
      ∃ error, (recover contents).1 = .error error) ∧
    ∀ before line after, terminatedLines contents = before ++ line :: after →
      Misplaced before line → ∃ error, (recover contents).1 = .error error := by
  refine ⟨congrArg ExceptT.run (recoverIndexed_eq contents), fun report returned => ?_, ?_, ?_⟩
  · obtain ⟨records, reads, valid, jobs, _⟩ := recover_ok returned
    exact ⟨records, reads, reported_of_reads reads valid jobs⟩
  · rintro ⟨line, member, malformed⟩
    cases returned : (recover contents).1 with
    | error error => exact ⟨error, rfl⟩
    | ok report =>
        obtain ⟨records, reads, _, _, nonempty⟩ := recover_ok returned
        obtain ⟨before, after, cut⟩ := List.append_of_mem member
        rw [cut] at reads
        obtain ⟨_, record, _, _, _, read, _⟩ := forall₂_append_cons reads
        exact absurd read (malformed.rejected.resolve_left (nonempty line member) record)
  · intro before line after cut misplaced
    cases returned : (recover contents).1 with
    | error error => exact ⟨error, rfl⟩
    | ok report =>
        obtain ⟨records, reads, valid, _⟩ := recover_ok returned
        rw [cut] at reads
        exact absurd misplaced (not_misplaced reads valid)

end Wal

end Kronos
