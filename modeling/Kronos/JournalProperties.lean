import Kronos.Journal
import Mathlib.Data.List.Induction
import Mathlib.Tactic

/-!
# Replay laws

The replay map of a log agrees with the log read job by job, and a log grows
at its end only: appending one record changes the progress of its own job.
-/

set_option autoImplicit false

namespace Kronos

@[simp] theorem submissions_nil : submissions [] = [] := rfl

@[simp] theorem submissions_append (left right : List JournalRecord) :
    submissions (left ++ right) = submissions left ++ submissions right := by
  simp [submissions]

@[simp] theorem submissions_submission (record : JobSubmissionRecord)
    (rest : List JournalRecord) :
    submissions (.submission record :: rest) = record :: submissions rest := by
  simp [submissions, JournalRecord.submission?]

@[simp] theorem submissions_transition (record : JobTransitionRecord)
    (rest : List JournalRecord) :
    submissions (.transition record :: rest) = submissions rest := by
  simp [submissions, List.filterMap_cons, JournalRecord.submission?]

/-- Ids of the submissions of a log. -/
def submittedIds (records : List JournalRecord) : List JobId :=
  (submissions records).map (·.id)

@[simp] theorem submittedIds_nil : submittedIds [] = [] := rfl

@[simp] theorem submittedIds_append (left right : List JournalRecord) :
    submittedIds (left ++ right) = submittedIds left ++ submittedIds right := by
  simp [submittedIds]

@[simp] theorem submittedIds_submission (record : JobSubmissionRecord)
    (rest : List JournalRecord) :
    submittedIds (.submission record :: rest) = record.id :: submittedIds rest := by
  simp [submittedIds]

@[simp] theorem submittedIds_transition (record : JobTransitionRecord)
    (rest : List JournalRecord) :
    submittedIds (.transition record :: rest) = submittedIds rest := by
  simp [submittedIds]

/-- Only membership in the known ids matters. -/
theorem ReplayableFrom.congr {known other : List JobId} {records : List JournalRecord}
    (same : ∀ id, id ∈ known ↔ id ∈ other) (valid : ReplayableFrom known records) :
    ReplayableFrom other records := by
  induction records generalizing known other with
  | nil => trivial
  | cons record rest ih =>
      cases record with
      | submission record =>
          refine ⟨fun member => valid.1 ((same _).mpr member), ih ?_ valid.2⟩
          intro id
          simp [same id]
      | transition record => exact ⟨(same _).mp valid.1, ih same valid.2⟩

theorem replayableFrom_append {known : List JobId} {left right : List JournalRecord} :
    ReplayableFrom known (left ++ right) ↔
      ReplayableFrom known left ∧ ReplayableFrom (submittedIds left ++ known) right := by
  induction left generalizing known with
  | nil => simp [ReplayableFrom]
  | cons record rest ih =>
      cases record with
      | submission record =>
          have moved : ∀ id, id ∈ submittedIds rest ++ record.id :: known ↔
              id ∈ record.id :: submittedIds rest ++ known := by
            intro id
            simp only [List.mem_append, List.mem_cons]
            tauto
          simp only [List.cons_append, ReplayableFrom, ih, submittedIds_submission, and_assoc]
          constructor
          · rintro ⟨fresh, left, right⟩
            exact ⟨fresh, left, right.congr moved⟩
          · rintro ⟨fresh, left, right⟩
            exact ⟨fresh, left, right.congr fun id => (moved id).symm⟩
      | transition record =>
          simp only [List.cons_append, ReplayableFrom, ih, submittedIds_transition, and_assoc]

theorem replayable_append {left right : List JournalRecord} :
    Replayable (left ++ right) ↔
      Replayable left ∧ ReplayableFrom (submittedIds left) right := by
  simp [Replayable, replayableFrom_append]

theorem replayable_append_submission {records : List JournalRecord}
    {record : JobSubmissionRecord} :
    Replayable (records ++ [.submission record]) ↔
      Replayable records ∧ record.id ∉ submittedIds records := by
  simp [replayable_append, ReplayableFrom]

theorem replayable_append_transition {records : List JournalRecord}
    {record : JobTransitionRecord} :
    Replayable (records ++ [.transition record]) ↔
      Replayable records ∧ record.id ∈ submittedIds records := by
  simp [replayable_append, ReplayableFrom]

theorem Replayable.of_prefix {shorter records : List JournalRecord}
    (valid : Replayable records) (isPrefix : shorter <+: records) : Replayable shorter := by
  obtain ⟨rest, rfl⟩ := isPrefix
  exact (replayable_append.mp valid).1

theorem replayableFrom_nodup {known : List JobId} {records : List JournalRecord}
    (valid : ReplayableFrom known records) :
    (submittedIds records).Nodup ∧ ∀ id ∈ submittedIds records, id ∉ known := by
  induction records generalizing known with
  | nil => simp
  | cons record rest ih =>
      cases record with
      | submission record =>
          obtain ⟨unique, fresh⟩ := ih valid.2
          simp only [submittedIds_submission, List.nodup_cons, List.mem_cons, forall_eq_or_imp]
          refine ⟨⟨?_, unique⟩, valid.1, ?_⟩
          · intro member
            exact fresh _ member (by simp)
          · intro id member inKnown
            exact fresh id member (by simp [inKnown])
      | transition record => simpa using ih valid.2

theorem Replayable.nodup_ids {records : List JournalRecord} (valid : Replayable records) :
    (submittedIds records).Nodup :=
  (replayableFrom_nodup valid).1

@[simp] theorem replay_nil : replay [] = [] := rfl

@[simp] theorem replay_append_one (records : List JournalRecord) (record : JournalRecord) :
    replay (records ++ [record]) = replayRecord (replay records) record := by
  simp [replay]

/-- Replay keeps one entry per submission, in submission order. -/
theorem replay_submissions (records : List JournalRecord) :
    (replay records).map (·.submission) = submissions records := by
  induction records using List.reverseRecOn with
  | nil => rfl
  | append_singleton records record ih =>
      cases record with
      | submission record => simp [replayRecord, RecoveredJob.ofSubmission, ih]
      | transition record =>
          have kept : (fun job : RecoveredJob => (if job.submission.id = record.id then
              job.apply record else job).submission) = (·.submission) := by
            funext job
            split <;> rfl
          simp [replayRecord, Recovered.overwrite, Function.comp_def, kept, ih]

theorem progressOf_append_one (records : List JournalRecord) (record : JournalRecord)
    (id : JobId) :
    progressOf (records ++ [record]) id = progressStep id (progressOf records id) record := by
  simp [progressOf]

theorem progressOf_append_other {records : List JournalRecord} {record : JournalRecord}
    {id : JobId} (other : record.id ≠ id) :
    progressOf (records ++ [record]) id = progressOf records id := by
  rw [progressOf_append_one]
  cases record with
  | submission record => exact if_neg other
  | transition record => exact if_neg other

theorem progressOf_append_transition {records : List JournalRecord}
    {record : JobTransitionRecord} {before : Progress}
    (known : progressOf records record.id = some before) :
    progressOf (records ++ [.transition record]) record.id = some record.progress := by
  simp [progressOf_append_one, progressStep, known]

/-- A job has progress in a log exactly when the log holds its submission. -/
theorem progressOf_isSome_iff {records : List JournalRecord} {id : JobId} :
    (progressOf records id).isSome ↔ id ∈ submittedIds records := by
  induction records using List.reverseRecOn with
  | nil => simp [progressOf]
  | append_singleton records record ih =>
      rw [progressOf_append_one]
      cases record with
      | submission record =>
          by_cases same : record.id = id
          · simp [progressStep, same]
          · simp [progressStep, same, ih, Ne.symm same]
      | transition record =>
          by_cases same : record.id = id <;> simp [progressStep, same, ih]

theorem progressOf_append_submission {records : List JournalRecord}
    {record : JobSubmissionRecord} (fresh : record.id ∉ submittedIds records) :
    progressOf (records ++ [.submission record]) record.id = some .submitted := by
  have nothing : progressOf records record.id = none := by
    rw [← Option.not_isSome_iff_eq_none, progressOf_isSome_iff]
    exact fresh
  simp [progressOf_append_one, progressStep, nothing]

/-- The replay map of a well-formed log holds each job's latest progress. -/
theorem replay_progress {records : List JournalRecord} (valid : Replayable records)
    {job : RecoveredJob} (member : job ∈ replay records) :
    progressOf records job.submission.id = some job.progress := by
  induction records using List.reverseRecOn generalizing job with
  | nil => simp at member
  | append_singleton records record ih =>
      have earlier := valid.of_prefix (List.prefix_append _ _)
      rw [replay_append_one] at member
      cases record with
      | submission record =>
          have fresh := (replayable_append_submission.mp valid).2
          rcases List.mem_append.mp member with old | added
          · have other : (JournalRecord.submission record).id ≠ job.submission.id := by
              intro same
              apply fresh
              change record.id = _ at same
              rw [same, submittedIds, ← replay_submissions]
              simpa using ⟨job, old, rfl⟩
            rw [progressOf_append_other other]
            exact ih earlier old
          · obtain rfl := List.mem_singleton.mp added
            exact progressOf_append_submission fresh
      | transition record =>
          obtain ⟨previous, old, rfl⟩ := List.mem_map.mp member
          have known := ih earlier old
          by_cases same : previous.submission.id = record.id
          · rw [if_pos same]
            change progressOf _ previous.submission.id = _
            rw [same] at known ⊢
            exact progressOf_append_transition known
          · have other : (JournalRecord.transition record).id ≠ previous.submission.id :=
              Ne.symm same
            rw [if_neg same, progressOf_append_other other]
            exact known

/-! ## Replay with the checks of `recover` -/

theorem replayLog_append_one (records : List JournalRecord) (record : JournalRecord) :
    replayLog (records ++ [record]) = (replayLog records).bind (replayStep · record) := by
  rw [replayLog, List.foldlM_append]
  cases replayed : records.foldlM replayStep [] with
  | error what => simp [replayLog, replayed, bind, Except.bind]
  | ok recovered =>
      simp only [replayLog, replayed, bind, Except.bind, List.foldlM_cons, List.foldlM_nil]
      cases replayStep recovered record <;> rfl

theorem find_replay_isSome {records : List JournalRecord} {id : JobId} :
    ((replay records).find id).isSome ↔ id ∈ submittedIds records := by
  rw [Recovered.find, List.find?_isSome, submittedIds, ← replay_submissions, List.map_map]
  simp [List.mem_map]

/-- Exactly the replayable logs are replayed to the end. -/
theorem replayLog_eq_ok_iff {records : List JournalRecord} {recovered : Recovered} :
    replayLog records = .ok recovered ↔ Replayable records ∧ recovered = replay records := by
  induction records using List.reverseRecOn generalizing recovered with
  | nil =>
      constructor
      · intro replayed
        cases replayed
        exact ⟨trivial, rfl⟩
      · rintro ⟨_, rfl⟩
        rfl
  | append_singleton records record ih =>
      rw [replayLog_append_one, replay_append_one]
      cases replayed : replayLog records with
      | error what =>
          constructor
          · intro bound
            cases bound
          · rintro ⟨valid, _⟩
            have earlier := valid.of_prefix (List.prefix_append _ _)
            rw [ih.mpr ⟨earlier, rfl⟩] at replayed
            cases replayed
      | ok earlier =>
          obtain ⟨valid, rfl⟩ := ih.mp replayed
          change replayStep (replay records) record = .ok recovered ↔ _
          cases record with
          | submission record =>
              rw [replayable_append_submission, replayStep]
              by_cases taken : record.id ∈ submittedIds records
              · rw [if_pos (find_replay_isSome.mpr taken)]
                exact ⟨fun other => (by cases other), fun both => absurd taken both.1.2⟩
              · rw [if_neg (mt find_replay_isSome.mp taken), Except.ok.injEq, eq_comm]
                simp [valid, taken]
          | transition record =>
              rw [replayable_append_transition, replayStep, ← Option.not_isSome]
              by_cases known : record.id ∈ submittedIds records
              · rw [find_replay_isSome.mpr known, if_neg (by simp), Except.ok.injEq, eq_comm]
                simp [valid, known]
              · rw [Bool.eq_false_iff.mpr (mt find_replay_isSome.mp known), if_pos (by rfl)]
                exact ⟨fun other => (by cases other), fun both => absurd both.1.2 known⟩

/-- The job found in the map of a replayable log has the latest progress. -/
theorem find_replay {records : List JournalRecord} (valid : Replayable records) {id : JobId}
    {progress : Progress} (known : progressOf records id = some progress) :
    ∃ job, (replay records).find id = some job ∧ job.progress = progress := by
  have submitted := progressOf_isSome_iff.mp (Option.isSome_of_eq_some known)
  obtain ⟨job, found⟩ := Option.isSome_iff_exists.mp (find_replay_isSome.mpr submitted)
  have same : job.submission.id = id := by simpa using List.find?_some found
  have said := replay_progress valid (List.mem_of_find?_eq_some found)
  rw [same, known, Option.some.injEq] at said
  exact ⟨job, found, said.symm⟩

end Kronos
