import Kronos.Types

/-!
# Journal records and replay

The records handed to `IJobJournal` and the rule by which a log of them is
folded back into the latest state of every job. The write-ahead log stores
these records as text; the engine reasons about the records themselves.
-/

set_option autoImplicit false

namespace Kronos

structure JobSubmissionRecord where
  id : JobId
  submissionSequence : UInt64
  name : Bytes
  priority : Int32
  estimatedWorkUnits : WorkUnits
  task : DurableTaskSpec
  deriving DecidableEq

structure JobTransitionRecord where
  id : JobId
  state : JobState
  workUnitsConsumed : WorkUnits
  message : Bytes
  deriving DecidableEq

inductive JournalRecord where
  | submission (record : JobSubmissionRecord)
  | transition (record : JobTransitionRecord)
  deriving DecidableEq

namespace JournalRecord

def id : JournalRecord → JobId
  | .submission record => record.id
  | .transition record => record.id

/-- The submission a record carries, when it is one. -/
def submission? : JournalRecord → Option JobSubmissionRecord
  | .submission record => some record
  | .transition _ => none

end JournalRecord

/-- What the log says about a job since its submission. -/
structure Progress where
  state : JobState
  workUnitsConsumed : WorkUnits
  message : Bytes
  deriving DecidableEq

/-- A submission starts a job `READY` with no work done. -/
def Progress.submitted : Progress := ⟨.ready, 0, []⟩

def JobTransitionRecord.progress (record : JobTransitionRecord) : Progress :=
  ⟨record.state, record.workUnitsConsumed, record.message⟩

structure RecoveredJob where
  submission : JobSubmissionRecord
  state : JobState
  workUnitsConsumed : WorkUnits
  message : Bytes
  deriving DecidableEq

namespace RecoveredJob

def ofSubmission (submission : JobSubmissionRecord) : RecoveredJob :=
  ⟨submission, .ready, 0, []⟩

def progress (job : RecoveredJob) : Progress :=
  ⟨job.state, job.workUnitsConsumed, job.message⟩

/-- A transition overwrites everything but the submission. -/
def apply (job : RecoveredJob) (record : JobTransitionRecord) : RecoveredJob :=
  { job with
    state := record.state
    workUnitsConsumed := record.workUnitsConsumed
    message := record.message }

end RecoveredJob

/-- The replay map in insertion order. Each entry is keyed by its submission's id. -/
abbrev Recovered := List RecoveredJob

namespace Recovered

def find (recovered : Recovered) (id : JobId) : Option RecoveredJob :=
  recovered.find? fun job => job.submission.id == id

def overwrite (recovered : Recovered) (record : JobTransitionRecord) : Recovered :=
  recovered.map fun job => if job.submission.id = record.id then job.apply record else job

end Recovered

/-- One record of a well-formed log applied to the replay map. -/
def replayRecord (recovered : Recovered) : JournalRecord → Recovered
  | .submission record => recovered ++ [.ofSubmission record]
  | .transition record => recovered.overwrite record

def replay (records : List JournalRecord) : Recovered := records.foldl replayRecord []

/-- One record applied to the replay map, with the checks of `recover`. -/
def replayStep (recovered : Recovered) : JournalRecord → Except String Recovered
  | .submission record =>
      if (recovered.find record.id).isSome then .error "duplicate job submission"
      else .ok (replayRecord recovered (.submission record))
  | .transition record =>
      if (recovered.find record.id).isNone then .error "transition precedes submission"
      else .ok (replayRecord recovered (.transition record))

/-- The replay of a log, which a record that fits no job ends with an exception. -/
def replayLog (records : List JournalRecord) : Except String Recovered :=
  records.foldlM replayStep []

/-- The latest progress of one job in a log, without the rest of the map. As `emplace`
does, a second submission leaves the entry as it is; `replayLog` refuses the log then. -/
def progressStep (id : JobId) (current : Option Progress) : JournalRecord → Option Progress
  | .submission record => if record.id = id then some (current.getD .submitted) else current
  | .transition record => if record.id = id then current.map fun _ => record.progress else current

def progressOf (records : List JournalRecord) (id : JobId) : Option Progress :=
  records.foldl (progressStep id) none

/-- The submissions of a log, in the order in which they were appended. -/
def submissions (records : List JournalRecord) : List JobSubmissionRecord :=
  records.filterMap JournalRecord.submission?

/-- A log that can be replayed after the submissions of `known`: every new
submission has a new id, and every transition follows the submission of its job. -/
def ReplayableFrom (known : List JobId) : List JournalRecord → Prop
  | [] => True
  | .submission record :: rest =>
      record.id ∉ known ∧ ReplayableFrom (record.id :: known) rest
  | .transition record :: rest => record.id ∈ known ∧ ReplayableFrom known rest

def Replayable (records : List JournalRecord) : Prop := ReplayableFrom [] records

/-- No two submissions of the log share their submission sequence. -/
def DistinctSequences (records : List JournalRecord) : Prop :=
  ((submissions records).map (·.submissionSequence)).Nodup

instance decidableReplayableFrom (known : List JobId) :
    (records : List JournalRecord) → Decidable (ReplayableFrom known records)
  | [] => isTrue trivial
  | .submission record :: rest =>
      have := decidableReplayableFrom (record.id :: known) rest
      inferInstanceAs (Decidable (_ ∧ _))
  | .transition _ :: rest =>
      have := decidableReplayableFrom known rest
      inferInstanceAs (Decidable (_ ∧ _))

instance (records : List JournalRecord) : Decidable (Replayable records) :=
  decidableReplayableFrom [] records

instance (records : List JournalRecord) : Decidable (DistinctSequences records) :=
  inferInstanceAs (Decidable (List.Nodup _))

end Kronos
