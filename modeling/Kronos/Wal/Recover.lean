import Kronos.Wal.Codec
import Mathlib.Data.List.DropRight
import Mathlib.Data.List.Sort

/-!
# Recovery

`WalManager::recover`: repair of an unterminated final line, then replay of
the complete lines in order. The result of a call comes with the contents the
file is left with.
-/

set_option autoImplicit false

namespace Kronos.Wal

structure RecoveryReport where
  jobs : List RecoveredJob
  ignoredIncompleteTail : Bool
  deriving DecidableEq

/-- The submission branch of the line loop. -/
def replaySubmission (recovered : Recovered)
    (timestamp id sequence priority estimate name type payload : Bytes) :
    Except String Recovered := do
  let _ ← parseInteger fromCharsInt64 timestamp "timestamp"
  let id ← parseInteger fromCharsUInt64 id "job ID"
  let submissionSequence ← parseInteger fromCharsUInt64 sequence "submission sequence"
  let priority ← parseInteger fromCharsInt32 priority "priority"
  let estimatedWorkUnits ← parseInteger fromCharsUInt64 estimate "work estimate"
  let name ← hexDecode name
  let type ← hexDecode type
  let payload ← hexDecode payload
  if id = 0 ∨ estimatedWorkUnits = 0 ∨ type = [] then
    throw "invalid submission record values"
  if (recovered.find id).isSome then
    throw "duplicate job submission"
  return recovered ++
    [.ofSubmission ⟨id, submissionSequence, name, priority, estimatedWorkUnits, ⟨type, payload⟩⟩]

/-- The transition branch of the line loop. -/
def replayTransition (recovered : Recovered) (timestamp id state work message : Bytes) :
    Except String Recovered := do
  let _ ← parseInteger fromCharsInt64 timestamp "timestamp"
  let id ← parseInteger fromCharsUInt64 id "job ID"
  if (recovered.find id).isNone then
    throw "transition precedes submission"
  let state ← parseState state
  let workUnitsConsumed ← parseInteger fromCharsUInt64 work "consumed work"
  let message ← hexDecode message
  return recovered.overwrite ⟨id, state, workUnitsConsumed, message⟩

/-- The body of the line loop, inside its `try`. -/
def replayLine (recovered : Recovered) (line : Bytes) : Except String Recovered := do
  let fields := split line
  validateChecksum line fields
  match fields with
  | version :: kind :: rest =>
      if version ≠ text "K1" then throw "unsupported WAL record version"
      if kind = text "S" then
        match rest with
        | [timestamp, id, sequence, priority, estimate, name, type, payload, _] =>
            replaySubmission recovered timestamp id sequence priority estimate name type payload
        | _ => throw "invalid submission record field count"
      else if kind = text "T" then
        match rest with
        | [timestamp, id, state, work, message, _] =>
            replayTransition recovered timestamp id state work message
        | _ => throw "invalid transition record field count"
      else throw "unknown WAL record type"
  | _ => throw "unsupported WAL record version"

def replayLines (recovered : Recovered) (lineNumber : Nat) : List Bytes → Except String Recovered
  | [] => .ok recovered
  | line :: rest =>
      if line = [] then .error ("empty WAL record at line " ++ toString (lineNumber + 1))
      else
        match replayLine recovered line with
        | .ok next => replayLines next (lineNumber + 1) rest
        | .error error =>
            .error ("invalid WAL record at line " ++ toString (lineNumber + 1) ++ ": " ++ error)

/-- The lines of newline-terminated contents. -/
def terminatedLines (contents : Bytes) : List Bytes := (contents.splitOn newline).dropLast

/-- `contents.resize(valid_size)`: everything up to the last newline. -/
def terminatedPart (contents : Bytes) : Bytes := contents.rdropWhile (· ≠ newline)

/-- `std::sort` by submission sequence. -/
def sortBySequence (jobs : List RecoveredJob) : List RecoveredJob :=
  jobs.insertionSort fun left right =>
    left.submission.submissionSequence ≤ right.submission.submissionSequence

/-- What the two system calls of the tail repair answer. -/
structure RepairAnswers where
  ftruncate : Bool := true
  fsync : Bool := true
  deriving DecidableEq

def replayContents (contents : Bytes) (ignoredIncompleteTail : Bool) :
    Except String RecoveryReport :=
  match replayLines [] 0 (terminatedLines contents) with
  | .ok recovered => .ok ⟨sortBySequence recovered, ignoredIncompleteTail⟩
  | .error error => .error error

def recoverWith (answers : RepairAnswers) (contents : Bytes) :
    Except String RecoveryReport × Bytes :=
  if contents ≠ [] ∧ contents.getLast? ≠ some newline then
    if answers.ftruncate = false then (.error "failed to repair incomplete WAL tail", contents)
    else if answers.fsync = false then
      (.error "failed to repair incomplete WAL tail", terminatedPart contents)
    else (replayContents (terminatedPart contents) true, terminatedPart contents)
  else (replayContents contents false, contents)

/-- Recovery on a file system that carries out the repair. -/
def recover (contents : Bytes) : Except String RecoveryReport × Bytes :=
  recoverWith {} contents

end Kronos.Wal
