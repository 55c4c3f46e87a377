import Kronos.Wal.Codec

/-!
# Appending

`WalManager::append` with the answers of the system calls it makes as inputs,
and sequences of append calls on one manager. The file is opened `O_APPEND`, so
each accepted byte lands at its end.
-/

set_option autoImplicit false

namespace Kronos.Wal

/-- What one `::write` answers. A count beyond the bytes asked for stands for all of them. -/
inductive WriteAnswer where
  | wrote (count : Nat)
  | interrupted
  | failed
  deriving DecidableEq

/-- The answers during one append. Once the listed answers are used up,
`::write` takes all that remains. -/
structure AppendAnswers where
  writes : List WriteAnswer := []
  fsync : Bool := true
  deriving DecidableEq

/-- The `while (remaining > 0)` loop over the bytes still to be written. -/
def writeLoop : List WriteAnswer → Bytes → Bytes → Except String Unit × Bytes
  | _, [], file => (.ok (), file)
  | [], remaining, file => (.ok (), file ++ remaining)
  | .wrote count :: answers, remaining, file =>
      writeLoop answers (remaining.drop count) (file ++ remaining.take count)
  | .interrupted :: answers, remaining, file => writeLoop answers remaining file
  | .failed :: _, _, file => (.error "failed to append WAL record", file)

def append (answers : AppendAnswers) (record file : Bytes) : Except String Unit × Bytes :=
  match writeLoop answers.writes record file with
  | (.ok (), written) =>
      if answers.fsync = false then (.error "failed to fsync WAL", written)
      else (.ok (), written)
  | (.error error, written) => (.error error, written)

/-- One call of `append_submission` or `append_transition`. -/
structure AppendCall where
  timestamp : Int64
  record : JournalRecord
  answers : AppendAnswers
  deriving DecidableEq

def AppendCall.line (call : AppendCall) : Bytes := encodeRecord call.timestamp call.record

/-- The validation of the two entry points, then the append of the line. -/
def AppendCall.perform (call : AppendCall) (file : Bytes) : Except String Unit × Bytes :=
  match call.record with
  | .submission record =>
      if record.id = 0 ∨ record.estimatedWorkUnits = 0 ∨ record.task.type = [] then
        (.error "invalid durable submission record", file)
      else append call.answers call.line file
  | .transition record =>
      if record.id = 0 then (.error "invalid durable transition record", file)
      else append call.answers call.line file

/-- The file after a sequence of calls on one manager. -/
def performAll (calls : List AppendCall) (file : Bytes) : Bytes :=
  calls.foldl (fun file call => (call.perform file).2) file

/-- The call returns normally. Its outcome does not depend on the file. -/
def AppendCall.returns (call : AppendCall) : Bool := (call.perform []).1.isOk

/-- The records whose append returned. -/
def returnedRecords (calls : List AppendCall) : List JournalRecord :=
  (calls.filter AppendCall.returns).map AppendCall.record

/-- A use of the manager: each submission has an id no earlier submission call
had, and each transition's job was submitted by a call that returned. -/
def CallsFrom (used returned : List JobId) : List AppendCall → Prop
  | [] => True
  | call :: rest =>
      match call.record with
      | .submission record =>
          record.id ∉ used ∧
            CallsFrom (record.id :: used)
              (if call.returns then record.id :: returned else returned) rest
      | .transition record => record.id ∈ returned ∧ CallsFrom used returned rest

instance decidableCallsFrom (used returned : List JobId) :
    (calls : List AppendCall) → Decidable (CallsFrom used returned calls)
  | [] => isTrue trivial
  | ⟨timestamp, .submission record, answers⟩ :: rest =>
      have := decidableCallsFrom (record.id :: used)
        (if AppendCall.returns ⟨timestamp, .submission record, answers⟩ then
          record.id :: returned else returned) rest
      inferInstanceAs (Decidable (_ ∧ _))
  | ⟨_, .transition _, _⟩ :: rest =>
      have := decidableCallsFrom used returned rest
      inferInstanceAs (Decidable (_ ∧ _))

/-- How many bytes of its line `::write` takes before the loop of a call ends,
given the number of bytes asked for. -/
def taken : List WriteAnswer → Nat → Nat
  | [], size => size
  | .wrote count :: answers, size => min count size + taken answers (size - count)
  | .interrupted :: answers, size => taken answers size
  | .failed :: _, _ => 0

/-- The manager reaches the write loop and its whole line gets into the file. -/
def AppendCall.Whole (call : AppendCall) : Prop :=
  Accepted call.record ∧ taken call.answers.writes call.line.length = call.line.length

/-- Some bytes of the line get into the file and the rest does not. -/
def AppendCall.Torn (call : AppendCall) : Prop :=
  Accepted call.record ∧ 0 < taken call.answers.writes call.line.length ∧
    taken call.answers.writes call.line.length < call.line.length

instance (call : AppendCall) : Decidable call.Whole := inferInstanceAs (Decidable (_ ∧ _))
instance (call : AppendCall) : Decidable call.Torn := inferInstanceAs (Decidable (_ ∧ _ ∧ _))

end Kronos.Wal
