import Kronos.FromChars
import Kronos.Hex
import Kronos.Journal
import Mathlib.Data.List.DropRight

/-!
# Log lines

The text of a log record: fields separated by `|`, variable text in
hexadecimal, a CRC32 over all preceding fields as the last field, and a newline.
-/

set_option autoImplicit false

namespace Kronos.Wal

def pipe : UInt8 := 124
def newline : UInt8 := 10

/-- One turn of the bit loop. The mask is all ones when the low bit is set. -/
def crc32Bit (checksum : UInt32) : UInt32 :=
  let mask := 0 - (checksum &&& 1)
  (checksum >>> 1) ^^^ (0xEDB88320 &&& mask)

def crc32Byte (checksum : UInt32) (byte : UInt8) : UInt32 :=
  Nat.iterate crc32Bit 8 (checksum ^^^ byte.toUInt32)

def crc32 (value : Bytes) : UInt32 :=
  value.foldl crc32Byte 0xFFFFFFFF ^^^ 0xFFFFFFFF

/-- Eight upper-case hexadecimal digits, filled with zeros from the left. -/
def checksumText (value : Bytes) : Bytes :=
  [28, 24, 20, 16, 12, 8, 4, 0].map fun (shift : UInt32) =>
    hexDigit ((crc32 value >>> shift) &&& 0x0F).toUInt8

def split (line : Bytes) : List Bytes := line.splitOn pipe

def hexDecode (value : Bytes) : Except String Bytes :=
  if value.length % 2 ≠ 0 then .error "WAL contains an invalid hex field"
  else
    match hexPairs value with
    | some decoded => .ok decoded
    | none => .error "WAL contains an invalid hex field"

/-- `parse_integer` of the type whose `from_chars` is given. -/
def parseInteger {Integer : Type} (fromChars : Bytes → Option Integer) (value : Bytes)
    (fieldName : String) : Except String Integer :=
  match fromChars value with
  | some parsed => .ok parsed
  | none => .error ("WAL contains an invalid " ++ fieldName)

def parseState (state : Bytes) : Except String JobState :=
  if state = text "NEW" then .ok .new
  else if state = text "READY" then .ok .ready
  else if state = text "RUNNING" then .ok .running
  else if state = text "COMPLETED" then .ok .completed
  else if state = text "FAILED" then .ok .failed
  else if state = text "CANCELLED" then .ok .cancelled
  else .error "WAL contains an unknown job state"

/-- What stands before the last separator of a line, if there is one. -/
def beforeLastPipe (line : Bytes) : Option Bytes :=
  if pipe ∈ line then some (line.rdropWhile (· ≠ pipe)).dropLast else none

def validateChecksum (line : Bytes) (fields : List Bytes) : Except String Unit :=
  match fields.getLast? with
  | none => .error "WAL record has no fields"
  | some last =>
      match beforeLastPipe line with
      | none => .error "WAL checksum mismatch"
      | some covered =>
          if checksumText covered ≠ last then .error "WAL checksum mismatch" else .ok ()

def withChecksum (fields : Bytes) : Bytes :=
  fields ++ [pipe] ++ checksumText fields ++ [newline]

/-- The fields that `append_submission` and `append_transition` print, stamped
with `current_unix_milliseconds()`. -/
def recordFields (timestamp : Int64) : JournalRecord → List Bytes
  | .submission record =>
      [text "K1", text "S", int64Text timestamp, uint64Text record.id,
        uint64Text record.submissionSequence, int32Text record.priority,
        uint64Text record.estimatedWorkUnits, hexEncode record.name,
        hexEncode record.task.type, hexEncode record.task.payload]
  | .transition record =>
      [text "K1", text "T", int64Text timestamp, uint64Text record.id,
        record.state.toText, uint64Text record.workUnitsConsumed, hexEncode record.message]

/-- The line of a record with its newline. -/
def encodeRecord (timestamp : Int64) (record : JournalRecord) : Bytes :=
  withChecksum ([pipe].intercalate (recordFields timestamp record))

/-- The records `append_submission` and `append_transition` do not reject. -/
def Accepted : JournalRecord → Prop
  | .submission record =>
      record.id ≠ 0 ∧ record.estimatedWorkUnits ≠ 0 ∧ record.task.type ≠ []
  | .transition record => record.id ≠ 0

instance : DecidablePred Accepted
  | .submission _ => inferInstanceAs (Decidable (_ ∧ _))
  | .transition _ => inferInstanceAs (Decidable (_ ≠ _))

/-- A record as it stands in the log, with the time it was appended at. -/
structure Stamped where
  timestamp : Int64
  record : JournalRecord
  deriving DecidableEq

def Stamped.line (stamped : Stamped) : Bytes := encodeRecord stamped.timestamp stamped.record

/-- The bytes of a log. -/
def encodeAll (log : List Stamped) : Bytes := log.flatMap Stamped.line

end Kronos.Wal
