import Kronos.FromChars
import Kronos.Hex

/-!
# Wire protocol

`encode_message` and `decode_message`: one line for each message, with the
version, the request id and the kind as they are and all further fields in
hexadecimal, separated by tabs. The error texts are what the exceptions carry.
-/

set_option autoImplicit false

namespace Kronos.Ipc

def tab : UInt8 := 9
def newline : UInt8 := 10
def carriageReturn : UInt8 := 13

structure ProtocolMessage where
  requestId : UInt64 := 0
  kind : Bytes
  fields : List Bytes
  deriving DecidableEq

def protocolVersion : Bytes := text "KIPC1"

def hexDecode (value : Bytes) : Except Bytes Bytes :=
  if value.length % 2 ≠ 0 then .error (text "protocol field has odd-length hex encoding")
  else
    match hexPairs value with
    | some decoded => .ok decoded
    | none => .error (text "protocol field has invalid hex encoding")

def splitTabs (value : Bytes) : List Bytes := value.splitOn tab

/-- The bytes a kind must not hold. -/
def reservedBytes : List UInt8 := [tab, carriageReturn, newline]

def encodeMessage (message : ProtocolMessage) : Except Bytes Bytes :=
  if message.kind = [] ∨ ∃ byte ∈ message.kind, byte ∈ reservedBytes then
    .error (text "protocol message kind is invalid")
  else
    .ok (protocolVersion ++ tab :: uint64Text message.requestId ++ tab :: message.kind ++
      message.fields.flatMap (fun field => tab :: hexEncode field) ++ [newline])

/-- `remove_suffix(1)` of a line that ends in the byte. -/
def removeSuffix (byte : UInt8) (line : Bytes) : Bytes :=
  if line.getLast? = some byte then line.dropLast else line

/-- The loop over the fields behind the kind. -/
def decodeFields : List Bytes → Except Bytes (List Bytes)
  | [] => .ok []
  | field :: rest =>
      match hexDecode field with
      | .error what => .error what
      | .ok decoded =>
          match decodeFields rest with
          | .error what => .error what
          | .ok others => .ok (decoded :: others)

def decodeMessage (encodedLine : Bytes) : Except Bytes ProtocolMessage :=
  match splitTabs (removeSuffix carriageReturn (removeSuffix newline encodedLine)) with
  | version :: id :: kind :: rest =>
      if version ≠ protocolVersion ∨ kind = [] then
        .error (text "invalid IPC protocol message")
      else
        match fromCharsUInt64 id with
        | none => .error (text "invalid IPC request ID")
        | some requestId =>
            match decodeFields rest with
            | .error what => .error what
            | .ok fields => .ok ⟨requestId, kind, fields⟩
  | _ => .error (text "invalid IPC protocol message")

end Kronos.Ipc
