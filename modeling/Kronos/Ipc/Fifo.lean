import Kronos.Ipc.Protocol

/-!
# FIFO transport

`receive_line`, `send_line` and the transport over them, with the answers of
the system calls they make as inputs. A pipe is the list of its unread bytes:
`::write` puts bytes behind it and `::read` takes them from its front. Reading
is stated for any alphabet with a test for the newline, so that the bytes of a
pipe may bear marks.
-/

set_option autoImplicit false

namespace Kronos.Ipc

variable {α : Type}

def maxMessageSize : Nat := 1024 * 1024

/-- What one `::poll` answers. `unavailable` is an event with `POLLERR` or `POLLNVAL`. -/
inductive PollAnswer where
  | interrupted
  | ready
  | unavailable
  | timedOut
  | failed
  deriving DecidableEq

/-- The `do` loop around `::poll`. Once the listed answers are used up, it times out. -/
def pollLoop : List PollAnswer → PollAnswer
  | [] => .timedOut
  | .interrupted :: answers => pollLoop answers
  | answer :: _ => answer

/-! ## Receiving -/

/-- What one `::read` answers. A count of zero, or of an empty pipe, is the end of file. -/
inductive ReadAnswer where
  | count (bytes : Nat)
  | interrupted
  | wouldBlock
  | failed
  deriving DecidableEq

/-- The answers during one call. Once the listed answers are used up, `::read` would block. -/
structure ReceiveAnswers where
  polls : List PollAnswer := [.ready]
  reads : List ReadAnswer
  deriving DecidableEq

/-- The reading end of a FIFO: its unread bytes and the bytes read but not yet returned. -/
structure Inbox (α : Type) where
  pipe : List α
  buffer : List α := []
  deriving DecidableEq

def chunkSize : Nat := 4096

/-- The `extract_line` lambda: the line it returns and what it leaves in the buffer. -/
def extractLine (ends : α → Bool) (buffer : List α) : Option (List α × List α) :=
  match buffer.findIdx? ends with
  | none => none
  | some newline => some (buffer.take (newline + 1), buffer.drop (newline + 1))

/-- The `while (true)` loop around `::read`. -/
def readLoop (ends : α → Bool) :
    List ReadAnswer → Inbox α → Except Bytes (Option (List α)) × Inbox α
  | [], inbox => (.ok none, inbox)
  | .count bytes :: answers, inbox =>
      let chunk := inbox.pipe.take (min bytes chunkSize)
      if chunk = [] then (.ok none, inbox)
      else
        let pipe := inbox.pipe.drop (min bytes chunkSize)
        let buffer := inbox.buffer ++ chunk
        if maxMessageSize < buffer.length then
          (.error (text "IPC message exceeded the size limit"), ⟨pipe, buffer⟩)
        else
          match extractLine ends buffer with
          | some (line, rest) => (.ok (some line), ⟨pipe, rest⟩)
          | none => readLoop ends answers ⟨pipe, buffer⟩
  | .interrupted :: answers, inbox => readLoop ends answers inbox
  | .wouldBlock :: _, inbox => (.ok none, inbox)
  | .failed :: _, inbox => (.error (text "failed to read FIFO"), inbox)

def receiveLine (ends : α → Bool) (answers : ReceiveAnswers) (inbox : Inbox α) :
    Except Bytes (Option (List α)) × Inbox α :=
  match extractLine ends inbox.buffer with
  | some (line, rest) => (.ok (some line), { inbox with buffer := rest })
  | none =>
      match pollLoop answers.polls with
      | .ready => readLoop ends answers.reads inbox
      | .unavailable => (.error (text "IPC FIFO became unavailable"), inbox)
      | .timedOut => (.ok none, inbox)
      | _ => (.error (text "failed while polling FIFO"), inbox)

def isNewline (byte : UInt8) : Bool := byte = newline

/-- `decode_message` on the line a call returned. -/
def decodeReceived : Except Bytes (Option Bytes) → Except Bytes (Option ProtocolMessage)
  | .error what => .error what
  | .ok none => .ok none
  | .ok (some line) =>
      match decodeMessage line with
      | .error what => .error what
      | .ok message => .ok (some message)

/-- `Transport::receive`. -/
def receive (answers : ReceiveAnswers) (inbox : Inbox UInt8) :
    Except Bytes (Option ProtocolMessage) × Inbox UInt8 :=
  let received := receiveLine isNewline answers inbox
  (decodeReceived received.1, received.2)

/-- A sequence of calls on one reading end: their outcomes, and what they leave. -/
def receiveLines (ends : α → Bool) :
    List ReceiveAnswers → Inbox α → List (Except Bytes (Option (List α))) × Inbox α
  | [], inbox => ([], inbox)
  | answers :: calls, inbox =>
      let first := receiveLine ends answers inbox
      let later := receiveLines ends calls first.2
      (first.1 :: later.1, later.2)

/-- A sequence of calls of `Transport::receive`. -/
def receiveAll : List ReceiveAnswers → Inbox UInt8 →
    List (Except Bytes (Option ProtocolMessage)) × Inbox UInt8
  | [], inbox => ([], inbox)
  | answers :: calls, inbox =>
      let first := receive answers inbox
      let later := receiveAll calls first.2
      (first.1 :: later.1, later.2)

/-- What the calls that got something returned, in order. -/
def returned {β : Type} (outcomes : List (Except Bytes (Option β))) : List β :=
  outcomes.filterMap fun outcome => outcome.toOption.join

/-! ## Sending -/

/-- What one `::write` answers; where it would block, with the answers of the polls that follow. -/
inductive WriteAnswer where
  | wrote (count : Nat)
  | interrupted
  | wouldBlock (polls : List PollAnswer)
  | failed
  deriving DecidableEq

/-- The `while (remaining > 0)` loop. Once the listed answers are used up, `::write`
takes all that remains. -/
def sendLoop : List WriteAnswer → List α → List α → Except Bytes Unit × List α
  | _, [], pipe => (.ok (), pipe)
  | [], remaining, pipe => (.ok (), pipe ++ remaining)
  | .wrote 0 :: _, _, pipe => (.error (text "failed to write FIFO"), pipe)
  | .wrote count :: answers, remaining, pipe =>
      sendLoop answers (remaining.drop count) (pipe ++ remaining.take count)
  | .interrupted :: answers, remaining, pipe => sendLoop answers remaining pipe
  | .wouldBlock polls :: answers, remaining, pipe =>
      match pollLoop polls with
      | .ready | .unavailable => sendLoop answers remaining pipe
      | .timedOut => (.error (text "timed out writing to IPC FIFO"), pipe)
      | _ => (.error (text "failed to write FIFO"), pipe)
  | .failed :: _, _, pipe => (.error (text "failed to write FIFO"), pipe)

def sendLine (answers : List WriteAnswer) (message : List α) (pipe : List α) :
    Except Bytes Unit × List α :=
  if maxMessageSize < message.length then
    (.error (text "IPC message exceeded the size limit"), pipe)
  else sendLoop answers message pipe

/-- `Transport::send`. -/
def send (answers : List WriteAnswer) (message : ProtocolMessage) (pipe : Bytes) :
    Except Bytes Unit × Bytes :=
  match encodeMessage message with
  | .error what => (.error what, pipe)
  | .ok line => sendLine answers line pipe

end Kronos.Ipc
