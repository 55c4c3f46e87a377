import Kronos.Common.Reaches
import Kronos.Ipc.Fifo

/-!
# Shell sessions and the daemon

The two FIFOs, the daemon and the shell sessions that connect to it one after
the other, each call split where another party can come between. The FIFOs
belong to the server and keep their unread bytes when a session ends; the read
buffer, the received responses and the counter of request ids belong to the
session. What the engine says in a reply is left open.

To tell requests apart that bear the same id, each one gets a number that no
code reads, and the bytes of the FIFOs are marked with the number of the request
they are of, or that they answer.
-/

set_option autoImplicit false

namespace Kronos.Ipc

variable {M : Type}

/-! ## Marked messages -/

def endsLine (byte : UInt8 × M) : Bool := isNewline byte.1

/-- `Transport::send` of a message with marked bytes. -/
def sendMarked (answers : List WriteAnswer) (message : ProtocolMessage) (mark : M)
    (pipe : List (UInt8 × M)) : Except Bytes Unit × List (UInt8 × M) :=
  match encodeMessage message with
  | .error what => (.error what, pipe)
  | .ok line => sendLine answers (line.map fun byte => (byte, mark)) pipe

/-- The complete lines of a stream, behind a line already begun. -/
def cutLines {α : Type} (ends : α → Bool) : List α → List α → List (List α)
  | _, [] => []
  | begun, item :: rest =>
      if ends item then (begun ++ [item]) :: cutLines ends [] rest
      else cutLines ends (begun ++ [item]) rest

/-- What a line reads as, with the mark of its newline. -/
def readMarked (line : List (UInt8 × M)) : Option (ProtocolMessage × M) :=
  match decodeMessage (line.map Prod.fst), line.getLast? with
  | .ok message, some byte => some (message, byte.2)
  | _, _ => none

/-- The messages a reader has still ahead, in its buffer and in the pipe. -/
def Inbox.ahead (inbox : Inbox (UInt8 × M)) : List (ProtocolMessage × M) :=
  (cutLines endsLine [] (inbox.buffer ++ inbox.pipe)).filterMap readMarked

/-! ## The parties -/

def requestKind : Bytes := text "REQUEST"
def eventKind : Bytes := text "EVENT"
def okKind : Bytes := text "OK"
def errorKind : Bytes := text "ERROR"

/-- A `ShellSession`. Of several responses with one id the first one counts.
While `execute` waits, `waiting` is the id of its request and the number of the
request. -/
structure Session where
  nextRequestId : UInt64 := 1
  readBuffer : List (UInt8 × Option Nat) := []
  responses : List (UInt64 × ProtocolMessage × Option Nat) := []
  listenerError : Option Bytes := none
  waiting : Option (UInt64 × Nat) := none
  deriving DecidableEq

/-- A call of `handle_request`; `caught` once its `catch` block is entered. -/
structure Handling where
  request : ProtocolMessage
  number : Nat
  caught : Bool := false
  deriving DecidableEq

/-- A response that `execute` returned: for which request, and which request its line answered. -/
structure Return where
  number : Nat
  response : ProtocolMessage
  answered : Option Nat
  deriving DecidableEq

/-- `asked` numbers the requests; `produced` lists the replies whose send
returned, and `returned` what `execute` returned. -/
structure Exchange where
  requests : Inbox (UInt8 × Nat) := ⟨[], []⟩
  responses : List (UInt8 × Option Nat) := []
  session : Option Session := none
  handling : Option Handling := none
  asked : Nat := 0
  produced : List (Nat × ProtocolMessage) := []
  returned : List Return := []
  deriving DecidableEq

/-- The reading end of the response FIFO that a session holds. -/
def Exchange.inbox (exchange : Exchange) (session : Session) : Inbox (UInt8 × Option Nat) :=
  ⟨exchange.responses, session.readBuffer⟩

/-- The request is refused before the `try` block. -/
def Handling.Invalid (handling : Handling) : Prop :=
  handling.request.kind ≠ requestKind ∨ handling.request.fields = []

instance (handling : Handling) : Decidable handling.Invalid := inferInstanceAs (Decidable (_ ∨ _))

/-- The reply sent next, given what the engine has to say. -/
def Handling.reply (handling : Handling) (succeeds : Bool) (what : Bytes) : ProtocolMessage :=
  if handling.Invalid then ⟨handling.request.requestId, errorKind, [text "invalid request"]⟩
  else if handling.caught then ⟨handling.request.requestId, errorKind, [what]⟩
  else ⟨handling.request.requestId, if succeeds then okKind else errorKind, [what]⟩

/-! ## Steps -/

inductive Event where
  | connect
  /-- `execute` up to its wait, or to the throw of its send. -/
  | ask (tokens : List Bytes) (answers : List WriteAnswer)
  /-- One turn of the listener. -/
  | listen (answers : ReceiveAnswers)
  /-- The wait of `execute` ends with a response or a listener error. -/
  | collect
  /-- The wait of `execute` ends after ten seconds. -/
  | timeOut
  /-- The session ends, at any point of `execute`. -/
  | disconnect
  /-- One call of `receive` in the loop of the daemon. -/
  | serve (answers : ReceiveAnswers)
  /-- An exception in the `try` block of `handle_request` before its `respond`. -/
  | fail
  | respond (succeeds : Bool) (what : Bytes) (answers : List WriteAnswer)
  /-- An observer sends its notification. -/
  | notify (what : Bytes) (answers : List WriteAnswer)
  deriving DecidableEq

/-- `execute` takes the next request id and sends the request. -/
def Exchange.ask (exchange : Exchange) (session : Session) (tokens : List Bytes)
    (answers : List WriteAnswer) : Exchange :=
  let sent := sendMarked answers ⟨session.nextRequestId, requestKind, tokens⟩ exchange.asked
    exchange.requests.pipe
  { exchange with
    requests := ⟨sent.2, exchange.requests.buffer⟩
    asked := exchange.asked + 1
    session := some
      { session with
        nextRequestId := session.nextRequestId + 1
        waiting := if sent.1.isOk then some (session.nextRequestId, exchange.asked) else none } }

/-- What the listener does with what `receive` gave it. -/
def Session.hear (session : Session) : Except Bytes (Option (List (UInt8 × Option Nat))) → Session
  | .error what =>
      { session with listenerError := some (text "IPC listener stopped: " ++ what) }
  | .ok none => session
  | .ok (some line) =>
      match decodeMessage (line.map Prod.fst) with
      | .error what =>
          { session with listenerError := some (text "IPC listener stopped: " ++ what) }
      | .ok message =>
          if message.kind = eventKind then session
          else
            { session with
              responses := (message.requestId, message, (line.getLast?.map Prod.snd).join) ::
                session.responses }

def Exchange.listen (exchange : Exchange) (session : Session) (answers : ReceiveAnswers) :
    Exchange :=
  let received := receiveLine endsLine answers (exchange.inbox session)
  { exchange with
    responses := received.2.pipe
    session := some ({ session with readBuffer := received.2.buffer }.hear received.1) }

/-- The daemon takes the request on; what it cannot read it reports and drops. -/
def Exchange.serve (exchange : Exchange) (answers : ReceiveAnswers) : Exchange :=
  let received := receiveLine endsLine answers exchange.requests
  { exchange with
    requests := received.2
    handling :=
      match received.1 with
      | .ok (some line) => (readMarked line).map fun request => ⟨request.1, request.2, false⟩
      | _ => none }

/-- A send that throws inside the `try` block leads to the `catch` block. -/
def Exchange.respond (exchange : Exchange) (handling : Handling) (succeeds : Bool)
    (what : Bytes) (answers : List WriteAnswer) : Exchange :=
  let reply := handling.reply succeeds what
  let sent := sendMarked answers reply (some handling.number) exchange.responses
  { exchange with
    responses := sent.2
    produced := if sent.1.isOk then (handling.number, reply) :: exchange.produced
      else exchange.produced
    handling := if sent.1.isOk ∨ handling.caught ∨ handling.Invalid then none
      else some { handling with caught := true } }

def Exchange.step (exchange : Exchange) : Event → Option Exchange
  | .connect =>
      match exchange.session with
      | none => some { exchange with session := some {} }
      | some _ => none
  | .ask tokens answers =>
      match exchange.session with
      | some session =>
          if session.waiting = none ∧ tokens ≠ [] then
            some (exchange.ask session tokens answers)
          else none
      | none => none
  | .listen answers =>
      match exchange.session with
      | some session =>
          if session.listenerError = none then some (exchange.listen session answers) else none
      | none => none
  | .collect =>
      match exchange.session with
      | some session =>
          match session.waiting, session.listenerError, session.waiting.bind fun waiting =>
              session.responses.lookup waiting.1 with
          | some _, some _, _ =>
              some { exchange with session := some { session with waiting := none } }
          | some waiting, none, some response =>
              some
                { exchange with
                  session := some
                    { session with
                      waiting := none
                      responses := session.responses.filter fun other => other.1 ≠ waiting.1 }
                  returned := ⟨waiting.2, response.1, response.2⟩ :: exchange.returned }
          | _, _, _ => none
      | none => none
  | .timeOut =>
      match exchange.session with
      | some session =>
          match session.waiting, session.listenerError, session.waiting.bind fun waiting =>
              session.responses.lookup waiting.1 with
          | some _, none, none =>
              some { exchange with session := some { session with waiting := none } }
          | _, _, _ => none
      | none => none
  | .disconnect =>
      match exchange.session with
      | some _ => some { exchange with session := none }
      | none => none
  | .serve answers =>
      match exchange.handling with
      | none => some (exchange.serve answers)
      | some _ => none
  | .fail =>
      match exchange.handling with
      | some handling =>
          if handling.caught = false ∧ ¬ handling.Invalid then
            some { exchange with handling := some { handling with caught := true } }
          else none
      | none => none
  | .respond succeeds what answers =>
      match exchange.handling with
      | some handling => some (exchange.respond handling succeeds what answers)
      | none => none
  | .notify what answers =>
      some
        { exchange with
          responses := (sendMarked answers ⟨0, eventKind, [what]⟩ none exchange.responses).2 }

end Kronos.Ipc
