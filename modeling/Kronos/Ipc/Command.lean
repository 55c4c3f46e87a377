import Kronos.Ipc.Exchange

/-!
# Command lines

`tokenize_command`, which cuts the line a user typed into the fields of a
request, and what `run_command` of the shell asks for it.
-/

set_option autoImplicit false

namespace Kronos.Ipc

def backslash : UInt8 := 92
def singleQuote : UInt8 := 39
def doubleQuote : UInt8 := 34
def space : UInt8 := 32

/-- `std::isspace` in the locale a program starts in. -/
def isSpace (value : UInt8) : Bool := value == 32 || 9 ≤ value && value ≤ 13

/-- The variables of the loop. No quote is open while `quote` is zero. -/
structure Tokenizer where
  tokens : List Bytes := []
  current : Bytes := []
  quote : UInt8 := 0
  escaped : Bool := false
  deriving DecidableEq

/-- `tokens.push_back(current)`, unless there is no text. -/
def Tokenizer.finishToken (state : Tokenizer) : Tokenizer :=
  if state.current = [] then state
  else { state with tokens := state.tokens ++ [state.current], current := [] }

/-- One turn of the loop. -/
def Tokenizer.read (state : Tokenizer) (value : UInt8) : Tokenizer :=
  if state.escaped then { state with current := state.current ++ [value], escaped := false }
  else if value = backslash then { state with escaped := true }
  else if state.quote ≠ 0 then
    if value = state.quote then { state with quote := 0 }
    else { state with current := state.current ++ [value] }
  else if value = singleQuote ∨ value = doubleQuote then { state with quote := value }
  else if isSpace value then state.finishToken
  else { state with current := state.current ++ [value] }

/-- What stands behind the loop. -/
def Tokenizer.finish (state : Tokenizer) : Except Bytes (List Bytes) :=
  if state.escaped = true ∨ state.quote ≠ 0 then
    .error (text "unfinished escape or quote in command")
  else .ok state.finishToken.tokens

def tokenizeCommand (commandLine : Bytes) : Except Bytes (List Bytes) :=
  (commandLine.foldl Tokenizer.read {}).finish

/-- The request that `run_command` has `execute` send. Nothing is sent for an empty
command and for one that leaves the shell. -/
def commandRequest (requestId : UInt64) (command : Bytes) :
    Except Bytes (Option ProtocolMessage) :=
  match tokenizeCommand command with
  | .error what => .error what
  | .ok [] => .ok none
  | .ok (first :: rest) =>
      if first = text "quit" ∨ first = text "exit" then .ok none
      else .ok (some ⟨requestId, requestKind, first :: rest⟩)

end Kronos.Ipc
