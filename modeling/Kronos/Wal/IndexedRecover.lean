import Kronos.IndexedHex
import Kronos.Wal.RecoverProperties

/-!
# Recovery with its indices

The loops of `recover` as the source has them, on positions in the contents and
in the vector of fields. An access out of range, or a newline that is not found,
is `none`. On every contents the loops come to an end without one and do what
the recovery on lists does.
-/

set_option autoImplicit false

namespace Kronos.Wal

open Ranged

/-- The loop of `hex_decode`. -/
def hexDecodeFrom (value : Bytes) (index : Nat) (decoded : Bytes) : Checked String Bytes :=
  hexDecodeLoop "WAL contains an invalid hex field" value index decoded

def hexDecodeIndexed (value : Bytes) : Checked String Bytes :=
  if value.length % 2 ≠ 0 then throw "WAL contains an invalid hex field"
  else hexDecodeFrom value 0 []

def replaySubmissionIndexed (recovered : Recovered) (fields : List Bytes) :
    Checked String Recovered := do
  let _ ← plainly (parseInteger fromCharsInt64 (← fetch fields 2) "timestamp")
  let id ← plainly (parseInteger fromCharsUInt64 (← fetch fields 3) "job ID")
  let submissionSequence ←
    plainly (parseInteger fromCharsUInt64 (← fetch fields 4) "submission sequence")
  let priority ← plainly (parseInteger fromCharsInt32 (← fetch fields 5) "priority")
  let estimatedWorkUnits ←
    plainly (parseInteger fromCharsUInt64 (← fetch fields 6) "work estimate")
  let name ← hexDecodeIndexed (← fetch fields 7)
  let type ← hexDecodeIndexed (← fetch fields 8)
  let payload ← hexDecodeIndexed (← fetch fields 9)
  if id = 0 ∨ estimatedWorkUnits = 0 ∨ type = [] then
    throw "invalid submission record values"
  if (recovered.find id).isSome then
    throw "duplicate job submission"
  return recovered ++
    [.ofSubmission ⟨id, submissionSequence, name, priority, estimatedWorkUnits, ⟨type, payload⟩⟩]

def replayTransitionIndexed (recovered : Recovered) (fields : List Bytes) :
    Checked String Recovered := do
  let _ ← plainly (parseInteger fromCharsInt64 (← fetch fields 2) "timestamp")
  let id ← plainly (parseInteger fromCharsUInt64 (← fetch fields 3) "job ID")
  if (recovered.find id).isNone then
    throw "transition precedes submission"
  let state ← plainly (parseState (← fetch fields 4))
  let workUnitsConsumed ←
    plainly (parseInteger fromCharsUInt64 (← fetch fields 5) "consumed work")
  let message ← hexDecodeIndexed (← fetch fields 6)
  return recovered.overwrite ⟨id, state, workUnitsConsumed, message⟩

def replayLineIndexed (recovered : Recovered) (line : Bytes) : Checked String Recovered := do
  let fields := split line
  plainly (validateChecksum line fields)
  if fields.length < 2 then throw "unsupported WAL record version"
  if (← fetch fields 0) ≠ text "K1" then throw "unsupported WAL record version"
  let kind ← fetch fields 1
  if kind = text "S" then
    if fields.length ≠ 11 then throw "invalid submission record field count"
    replaySubmissionIndexed recovered fields
  else if kind = text "T" then
    if fields.length ≠ 8 then throw "invalid transition record field count"
    replayTransitionIndexed recovered fields
  else throw "unknown WAL record type"

/-- `contents.find('\n', begin)` -/
def findNewline (contents : Bytes) (start : Nat) : Option Nat :=
  ((contents.drop start).findIdx? (· = newline)).map (start + ·)

theorem le_of_findNewline {contents : Bytes} {start stop : Nat}
    (found : findNewline contents start = some stop) : start ≤ stop := by
  obtain ⟨offset, _, rfl⟩ := Option.map_eq_some_iff.mp found
  exact Nat.le_add_right _ _

/-- The line loop from a position on. -/
def replayFrom (contents : Bytes) (start lineNumber : Nat) (recovered : Recovered) :
    Checked String Recovered :=
  if start < contents.length then
    match _ : findNewline contents start with
    | none => ExceptT.mk none
    | some stop =>
        let line := (contents.drop start).take (stop - start)
        if line = [] then
          throw ("empty WAL record at line " ++ toString (lineNumber + 1))
        else
          match replayLineIndexed recovered line with
          | none => ExceptT.mk none
          | some (.error error) =>
              throw ("invalid WAL record at line " ++ toString (lineNumber + 1) ++ ": " ++ error)
          | some (.ok next) => replayFrom contents (stop + 1) (lineNumber + 1) next
  else return recovered
termination_by contents.length - start
decreasing_by
  have behind := le_of_findNewline ‹_›
  omega

/-- `recover` on a file system that carries out the repair. -/
def recoverIndexed (contents : Bytes) : Checked String RecoveryReport := do
  let incomplete := contents ≠ [] ∧ contents.getLast? ≠ some newline
  let complete := if incomplete then terminatedPart contents else contents
  let recovered ← replayFrom complete 0 0 []
  return ⟨sortBySequence recovered, decide incomplete⟩

/-! ## Fields -/

theorem hexDecodeIndexed_eq (value : Bytes) : hexDecodeIndexed value = plainly (hexDecode value) := by
  rw [hexDecodeIndexed, hexDecode]
  split
  · rfl
  · next even =>
      rw [hexDecodeFrom, hexDecodeLoop_eq _ value 0 [] (by omega)]
      rfl

theorem replaySubmissionIndexed_eq (recovered : Recovered)
    (version kind timestamp id sequence priority estimate name type payload checksum : Bytes) :
    replaySubmissionIndexed recovered [version, kind, timestamp, id, sequence, priority, estimate,
        name, type, payload, checksum] =
      plainly (replaySubmission recovered timestamp id sequence priority estimate name type
        payload) := by
  simp only [replaySubmissionIndexed, replaySubmission, plainly_bind, plainly_ite, plainly_throw,
    plainly_pure, hexDecodeIndexed_eq]
  rfl

theorem replayTransitionIndexed_eq (recovered : Recovered)
    (version kind timestamp id state work message checksum : Bytes) :
    replayTransitionIndexed recovered [version, kind, timestamp, id, state, work, message,
        checksum] =
      plainly (replayTransition recovered timestamp id state work message) := by
  simp only [replayTransitionIndexed, replayTransition, plainly_bind, plainly_ite, plainly_throw,
    plainly_pure, hexDecodeIndexed_eq]
  rfl

private theorem exists_six {α : Type} (values : List α) (count : values.length = 6) :
    ∃ a b c d e f, values = [a, b, c, d, e, f] := by
  match values, count with
  | [a, b, c, d, e, f], _ => exact ⟨a, b, c, d, e, f, rfl⟩

private theorem exists_nine {α : Type} (values : List α) (count : values.length = 9) :
    ∃ a b c d e f g h i, values = [a, b, c, d, e, f, g, h, i] := by
  match values, count with
  | [a, b, c, d, e, f, g, h, i], _ => exact ⟨a, b, c, d, e, f, g, h, i, rfl⟩

/-- Every field that the loop body asks for is there. -/
theorem replayLineIndexed_eq (recovered : Recovered) (line : Bytes) :
    replayLineIndexed recovered line = plainly (replayLine recovered line) := by
  simp only [replayLineIndexed, replayLine, plainly_bind]
  congr 1
  funext _
  generalize split line = fields
  rcases fields with _ | ⟨version, _ | ⟨kind, rest⟩⟩
  · rfl
  · rfl
  · have first : (fetch (version :: kind :: rest) 0 : Checked String Bytes) = pure version := rfl
    have second : (fetch (version :: kind :: rest) 1 : Checked String Bytes) = pure kind := rfl
    have enough : ¬ (version :: kind :: rest).length < 2 := by simp
    simp only [enough, ↓reduceIte, first, second, pure_bind]
    by_cases current : version = text "K1"
    · simp only [current, ne_eq, not_true_eq_false, ↓reduceIte]
      by_cases submission : kind = text "S"
      · simp only [submission, ↓reduceIte]
        split
        · next wrong =>
            split
            · simp at wrong
            · rfl
        · next count =>
            obtain ⟨timestamp, id, sequence, priority, estimate, name, type, payload, checksum,
              rfl⟩ := exists_nine rest (by simpa using count)
            exact replaySubmissionIndexed_eq _ _ _ _ _ _ _ _ _ _ _ _
      · simp only [submission, ↓reduceIte]
        by_cases transition : kind = text "T"
        · simp only [transition, ↓reduceIte]
          split
          · next wrong =>
              split
              · simp at wrong
              · rfl
          · next count =>
              obtain ⟨timestamp, id, state, work, message, checksum, rfl⟩ :=
                exists_six rest (by simpa using count)
              exact replayTransitionIndexed_eq _ _ _ _ _ _ _ _ _
        · simp only [transition, ↓reduceIte]
          rfl
    · simp only [current, ne_eq, not_false_eq_true, ↓reduceIte]
      rfl

/-! ## Lines -/

theorem findNewline_line {before line rest : Bytes} (clean : newline ∉ line) :
    findNewline (before ++ (line ++ newline :: rest)) before.length =
      some (before.length + line.length) := by
  have found : (line ++ newline :: rest).findIdx? (· = newline) = some line.length := by
    apply Separated.findIdx?_append_cons
    · intro byte inside
      exact decide_eq_false (ne_of_mem_of_not_mem inside clean)
    · exact decide_eq_true rfl
  rw [findNewline, List.drop_left, found]
  rfl

/-- The line loop takes the lines of terminated contents one by one. -/
theorem replayFrom_eq {lines : List Bytes} (clean : ∀ line ∈ lines, newline ∉ line) (before : Bytes)
    (lineNumber : Nat) (recovered : Recovered) :
    replayFrom (before ++ Separated.terminated newline lines) before.length lineNumber recovered =
      plainly (replayLines recovered lineNumber lines) := by
  induction lines generalizing before lineNumber recovered with
  | nil =>
      rw [replayFrom, if_neg (by simp)]
      rfl
  | cons line lines ih =>
      rw [List.forall_mem_cons] at clean
      have within : before.length <
          (before ++ Separated.terminated newline (line :: lines)).length := by
        simp
      have here : ((before ++ Separated.terminated newline (line :: lines)).drop
          before.length).take (before.length + line.length - before.length) = line := by
        simp
      have found : findNewline (before ++ Separated.terminated newline (line :: lines))
          before.length = some (before.length + line.length) := by
        rw [Separated.terminated_cons]
        exact findNewline_line clean.1
      have onward : before ++ Separated.terminated newline (line :: lines) =
          (before ++ line ++ [newline]) ++ Separated.terminated newline lines := by
        simp
      have position : before.length + line.length + 1 = (before ++ line ++ [newline]).length := by
        simp [Nat.add_assoc]
      rw [replayFrom, if_pos within]
      split
      · next missing =>
          rw [found] at missing
          cases missing
      · next stop reached =>
          rw [found] at reached
          cases reached
          simp only [here, replayLines]
          split
          · rfl
          · rw [replayLineIndexed_eq]
            cases replayLine recovered line with
            | error what => rfl
            | ok next =>
                simp only [plainly, ExceptT.mk]
                rw [position, onward]
                exact ih clean.2 _ _ _

/-- On every contents recovery comes to an end, with no access out of range. -/
theorem recoverIndexed_eq (contents : Bytes) :
    recoverIndexed contents = plainly (recover contents).1 := by
  obtain ⟨lines, tail, clean, torn, rfl⟩ := Separated.exists_terminated newline contents
  have looped := replayFrom_eq clean [] 0 []
  have complete : (if Separated.terminated newline lines ++ tail ≠ [] ∧
      (Separated.terminated newline lines ++ tail).getLast? ≠ some newline then
        terminatedPart (Separated.terminated newline lines ++ tail)
      else Separated.terminated newline lines ++ tail) = Separated.terminated newline lines := by
    split
    · exact Separated.rdropWhile_terminated_append torn
    · next whole =>
        rw [incomplete_iff lines torn, not_not] at whole
        rw [whole, List.append_nil]
  rw [recover_terminated_append clean torn, recoverIndexed]
  simp only [complete, decide_eq_decide.mpr (incomplete_iff lines torn)]
  rw [List.nil_append, List.length_nil] at looped
  rw [looped, replayReport]
  cases replayLines [] 0 lines <;> rfl

end Kronos.Wal
