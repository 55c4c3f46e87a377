import Kronos.Wal.Append
import Kronos.Wal.RecoverProperties

/-!
# Failed appends

A failed append leaves the bytes it wrote in the file, and the next append
continues on the same line. The log survives exactly when no line is written
whole behind a torn one: recovery drops a torn final line, and it rejects every
line that holds anything in front of a written record.
-/

set_option autoImplicit false

namespace Kronos.Wal

/-! ## What a call leaves in the file -/

theorem writeLoop_file (answers : List WriteAnswer) (remaining file : Bytes) :
    (writeLoop answers remaining file).2 =
      file ++ remaining.take (taken answers remaining.length) := by
  induction answers generalizing remaining file with
  | nil => cases remaining <;> simp [writeLoop, taken]
  | cons answer answers ih =>
      cases remaining with
      | nil => simp [writeLoop]
      | cons first rest =>
          cases answer with
          | wrote count =>
              rw [writeLoop, ih, taken, List.length_drop, Separated.take_min_append, List.append_assoc]
              simp
          | interrupted =>
              rw [writeLoop, ih, taken]
              simp
          | failed => simp [writeLoop, taken]

theorem taken_le (answers : List WriteAnswer) (size : Nat) : taken answers size ≤ size := by
  induction answers generalizing size with
  | nil => exact le_rfl
  | cons answer answers ih =>
      cases answer with
      | wrote count =>
          have later := ih (size - count)
          simp only [taken]
          omega
      | interrupted => exact ih size
      | failed => exact Nat.zero_le _

theorem writeLoop_ok_iff (answers : List WriteAnswer) (remaining file : Bytes) :
    (writeLoop answers remaining file).1 = .ok () ↔
      taken answers remaining.length = remaining.length := by
  induction answers generalizing remaining file with
  | nil => cases remaining <;> simp [writeLoop, taken]
  | cons answer answers ih =>
      cases remaining with
      | nil =>
          have bound := taken_le (answer :: answers) 0
          simp only [writeLoop, List.length_nil, true_iff]
          omega
      | cons first rest =>
          cases answer with
          | wrote count =>
              have bound := taken_le answers ((first :: rest).length - count)
              rw [writeLoop, ih, taken, List.length_drop]
              · omega
              · simp
          | interrupted =>
              rw [writeLoop, ih, taken]
              simp
          | failed => simp [writeLoop, taken]

/-- The bytes a call adds to the file. -/
def AppendCall.piece (call : AppendCall) : Bytes :=
  if Accepted call.record then call.line.take (taken call.answers.writes call.line.length)
  else []

private theorem append_file (answers : AppendAnswers) (record file : Bytes) :
    (append answers record file).2 = file ++ record.take (taken answers.writes record.length) := by
  have written := writeLoop_file answers.writes record file
  unfold append
  split <;> rename_i loop <;> rw [loop] at written
  · split <;> exact written
  · exact written

private theorem append_ok_iff (answers : AppendAnswers) (record file : Bytes) :
    (append answers record file).1 = .ok () ↔
      taken answers.writes record.length = record.length ∧ answers.fsync = true := by
  have returned := writeLoop_ok_iff answers.writes record file
  unfold append
  split <;> rename_i loop <;> rw [loop] at returned
  · have all := returned.mp rfl
    cases synced : answers.fsync <;> simp [all]
  · simp [← returned]

/-- An accepted record reaches the append; a rejected one leaves the file alone. -/
theorem perform_eq (call : AppendCall) (file : Bytes) :
    (Accepted call.record → call.perform file = append call.answers call.line file) ∧
      (¬ Accepted call.record → ∃ error, call.perform file = (.error error, file)) := by
  obtain ⟨timestamp, record, answers⟩ := call
  cases record with
  | submission record =>
      constructor
      · rintro ⟨idNonzero, estimateNonzero, typeNonempty⟩
        simp [AppendCall.perform, idNonzero, estimateNonzero, typeNonempty]
      · intro rejected
        refine ⟨"invalid durable submission record", if_pos ?_⟩
        simp only [Accepted] at rejected
        tauto
  | transition record =>
      constructor
      · intro idNonzero
        exact if_neg idNonzero
      · intro rejected
        refine ⟨"invalid durable transition record", if_pos ?_⟩
        simpa [Accepted] using rejected

theorem perform_file (call : AppendCall) (file : Bytes) :
    (call.perform file).2 = file ++ call.piece := by
  by_cases accepted : Accepted call.record
  · rw [(perform_eq call file).1 accepted, append_file, AppendCall.piece, if_pos accepted]
  · obtain ⟨error, failed⟩ := (perform_eq call file).2 accepted
    simp [failed, AppendCall.piece, accepted]

theorem performAll_eq (calls : List AppendCall) (file : Bytes) :
    performAll calls file = file ++ calls.flatMap AppendCall.piece := by
  induction calls generalizing file with
  | nil => simp [performAll]
  | cons call calls ih =>
      have step : performAll (call :: calls) file = performAll calls (call.perform file).2 := rfl
      rw [step, ih, perform_file, List.append_assoc, List.flatMap_cons]

private theorem isOk_iff {result : Except String Unit} : result.isOk = true ↔ result = .ok () := by
  cases result <;> simp [Except.isOk, Except.toBool]

/-- A call returns exactly when its line is in the file and `fsync` succeeded. -/
theorem returns_iff (call : AppendCall) :
    call.returns = true ↔ call.Whole ∧ call.answers.fsync = true := by
  rw [AppendCall.returns, isOk_iff]
  by_cases accepted : Accepted call.record
  · rw [(perform_eq call []).1 accepted, append_ok_iff]
    simp [AppendCall.Whole, accepted]
  · obtain ⟨error, failed⟩ := (perform_eq call []).2 accepted
    simp [failed, AppendCall.Whole, accepted]

theorem AppendCall.Whole.piece_eq {call : AppendCall} (whole : call.Whole) :
    call.piece = call.line := by
  rw [piece, if_pos whole.1, whole.2, List.take_length]

/-- The bytes of a call that is not whole do not reach the newline of its line. -/
theorem newline_not_mem_piece {call : AppendCall} (partly : ¬ call.Whole) :
    newline ∉ call.piece := by
  unfold AppendCall.piece
  split
  · next accepted =>
      have bound := taken_le call.answers.writes call.line.length
      have short : taken call.answers.writes call.line.length < call.line.length :=
        lt_of_le_of_ne bound fun all => partly ⟨accepted, all⟩
      exact Separated.not_mem_take_of_lt (newline_not_mem_body _ _) short
  · simp

theorem AppendCall.Torn.not_whole {call : AppendCall} (torn : call.Torn) : ¬ call.Whole := by
  intro whole
  have short := torn.2.2
  rw [whole.2] at short
  exact lt_irrefl _ short

theorem piece_eq_nil {call : AppendCall} (notTorn : ¬ call.Torn) (partly : ¬ call.Whole) :
    call.piece = [] := by
  unfold AppendCall.piece
  split
  · next accepted =>
      have bound := taken_le call.answers.writes call.line.length
      have nothing : taken call.answers.writes call.line.length = 0 := by
        by_contra some
        exact notTorn ⟨accepted, by omega, lt_of_le_of_ne bound fun all => partly ⟨accepted, all⟩⟩
      rw [nothing, List.take_zero]
  · rfl

theorem AppendCall.Torn.piece_ne_nil {call : AppendCall} (torn : call.Torn) :
    call.piece ≠ [] := by
  obtain ⟨accepted, positive, short⟩ := torn
  rw [piece, if_pos accepted]
  intro empty
  have length := congrArg List.length empty
  rw [List.length_take, List.length_nil] at length
  omega

end Kronos.Wal
