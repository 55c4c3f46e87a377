import Kronos.Wal.RecoverProperties

/-!
# What a line says

The lines recovery accepts, as a relation between a line and the record it
reads as, apart from the order of the checks and from what was read before. The
body of the line loop succeeds exactly on a line that reads as a record which
the replay map admits.
-/

set_option autoImplicit false

namespace Kronos.Wal

/-- The last field is the checksum of everything in front of its separator. -/
def Summed (line : Bytes) : Prop := ∃ covered, line = covered ++ pipe :: checksumText covered

inductive ReadsAs (line : Bytes) : JournalRecord → Prop
  | submission {timestamp id sequence priority estimate name type payload checksum : Bytes}
      {record : JobSubmissionRecord} {time : Int64} (summed : Summed line)
      (fields : split line = [text "K1", text "S", timestamp, id, sequence, priority, estimate,
        name, type, payload, checksum])
      (timestampIs : fromCharsInt64 timestamp = some time)
      (idIs : fromCharsUInt64 id = some record.id)
      (sequenceIs : fromCharsUInt64 sequence = some record.submissionSequence)
      (priorityIs : fromCharsInt32 priority = some record.priority)
      (estimateIs : fromCharsUInt64 estimate = some record.estimatedWorkUnits)
      (nameIs : hexDecode name = .ok record.name)
      (typeIs : hexDecode type = .ok record.task.type)
      (payloadIs : hexDecode payload = .ok record.task.payload)
      (accepted : Accepted (.submission record)) : ReadsAs line (.submission record)
  | transition {timestamp id state work message checksum : Bytes} {record : JobTransitionRecord}
      {time : Int64} (summed : Summed line)
      (fields : split line = [text "K1", text "T", timestamp, id, state, work, message, checksum])
      (timestampIs : fromCharsInt64 timestamp = some time)
      (idIs : fromCharsUInt64 id = some record.id)
      (stateIs : parseState state = .ok record.state)
      (workIs : fromCharsUInt64 work = some record.workUnitsConsumed)
      (messageIs : hexDecode message = .ok record.message) : ReadsAs line (.transition record)

theorem split_of_summed {covered : Bytes} :
    split (covered ++ pipe :: checksumText covered) = split covered ++ [checksumText covered] := by
  rw [split, List.splitOn_append_cons_self, List.splitOn_eq_singleton (plain_checksumText _).1,
    split]

theorem validateChecksum_iff (line : Bytes) :
    validateChecksum line (split line) = .ok () ↔ Summed line := by
  obtain ⟨fields, last, clean, lastClean, rfl⟩ := Separated.exists_terminated pipe line
  have cut : split (Separated.terminated pipe fields ++ last) = fields ++ [last] :=
    Separated.splitOn_terminated_append clean lastClean
  rcases List.eq_nil_or_concat' fields with rfl | ⟨initial, final, rfl⟩
  · simp only [Separated.terminated_nil, List.nil_append] at cut ⊢
    have none : ¬ Summed last := by
      rintro ⟨covered, rfl⟩
      simp at lastClean
    simp [validateChecksum, cut, beforeLastPipe, lastClean, none]
  · have shape : Separated.terminated pipe (initial ++ [final]) ++ last =
        (Separated.terminated pipe initial ++ final) ++ pipe :: last := by
      simp
    have passes : ∀ byte ∈ last, decide (byte ≠ pipe) = true := by
      intro byte member
      exact decide_eq_true fun same => lastClean (same ▸ member)
    have before : beforeLastPipe (Separated.terminated pipe (initial ++ [final]) ++ last) =
        some (Separated.terminated pipe initial ++ final) := by
      rw [shape, beforeLastPipe, if_pos (by simp),
        Separated.rdropWhile_append_cons passes (by simp), List.dropLast_concat]
    simp only [validateChecksum, cut, before, List.getLast?_concat, ne_eq, ite_not]
    constructor
    · intro valid
      split at valid
      · next same => exact ⟨_, by rw [shape, same]⟩
      · cases valid
    · rintro ⟨covered, same⟩
      have fields := cut
      rw [same, split_of_summed] at fields
      obtain ⟨_, checksum⟩ := List.append_inj' fields rfl
      rw [List.cons.injEq] at checksum
      rw [shape, checksum.1] at same
      rw [if_pos]
      rw [← checksum.1, (List.append_inj' same (by simp)).1]

/-! ## The line loop -/

private theorem parseInteger_ok_iff {Integer : Type} {fromChars : Bytes → Option Integer}
    {value : Bytes} {fieldName : String} {parsed : Integer} :
    parseInteger fromChars value fieldName = .ok parsed ↔ fromChars value = some parsed := by
  unfold parseInteger
  split <;> simp_all

private theorem bind_ok_iff {α β : Type} {first : Except String α} {rest : α → Except String β}
    {result : β} :
    (first >>= rest) = .ok result ↔ ∃ value, first = .ok value ∧ rest value = .ok result := by
  cases first <;> simp [bind, Except.bind]

private theorem guard_ok_iff {α : Type} {bad : Prop} [Decidable bad] {what : String}
    {unreached : PUnit → Except String α} {rest : Except String α} {result : α} :
    (if bad then throw what >>= unreached else rest) = .ok result ↔
      ¬ bad ∧ rest = .ok result := by
  by_cases is : bad <;> simp [is, bind, Except.bind, throw, throwThe, MonadExceptOf.throw]

private theorem performs_submission_iff {recovered : Recovered} {record : JobSubmissionRecord} :
    Performs recovered (.submission record) ↔ ¬ (recovered.find record.id).isSome := by
  rw [find_isSome_iff]
  simp [Performs]

private theorem performs_transition_iff {recovered : Recovered} {record : JobTransitionRecord} :
    Performs recovered (.transition record) ↔ ¬ (recovered.find record.id).isNone := by
  rw [← Option.not_isSome, Bool.not_eq_true, Bool.not_eq_false', find_isSome_iff]
  rfl

theorem replaySubmission_ok_iff {recovered next : Recovered}
    {timestamp id sequence priority estimate name type payload : Bytes} :
    replaySubmission recovered timestamp id sequence priority estimate name type payload =
        .ok next ↔
      ∃ (record : JobSubmissionRecord) (time : Int64), fromCharsInt64 timestamp = some time ∧
        fromCharsUInt64 id = some record.id ∧
        fromCharsUInt64 sequence = some record.submissionSequence ∧
        fromCharsInt32 priority = some record.priority ∧
        fromCharsUInt64 estimate = some record.estimatedWorkUnits ∧
        hexDecode name = .ok record.name ∧ hexDecode type = .ok record.task.type ∧
        hexDecode payload = .ok record.task.payload ∧ Accepted (.submission record) ∧
        Performs recovered (.submission record) ∧
        next = replayRecord recovered (.submission record) := by
  simp only [replaySubmission, bind_ok_iff, parseInteger_ok_iff, guard_ok_iff, pure, Except.pure,
    Except.ok.injEq, performs_submission_iff]
  constructor
  · rintro ⟨time, timeIs, number, idIs, sequenceNumber, sequenceIs, rank, priorityIs, units,
      estimateIs, label, nameIs, kind, typeIs, data, payloadIs, valid, fresh, rfl⟩
    refine ⟨⟨number, sequenceNumber, label, rank, units, ⟨kind, data⟩⟩, time, timeIs, idIs,
      sequenceIs, priorityIs, estimateIs, nameIs, typeIs, payloadIs, ?_, fresh, rfl⟩
    simpa [Accepted, not_or] using valid
  · rintro ⟨record, time, timeIs, idIs, sequenceIs, priorityIs, estimateIs, nameIs, typeIs,
      payloadIs, accepted, fresh, rfl⟩
    refine ⟨time, timeIs, _, idIs, _, sequenceIs, _, priorityIs, _, estimateIs, _, nameIs, _,
      typeIs, _, payloadIs, ?_, fresh, rfl⟩
    simpa [Accepted, not_or] using accepted

theorem replayTransition_ok_iff {recovered next : Recovered}
    {timestamp id state work message : Bytes} :
    replayTransition recovered timestamp id state work message = .ok next ↔
      ∃ (record : JobTransitionRecord) (time : Int64), fromCharsInt64 timestamp = some time ∧
        fromCharsUInt64 id = some record.id ∧ parseState state = .ok record.state ∧
        fromCharsUInt64 work = some record.workUnitsConsumed ∧
        hexDecode message = .ok record.message ∧ Performs recovered (.transition record) ∧
        next = replayRecord recovered (.transition record) := by
  simp only [replayTransition, bind_ok_iff, parseInteger_ok_iff, guard_ok_iff, pure, Except.pure,
    Except.ok.injEq, performs_transition_iff]
  constructor
  · rintro ⟨time, timeIs, number, idIs, present, reached, stateIs, units, workIs, said, messageIs,
      rfl⟩
    exact ⟨⟨number, reached, units, said⟩, time, timeIs, idIs, stateIs, workIs, messageIs, present,
      rfl⟩
  · rintro ⟨record, time, timeIs, idIs, stateIs, workIs, messageIs, present, rfl⟩
    exact ⟨time, timeIs, _, idIs, present, _, stateIs, _, workIs, _, messageIs, rfl⟩

/-- The body of the line loop succeeds exactly on a line that reads as a record
which the replay map admits, and performs it. -/
theorem replayLine_ok_iff {recovered next : Recovered} {line : Bytes} :
    replayLine recovered line = .ok next ↔
      ∃ record, ReadsAs line record ∧ Performs recovered record ∧
        next = replayRecord recovered record := by
  have different : text "T" ≠ text "S" := by decide
  simp only [replayLine, bind_ok_iff]
  constructor
  · rintro ⟨⟨⟩, valid, rest⟩
    have summed := (validateChecksum_iff line).mp valid
    split at rest
    · next version kind fields cut =>
        rw [guard_ok_iff] at rest
        obtain ⟨current, rest⟩ := rest
        rw [not_not] at current
        subst current
        split at rest
        · next submission =>
            subst submission
            split at rest
            · obtain ⟨record, time, timeIs, idIs, sequenceIs, priorityIs, estimateIs, nameIs,
                typeIs, payloadIs, accepted, performs, result⟩ := replaySubmission_ok_iff.mp rest
              exact ⟨.submission record, .submission summed cut timeIs idIs sequenceIs priorityIs
                estimateIs nameIs typeIs payloadIs accepted, performs, result⟩
            · cases rest
        · split at rest
          · next transition =>
              subst transition
              split at rest
              · obtain ⟨record, time, timeIs, idIs, stateIs, workIs, messageIs, performs,
                  result⟩ := replayTransition_ok_iff.mp rest
                exact ⟨.transition record, .transition summed cut timeIs idIs stateIs workIs
                  messageIs, performs, result⟩
              · cases rest
          · cases rest
    · cases rest
  · rintro ⟨record, reads, performs, rfl⟩
    cases reads with
    | submission summed fields timeIs idIs sequenceIs priorityIs estimateIs nameIs typeIs payloadIs
        accepted =>
        refine ⟨(), (validateChecksum_iff line).mpr summed, ?_⟩
        simp only [fields, ne_eq, not_true_eq_false, ↓reduceIte]
        exact replaySubmission_ok_iff.mpr ⟨_, _, timeIs, idIs, sequenceIs, priorityIs, estimateIs,
          nameIs, typeIs, payloadIs, accepted, performs, rfl⟩
    | transition summed fields timeIs idIs stateIs workIs messageIs =>
        refine ⟨(), (validateChecksum_iff line).mpr summed, ?_⟩
        simp only [fields, ne_eq, not_true_eq_false, different, ↓reduceIte]
        exact replayTransition_ok_iff.mpr ⟨_, _, timeIs, idIs, stateIs, workIs, messageIs,
          performs, rfl⟩

end Kronos.Wal
