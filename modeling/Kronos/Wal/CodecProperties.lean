import Kronos.Common.Separated
import Kronos.JournalProperties
import Kronos.Wal.Recover

/-!
# A written line reads back

No field of a record contains a separator or a newline, so a line splits into
exactly the fields it was printed from, its checksum is found and verified, and
the loop body of recovery performs the record.
-/

set_option autoImplicit false

namespace Kronos.Wal

/-- Bytes that neither separate fields nor end lines. -/
def Plain (field : Bytes) : Prop := pipe ∉ field ∧ newline ∉ field

private theorem plain_of_bytes {field : Bytes} {Allowed : UInt8 → Prop}
    (allowed : ∀ byte ∈ field, Allowed byte)
    (noPipe : ¬ Allowed pipe) (noNewline : ¬ Allowed newline) : Plain field :=
  ⟨fun member => noPipe (allowed _ member), fun member => noNewline (allowed _ member)⟩

theorem plain_hexEncode (value : Bytes) : Plain (hexEncode value) :=
  plain_of_bytes (fun _ member => mem_hexEncode member) (by decide) (by decide)

theorem plain_uint64Text (number : UInt64) : Plain (uint64Text number) :=
  plain_of_bytes (fun _ member => numberByte_of_mem_uint64Text member)
    (by simp [NumberByte]; decide) (by simp [NumberByte]; decide)

theorem plain_int32Text (number : Int32) : Plain (int32Text number) :=
  plain_of_bytes (fun _ member => numberByte_of_mem_int32Text member)
    (by simp [NumberByte]; decide) (by simp [NumberByte]; decide)

theorem plain_int64Text (number : Int64) : Plain (int64Text number) :=
  plain_of_bytes (fun _ member => numberByte_of_mem_int64Text member)
    (by simp [NumberByte]; decide) (by simp [NumberByte]; decide)

theorem plain_toText (state : JobState) : Plain state.toText := by
  cases state <;> (constructor <;> decide)

theorem checksumText_digits (value : Bytes) :
    ∀ digit ∈ checksumText value, digit ∈ text "0123456789ABCDEF" := by
  intro digit member
  obtain ⟨shift, _, rfl⟩ := List.mem_map.mp member
  apply hexDigit_mem
  rw [UInt8.lt_iff_toNat_lt, UInt32.toNat_toUInt8, UInt32.toNat_and]
  exact Nat.lt_of_le_of_lt (Nat.mod_le _ _) (Nat.lt_of_le_of_lt Nat.and_le_right (by decide))

theorem plain_checksumText (value : Bytes) : Plain (checksumText value) :=
  plain_of_bytes (checksumText_digits value) (by decide) (by decide)

theorem length_checksumText (value : Bytes) : (checksumText value).length = 8 := rfl

theorem plain_recordFields (timestamp : Int64) (record : JournalRecord) :
    ∀ field ∈ recordFields timestamp record, Plain field := by
  have version : Plain (text "K1") := by constructor <;> decide
  have submission : Plain (text "S") := by constructor <;> decide
  have transition : Plain (text "T") := by constructor <;> decide
  cases record with
  | submission record =>
      simp only [recordFields, List.forall_mem_cons, List.not_mem_nil, false_implies,
        implies_true, and_true]
      exact ⟨version, submission, plain_int64Text _, plain_uint64Text _, plain_uint64Text _,
        plain_int32Text _, plain_uint64Text _, plain_hexEncode _, plain_hexEncode _,
        plain_hexEncode _⟩
  | transition record =>
      simp only [recordFields, List.forall_mem_cons, List.not_mem_nil, false_implies,
        implies_true, and_true]
      exact ⟨version, transition, plain_int64Text _, plain_uint64Text _, plain_toText _,
        plain_uint64Text _, plain_hexEncode _⟩

theorem recordFields_ne_nil (timestamp : Int64) (record : JournalRecord) :
    recordFields timestamp record ≠ [] := by
  cases record <;> simp [recordFields]

/-- A line without its newline. -/
def body (timestamp : Int64) (record : JournalRecord) : Bytes :=
  let fields := [pipe].intercalate (recordFields timestamp record)
  fields ++ [pipe] ++ checksumText fields

theorem encodeRecord_eq (timestamp : Int64) (record : JournalRecord) :
    encodeRecord timestamp record = body timestamp record ++ [newline] := rfl

theorem body_ne_nil (timestamp : Int64) (record : JournalRecord) :
    body timestamp record ≠ [] := by
  simp [body]

theorem newline_not_mem_body (timestamp : Int64) (record : JournalRecord) :
    newline ∉ body timestamp record := by
  have other : newline ≠ pipe := by decide
  have fieldsClean := Separated.not_mem_intercalate other
    fun field member => (plain_recordFields timestamp record field member).2
  simp only [body, List.mem_append, List.mem_singleton, not_or]
  exact ⟨⟨fieldsClean, by decide⟩, (plain_checksumText _).2⟩

theorem split_body (timestamp : Int64) (record : JournalRecord) :
    split (body timestamp record) =
      recordFields timestamp record ++
        [checksumText ([pipe].intercalate (recordFields timestamp record))] := by
  have fieldsClean := fun field member => (plain_recordFields timestamp record field member).1
  simp only [split, body, List.append_assoc, List.singleton_append,
    List.splitOn_append_cons_self]
  rw [List.splitOn_intercalate pipe fieldsClean (recordFields_ne_nil timestamp record),
    List.splitOn_eq_singleton (plain_checksumText _).1]

theorem beforeLastPipe_body (timestamp : Int64) (record : JournalRecord) :
    beforeLastPipe (body timestamp record) =
      some ([pipe].intercalate (recordFields timestamp record)) := by
  have passes : ∀ byte ∈ checksumText ([pipe].intercalate (recordFields timestamp record)),
      decide (byte ≠ pipe) = true := by
    intro byte member
    exact decide_eq_true fun same => (plain_checksumText _).1 (same ▸ member)
  have present : pipe ∈ body timestamp record := by simp [body]
  rw [beforeLastPipe, if_pos present, body, List.append_assoc, List.singleton_append,
    Separated.rdropWhile_append_cons passes (by simp)]
  simp

theorem validateChecksum_body (timestamp : Int64) (record : JournalRecord) :
    validateChecksum (body timestamp record) (split (body timestamp record)) = .ok () := by
  simp [validateChecksum, split_body, beforeLastPipe_body]

@[simp] theorem parseState_toText (state : JobState) : parseState state.toText = .ok state := by
  cases state <;> rfl

@[simp] theorem hexDecode_hexEncode (value : Bytes) : hexDecode (hexEncode value) = .ok value := by
  simp [hexDecode, length_hexEncode, hexPairs_hexEncode]

theorem find_isSome_iff (recovered : Recovered) (id : JobId) :
    (recovered.find id).isSome ↔ ∃ job ∈ recovered, job.submission.id = id := by
  simp [Recovered.find, List.find?_isSome]

/-- The record can be performed on the replay map: a submission is new, a
transition is of a job in the map. -/
def Performs (recovered : Recovered) : JournalRecord → Prop
  | .submission record => ∀ job ∈ recovered, job.submission.id ≠ record.id
  | .transition record => ∃ job ∈ recovered, job.submission.id = record.id

private theorem replaySubmission_printed {recovered : Recovered} {record : JobSubmissionRecord}
    (timestamp : Int64) (accepted : Accepted (.submission record)) :
    replaySubmission recovered (int64Text timestamp) (uint64Text record.id)
      (uint64Text record.submissionSequence) (int32Text record.priority)
      (uint64Text record.estimatedWorkUnits) (hexEncode record.name)
      (hexEncode record.task.type) (hexEncode record.task.payload) =
        replayStep recovered (.submission record) := by
  obtain ⟨idNonzero, estimateNonzero, typeNonempty⟩ := accepted
  cases taken : (recovered.find record.id).isSome <;>
    simp [replaySubmission, replayStep, replayRecord, parseInteger, bind, Except.bind, pure,
      Except.pure, throw, throwThe, MonadExceptOf.throw, idNonzero, estimateNonzero, typeNonempty,
      taken]

private theorem replayTransition_printed {recovered : Recovered} {record : JobTransitionRecord}
    (timestamp : Int64) :
    replayTransition recovered (int64Text timestamp) (uint64Text record.id)
      record.state.toText (uint64Text record.workUnitsConsumed) (hexEncode record.message) =
        replayStep recovered (.transition record) := by
  cases missing : (recovered.find record.id).isNone <;>
    simp [replayTransition, replayStep, replayRecord, parseInteger, bind, Except.bind, pure,
      Except.pure, throw, throwThe, MonadExceptOf.throw, missing]

/-- The loop body applies an accepted record to the map, or refuses it. -/
theorem replayLine_body {recovered : Recovered} {record : JournalRecord} (timestamp : Int64)
    (accepted : Accepted record) :
    replayLine recovered (body timestamp record) = replayStep recovered record := by
  have different : text "T" ≠ text "S" := by decide
  simp only [replayLine, validateChecksum_body]
  rw [split_body]
  cases record with
  | submission record =>
      simp only [recordFields, List.cons_append, List.nil_append, bind, Except.bind, ne_eq,
        not_true_eq_false, ↓reduceIte]
      exact replaySubmission_printed timestamp accepted
  | transition record =>
      simp only [recordFields, List.cons_append, List.nil_append, bind, Except.bind, ne_eq,
        not_true_eq_false, different, ↓reduceIte]
      exact replayTransition_printed timestamp

theorem replayStep_of_performs {recovered : Recovered} {record : JournalRecord}
    (performs : Performs recovered record) :
    replayStep recovered record = .ok (replayRecord recovered record) := by
  cases record with
  | submission record =>
      refine if_neg ?_
      rw [find_isSome_iff]
      rintro ⟨job, member, same⟩
      exact performs job member same
  | transition record =>
      refine if_neg ?_
      rw [← Option.not_isSome, (find_isSome_iff _ _).mpr performs]
      decide

end Kronos.Wal
