import Kronos.Wal.AppendProperties

/-!
# Lines with something in front of a record

A complete line that ends in a written record but starts with other bytes is
rejected whatever those bytes are, also when the checksum happens to match: the
version of the record ends up inside another field, and no field count is left
for which that field would be accepted.
-/

set_option autoImplicit false

namespace Kronos.Wal

private theorem body_split_version (timestamp : Int64) (record : JournalRecord) :
    ∃ rest : Bytes, body timestamp record = text "K1" ++ pipe :: rest ∧
      ((split rest).length = 10 ∨ (split rest).length = 7) := by
  obtain ⟨rest, shape⟩ : ∃ rest, body timestamp record = text "K1" ++ pipe :: rest := by
    cases record <;>
      simp only [body, recordFields, List.intercalate_cons_cons, List.append_assoc,
        List.singleton_append] <;>
      exact ⟨_, rfl⟩
  have version : pipe ∉ text "K1" := by decide
  have fields := split_body timestamp record
  rw [shape, split, List.splitOn_append_cons_self_of_not_mem version] at fields
  have count := congrArg List.length fields
  refine ⟨rest, shape, ?_⟩
  rw [split]
  cases record <;> simp only [recordFields, List.length_cons, List.length_append,
    List.length_nil] at count
  · left; omega
  · right; omega

private theorem fromCharsUInt64_version (field : Bytes) :
    fromCharsUInt64 (field ++ text "K1") = none := by
  have rejected : ¬ (field ++ text "K1" ≠ [] ∧ (field ++ text "K1").all Decimal.isDigit) := by
    have literal : (text "K1").all Decimal.isDigit = false := by decide
    simp [List.all_append, literal]
  rw [fromCharsUInt64, Decimal.toNat?, if_neg rejected]

private theorem append_version_ne {field literal : Bytes}
    (shorter : literal.length < field.length + 2) : field ++ text "K1" ≠ literal := by
  rintro rfl
  have two : (text "K1").length = 2 := by decide
  rw [List.length_append, two] at shorter
  exact lt_irrefl _ shorter

private theorem replaySubmission_rejects (recovered : Recovered)
    (timestamp sequence priority estimate name type payload : Bytes) {id : Bytes}
    (malformed : fromCharsUInt64 id = none) :
    ∃ error, replaySubmission recovered timestamp id sequence priority estimate name type
      payload = .error error := by
  simp only [replaySubmission, parseInteger, malformed, bind, Except.bind]
  cases fromCharsInt64 timestamp <;> exact ⟨_, rfl⟩

/-- A line with anything in front of a written record is an invalid record. -/
theorem replayLine_glued (recovered : Recovered) {glue : Bytes} (nonempty : glue ≠ [])
    (timestamp : Int64) (record : JournalRecord) :
    ∃ error, replayLine recovered (glue ++ body timestamp record) = .error error := by
  obtain ⟨rest, shape, count⟩ := body_split_version timestamp record
  have version : pipe ∉ text "K1" := by decide
  obtain ⟨fields, last, whole, cut⟩ := Separated.splitOn_glued glue rest version
  rw [← split, ← split] at cut
  simp only [replayLine, shape, cut]
  cases validateChecksum (glue ++ (text "K1" ++ pipe :: rest))
      (fields ++ (last ++ text "K1") :: split rest) with
  | error error => exact ⟨error, rfl⟩
  | ok checked =>
      rcases fields with _ | ⟨version, _ | ⟨kind, more⟩⟩
      · -- the version itself is prolonged
        have positive : 0 < last.length := by
          rw [List.length_pos_iff]
          rintro rfl
          exact nonempty whole
        have prolonged : last ++ text "K1" ≠ text "K1" :=
          append_version_ne (show 2 < last.length + 2 by omega)
        obtain ⟨next, others, split⟩ : ∃ next others, split rest = next :: others := by
          refine List.exists_cons_of_length_pos ?_
          omega
        refine ⟨"unsupported WAL record version", ?_⟩
        simp [split, prolonged, bind, Except.bind, throw, throwThe, MonadExceptOf.throw]
      · -- the record type is prolonged
        have notS : last ++ text "K1" ≠ text "S" :=
          append_version_ne (show 1 < last.length + 2 by omega)
        have notT : last ++ text "K1" ≠ text "T" :=
          append_version_ne (show 1 < last.length + 2 by omega)
        simp only [List.cons_append, List.nil_append, bind, Except.bind, notS, notT,
          ↓reduceIte]
        split
        · exact ⟨_, rfl⟩
        · exact ⟨_, rfl⟩
      · simp only [List.cons_append, bind, Except.bind]
        split
        · exact ⟨_, rfl⟩
        · split
          · split
            · next timestampField id sequence priority estimate name type payload checksum fits =>
                -- eleven fields are only left when the version stands where the job id belongs
                have malformed : fromCharsUInt64 id = none := by
                  rcases more with _ | ⟨next, _ | ⟨other, more⟩⟩
                  · have lengths := congrArg List.length fits
                    simp at lengths
                    omega
                  · simp only [List.cons_append, List.nil_append, List.cons.injEq] at fits
                    rw [← fits.2.1]
                    exact fromCharsUInt64_version last
                  · have lengths := congrArg List.length fits
                    simp at lengths
                    omega
                exact replaySubmission_rejects recovered timestampField sequence priority
                  estimate name type payload malformed
            · exact ⟨_, rfl⟩
          · split
            · split
              · next fits =>
                  have lengths := congrArg List.length fits
                  simp at lengths
                  omega
              · exact ⟨_, rfl⟩
            · exact ⟨_, rfl⟩

end Kronos.Wal
