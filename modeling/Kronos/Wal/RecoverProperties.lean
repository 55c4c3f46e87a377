import Kronos.Wal.CodecProperties

/-!
# Recovery of a written log

Recovery of a log cut at any byte performs the whole records before the cut,
reports whether a torn record was dropped, and leaves the file at the last
record boundary.
-/

set_option autoImplicit false

namespace Kronos.Wal

def Stamped.body (stamped : Stamped) : Bytes := Wal.body stamped.timestamp stamped.record

/-- The records of a log without their time stamps. -/
def records (log : List Stamped) : List JournalRecord := log.map Stamped.record

@[simp] theorem records_append (left right : List Stamped) :
    records (left ++ right) = records left ++ records right := by
  simp [records]

theorem encodeAll_eq_terminated (log : List Stamped) :
    encodeAll log = Separated.terminated newline (log.map Stamped.body) := by
  simp only [encodeAll, Separated.terminated, List.flatMap_map]
  rfl

@[simp] theorem encodeAll_append (left right : List Stamped) :
    encodeAll (left ++ right) = encodeAll left ++ encodeAll right := by
  simp [encodeAll]

theorem bodies_clean (log : List Stamped) : ∀ line ∈ log.map Stamped.body, newline ∉ line := by
  intro line member
  obtain ⟨stamped, _, rfl⟩ := List.mem_map.mp member
  exact newline_not_mem_body stamped.timestamp stamped.record

/-- The ids of the replay map are the ids of the submissions performed so far. -/
private theorem performs_of_replayableFrom {known : List JobId} {recovered : Recovered}
    {record : JournalRecord} {rest : List JournalRecord}
    (ids : ∀ id, id ∈ known ↔ ∃ job ∈ recovered, job.submission.id = id)
    (valid : ReplayableFrom known (record :: rest)) : Performs recovered record := by
  cases record with
  | submission record =>
      intro job member same
      exact valid.1 ((ids record.id).mpr ⟨job, member, same⟩)
  | transition record => exact (ids record.id).mp valid.1

theorem ids_replayRecord {known : List JobId} {recovered : Recovered}
    {record : JournalRecord}
    (ids : ∀ id, id ∈ known ↔ ∃ job ∈ recovered, job.submission.id = id) :
    ∀ id, id ∈ submittedIds [record] ++ known ↔
      ∃ job ∈ replayRecord recovered record, job.submission.id = id := by
  intro id
  cases record with
  | submission record =>
      simp only [submittedIds_submission, submittedIds_nil, List.singleton_append,
        List.mem_cons, ids, replayRecord, List.mem_append, List.not_mem_nil, or_false]
      constructor
      · rintro (rfl | ⟨job, member, same⟩)
        · exact ⟨_, .inr rfl, rfl⟩
        · exact ⟨job, .inl member, same⟩
      · rintro ⟨job, member | rfl, same⟩
        · exact .inr ⟨job, member, same⟩
        · exact .inl same.symm
  | transition record =>
      have kept : ∀ job : RecoveredJob, (if job.submission.id = record.id then
          job.apply record else job).submission = job.submission := by
        intro job
        split <;> rfl
      simp only [submittedIds_transition, submittedIds_nil, List.nil_append, ids, replayRecord,
        Recovered.overwrite, List.mem_map, exists_exists_and_eq_and, kept]

/-- The line loop performs the bodies of an accepted, replayable log in order
and goes on with the lines behind them. -/
theorem replayLines_bodies_append {log : List Stamped} {known : List JobId}
    {recovered : Recovered} (lineNumber : Nat) (later : List Bytes)
    (ids : ∀ id, id ∈ known ↔ ∃ job ∈ recovered, job.submission.id = id)
    (accepted : ∀ stamped ∈ log, Accepted stamped.record)
    (valid : ReplayableFrom known (records log)) :
    replayLines recovered lineNumber (log.map Stamped.body ++ later) =
      replayLines ((records log).foldl replayRecord recovered) (lineNumber + log.length)
        later := by
  induction log generalizing known recovered lineNumber with
  | nil => rfl
  | cons stamped log ih =>
      have performed := (replayLine_body stamped.timestamp (accepted stamped (by simp))).trans
        (replayStep_of_performs (performs_of_replayableFrom ids valid))
      have rest : ReplayableFrom (submittedIds [stamped.record] ++ known) (records log) := by
        have cut : records (stamped :: log) = [stamped.record] ++ records log := rfl
        rw [cut, replayableFrom_append] at valid
        exact valid.2
      have nonempty : stamped.body ≠ [] := body_ne_nil _ _
      simp only [List.map_cons, List.cons_append, replayLines, if_neg nonempty]
      change replayLine recovered stamped.body = _ at performed
      rw [performed, List.length_cons, Nat.add_comm log.length, ← Nat.add_assoc]
      exact ih (lineNumber + 1) (ids_replayRecord ids)
        (fun stamped member => accepted stamped (by simp [member])) rest

theorem replayLines_bodies {log : List Stamped}
    (accepted : ∀ stamped ∈ log, Accepted stamped.record) (valid : Replayable (records log)) :
    replayLines [] 0 (log.map Stamped.body) = .ok (replay (records log)) := by
  have looped := @replayLines_bodies_append log [] [] 0 [] (by simp) accepted valid
  rwa [List.append_nil] at looped

theorem pairwise_sortBySequence (jobs : List RecoveredJob) :
    (sortBySequence jobs).Pairwise fun left right =>
      left.submission.submissionSequence ≤ right.submission.submissionSequence := by
  let order : RecoveredJob → RecoveredJob → Prop := fun left right =>
    left.submission.submissionSequence ≤ right.submission.submissionSequence
  have total : Std.Total order := ⟨fun left right => UInt64.le_total _ _⟩
  have transitive : IsTrans RecoveredJob order := ⟨fun _ _ _ => UInt64.le_trans⟩
  exact List.pairwise_insertionSort order jobs

/-- What recovery makes of the complete lines of a file. -/
def replayReport (lines : List Bytes) (ignoredIncompleteTail : Bool) :
    Except String RecoveryReport :=
  match replayLines [] 0 lines with
  | .ok recovered => .ok ⟨sortBySequence recovered, ignoredIncompleteTail⟩
  | .error error => .error error

private theorem replayContents_terminated {lines : List Bytes} (flag : Bool)
    (clean : ∀ line ∈ lines, newline ∉ line) :
    replayContents (Separated.terminated newline lines) flag = replayReport lines flag := by
  rw [replayContents, terminatedLines, Separated.splitOn_terminated clean,
    List.dropLast_concat]
  rfl

/-- The tail is repaired when something follows the last newline. -/
theorem incomplete_iff (lines : List Bytes) {tail : Bytes} (torn : newline ∉ tail) :
    (Separated.terminated newline lines ++ tail ≠ [] ∧
      (Separated.terminated newline lines ++ tail).getLast? ≠ some newline) ↔ tail ≠ [] := by
  constructor
  · rintro ⟨nonempty, unterminated⟩ rfl
    rw [List.append_nil] at nonempty unterminated
    apply unterminated
    apply Separated.terminated_getLast
    rintro rfl
    exact nonempty rfl
  · intro some
    refine ⟨by simp [some], ?_⟩
    rw [List.getLast?_append_of_ne_nil _ some]
    intro last
    exact torn (List.mem_of_getLast? last)

/-- Recovery of any file, cut into its complete lines and an unterminated
rest: the rest is dropped and the lines are replayed. -/
theorem recover_terminated_append {lines : List Bytes} {tail : Bytes}
    (clean : ∀ line ∈ lines, newline ∉ line) (torn : newline ∉ tail) :
    recover (Separated.terminated newline lines ++ tail) =
      (replayReport lines (decide (tail ≠ [])), Separated.terminated newline lines) := by
  have repaired : terminatedPart (Separated.terminated newline lines ++ tail) =
      Separated.terminated newline lines :=
    Separated.rdropWhile_terminated_append torn
  rw [recover, recoverWith]
  by_cases whole : tail = []
  · rw [if_neg ((incomplete_iff lines torn).not.mpr (not_not.mpr whole)), whole, List.append_nil,
      replayContents_terminated _ clean]
    simp
  · rw [if_pos ((incomplete_iff lines torn).mpr whole), repaired, replayContents_terminated _ clean]
    simp [whole]

/-- A whole log followed by a torn line is repaired to the log and replayed. -/
theorem recover_encodeAll_append {log : List Stamped} {tail : Bytes}
    (accepted : ∀ stamped ∈ log, Accepted stamped.record) (valid : Replayable (records log))
    (torn : newline ∉ tail) :
    recover (encodeAll log ++ tail) =
      (.ok ⟨sortBySequence (replay (records log)), decide (tail ≠ [])⟩, encodeAll log) := by
  rw [encodeAll_eq_terminated, recover_terminated_append (bodies_clean log) torn,
    replayReport, replayLines_bodies accepted valid]

/-- The whole records contained in a cut log are the longest ones that fit. -/
structure LongestWhole (log : List Stamped) (contents : Bytes) (kept : List Stamped) : Prop where
  isPrefix : kept <+: log
  contained : encodeAll kept <+: contents
  longest : ∀ other, other <+: log → encodeAll other <+: contents → other <+: kept

private theorem encodeAll_prefix_of_torn {kept more : List Stamped} {tail : Bytes}
    (torn : newline ∉ tail) (contained : encodeAll (kept ++ more) <+: encodeAll kept ++ tail) :
    more = [] := by
  rw [encodeAll_append, List.prefix_append_right_inj] at contained
  cases more with
  | nil => rfl
  | cons stamped more =>
      refine absurd (contained.subset ?_) torn
      simp [encodeAll, Stamped.line, encodeRecord_eq]

/-- Every prefix of a log's bytes is its longest whole records and a torn line. -/
theorem prefix_encodeAll {log : List Stamped} {contents : Bytes}
    (isPrefix : contents <+: encodeAll log) :
    ∃ kept tail, LongestWhole log contents kept ∧ newline ∉ tail ∧
      contents = encodeAll kept ++ tail := by
  rw [encodeAll_eq_terminated] at isPrefix
  obtain ⟨whole, later, tail, split, torn, rfl⟩ :=
    Separated.prefix_terminated isPrefix (bodies_clean log)
  obtain ⟨kept, rest, rfl, rfl, rfl⟩ := List.map_eq_append_iff.mp split
  rw [← encodeAll_eq_terminated]
  refine ⟨kept, tail, ⟨List.prefix_append _ _, List.prefix_append _ _, ?_⟩, torn, rfl⟩
  intro other otherPrefix contained
  rcases List.prefix_or_prefix_of_prefix otherPrefix (List.prefix_append kept rest)
    with shorter | ⟨more, rfl⟩
  · exact shorter
  · rw [encodeAll_prefix_of_torn torn contained, List.append_nil]

/-! ## What recovery leaves in the file -/

theorem terminatedPart_append_tail (contents : Bytes) :
    ∃ tail, contents = terminatedPart contents ++ tail ∧ newline ∉ tail ∧
      (terminatedPart contents = [] ∨ (terminatedPart contents).getLast? = some newline) := by
  obtain ⟨lines, tail, _, torn, rfl⟩ := Separated.exists_terminated newline contents
  have part : terminatedPart (Separated.terminated newline lines ++ tail) =
      Separated.terminated newline lines :=
    Separated.rdropWhile_terminated_append torn
  rw [part]
  refine ⟨tail, rfl, torn, ?_⟩
  by_cases empty : lines = []
  · left
    rw [empty, Separated.terminated_nil]
  · right
    exact Separated.terminated_getLast empty

theorem terminatedPart_eq_self {contents : Bytes}
    (whole : contents = [] ∨ contents.getLast? = some newline) :
    terminatedPart contents = contents := by
  refine (List.rdropWhile_eq_self_iff).mpr fun nonempty => ?_
  have last := whole.resolve_left nonempty
  rw [List.getLast?_eq_some_getLast nonempty, Option.some.injEq] at last
  simp [last]

/-- A complete file is left alone; another one is so only if it cannot be truncated. -/
theorem recoverWith_contents (answers : RepairAnswers) (contents : Bytes) :
    (recoverWith answers contents).2 = terminatedPart contents ∨
      ((recoverWith answers contents).2 = contents ∧
        (recoverWith answers contents).1 = .error "failed to repair incomplete WAL tail") := by
  unfold recoverWith
  split
  · split
    · exact .inr ⟨rfl, rfl⟩
    · split
      · exact .inl rfl
      · exact .inl rfl
  · next complete =>
      refine .inl (terminatedPart_eq_self ?_).symm
      rw [not_and_or, not_not, not_not] at complete
      exact complete

/-- Recovery removes nothing but a final unterminated line, and it does so before
it looks at the others: the line is gone also when one of these is invalid. -/
theorem recover_removes_only_tail (contents : Bytes) :
    (∃ tail, contents = terminatedPart contents ++ tail ∧ newline ∉ tail ∧
      (terminatedPart contents = [] ∨ (terminatedPart contents).getLast? = some newline)) ∧
    (∀ answers, (recoverWith answers contents).2 = contents ∨
      (recoverWith answers contents).2 = terminatedPart contents) ∧
    (∀ answers report, (recoverWith answers contents).1 = .ok report →
      (recoverWith answers contents).2 = terminatedPart contents) ∧
    ∀ error, (recover contents).1 = .error error →
      (recover (terminatedPart contents)).1 = .error error ∧
      (recover contents).2 = terminatedPart contents ∧
      ((recover contents).2 = contents ↔ contents = [] ∨ contents.getLast? = some newline) := by
  refine ⟨terminatedPart_append_tail contents, fun answers => ?_, fun answers report returned => ?_,
    fun error threw => ?_⟩
  · exact (recoverWith_contents answers contents).symm.imp_left And.left
  · rcases recoverWith_contents answers contents with shortened | ⟨_, threw⟩
    · exact shortened
    · rw [threw] at returned
      cases returned
  · obtain ⟨lines, tail, clean, torn, rfl⟩ := Separated.exists_terminated newline contents
    have part : terminatedPart (Separated.terminated newline lines ++ tail) =
        Separated.terminated newline lines :=
      Separated.rdropWhile_terminated_append torn
    have complete := recover_terminated_append clean (List.not_mem_nil (a := newline))
    rw [List.append_nil] at complete
    rw [part, complete]
    rw [recover_terminated_append clean torn] at threw ⊢
    refine ⟨?_, rfl, ?_⟩
    · -- the verdict on the complete lines does not depend on the tail
      unfold replayReport at threw ⊢
      cases replayed : replayLines [] 0 lines with
      | ok recovered =>
          rw [replayed] at threw
          cases threw
      | error what =>
          rw [replayed] at threw
          exact threw
    · have noTail := (incomplete_iff lines torn).not
      rw [not_and_or, not_not, not_not, not_not] at noTail
      rw [noTail]
      exact ⟨List.self_eq_append_right.mp, fun none => by rw [none, List.append_nil]⟩

/-- An invalid line in front of an unterminated one. -/
theorem invalid_contents_shortened :
    (recover (text "bad\nK1|S")).2 = text "bad\n" ∧
      text "bad\n" ≠ text "bad\nK1|S" ∧ ∃ error, (recover (text "bad\nK1|S")).1 = .error error := by
  refine ⟨by decide +kernel, by decide +kernel, ?_⟩
  cases threw : (recover (text "bad\nK1|S")).1 with
  | error error => exact ⟨error, rfl⟩
  | ok report =>
      have failed : (recover (text "bad\nK1|S")).1.toBool = false := by decide +kernel
      rw [threw] at failed
      cases failed

end Kronos.Wal
