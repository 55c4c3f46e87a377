import Kronos.Wal.GluedLines

/-!
# Durability of the log

Two results about whole logs. A log cut at any byte recovers to its whole
records. A log written through failing system calls stays usable exactly as
long as nothing is written behind a torn line.
-/

set_option autoImplicit false

namespace Kronos.Wal

/-! ## Recovery of a cut log -/

/-- The report holds the folded records, in ascending submission sequence. -/
structure Reports (log : List Stamped) (report : RecoveryReport) : Prop where
  jobs : report.jobs.Perm (replay (records log))
  ascending : report.jobs.Pairwise fun left right =>
    left.submission.submissionSequence < right.submission.submissionSequence

theorem reports_sortBySequence {log : List Stamped} (flag : Bool)
    (sequences : DistinctSequences (records log)) :
    Reports log ⟨sortBySequence (replay (records log)), flag⟩ := by
  have permuted : (sortBySequence (replay (records log))).Perm (replay (records log)) :=
    List.perm_insertionSort _ _
  have distinct : (sortBySequence (replay (records log))).Pairwise fun left right =>
      left.submission.submissionSequence ≠ right.submission.submissionSequence := by
    rw [DistinctSequences, ← replay_submissions, List.map_map, List.nodup_iff_pairwise_ne,
      List.pairwise_map] at sequences
    exact permuted.symm.pairwise sequences fun different => different.symm
  refine ⟨permuted, ?_⟩
  refine ((pairwise_sortBySequence _).and distinct).imp ?_
  rintro left right ⟨below, different⟩
  exact UInt64.lt_of_le_of_ne below different

/-- A log of accepted records that append and recovery agree on. -/
structure ValidLog (log : List Stamped) : Prop where
  accepted : ∀ stamped ∈ log, Accepted stamped.record
  replayable : Replayable (records log)
  sequences : DistinctSequences (records log)

theorem ValidLog.of_prefix {shorter log : List Stamped} (valid : ValidLog log)
    (isPrefix : shorter <+: log) : ValidLog shorter := by
  obtain ⟨rest, rfl⟩ := isPrefix
  have sequences := valid.sequences
  have replayable := valid.replayable
  rw [records_append] at replayable sequences
  rw [DistinctSequences, submissions_append, List.map_append] at sequences
  exact ⟨fun stamped member => valid.accepted stamped (by simp [member]),
    (replayable_append.mp replayable).1, sequences.of_append_left⟩

theorem recover_validLog_append {log : List Stamped} {tail : Bytes} (valid : ValidLog log)
    (torn : newline ∉ tail) :
    ∃ report, recover (encodeAll log ++ tail) = (.ok report, encodeAll log) ∧
      Reports log report ∧ report.ignoredIncompleteTail = decide (tail ≠ []) :=
  ⟨_, recover_encodeAll_append valid.accepted valid.replayable torn,
    reports_sortBySequence _ valid.sequences, rfl⟩

/-- The calls that append a log without failing. -/
def appendCalls (log : List Stamped) : List AppendCall :=
  log.map fun stamped => ⟨stamped.timestamp, stamped.record, {}⟩

theorem performAll_appendCalls {log : List Stamped} (file : Bytes)
    (accepted : ∀ stamped ∈ log, Accepted stamped.record) :
    performAll (appendCalls log) file = file ++ encodeAll log := by
  rw [performAll_eq, appendCalls, encodeAll, List.flatMap_map]
  congr 1
  refine List.flatMap_congr fun stamped member => ?_
  have whole : AppendCall.Whole ⟨stamped.timestamp, stamped.record, {}⟩ :=
    ⟨accepted stamped member, rfl⟩
  exact whole.piece_eq

/-- Recovery of any byte prefix of a written log reports the fold of the longest
list of whole records in it, drops what follows them, and can be continued: any
further records appended to the repaired file are reported with the kept ones. -/
theorem recover_cut_log (log : List Stamped) (valid : ValidLog log) (contents : Bytes)
    (cut : contents <+: encodeAll log) :
    ∃ kept report, LongestWhole log contents kept ∧
      recover contents = (.ok report, encodeAll kept) ∧ Reports kept report ∧
      (report.ignoredIncompleteTail = true ↔
        ¬ ∃ whole, whole <+: log ∧ contents = encodeAll whole) ∧
      ∀ more, ValidLog (kept ++ more) →
        ∃ second, recover (performAll (appendCalls more) (encodeAll kept)) =
            (.ok second, encodeAll (kept ++ more)) ∧
          Reports (kept ++ more) second ∧ second.ignoredIncompleteTail = false := by
  obtain ⟨kept, tail, longest, torn, rfl⟩ := prefix_encodeAll cut
  obtain ⟨report, recovered, reports, flag⟩ :=
    recover_validLog_append (valid.of_prefix longest.isPrefix) torn
  refine ⟨kept, report, longest, recovered, reports, ?_, ?_⟩
  · rw [flag, decide_eq_true_iff, not_iff_not]
    constructor
    · rintro rfl
      exact ⟨kept, longest.isPrefix, by simp⟩
    · rintro ⟨whole, isPrefix, same⟩
      obtain ⟨rest, rfl⟩ := longest.longest whole isPrefix (by rw [same])
      rw [encodeAll_append, List.append_assoc] at same
      have empty := List.append_right_eq_self.mp same
      exact (List.append_eq_nil_iff.mp empty).2
  · intro more valid
    have accepted : ∀ stamped ∈ more, Accepted stamped.record := fun stamped member =>
      valid.accepted stamped (by simp [member])
    obtain ⟨second, recovered, reports, flag⟩ :=
      recover_validLog_append valid (List.not_mem_nil (a := newline))
    refine ⟨second, ?_, reports, by simpa using flag⟩
    rw [performAll_appendCalls _ accepted, ← encodeAll_append]
    simpa using recovered

/-- A submission and two transitions, with text that needs its encoding. -/
def sampleLog : List Stamped :=
  [⟨5, .submission ⟨42, 7, text "name|with\ntext", -9, 100, ⟨text "prime", text "101"⟩⟩⟩,
    ⟨-5, .transition ⟨42, .running, 0, []⟩⟩,
    ⟨6, .transition ⟨42, .completed, 100, text "finished\ncleanly"⟩⟩]

theorem sampleLog_valid : ValidLog sampleLog :=
  ⟨by decide, by decide, by decide⟩

theorem recover_cut_sampleLog :
    ∃ kept report, LongestWhole sampleLog ((encodeAll sampleLog).take 90) kept ∧
      recover ((encodeAll sampleLog).take 90) = (.ok report, encodeAll kept) ∧
      Reports kept report := by
  obtain ⟨kept, report, longest, recovered, reports, _⟩ :=
    recover_cut_log sampleLog sampleLog_valid ((encodeAll sampleLog).take 90)
      (List.take_prefix _ _)
  exact ⟨kept, report, longest, recovered, reports⟩

/-! ## Logs written through failing system calls -/

/-- What is asked of the log after a use of the manager: recovery succeeds, each
submission whose append returned is reported once, and a job all of whose
transition appends returned is reported as the returned records say. -/
def Intact (calls : List AppendCall) : Prop :=
  ∃ report, (recover (performAll calls [])).1 = .ok report ∧
    ∀ record, JournalRecord.submission record ∈ returnedRecords calls →
      ∃ job ∈ report.jobs, job.submission = record ∧
        (∀ other ∈ report.jobs, other.submission.id = record.id → other = job) ∧
        ((∀ call ∈ calls, ∀ transition, call.record = .transition transition →
            transition.id = record.id → call.returns = true) →
          progressOf (returnedRecords calls) record.id = some job.progress)

/-- The records whose lines got into the file whole. -/
def wholeLog (calls : List AppendCall) : List Stamped :=
  (calls.filter fun call => decide call.Whole).map fun call => ⟨call.timestamp, call.record⟩

private theorem wholeLog_cons_whole {call : AppendCall} (rest : List AppendCall)
    (whole : call.Whole) :
    wholeLog (call :: rest) = ⟨call.timestamp, call.record⟩ :: wholeLog rest := by
  simp [wholeLog, whole]

private theorem wholeLog_cons_partly {call : AppendCall} (rest : List AppendCall)
    (partly : ¬ call.Whole) : wholeLog (call :: rest) = wholeLog rest := by
  simp [wholeLog, partly]

theorem accepted_wholeLog (calls : List AppendCall) :
    ∀ stamped ∈ wholeLog calls, Accepted stamped.record := by
  intro stamped member
  obtain ⟨call, filtered, rfl⟩ := List.mem_map.mp member
  exact (of_decide_eq_true (List.mem_filter.mp filtered).2).1

/-- The whole records form a replayable log, torn ones or not: an append that
returned left its submission in the file, and every id is submitted once. -/
theorem replayable_wholeLog {calls : List AppendCall} {used returned known : List JobId}
    (uses : CallsFrom used returned calls) (knownReturned : ∀ id ∈ returned, id ∈ known)
    (knownUsed : ∀ id ∈ known, id ∈ used) : ReplayableFrom known (records (wholeLog calls)) := by
  induction calls generalizing used returned known with
  | nil => trivial
  | cons call rest ih =>
      obtain ⟨timestamp, record, answers⟩ := call
      cases record with
      | submission record =>
          obtain ⟨fresh, later⟩ := uses
          by_cases whole : AppendCall.Whole ⟨timestamp, .submission record, answers⟩
          · rw [wholeLog_cons_whole rest whole]
            refine ⟨fun member => fresh (knownUsed _ member), ih later ?_ ?_⟩
            · intro id member
              split at member
              · rcases List.mem_cons.mp member with rfl | old
                · exact List.mem_cons_self
                · exact List.mem_cons_of_mem _ (knownReturned id old)
              · exact List.mem_cons_of_mem _ (knownReturned id member)
            · intro id member
              rcases List.mem_cons.mp member with rfl | old
              · exact List.mem_cons_self
              · exact List.mem_cons_of_mem _ (knownUsed id old)
          · rw [wholeLog_cons_partly rest whole]
            have silent : ¬ AppendCall.returns ⟨timestamp, .submission record, answers⟩ = true :=
              fun returns => whole ((returns_iff _).mp returns).1
            rw [if_neg silent] at later
            exact ih later knownReturned fun id member => List.mem_cons_of_mem _ (knownUsed id member)
      | transition record =>
          obtain ⟨submitted, later⟩ := uses
          by_cases whole : AppendCall.Whole ⟨timestamp, .transition record, answers⟩
          · rw [wholeLog_cons_whole rest whole]
            exact ⟨knownReturned _ submitted, ih later knownReturned knownUsed⟩
          · rw [wholeLog_cons_partly rest whole]
            exact ih later knownReturned knownUsed

/-- No line gets into the file whole behind a torn one. -/
def NothingBehindTorn (calls : List AppendCall) : Prop :=
  calls.Pairwise fun earlier later => earlier.Torn → ¬ later.Whole

instance (calls : List AppendCall) : Decidable (NothingBehindTorn calls) :=
  inferInstanceAs (Decidable (List.Pairwise _ _))

private theorem newline_not_mem_pieces {calls : List AppendCall}
    (partly : ∀ call ∈ calls, ¬ call.Whole) : newline ∉ calls.flatMap AppendCall.piece := by
  intro member
  obtain ⟨call, inCalls, inPiece⟩ := List.mem_flatMap.mp member
  exact newline_not_mem_piece (partly call inCalls) inPiece

/-- Without a line behind a torn one the file is the whole records and a torn line. -/
theorem pieces_eq_wholeLog {calls : List AppendCall} (nothing : NothingBehindTorn calls) :
    ∃ tail, newline ∉ tail ∧
      calls.flatMap AppendCall.piece = encodeAll (wholeLog calls) ++ tail := by
  induction calls with
  | nil => exact ⟨[], by simp, rfl⟩
  | cons call rest ih =>
      obtain ⟨behind, later⟩ := List.pairwise_cons.mp nothing
      obtain ⟨tail, torn, shape⟩ := ih later
      by_cases whole : call.Whole
      · refine ⟨tail, torn, ?_⟩
        rw [List.flatMap_cons, whole.piece_eq, shape, wholeLog_cons_whole rest whole,
          ← List.append_assoc]
        rfl
      · rw [wholeLog_cons_partly rest whole]
        by_cases tornCall : call.Torn
        · have partly : ∀ later ∈ call :: rest, ¬ later.Whole := by
            rw [List.forall_mem_cons]
            exact ⟨whole, fun later member => behind later member tornCall⟩
          have none : wholeLog rest = [] := by
            simp only [wholeLog, List.map_eq_nil_iff, List.filter_eq_nil_iff, decide_eq_true_eq]
            exact fun later member => behind later member tornCall
          rw [none]
          exact ⟨_, newline_not_mem_pieces partly, rfl⟩
        · refine ⟨tail, torn, ?_⟩
          rw [List.flatMap_cons, piece_eq_nil tornCall whole, List.nil_append, shape]

/-- A line behind a torn one ends up on the torn line, after the records that
were whole before. -/
theorem pieces_eq_glued {calls : List AppendCall} (behind : ¬ NothingBehindTorn calls) :
    ∃ good glue call rest, good <+: wholeLog calls ∧ glue ≠ [] ∧ newline ∉ glue ∧
      calls.flatMap AppendCall.piece =
        encodeAll good ++ (glue ++ AppendCall.line call) ++ rest := by
  induction calls with
  | nil => exact absurd List.Pairwise.nil behind
  | cons call rest ih =>
      by_cases tornCall : call.Torn ∧ ∃ later ∈ rest, later.Whole
      · obtain ⟨torn, later, member, whole⟩ := tornCall
        have found : (rest.find? fun call => decide call.Whole).isSome := by
          rw [List.find?_isSome]
          exact ⟨later, member, by simpa using whole⟩
        obtain ⟨first, chosen⟩ := Option.isSome_iff_exists.mp found
        obtain ⟨firstWhole, before, after, rfl, none⟩ := List.find?_eq_some_iff_append.mp chosen
        have firstWhole : first.Whole := of_decide_eq_true firstWhole
        have partly : ∀ call ∈ before, ¬ call.Whole := by
          intro call member
          simpa using none call member
        refine ⟨[], call.piece ++ before.flatMap AppendCall.piece, first,
          after.flatMap AppendCall.piece, List.nil_prefix, ?_, ?_, ?_⟩
        · simp [torn.piece_ne_nil]
        · rw [List.mem_append, not_or]
          exact ⟨newline_not_mem_piece torn.not_whole, newline_not_mem_pieces partly⟩
        · simp [encodeAll, firstWhole.piece_eq]
      · have later : ¬ NothingBehindTorn rest := by
          intro nothing
          refine behind (List.pairwise_cons.mpr ⟨?_, nothing⟩)
          intro later member torn whole
          exact tornCall ⟨torn, later, member, whole⟩
        obtain ⟨good, glue, glued, after, isPrefix, nonempty, clean, shape⟩ := ih later
        by_cases whole : call.Whole
        · refine ⟨⟨call.timestamp, call.record⟩ :: good, glue, glued, after, ?_, nonempty,
            clean, ?_⟩
          · rw [wholeLog_cons_whole rest whole]
            exact List.prefix_cons_inj _ |>.mpr isPrefix
          · rw [List.flatMap_cons, whole.piece_eq, shape]
            simp [encodeAll, Stamped.line, AppendCall.line]
        · have notTorn : ¬ call.Torn := by
            intro torn
            refine later (List.pairwise_of_forall_mem_list fun _ _ candidate member _ whole => ?_)
            exact tornCall ⟨torn, candidate, member, whole⟩
          refine ⟨good, glue, glued, after, ?_, nonempty, clean, ?_⟩
          · rwa [wholeLog_cons_partly rest whole]
          · rw [List.flatMap_cons, piece_eq_nil notTorn whole, List.nil_append, shape]

private theorem replayLines_glued {good : List Stamped} {glue : Bytes} {later : List Bytes}
    (accepted : ∀ stamped ∈ good, Accepted stamped.record) (valid : Replayable (records good))
    (nonempty : glue ≠ []) (timestamp : Int64) (record : JournalRecord) :
    ∃ error, replayLines [] 0
      (good.map Stamped.body ++ (glue ++ body timestamp record) :: later) = .error error := by
  obtain ⟨error, rejected⟩ := replayLine_glued (replay (records good)) nonempty timestamp record
  have written : glue ++ body timestamp record ≠ [] := by simp [nonempty]
  rw [@replayLines_bodies_append good [] [] 0 _ (by simp) accepted valid, replayLines,
    if_neg written]
  change replayLine ((records good).foldl replayRecord []) _ = _ at rejected
  rw [rejected]
  exact ⟨_, rfl⟩

theorem recover_glued {calls : List AppendCall} (uses : CallsFrom [] [] calls)
    (behind : ¬ NothingBehindTorn calls) :
    ∃ error, (recover (performAll calls [])).1 = .error error := by
  obtain ⟨good, glue, call, rest, isPrefix, nonempty, clean, shape⟩ := pieces_eq_glued behind
  have accepted : ∀ stamped ∈ good, Accepted stamped.record := fun stamped member =>
    accepted_wholeLog calls stamped (isPrefix.subset member)
  have valid : Replayable (records good) :=
    Replayable.of_prefix (replayable_wholeLog uses (by simp) (by simp))
      (isPrefix.map Stamped.record)
  obtain ⟨lines, tail, linesClean, torn, rfl⟩ := Separated.exists_terminated newline rest
  have regroup : performAll calls [] = Separated.terminated newline
      (good.map Stamped.body ++ (glue ++ body call.timestamp call.record) :: lines) ++ tail := by
    rw [performAll_eq, shape, encodeAll_eq_terminated]
    simp [AppendCall.line, encodeRecord_eq]
  have gluedClean : newline ∉ glue ++ body call.timestamp call.record := by
    simp [clean, newline_not_mem_body]
  obtain ⟨error, failed⟩ :=
    @replayLines_glued good glue lines accepted valid nonempty call.timestamp call.record
  refine ⟨error, ?_⟩
  rw [regroup, recover_terminated_append _ torn, replayReport, failed]
  intro line member
  rcases List.mem_append.mp member with inGood | inRest
  · exact bodies_clean good line inGood
  · rcases List.mem_cons.mp inRest with rfl | inLater
    · exact gluedClean
    · exact linesClean line inLater

theorem progressOf_filter (records : List JournalRecord) (id : JobId) :
    progressOf (records.filter fun record => record.id = id) id = progressOf records id := by
  induction records using List.reverseRecOn with
  | nil => rfl
  | append_singleton records record ih =>
      by_cases same : record.id = id
      · simp only [List.filter_append, List.filter_cons, same, decide_true, ↓reduceIte,
          List.filter_nil, progressOf_append_one, ih]
      · simp only [List.filter_append, List.filter_cons, same, decide_false, List.filter_nil,
          Bool.false_eq_true, ↓reduceIte, List.append_nil, ih, progressOf_append_other same]

private theorem submission_unused {calls : List AppendCall} {used returned : List JobId}
    (uses : CallsFrom used returned calls) {call : AppendCall} (member : call ∈ calls)
    {record : JobSubmissionRecord} (submits : call.record = .submission record) :
    record.id ∉ used := by
  induction calls generalizing used returned with
  | nil => simp at member
  | cons first rest ih =>
      obtain ⟨timestamp, firstRecord, answers⟩ := first
      rcases List.mem_cons.mp member with rfl | inRest
      · simp only at submits
        subst submits
        exact uses.1
      · cases firstRecord with
        | submission other => exact fun old => ih uses.2 inRest (List.mem_cons_of_mem _ old)
        | transition other => exact ih uses.2 inRest

private theorem submission_unique {calls : List AppendCall} {used returned : List JobId}
    (uses : CallsFrom used returned calls) {left right : AppendCall}
    (leftMember : left ∈ calls) (rightMember : right ∈ calls)
    {leftRecord rightRecord : JobSubmissionRecord}
    (leftSubmits : left.record = .submission leftRecord)
    (rightSubmits : right.record = .submission rightRecord)
    (same : leftRecord.id = rightRecord.id) : left = right := by
  induction calls generalizing used returned with
  | nil => simp at leftMember
  | cons first rest ih =>
      have fresh : ∀ {submitted}, first.record = .submission submitted → ∀ call ∈ rest,
          ∀ {record}, call.record = .submission record → submitted.id ≠ record.id := by
        intro submitted firstSubmits call inRest record submits equal
        obtain ⟨timestamp, firstRecord, answers⟩ := first
        simp only at firstSubmits
        subst firstSubmits
        exact submission_unused uses.2 inRest submits (by simp [equal])
      rcases List.mem_cons.mp leftMember with rfl | leftRest
      · rcases List.mem_cons.mp rightMember with rfl | rightRest
        · rfl
        · exact absurd same (fresh leftSubmits right rightRest rightSubmits)
      · rcases List.mem_cons.mp rightMember with rfl | rightRest
        · exact absurd same.symm (fresh rightSubmits left leftRest leftSubmits)
        · obtain ⟨timestamp, firstRecord, answers⟩ := first
          cases firstRecord with
          | submission other => exact ih uses.2 leftRest rightRest
          | transition other => exact ih uses.2 leftRest rightRest

/-- Where no record of a job was written without its append returning, the
returned records and the log tell the same about the job. -/
private theorem progressOf_returnedRecords {calls : List AppendCall} {id : JobId}
    (noneKept : ∀ call ∈ calls, call.record.id = id → call.Whole → call.returns = true) :
    progressOf (returnedRecords calls) id = progressOf (records (wholeLog calls)) id := by
  rw [← progressOf_filter (returnedRecords calls), ← progressOf_filter (records (wholeLog calls))]
  simp only [returnedRecords, records, wholeLog, List.map_map, Function.comp_def,
    List.filter_map, List.filter_filter]
  congr 2
  refine List.filter_congr fun call member => ?_
  by_cases same : call.record.id = id
  · have agree : call.returns = decide call.Whole := by
      by_cases whole : call.Whole
      · simp [whole, noneKept call member same whole]
      · simpa [whole] using fun returns => whole ((returns_iff call).mp returns).1
    simp [same, agree]
  · simp [same]

/-- A log written through failing system calls keeps what its callers were told
exactly as long as no line is written behind a torn one. -/
theorem intact_iff_nothingBehindTorn (calls : List AppendCall) (uses : CallsFrom [] [] calls) :
    Intact calls ↔ NothingBehindTorn calls := by
  constructor
  · intro intact
    by_contra behind
    obtain ⟨report, recovered, _⟩ := intact
    obtain ⟨error, failed⟩ := recover_glued uses behind
    rw [recovered] at failed
    cases failed
  · intro nothing
    obtain ⟨tail, torn, shape⟩ := pieces_eq_wholeLog nothing
    have valid : Replayable (records (wholeLog calls)) :=
      replayable_wholeLog uses (by simp) (by simp)
    refine ⟨⟨sortBySequence (replay (records (wholeLog calls))), decide (tail ≠ [])⟩, ?_, ?_⟩
    · rw [performAll_eq, List.nil_append, shape,
        recover_encodeAll_append (accepted_wholeLog calls) valid torn]
    intro record member
    obtain ⟨call, returned, submits⟩ := List.mem_map.mp member
    obtain ⟨inCalls, returns⟩ := List.mem_filter.mp returned
    have whole := ((returns_iff call).mp returns).1
    have written : record ∈ submissions (records (wholeLog calls)) := by
      refine List.mem_filterMap.mpr ⟨.submission record, ?_, rfl⟩
      exact List.mem_map.mpr ⟨⟨call.timestamp, call.record⟩,
        List.mem_map.mpr ⟨call, by simp [inCalls, whole], rfl⟩, submits⟩
    rw [← replay_submissions] at written
    obtain ⟨job, replayed, rfl⟩ := List.mem_map.mp written
    have permuted : (sortBySequence (replay (records (wholeLog calls)))).Perm
        (replay (records (wholeLog calls))) := List.perm_insertionSort _ _
    refine ⟨job, permuted.mem_iff.mpr replayed, rfl, ?_, ?_⟩
    · intro other otherMember same
      have distinct := valid.nodup_ids
      rw [submittedIds, ← replay_submissions, List.map_map] at distinct
      exact List.inj_on_of_nodup_map distinct (permuted.mem_iff.mp otherMember) replayed same
    · intro allReturned
      rw [progressOf_returnedRecords, replay_progress valid replayed]
      intro other otherMember same _
      cases submitted : other.record with
      | submission otherRecord =>
          rw [submitted] at same
          rwa [submission_unique uses otherMember inCalls submitted submits same]
      | transition transition =>
          rw [submitted] at same
          exact allReturned other otherMember transition submitted same

/-- A transition that is cut by a full disk, and the next one of the same job. -/
def tornCalls : List AppendCall :=
  [⟨1, .submission ⟨1, 1, text "job", 0, 10, ⟨text "step", text "10"⟩⟩, {}⟩,
    ⟨2, .transition ⟨1, .running, 0, []⟩, ⟨[.wrote 5, .failed], true⟩⟩,
    ⟨3, .transition ⟨1, .completed, 10, []⟩, {}⟩]

/-- Both calls around the torn one return, and the log is unreadable. -/
theorem not_intact_tornCalls : CallsFrom [] [] tornCalls ∧ ¬ Intact tornCalls := by
  refine ⟨by decide +kernel, ?_⟩
  rintro ⟨report, recovered, _⟩
  have failed : (recover (performAll tornCalls [])).1.isOk = false := by decide +kernel
  rw [recovered] at failed
  cases failed

/-- The same calls without the torn one, and a final call cut short. -/
theorem intact_tornCalls_reordered :
    CallsFrom [] [] [tornCalls[0], tornCalls[2], tornCalls[1]] ∧
      Intact [tornCalls[0], tornCalls[2], tornCalls[1]] :=
  ⟨by decide +kernel,
    (intact_iff_nothingBehindTorn _ (by decide +kernel)).mpr (by decide +kernel)⟩

end Kronos.Wal
