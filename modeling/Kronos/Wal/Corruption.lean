import Kronos.Wal.Checksum
import Kronos.Wal.LineSyntax

/-!
# Corruption of one byte

A byte changed inside a line leaves a line whose checksum does not match. A
newline put into a line leaves a first half with too few fields or too short a
checksum. A newline replaced joins two lines, which have too many fields.
-/

set_option autoImplicit false

namespace Kronos.Wal

/-- A line that recovery rejects whatever was read before. -/
def Rejected (line : Bytes) : Prop := line = [] ∨ ∀ record, ¬ ReadsAs line record

theorem replayLines_rejected {line : Bytes} (rejected : Rejected line) (before after : List Bytes)
    (recovered : Recovered) (lineNumber : Nat) :
    ∃ error, replayLines recovered lineNumber (before ++ line :: after) = .error error := by
  induction before generalizing recovered lineNumber with
  | nil =>
      rw [List.nil_append, replayLines]
      split
      · exact ⟨_, rfl⟩
      · next nonempty =>
          split
          · next replayed =>
              obtain ⟨record, reads, _⟩ := replayLine_ok_iff.mp replayed
              exact absurd reads (rejected.resolve_left nonempty record)
          · exact ⟨_, rfl⟩
  | cons first before ih =>
      rw [List.cons_append, replayLines]
      split
      · exact ⟨_, rfl⟩
      · split
        · exact ih _ _
        · exact ⟨_, rfl⟩

theorem recover_rejected {before after : List Bytes} {line : Bytes} (rejected : Rejected line)
    (clean : ∀ other ∈ before ++ line :: after, newline ∉ other) :
    ∃ error, (recover (Separated.terminated newline (before ++ line :: after))).1 =
      .error error := by
  have replayed := recover_terminated_append clean (List.not_mem_nil (a := newline))
  rw [List.append_nil] at replayed
  obtain ⟨error, failed⟩ := replayLines_rejected rejected before after [] 0
  exact ⟨error, by rw [replayed, replayReport, failed]⟩

/-! ## Fields and checksum of a line -/

theorem ReadsAs.summed {line : Bytes} {record : JournalRecord} (reads : ReadsAs line record) :
    Summed line := by
  cases reads <;> assumption

/-- The type of a line fixes the number of its fields. -/
theorem ReadsAs.field_count {line : Bytes} {record : JournalRecord} (reads : ReadsAs line record) :
    (split line)[1]? = some (text "S") ∧ (split line).length = 11 ∨
      (split line)[1]? = some (text "T") ∧ (split line).length = 8 := by
  cases reads with
  | submission _ fields => exact .inl (by simp [fields])
  | transition _ fields => exact .inr (by simp [fields])

theorem recordFields_count (timestamp : Int64) (record : JournalRecord) :
    (recordFields timestamp record)[1]? = some (text "S") ∧
        (recordFields timestamp record).length = 10 ∨
      (recordFields timestamp record)[1]? = some (text "T") ∧
        (recordFields timestamp record).length = 7 := by
  cases record with
  | submission record => exact .inl ⟨rfl, rfl⟩
  | transition record => exact .inr ⟨rfl, rfl⟩

theorem summed_body (timestamp : Int64) (record : JournalRecord) :
    body timestamp record = [pipe].intercalate (recordFields timestamp record) ++
      pipe :: checksumText ([pipe].intercalate (recordFields timestamp record)) := by
  simp [body]

/-! ## The three kinds of damage -/

/-- A byte changed in a line with its right checksum spoils the checksum. -/
theorem not_summed_of_changed {covered left right : Bytes} {old new : UInt8}
    (whole : covered ++ pipe :: checksumText covered = left ++ old :: right)
    (different : new ≠ old) : ¬ Summed (left ++ new :: right) := by
  rintro ⟨other, same⟩
  have size : other.length = covered.length := by
    have wholeSize := congrArg List.length whole
    have sameSize := congrArg List.length same
    simp only [List.length_append, List.length_cons, length_checksumText] at wholeSize sameSize
    omega
  rcases List.append_eq_append_iff.mp whole with ⟨gap, rfl, split⟩ | ⟨gap, rfl, split⟩
  · cases gap with
    | nil =>
        -- the separator itself
        rw [List.append_nil] at same
        obtain ⟨separator, _⟩ := List.cons.inj split
        obtain ⟨changed, _⟩ := List.cons.inj (List.append_inj same.symm size).2
        exact different (changed.symm.trans separator)
    | cons first gap =>
        -- in the checksum
        rw [List.cons_append] at split
        obtain ⟨rfl, checksum⟩ := List.cons.inj split
        rw [List.append_assoc, List.cons_append] at same
        obtain ⟨rfl, rest⟩ := List.append_inj same.symm size
        rw [List.cons.injEq] at rest
        rw [rest.2, List.append_right_inj, List.cons.injEq] at checksum
        exact different checksum.1
  · cases gap with
    | nil =>
        rw [List.append_nil] at size
        obtain ⟨separator, _⟩ := List.cons.inj split
        obtain ⟨changed, _⟩ := List.cons.inj (List.append_inj same.symm size).2
        exact different (changed.symm.trans separator.symm)
    | cons first gap =>
        -- in the part that the checksum covers
        rw [List.cons_append] at split
        obtain ⟨rfl, rfl⟩ := List.cons.inj split
        rw [← List.cons_append, ← List.append_assoc] at same
        have sizes : (left ++ new :: gap).length = other.length := by
          rw [size]
          simp
        obtain ⟨rfl, rest⟩ := List.append_inj same sizes
        rw [List.cons.injEq] at rest
        exact different (crc32_append_cons_injective left gap (crc32_of_checksumText rest.2)).symm

/-- The first part of a line that is cut short does not read as a record. -/
theorem rejected_of_cut {timestamp : Int64} {record : JournalRecord} {left right : Bytes}
    {old : UInt8} (whole : body timestamp record = left ++ old :: right) : Rejected left := by
  refine .inr fun other reads => ?_
  obtain ⟨fields, last, clean, lastClean, rfl⟩ := Separated.exists_terminated pipe left
  have cut : split (Separated.terminated pipe fields ++ last) = fields ++ [last] :=
    Separated.splitOn_terminated_append clean lastClean
  have wholeCut : recordFields timestamp record ++
      [checksumText ([pipe].intercalate (recordFields timestamp record))] =
        fields ++ split (last ++ old :: right) := by
    rw [← split_body, whole, List.append_assoc]
    exact Separated.splitOn_terminated_append_any _ clean
  have counts := reads.field_count
  have recordCounts := recordFields_count timestamp record
  have kind : 2 ≤ fields.length → (recordFields timestamp record)[1]? = fields[1]? := by
    intro enough
    have second := congrArg (fun parts => parts[1]?) wholeCut
    have wide : 1 < (recordFields timestamp record).length := by omega
    simpa only [List.getElem?_append_left wide, List.getElem?_append_left enough] using second
  have different : text "S" ≠ text "T" := by decide
  rw [cut, List.length_append, List.length_singleton] at counts
  -- the type of the record has not been cut off, so the number of fields has to be the same
  have count : fields.length = (recordFields timestamp record).length := by
    have enough : 2 ≤ fields.length := by omega
    rw [List.getElem?_append_left enough, ← kind enough] at counts
    rcases counts with ⟨is, count⟩ | ⟨is, count⟩ <;>
      rcases recordCounts with ⟨isRecord, recordCount⟩ | ⟨isRecord, recordCount⟩
    · omega
    · rw [is] at isRecord
      exact absurd (Option.some.inj isRecord) different
    · rw [is] at isRecord
      exact absurd (Option.some.inj isRecord).symm different
    · omega
  have short : last.length < 8 := by
    have tail := (List.append_inj wholeCut count.symm).2
    have joined := congrArg ([pipe].intercalate ·) tail
    simp only [split, List.intercalate_splitOn] at joined
    have size := congrArg List.length joined
    simp only [List.intercalate_singleton, length_checksumText, List.length_append,
      List.length_cons] at size
    omega
  obtain ⟨covered, summed⟩ := reads.summed
  rw [summed, split_of_summed] at cut
  have checksum := (List.append_inj' cut rfl).2
  rw [List.cons.injEq] at checksum
  rw [← checksum.1, length_checksumText] at short
  exact lt_irrefl _ short

/-- Two lines joined by another byte have too many fields. -/
theorem rejected_of_joined (first second : Stamped) (byte : UInt8) :
    Rejected (first.body ++ byte :: second.body) := by
  have count : ∀ stamped : Stamped, 7 ≤ stamped.body.count pipe := by
    intro stamped
    have length := Separated.length_splitOn pipe stamped.body
    have fields := congrArg List.length (split_body stamped.timestamp stamped.record)
    have counts := recordFields_count stamped.timestamp stamped.record
    rw [split, List.length_append, List.length_singleton] at fields
    change (stamped.body.splitOn pipe).length = _ at fields
    omega
  refine .inr fun record reads => ?_
  have counts := reads.field_count
  have length := Separated.length_splitOn pipe (first.body ++ byte :: second.body)
  have more := List.count_le_count_cons (a := pipe) (b := byte) (l := second.body)
  rw [List.count_append] at length
  have firstCount := count first
  have secondCount := count second
  rw [split] at counts
  omega

/-! ## Damaged logs -/

theorem exists_line_of_byte {log : List Stamped} {left right : Bytes} {old : UInt8}
    (whole : encodeAll log = left ++ old :: right) :
    ∃ before stamped after start rest, log = before ++ stamped :: after ∧
      left = encodeAll before ++ start ∧ right = rest ++ encodeAll after ∧
      Stamped.line stamped = start ++ old :: rest := by
  induction log generalizing left with
  | nil => simp [encodeAll] at whole
  | cons first log ih =>
      have cut : encodeAll (first :: log) = first.line ++ encodeAll log := by simp [encodeAll]
      rw [cut] at whole
      rcases List.append_eq_append_iff.mp whole with ⟨start, rfl, later⟩ | ⟨rest, line, later⟩
      · obtain ⟨before, stamped, after, inner, rest, rfl, rfl, rfl, line⟩ := ih later
        refine ⟨first :: before, stamped, after, inner, rest, rfl, ?_, rfl, line⟩
        simp [encodeAll]
      · cases rest with
        | nil =>
            rw [List.append_nil] at line
            subst line
            obtain ⟨before, stamped, after, inner, rest, rfl, empty, rfl, line⟩ :=
              @ih [] (by simpa using later.symm)
            obtain ⟨none, rfl⟩ := List.append_eq_nil_iff.mp empty.symm
            refine ⟨first :: before, stamped, after, [], rest, rfl, ?_, rfl, line⟩
            rw [List.append_nil, show encodeAll (first :: before) = first.line ++ encodeAll before
              from by simp [encodeAll], none, List.append_nil]
        | cons byte rest =>
            rw [List.cons_append] at later
            obtain ⟨rfl, rfl⟩ := List.cons.inj later
            exact ⟨[], first, log, left, rest, rfl, by simp [encodeAll], rfl, line⟩

private theorem recover_damaged {before after : List Stamped} {lines : List Bytes} {line : Bytes}
    (rejected : Rejected line) (clean : ∀ other ∈ line :: lines, newline ∉ other) :
    ∃ error, (recover (encodeAll before ++ line ++ [newline] ++ Separated.terminated newline lines ++
      encodeAll after)).1 = .error error := by
  have regroup : encodeAll before ++ line ++ [newline] ++ Separated.terminated newline lines ++
      encodeAll after = Separated.terminated newline
        (before.map Stamped.body ++ line :: (lines ++ after.map Stamped.body)) := by
    simp [encodeAll_eq_terminated]
  rw [regroup]
  refine recover_rejected rejected fun other member => ?_
  rw [List.mem_append, ← List.cons_append, List.mem_append] at member
  rcases member with inside | inside | inside
  · exact bodies_clean before other inside
  · exact clean other inside
  · exact bodies_clean after other inside

/-- Recovery of a log in which one byte other than the last newline was
replaced by another byte throws. -/
theorem recover_corrupted (log : List Stamped) (position : Nat)
    (within : position + 1 < (encodeAll log).length) (byte : UInt8)
    (different : (encodeAll log)[position] ≠ byte) :
    ∃ error, (recover ((encodeAll log).set position byte)).1 = .error error := by
  have whole : encodeAll log = (encodeAll log).take position ++
      (encodeAll log)[position] :: (encodeAll log).drop (position + 1) := by
    rw [List.getElem_cons_drop, List.take_append_drop]
  have behind : (encodeAll log).drop (position + 1) ≠ [] := by
    rw [ne_eq, List.drop_eq_nil_iff]
    omega
  rw [List.set_eq_take_append_cons_drop, if_pos (by omega)]
  generalize (encodeAll log)[position] = old at whole different
  generalize (encodeAll log).take position = left at whole
  generalize (encodeAll log).drop (position + 1) = right at whole behind
  obtain ⟨before, stamped, after, start, rest, rfl, rfl, rfl, line⟩ := exists_line_of_byte whole
  have shape : stamped.line = stamped.body ++ [newline] := rfl
  rw [shape] at line
  have lineClean : newline ∉ stamped.body := newline_not_mem_body _ _
  rcases List.eq_nil_or_concat' rest with rfl | ⟨inner, last, rfl⟩
  · -- the newline between two records
    obtain ⟨rfl, ending⟩ := List.append_inj' line rfl
    obtain ⟨rfl, _⟩ := List.cons.inj ending
    cases after with
    | nil => simp [encodeAll] at behind
    | cons second after =>
        have regroup : encodeAll before ++ stamped.body ++ byte :: ([] ++
            encodeAll (second :: after)) = encodeAll before ++
              (stamped.body ++ byte :: second.body) ++ [newline] ++
                Separated.terminated newline [] ++ encodeAll after := by
          simp [encodeAll, Stamped.line, encodeRecord_eq, Stamped.body]
        rw [regroup]
        refine recover_damaged (rejected_of_joined stamped second byte) ?_
        rw [List.forall_mem_singleton]
        simp [different, Stamped.body, newline_not_mem_body]
  · have split : stamped.body = start ++ old :: inner ∧ last = newline := by
      rw [← List.cons_append, ← List.append_assoc] at line
      obtain ⟨body, ending⟩ := List.append_inj' line rfl
      exact ⟨body, (List.cons.inj ending).1.symm⟩
    obtain ⟨body, rfl⟩ := split
    rw [body, List.mem_append, List.mem_cons, not_or, not_or] at lineClean
    obtain ⟨startClean, _, innerClean⟩ := lineClean
    by_cases breaks : byte = newline
    · -- a line break inside a record
      subst breaks
      have regroup : encodeAll before ++ start ++ newline :: (inner ++ [newline] ++
          encodeAll after) = encodeAll before ++ start ++ [newline] ++
            Separated.terminated newline [inner] ++ encodeAll after := by
        simp
      rw [regroup]
      refine recover_damaged (rejected_of_cut body) ?_
      simp [startClean, innerClean]
    · -- another byte in a line
      have regroup : encodeAll before ++ start ++ byte :: (inner ++ [newline] ++
          encodeAll after) = encodeAll before ++ (start ++ byte :: inner) ++ [newline] ++
            Separated.terminated newline [] ++ encodeAll after := by
        simp
      rw [regroup]
      have spoiled : ¬ Summed (start ++ byte :: inner) :=
        not_summed_of_changed ((summed_body _ _).symm.trans body) different.symm
      refine recover_damaged (.inr fun record reads => spoiled reads.summed) ?_
      rw [List.forall_mem_singleton]
      simp [startClean, innerClean, Ne.symm breaks]

def pairLog : List Stamped :=
  [⟨5, .submission ⟨42, 7, text "name", -9, 100, ⟨text "prime", text "101"⟩⟩⟩,
    ⟨6, .transition ⟨42, .running, 0, []⟩⟩]

/-- The newline between the two records is replaced by a separator. -/
theorem recover_corrupted_pairLog :
    (encodeAll pairLog)[54]? = some newline ∧
      ∃ error, (recover ((encodeAll pairLog).set 54 pipe)).1 = .error error := by
  have within : 54 + 1 < (encodeAll pairLog).length := by decide +kernel
  have newline : (encodeAll pairLog)[54]? = some newline := by decide +kernel
  have different : (encodeAll pairLog)[54] ≠ pipe := by
    rw [List.getElem?_eq_some_iff] at newline
    rw [newline.choose_spec]
    decide
  exact ⟨newline, recover_corrupted pairLog 54 within pipe different⟩

end Kronos.Wal
