import Kronos.Ipc.Fifo
import Kronos.Ipc.ProtocolProperties

/-!
# Framing

Whatever the system calls answer, the bytes read are the lines returned and
the buffer behind them. So the lines are those of the stream, and a line that
does not decode costs only itself.
-/

set_option autoImplicit false

namespace Kronos.Ipc

variable {α : Type} {ends : α → Bool}

/-- A line: one terminator, at the end. -/
def IsLine (ends : α → Bool) (line : List α) : Prop :=
  ∃ body stop, line = body ++ [stop] ∧ ends stop = true ∧ ∀ item ∈ body, ends item = false

/-! ## One call -/

theorem extractLine_none {buffer : List α} :
    extractLine ends buffer = none ↔ ∀ item ∈ buffer, ends item = false := by
  unfold extractLine
  split <;> rename_i found
  · simpa using found
  · rw [List.findIdx?_eq_some_iff_getElem] at found
    obtain ⟨within, stops, _⟩ := found
    simp only [reduceCtorEq, false_iff]
    intro clean
    have continues := clean _ (List.getElem_mem within)
    simp [stops] at continues

theorem extractLine_some {buffer line rest : List α}
    (extracted : extractLine ends buffer = some (line, rest)) :
    buffer = line ++ rest ∧ IsLine ends line := by
  unfold extractLine at extracted
  split at extracted
  · simp at extracted
  · rename_i newline found
    rw [List.findIdx?_eq_some_iff_getElem] at found
    obtain ⟨within, stops, continues⟩ := found
    obtain ⟨rfl, rfl⟩ : buffer.take (newline + 1) = line ∧ buffer.drop (newline + 1) = rest := by
      simpa using extracted
    refine ⟨(List.take_append_drop _ _).symm, buffer.take newline, buffer[newline],
      (List.take_append_getElem within).symm, stops, fun item member => ?_⟩
    obtain ⟨position, before, rfl⟩ := List.mem_take_iff_getElem.mp member
    simpa using continues position (by omega)

/-- What a call may do: it moves bytes from the front of the pipe to the end of
the buffer, and a line from the front of the buffer to its caller. Only a call
that throws leaves a whole line behind without returning one. -/
structure Reads (ends : α → Bool) (before : Inbox α)
    (after : Except Bytes (Option (List α)) × Inbox α) : Prop where
  conserved : ∃ read, before.pipe = read ++ after.2.pipe ∧
    before.buffer ++ read = after.1.toOption.join.getD [] ++ after.2.buffer
  line : ∀ line, after.1 = .ok (some line) → IsLine ends line
  clean : after.1 = .ok none → ∀ item ∈ after.2.buffer, ends item = false

theorem Reads.unchanged {inbox : Inbox α} {outcome : Except Bytes (Option (List α))}
    (nothing : outcome.toOption.join = none)
    (clean : ∀ item ∈ inbox.buffer, ends item = false) : Reads ends inbox (outcome, inbox) where
  conserved := ⟨[], rfl, by simp [nothing]⟩
  line line is := by
    simp only at is
    subst is
    simp [Except.toOption] at nothing
  clean _ := clean

theorem Reads.after_chunk (size : Nat) {inbox : Inbox α}
    {after : Except Bytes (Option (List α)) × Inbox α}
    (later : Reads ends ⟨inbox.pipe.drop size, inbox.buffer ++ inbox.pipe.take size⟩ after) :
    Reads ends inbox after where
  conserved := by
    obtain ⟨read, pipe, buffer⟩ := later.conserved
    refine ⟨inbox.pipe.take size ++ read, ?_, ?_⟩
    · rw [List.append_assoc, ← pipe, List.take_append_drop]
    · rw [← List.append_assoc, buffer]
  line := later.line
  clean := later.clean

theorem Reads.extracted (inbox : Inbox α) {line rest : List α}
    (extracted : extractLine ends inbox.buffer = some (line, rest)) :
    Reads ends inbox (.ok (some line), { inbox with buffer := rest }) where
  conserved := ⟨[], rfl, by simpa [Except.toOption] using (extractLine_some extracted).1⟩
  line other is := by
    obtain rfl : line = other := by simpa using is
    exact (extractLine_some extracted).2
  clean is := by simp at is

theorem reads_readLoop (answers : List ReadAnswer) (inbox : Inbox α)
    (clean : ∀ item ∈ inbox.buffer, ends item = false) :
    Reads ends inbox (readLoop ends answers inbox) := by
  induction answers generalizing inbox with
  | nil => exact .unchanged rfl clean
  | cons answer answers ih =>
      cases answer with
      | count bytes =>
          unfold readLoop
          dsimp only
          split
          · exact .unchanged rfl clean
          · refine .after_chunk (min bytes chunkSize) ?_
            split
            · exact ⟨⟨[], rfl, by simp [Except.toOption]⟩, nofun, nofun⟩
            · cases extracted : extractLine ends
                  (inbox.buffer ++ inbox.pipe.take (min bytes chunkSize)) with
              | none => exact ih _ (extractLine_none.mp extracted)
              | some cut =>
                  exact .extracted ⟨inbox.pipe.drop (min bytes chunkSize),
                    inbox.buffer ++ inbox.pipe.take (min bytes chunkSize)⟩ extracted
      | interrupted => exact ih inbox clean
      | wouldBlock => exact .unchanged rfl clean
      | failed => exact .unchanged rfl clean

theorem reads_receiveLine (ends : α → Bool) (answers : ReceiveAnswers) (inbox : Inbox α) :
    Reads ends inbox (receiveLine ends answers inbox) := by
  unfold receiveLine
  cases extracted : extractLine ends inbox.buffer with
  | some cut => exact .extracted inbox extracted
  | none =>
      have clean := extractLine_none.mp extracted
      dsimp only
      split
      · exact reads_readLoop answers.reads inbox clean
      · exact .unchanged rfl clean
      · exact .unchanged rfl clean
      · exact .unchanged rfl clean

/-! ## A sequence of calls -/

@[simp] theorem returned_nil {β : Type} : returned ([] : List (Except Bytes (Option β))) = [] :=
  rfl

theorem returned_cons {β : Type} (outcome : Except Bytes (Option β))
    (outcomes : List (Except Bytes (Option β))) :
    returned (outcome :: outcomes) = outcome.toOption.join.toList ++ returned outcomes := by
  cases heard : outcome.toOption.join <;> simp [returned, heard]

theorem receiveLines_conserved (ends : α → Bool) (calls : List ReceiveAnswers) (inbox : Inbox α) :
    ∃ read, inbox.pipe = read ++ (receiveLines ends calls inbox).2.pipe ∧
      inbox.buffer ++ read = (returned (receiveLines ends calls inbox).1).flatten ++
        (receiveLines ends calls inbox).2.buffer := by
  induction calls generalizing inbox with
  | nil => exact ⟨[], rfl, by simp [receiveLines]⟩
  | cons answers calls ih =>
      obtain ⟨first, pipe, buffer⟩ := (reads_receiveLine ends answers inbox).conserved
      obtain ⟨later, laterPipe, laterBuffer⟩ := ih (receiveLine ends answers inbox).2
      refine ⟨first ++ later, ?_, ?_⟩
      · rw [pipe, laterPipe, List.append_assoc]
        rfl
      · rw [← List.append_assoc, buffer, List.append_assoc, laterBuffer]
        simp only [receiveLines, returned_cons, List.flatten_append]
        cases (receiveLine ends answers inbox).1.toOption.join <;> simp

theorem isLine_of_returned (calls : List ReceiveAnswers) (inbox : Inbox α) :
    ∀ line ∈ returned (receiveLines ends calls inbox).1, IsLine ends line := by
  induction calls generalizing inbox with
  | nil => exact fun line member => absurd member List.not_mem_nil
  | cons answers calls ih =>
      intro line member
      rw [receiveLines, returned_cons, List.mem_append] at member
      rcases member with now | later
      · refine (reads_receiveLine ends answers inbox).line line ?_
        cases outcome : (receiveLine ends answers inbox).1 <;>
          simp_all [Except.toOption]
      · exact ih _ line later

theorem receiveAll_eq (calls : List ReceiveAnswers) (inbox : Inbox UInt8) :
    receiveAll calls inbox =
      ((receiveLines isNewline calls inbox).1.map decodeReceived,
        (receiveLines isNewline calls inbox).2) := by
  induction calls generalizing inbox with
  | nil => rfl
  | cons answers calls ih => simp [receiveAll, receiveLines, receive, ih]

theorem returned_decodeReceived (outcomes : List (Except Bytes (Option Bytes))) :
    returned (outcomes.map decodeReceived) =
      (returned outcomes).filterMap fun line => (decodeMessage line).toOption := by
  induction outcomes with
  | nil => rfl
  | cons outcome outcomes ih =>
      rw [List.map_cons, returned_cons, returned_cons, List.filterMap_append, ih]
      congr 1
      rcases outcome with what | (_ | line)
      · rfl
      · rfl
      · cases decoded : decodeMessage line <;> simp [decodeReceived, decoded, Except.toOption]

/-! ## The lines of the stream -/

theorem isLine_newline {line : Bytes} (is : IsLine isNewline line) :
    ∃ body, newline ∉ body ∧ line = body ++ [newline] := by
  obtain ⟨body, stop, rfl, stops, clean⟩ := is
  have same : stop = newline := by simpa [isNewline] using stops
  refine ⟨body, fun inside => ?_, by rw [same]⟩
  simpa [isNewline] using clean newline inside

theorem completeLines_flatten_append {lines : List Bytes} (rest : Bytes)
    (are : ∀ line ∈ lines, ∃ body, newline ∉ body ∧ line = body ++ [newline]) :
    completeLines (lines.flatten ++ rest) = lines ++ completeLines rest := by
  induction lines with
  | nil => rfl
  | cons line lines ih =>
      rw [List.forall_mem_cons] at are
      obtain ⟨⟨body, clean, rfl⟩, others⟩ := are
      have nonempty : ((lines.flatten ++ rest).splitOn newline) ≠ [] := List.splitOn_ne_nil _ _
      have cut : completeLines ((body ++ [newline]) ++ (lines.flatten ++ rest)) =
          (body ++ [newline]) :: completeLines (lines.flatten ++ rest) := by
        rw [completeLines, List.append_assoc, List.singleton_append,
          List.splitOn_append_cons_self_of_not_mem clean, List.dropLast_cons_of_ne_nil nonempty]
        rfl
      rw [List.flatten_cons, List.append_assoc, cut, ih others]
      rfl

theorem completeLines_of_not_mem {rest : Bytes} (clean : newline ∉ rest) :
    completeLines rest = [] := by
  rw [completeLines, List.splitOn_eq_singleton clean]
  rfl

theorem returned_isPrefix (stream : Bytes) (calls : List ReceiveAnswers) :
    returned (receiveLines isNewline calls ⟨stream, []⟩).1 <+: completeLines stream := by
  obtain ⟨read, pipe, buffer⟩ := receiveLines_conserved isNewline calls ⟨stream, []⟩
  simp only [List.nil_append] at pipe buffer
  have shapes : ∀ line ∈ returned (receiveLines isNewline calls ⟨stream, []⟩).1,
      ∃ body, newline ∉ body ∧ line = body ++ [newline] :=
    fun line member => isLine_newline (isLine_of_returned calls ⟨stream, []⟩ line member)
  have cut := completeLines_flatten_append ((receiveLines isNewline calls ⟨stream, []⟩).2.buffer ++
    (receiveLines isNewline calls ⟨stream, []⟩).2.pipe) shapes
  rw [← List.append_assoc, ← buffer, ← pipe] at cut
  exact ⟨_, cut.symm⟩

/-- After any calls on a stream, the bytes read are the lines returned followed
by the buffer, and each line ends in its only newline. The lines are the first
lines of the stream, all those read unless a call threw with one in its buffer,
and the messages received are those of them that decode. -/
theorem receive_framing (stream : Bytes) (calls : List ReceiveAnswers) :
    let received := receiveLines isNewline calls ⟨stream, []⟩
    let lines := returned received.1
    (∃ read, stream = read ++ received.2.pipe ∧ read = lines.flatten ++ received.2.buffer ∧
      (newline ∉ received.2.buffer → lines = completeLines read)) ∧
    (∀ line ∈ lines, ∃ body, newline ∉ body ∧ line = body ++ [newline]) ∧
    lines <+: completeLines stream ∧
    (receiveAll calls ⟨stream, []⟩).2 = received.2 ∧
    returned (receiveAll calls ⟨stream, []⟩).1 =
      lines.filterMap fun line => (decodeMessage line).toOption := by
  intro received lines
  have shapes : ∀ line ∈ lines, ∃ body, newline ∉ body ∧ line = body ++ [newline] :=
    fun line member => isLine_newline (isLine_of_returned calls ⟨stream, []⟩ line member)
  obtain ⟨read, pipe, buffer⟩ :=
    receiveLines_conserved isNewline calls ⟨stream, []⟩
  have readIs : read = lines.flatten ++ received.2.buffer := buffer
  refine ⟨⟨read, pipe, readIs, fun clean => ?_⟩, shapes, ?_, ?_, ?_⟩
  · rw [readIs, completeLines_flatten_append _ shapes, completeLines_of_not_mem clean,
      List.append_nil]
  · exact returned_isPrefix stream calls
  · rw [receiveAll_eq]
  · rw [receiveAll_eq]
    exact returned_decodeReceived received.1

end Kronos.Ipc
