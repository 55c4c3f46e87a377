import Kronos.Ipc.Delivery

/-!
# The size limit of messages

A sender refuses a line that is longer than the limit. The receiver holds its
whole buffer against the limit after each chunk, and not the line it returns. So
it throws on lines within the limit when the next line begins in the same chunk,
and the buffer it has left behind hands out a line beyond the limit later.
-/

set_option autoImplicit false

namespace Kronos.Ipc

variable {α : Type} {ends : α → Bool}

/-- What `receive_line` throws on a buffer beyond the limit. -/
def sizeLimitError : Bytes := text "IPC message exceeded the size limit"

/-! ## Reading in chunks of one size -/

theorem extractLine_append {line : List α} (is : IsLine ends line) (rest : List α) :
    extractLine ends (line ++ rest) = some (line, rest) := by
  obtain ⟨body, stop, rfl, stops, clean⟩ := is
  have found : (body ++ [stop] ++ rest).findIdx? ends = some body.length := by
    rw [List.append_assoc]
    exact Separated.findIdx?_append_cons clean stops
  have cut : body.length + 1 = (body ++ [stop]).length := by simp
  simp only [extractLine, found]
  rw [cut, List.take_left, List.drop_left]

theorem receiveLine_buffered {line : List α} (is : IsLine ends line) (rest : List α)
    (answers : ReceiveAnswers) (pipe : List α) :
    receiveLine ends answers ⟨pipe, line ++ rest⟩ = (.ok (some line), ⟨pipe, rest⟩) := by
  simp only [receiveLine, extractLine_append is]

theorem receiveLine_ready (reads : List ReadAnswer) (pipe : List α) :
    receiveLine ends ⟨[.ready], reads⟩ ⟨pipe, []⟩ = readLoop ends reads ⟨pipe, []⟩ := by
  simp only [receiveLine, extractLine_none.mpr (List.forall_mem_nil _), pollLoop]

theorem readLoop_count (ends : α → Bool) {size : Nat} (positive : 0 < size) (small : size ≤ chunkSize)
    {chunk : List α} (length : chunk.length = size) (answers : List ReadAnswer)
    (pipe buffer : List α) :
    readLoop ends (.count size :: answers) ⟨chunk ++ pipe, buffer⟩ =
      if maxMessageSize < (buffer ++ chunk).length then
        (.error sizeLimitError, ⟨pipe, buffer ++ chunk⟩)
      else
        match extractLine ends (buffer ++ chunk) with
        | some (line, rest) => (.ok (some line), ⟨pipe, rest⟩)
        | none => readLoop ends answers ⟨pipe, buffer ++ chunk⟩ := by
  have bound : min size chunkSize = chunk.length := by omega
  have nonempty : chunk ≠ [] := List.length_pos_iff.mp (by omega)
  simp only [readLoop, bound, List.take_left, List.drop_left, nonempty, if_false]
  rfl

theorem readLoop_chunks (ends : α → Bool) {size : Nat} (positive : 0 < size)
    (small : size ≤ chunkSize) {first : List α} (pipe : List α) (count : Nat)
    (answers : List ReadAnswer)
    (length : first.length = count * size) (buffer : List α)
    (clean : ∀ item ∈ buffer ++ first, ends item = false)
    (fits : (buffer ++ first).length ≤ maxMessageSize) :
    readLoop ends (List.replicate count (.count size) ++ answers) ⟨first ++ pipe, buffer⟩ =
      readLoop ends answers ⟨pipe, buffer ++ first⟩ := by
  induction count generalizing first buffer with
  | zero =>
      rw [Nat.zero_mul, List.length_eq_zero_iff] at length
      rw [length, List.replicate_zero, List.nil_append, List.nil_append, List.append_nil]
  | succ count ih =>
      have enough : size ≤ first.length := by
        rw [length]
        exact Nat.le_mul_of_pos_left size (Nat.succ_pos count)
      have cut : first = first.take size ++ first.drop size := (List.take_append_drop _ _).symm
      have taken : (first.take size).length = size := List.length_take_of_le enough
      have left : (first.drop size).length = count * size := by
        rw [List.length_drop, length, Nat.succ_mul, Nat.add_sub_cancel]
      rw [cut, ← List.append_assoc] at clean fits
      rw [List.replicate_succ, List.cons_append, cut, List.append_assoc,
        readLoop_count ends positive small taken]
      have within : ¬ maxMessageSize < (buffer ++ first.take size).length := by
        rw [List.length_append] at fits
        omega
      have unended : extractLine ends (buffer ++ first.take size) = none :=
        extractLine_none.mpr fun item member => clean item (List.mem_append_left _ member)
      rw [if_neg within, unended]
      dsimp only
      rw [ih left _ clean fits, List.append_assoc]

/-! ## Streams of sent lines -/

theorem isLine_append_inj {first second left right : List α} (firstIs : IsLine ends first)
    (secondIs : IsLine ends second) (same : first ++ left = second ++ right) :
    first = second ∧ left = right := by
  have extracted : extractLine ends (second ++ right) = some (first, left) := by
    rw [← same, extractLine_append firstIs]
  rw [extractLine_append secondIs] at extracted
  cases extracted
  exact ⟨rfl, rfl⟩

theorem length_lt_of_clean {line buffer pipe rest : List α} (is : IsLine ends line)
    (clean : ∀ item ∈ buffer, ends item = false) (whole : buffer ++ pipe = line ++ rest) :
    buffer.length < line.length := by
  obtain ⟨body, stop, rfl, stops, _⟩ := is
  by_contra longer
  have isPrefix : body ++ [stop] <+: buffer :=
    List.prefix_of_prefix_length_le (whole ▸ List.prefix_append _ rest)
      (List.prefix_append buffer pipe) (by omega)
  have goesOn := clean stop (isPrefix.subset (by simp))
  rw [stops] at goesOn
  cases goesOn

/-- No chunk takes a line of the stream beyond the limit: the line is so short that
the largest chunk does not matter, or there is no more than the limit left to read. -/
def ClearOfLimit (lines : List (List α)) : Prop :=
  ∀ before line after, lines = before ++ line :: after →
    line.length + (chunkSize - 1) ≤ maxMessageSize ∨
      (line :: after).flatten.length ≤ maxMessageSize

theorem ClearOfLimit.tail {line : List α} {lines : List (List α)}
    (clear : ClearOfLimit (line :: lines)) : ClearOfLimit lines := by
  intro before next after same
  exact clear (line :: before) next after (by rw [same, List.cons_append])

theorem length_chunk_le {line : List α} {after : List (List α)} {buffer pipe : List α}
    (clear : ClearOfLimit (line :: after)) (is : IsLine ends line)
    (clean : ∀ item ∈ buffer, ends item = false)
    (whole : buffer ++ pipe = (line :: after).flatten) (bytes : Nat) :
    (buffer ++ pipe.take (min bytes chunkSize)).length ≤ maxMessageSize := by
  rw [List.length_append, List.length_take]
  rcases clear [] line after rfl with short | near
  · have inside := length_lt_of_clean is clean (whole.trans List.flatten_cons)
    omega
  · have total := congrArg List.length whole
    rw [List.length_append] at total
    omega

theorem readLoop_clearOfLimit {lines : List (List α)} (are : ∀ line ∈ lines, IsLine ends line)
    (clear : ClearOfLimit lines) (answers : List ReadAnswer) (inbox : Inbox α)
    (clean : ∀ item ∈ inbox.buffer, ends item = false)
    (whole : inbox.buffer ++ inbox.pipe = lines.flatten) :
    (readLoop ends answers inbox).1 ≠ .error sizeLimitError := by
  induction answers generalizing inbox with
  | nil => simp [readLoop]
  | cons answer answers ih =>
      cases answer with
      | interrupted => exact ih inbox clean whole
      | wouldBlock => simp [readLoop]
      | failed =>
          simp only [readLoop, ne_eq, Except.error.injEq]
          decide
      | count bytes =>
          unfold readLoop
          dsimp only
          split
          · simp
          · next some =>
              have fits : (inbox.buffer ++ inbox.pipe.take (min bytes chunkSize)).length ≤
                  maxMessageSize := by
                cases lines with
                | nil =>
                    rw [List.flatten_nil, List.append_eq_nil_iff] at whole
                    rw [whole.2, List.take_nil] at some
                    exact absurd rfl some
                | cons line after =>
                    exact length_chunk_le clear (are line List.mem_cons_self) clean whole bytes
              rw [if_neg (Nat.not_lt.mpr fits)]
              cases extracted : extractLine ends
                  (inbox.buffer ++ inbox.pipe.take (min bytes chunkSize)) with
              | some cut => simp
              | none =>
                  refine ih _ (extractLine_none.mp extracted) ?_
                  rw [List.append_assoc, List.take_append_drop]
                  exact whole

theorem receiveLine_clearOfLimit {lines : List (List α)} (are : ∀ line ∈ lines, IsLine ends line)
    (clear : ClearOfLimit lines) (answers : ReceiveAnswers) (inbox : Inbox α)
    (whole : inbox.buffer ++ inbox.pipe = lines.flatten) :
    (receiveLine ends answers inbox).1 ≠ .error sizeLimitError := by
  unfold receiveLine
  cases extracted : extractLine ends inbox.buffer with
  | some cut => simp
  | none =>
      dsimp only
      split
      · exact readLoop_clearOfLimit are clear answers.reads inbox (extractLine_none.mp extracted)
          whole
      · simp only [ne_eq, Except.error.injEq]
        decide
      · simp
      · simp only [ne_eq, Except.error.injEq]
        decide

/-- What the reader has not returned yet are the last lines of the stream. -/
theorem receiveLine_rest {lines : List (List α)} (are : ∀ line ∈ lines, IsLine ends line)
    (answers : ReceiveAnswers) (inbox : Inbox α)
    (whole : inbox.buffer ++ inbox.pipe = lines.flatten) :
    ∃ first rest, lines = first ++ rest ∧
      first = (receiveLine ends answers inbox).1.toOption.join.toList ∧
      (receiveLine ends answers inbox).2.buffer ++ (receiveLine ends answers inbox).2.pipe =
        rest.flatten := by
  have reads := reads_receiveLine ends answers inbox
  obtain ⟨read, pipe, buffer⟩ := reads.conserved
  have split : lines.flatten = (receiveLine ends answers inbox).1.toOption.join.getD [] ++
      ((receiveLine ends answers inbox).2.buffer ++ (receiveLine ends answers inbox).2.pipe) := by
    rw [← whole, pipe, ← List.append_assoc, buffer, List.append_assoc]
  cases heard : (receiveLine ends answers inbox).1.toOption.join with
  | none =>
      rw [heard] at split
      exact ⟨[], lines, rfl, rfl, split.symm⟩
  | some line =>
      have is : IsLine ends line := by
        refine reads.line line ?_
        cases outcome : (receiveLine ends answers inbox).1 <;> simp_all [Except.toOption]
      rw [heard, Option.getD_some] at split
      cases lines with
      | nil =>
          obtain ⟨body, stop, rfl, _⟩ := is
          simp at split
      | cons next rest =>
          obtain ⟨rfl, same⟩ := isLine_append_inj (are next List.mem_cons_self) is
            (List.flatten_cons.symm.trans split)
          exact ⟨[next], rest, rfl, rfl, same.symm⟩

theorem ClearOfLimit.suffix {first rest : List (List α)} (clear : ClearOfLimit (first ++ rest)) :
    ClearOfLimit rest := by
  induction first with
  | nil => exact clear
  | cons line first ih => exact ih clear.tail

theorem receiveLines_clearOfLimit {lines : List (List α)} (are : ∀ line ∈ lines, IsLine ends line)
    (clear : ClearOfLimit lines) (calls : List ReceiveAnswers) (inbox : Inbox α)
    (whole : inbox.buffer ++ inbox.pipe = lines.flatten) :
    ∀ outcome ∈ (receiveLines ends calls inbox).1, outcome ≠ .error sizeLimitError := by
  induction calls generalizing inbox lines with
  | nil => simp [receiveLines]
  | cons answers calls ih =>
      rw [receiveLines, List.forall_mem_cons]
      refine ⟨receiveLine_clearOfLimit are clear answers inbox whole, ?_⟩
      obtain ⟨first, rest, rfl, _, left⟩ := receiveLine_rest are answers inbox whole
      exact ih (fun line member => are line (List.mem_append_right _ member)) clear.suffix _ left

/-! ## A stream with a line at the limit -/

/-- Calls that read a line byte by byte. -/
def byteCalls (line : List α) : ReceiveAnswers := ⟨[.ready], List.replicate line.length (.count 1)⟩

theorem receiveLine_byteCalls {line pipe : List α} (is : IsLine ends line)
    (fits : line.length ≤ maxMessageSize) :
    receiveLine ends (byteCalls line) ⟨line ++ pipe, []⟩ = (.ok (some line), ⟨pipe, []⟩) := by
  obtain ⟨body, stop, rfl, stops, clean⟩ := id is
  have answers : List.replicate (body ++ [stop]).length (.count 1) =
      List.replicate body.length (.count 1) ++ [ReadAnswer.count 1] := by
    rw [List.length_append, List.length_singleton, List.replicate_succ']
  have before := readLoop_chunks ends Nat.one_pos (by decide) (stop :: pipe)
    body.length [.count 1] (Nat.mul_one _).symm [] clean (by simp at fits ⊢; omega)
  have ended := extractLine_append is []
  rw [List.append_nil] at ended
  have last := readLoop_count ends Nat.one_pos (by decide) (List.length_singleton : [stop].length = 1)
    [] pipe body
  rw [if_neg (Nat.not_lt.mpr fits), ended] at last
  rw [byteCalls, receiveLine_ready, answers, List.append_assoc, List.singleton_append, before,
    List.nil_append]
  exact last

theorem receiveLines_byteCalls {lines : List (List α)} {pipe : List α}
    (are : ∀ line ∈ lines, IsLine ends line) (fit : ∀ line ∈ lines, line.length ≤ maxMessageSize)
    (calls : List ReceiveAnswers) :
    (receiveLines ends (lines.map byteCalls ++ calls) ⟨lines.flatten ++ pipe, []⟩).1 =
      lines.map (fun line => .ok (some line)) ++ (receiveLines ends calls ⟨pipe, []⟩).1 := by
  induction lines with
  | nil => rfl
  | cons line lines ih =>
      rw [List.forall_mem_cons] at are fit
      rw [List.map_cons, List.cons_append, List.flatten_cons, List.append_assoc, receiveLines,
        receiveLine_byteCalls are.1 fit.1, ih are.2 fit.2]
      rfl

/-- Reads up to just below the limit, and a whole chunk. -/
def overrunAnswers : ReceiveAnswers :=
  ⟨[.ready], List.replicate (maxMessageSize - (chunkSize - 1)) (.count 1) ++ [.count chunkSize]⟩

/-- The buffer passes the limit where a line of nearly the limit is followed by more. -/
theorem receiveLine_overrun {line rest : List α} (is : IsLine ends line)
    (long : maxMessageSize < line.length + (chunkSize - 1))
    (more : maxMessageSize < (line ++ rest).length) :
    (receiveLine ends overrunAnswers ⟨line ++ rest, []⟩).1 = .error sizeLimitError := by
  obtain ⟨body, stop, rfl, _, clean⟩ := is
  have sizes : chunkSize = 4096 ∧ maxMessageSize = 1048576 := ⟨rfl, rfl⟩
  rw [List.length_append, List.length_singleton] at long
  generalize whole : body ++ [stop] ++ rest = stream at more
  have inBody : stream.take (maxMessageSize - (chunkSize - 1)) =
      body.take (maxMessageSize - (chunkSize - 1)) := by
    rw [← whole, List.append_assoc, List.take_append_of_le_length (by omega)]
  have taken : (stream.take (maxMessageSize - (chunkSize - 1))).length =
      maxMessageSize - (chunkSize - 1) := List.length_take_of_le (by omega)
  have before := readLoop_chunks ends Nat.one_pos (by decide)
    (stream.drop (maxMessageSize - (chunkSize - 1))) (maxMessageSize - (chunkSize - 1))
    [.count chunkSize] (taken.trans (Nat.mul_one _).symm) [] ?_ ?_
  · rw [List.take_append_drop] at before
    have enough : maxMessageSize - (chunkSize - 1) + chunkSize ≤ stream.length := by omega
    rw [← List.take_append_drop chunkSize (stream.drop (maxMessageSize - (chunkSize - 1))),
      readLoop_count ends (by decide) (Nat.le_refl _) ?_, if_pos ?_] at before
    · rw [overrunAnswers, receiveLine_ready, before]
    · rw [List.length_append, List.length_take, List.nil_append, List.length_take, List.length_drop]
      omega
    · rw [List.length_take, List.length_drop]
      omega
  · rw [List.nil_append, inBody]
    exact fun item member => clean item (List.mem_of_mem_take member)
  · rw [List.nil_append, List.length_take]
    omega

/-- A stream that is not clear of the limit makes some reader throw. -/
theorem exists_overrun (ends : α → Bool) {lines : List (List α)}
    (are : ∀ line ∈ lines, IsLine ends line) (fit : ∀ line ∈ lines, line.length ≤ maxMessageSize) (unclear : ¬ ClearOfLimit lines) :
    ∃ calls, .error sizeLimitError ∈ (receiveLines ends calls ⟨lines.flatten, []⟩).1 := by
  simp only [ClearOfLimit, not_forall, not_or, Nat.not_le] at unclear
  obtain ⟨before, line, after, rfl, long, more⟩ := unclear
  refine ⟨before.map byteCalls ++ [overrunAnswers], ?_⟩
  have earlier : ∀ line ∈ before, IsLine ends line ∧ line.length ≤ maxMessageSize :=
    fun line member => ⟨are line (by simp [member]), fit line (by simp [member])⟩
  rw [List.flatten_append, receiveLines_byteCalls (fun line member => (earlier line member).1)
    (fun line member => (earlier line member).2)]
  refine List.mem_append_right _ ?_
  rw [List.flatten_cons] at more ⊢
  rw [receiveLines, receiveLine_overrun (are line (by simp)) long more]
  exact List.mem_cons_self

/-! ## Sender and receiver -/

theorem receiveLines_append (calls later : List ReceiveAnswers) (inbox : Inbox α) :
    (receiveLines ends (calls ++ later) inbox).1 =
      (receiveLines ends calls inbox).1 ++
        (receiveLines ends later (receiveLines ends calls inbox).2).1 := by
  induction calls generalizing inbox with
  | nil => rfl
  | cons answers calls ih => simp [receiveLines, ih]

theorem returned_append {β : Type} (first later : List (Except Bytes (Option β))) :
    returned (first ++ later) = returned first ++ returned later :=
  List.filterMap_append

theorem receiveLines_rest {lines : List (List α)} (are : ∀ line ∈ lines, IsLine ends line)
    (calls : List ReceiveAnswers) (inbox : Inbox α)
    (whole : inbox.buffer ++ inbox.pipe = lines.flatten) :
    ∃ rest, lines = returned (receiveLines ends calls inbox).1 ++ rest ∧
      (receiveLines ends calls inbox).2.buffer ++ (receiveLines ends calls inbox).2.pipe =
        rest.flatten := by
  induction calls generalizing inbox lines with
  | nil => exact ⟨lines, rfl, whole⟩
  | cons answers calls ih =>
      obtain ⟨first, next, rfl, heard, left⟩ := receiveLine_rest are answers inbox whole
      obtain ⟨rest, split, last⟩ :=
        ih (fun line member => are line (List.mem_append_right _ member)) _ left
      refine ⟨rest, ?_, last⟩
      rw [receiveLines, returned_cons, ← heard, List.append_assoc, ← split]

/-- Lines in the buffer are returned by as many calls, whatever the system answers. -/
theorem returned_buffered {lines : List (List α)} (are : ∀ line ∈ lines, IsLine ends line)
    (calls : List ReceiveAnswers) (enough : lines.length ≤ calls.length) :
    returned (receiveLines ends calls ⟨[], lines.flatten⟩).1 = lines := by
  induction lines generalizing calls with
  | nil =>
      obtain ⟨rest, split, _⟩ := receiveLines_rest are calls ⟨[], []⟩ rfl
      exact (List.append_eq_nil_iff.mp split.symm).1
  | cons line lines ih =>
      rw [List.forall_mem_cons] at are
      cases calls with
      | nil => cases enough
      | cons answers calls =>
          rw [List.flatten_cons, receiveLines, returned_cons, receiveLine_buffered are.1]
          simp [Except.toOption, ih are.2 calls (Nat.le_of_succ_le_succ enough)]

/-- What is asked of the transport: no call of the receiver throws for a stream of
sent messages, and all of them are returned, once the pipe is read and as many
further calls are made as there may be lines left in the buffer. -/
def LimitAgreed (sends : List SendCall) : Prop :=
  ∀ calls : List ReceiveAnswers,
    (∀ outcome ∈ (receiveLines isNewline calls ⟨sendAll sends [], []⟩).1,
      outcome ≠ .error sizeLimitError) ∧
    ((receiveLines isNewline calls ⟨sendAll sends [], []⟩).2.pipe = [] →
      ∀ later : List ReceiveAnswers, sends.length ≤ later.length →
        returned (receiveAll (calls ++ later) ⟨sendAll sends [], []⟩).1 =
          sends.map SendCall.message)

theorem SendCall.Accepted.isLine {call : SendCall} (accepted : call.Accepted) :
    IsLine isNewline call.line := by
  refine ⟨messageBody call.message, newline, rfl, rfl, fun byte inside => ?_⟩
  simp only [isNewline, decide_eq_false_iff_not]
  rintro rfl
  exact newline_not_mem_messageBody accepted.1 inside

theorem sendAll_returned {sends : List SendCall} (returned : ∀ call ∈ sends, call.returns = true) :
    sendAll sends [] = (sends.map SendCall.line).flatten := by
  rw [sendAll_eq, List.nil_append, ← List.flatMap_def]
  exact List.flatMap_congr fun call member => ((returns_iff call).mp (returned call member)).piece_eq

/-- Sender and receiver agree on the limit exactly for streams that are clear of it. -/
theorem limitAgreed_iff_clearOfLimit (sends : List SendCall)
    (sent : ∀ call ∈ sends, call.returns = true) :
    LimitAgreed sends ↔ ClearOfLimit (sends.map SendCall.line) := by
  have accepted : ∀ call ∈ sends, call.Accepted :=
    fun call member => ((returns_iff call).mp (sent call member)).1
  have are : ∀ line ∈ sends.map SendCall.line, IsLine isNewline line := by
    intro line member
    obtain ⟨call, inside, rfl⟩ := List.mem_map.mp member
    exact (accepted call inside).isLine
  have fit : ∀ line ∈ sends.map SendCall.line, line.length ≤ maxMessageSize := by
    intro line member
    obtain ⟨call, inside, rfl⟩ := List.mem_map.mp member
    exact (accepted call inside).2
  have decoded : ∀ call ∈ sends, (decodeMessage call.line).toOption = some call.message :=
    fun call member => by rw [SendCall.line, decodeMessage_body (accepted call member).1]; rfl
  have stream := sendAll_returned sent
  constructor
  · intro agreed
    by_contra unclear
    obtain ⟨calls, threw⟩ := exists_overrun isNewline are fit unclear
    rw [← stream] at threw
    exact (agreed calls).1 _ threw rfl
  · intro clear calls
    refine ⟨receiveLines_clearOfLimit are clear calls _ stream, fun empty later enough => ?_⟩
    obtain ⟨rest, split, left⟩ := receiveLines_rest are calls ⟨sendAll sends [], []⟩ stream
    rw [empty, List.append_nil] at left
    have short : rest.length ≤ later.length := by
      have total := congrArg List.length split
      rw [List.length_map, List.length_append] at total
      omega
    have state : (receiveLines isNewline calls ⟨sendAll sends [], []⟩).2 = ⟨[], rest.flatten⟩ := by
      generalize (receiveLines isNewline calls ⟨sendAll sends [], []⟩).2 = inbox at empty left
      obtain ⟨pipe, buffer⟩ := inbox
      simp only at empty left
      rw [empty, left]
    have buffered := returned_buffered (fun line member => are line (split ▸
      List.mem_append_right _ member)) later short
    have lines : returned (receiveLines isNewline (calls ++ later) ⟨sendAll sends [], []⟩).1 =
        sends.map SendCall.line := by
      rw [receiveLines_append, returned_append, state, buffered, ← split]
    rw [receiveAll_eq, returned_decodeReceived, lines, List.filterMap_map,
      ← List.filterMap_eq_map]
    exact List.filterMap_congr decoded

theorem clearOfLimit_of_short {lines : List (List α)}
    (short : ∀ line ∈ lines, line.length + (chunkSize - 1) ≤ maxMessageSize) :
    ClearOfLimit lines := by
  rintro before line after rfl
  exact .inl (short line (by simp))

/-- A reply with a text of this many bytes. -/
def reply (id : UInt64) (size : Nat) : SendCall :=
  ⟨⟨id, text "OK", [List.replicate size 65]⟩, []⟩

theorem length_reply (id : UInt64) (size : Nat) :
    (reply id size).line.length = (uint64Text id).length + 2 * size + 11 := by
  have version : protocolVersion.length = 5 := by decide
  have kind : (text "OK").length = 2 := by decide
  simp only [reply, SendCall.line, messageBody, messageParts, List.map_cons, List.map_nil,
    List.intercalate_cons_cons, List.intercalate_singleton, List.length_append,
    List.length_singleton, length_hexEncode, List.length_replicate, version, kind]
  omega

theorem returns_reply {id : UInt64} {size : Nat}
    (fits : (reply id size).line.length ≤ maxMessageSize) : (reply id size).returns = true := by
  have valid : ValidKind (text "OK") := by decide
  exact (returns_iff _).mpr ⟨⟨valid, fits⟩, rfl⟩

/-- Two short replies. -/
theorem limitAgreed_replies : LimitAgreed [reply 1 4, reply 2 0] := by
  refine (limitAgreed_iff_clearOfLimit _ ?_).mpr (clearOfLimit_of_short ?_)
  · decide +kernel
  · decide +kernel

/-- A reply of just the largest size, and another one behind it. -/
theorem not_limitAgreed_largeReply :
    (reply 1 524282).line.length = maxMessageSize ∧
      (∀ call ∈ [reply 1 524282, reply 2 0], call.returns = true) ∧
      ¬ LimitAgreed [reply 1 524282, reply 2 0] := by
  have one : (uint64Text 1).length = 1 := by decide +kernel
  have size : (reply 1 524282).line.length = maxMessageSize := by
    rw [length_reply, one]
    rfl
  have sent : ∀ call ∈ [reply 1 524282, reply 2 0], call.returns = true := by
    rw [List.forall_mem_cons, List.forall_mem_singleton]
    exact ⟨returns_reply size.le, by decide +kernel⟩
  refine ⟨size, sent, fun agreed => ?_⟩
  have accepted : ∀ call ∈ [reply 1 524282, reply 2 0], call.Accepted :=
    fun call member => ((returns_iff call).mp (sent call member)).1
  have unclear : ¬ ClearOfLimit ([reply 1 524282, reply 2 0].map SendCall.line) := by
    intro clear
    have two : 0 < (reply 2 0).line.length := by rw [length_reply]; omega
    rcases clear [] _ _ rfl with short | near
    · rw [size] at short
      exact absurd short (by decide)
    · simp only [List.map_cons, List.map_nil, List.flatten_cons, List.flatten_nil,
        List.append_nil, List.length_append, size] at near
      omega
  obtain ⟨calls, threw⟩ := exists_overrun isNewline (List.forall_mem_map.mpr fun call
    member => (accepted call member).isLine) (List.forall_mem_map.mpr fun call member =>
      (accepted call member).2) unclear
  rw [← sendAll_returned sent] at threw
  exact (agreed calls).1 _ threw rfl

/-! ## Lines beyond the limit -/

/-- A call leaves a buffer beyond the limit only when it throws for that. -/
structure Within (after : Except Bytes (Option (List α)) × Inbox α) : Prop where
  line : ∀ line, after.1 = .ok (some line) → line.length ≤ maxMessageSize
  buffer : after.1 ≠ .error sizeLimitError → after.2.buffer.length ≤ maxMessageSize

theorem Within.unchanged {inbox : Inbox α} {outcome : Except Bytes (Option (List α))}
    (fits : inbox.buffer.length ≤ maxMessageSize) (nothing : outcome.toOption.join = none) :
    Within (outcome, inbox) := by
  refine ⟨fun line is => ?_, fun _ => fits⟩
  simp only at is
  rw [is] at nothing
  cases nothing

theorem Within.extracted {pipe buffer line rest : List α} (fits : buffer.length ≤ maxMessageSize)
    (extracted : extractLine ends buffer = some (line, rest)) :
    Within (.ok (some line), ⟨pipe, rest⟩) := by
  have split := congrArg List.length (extractLine_some extracted).1
  rw [List.length_append] at split
  refine ⟨fun other is => ?_, fun _ => ?_⟩
  · cases is
    omega
  · change rest.length ≤ maxMessageSize
    omega

theorem within_readLoop (answers : List ReadAnswer) (inbox : Inbox α)
    (fits : inbox.buffer.length ≤ maxMessageSize) : Within (readLoop ends answers inbox) := by
  induction answers generalizing inbox with
  | nil => exact .unchanged fits rfl
  | cons answer answers ih =>
      cases answer with
      | interrupted => exact ih inbox fits
      | wouldBlock => exact .unchanged fits rfl
      | failed => exact .unchanged fits rfl
      | count bytes =>
          unfold readLoop
          dsimp only
          split
          · exact .unchanged fits rfl
          · split
            · refine ⟨fun line is => ?_, fun other => absurd rfl other⟩
              cases is
            · next small =>
                have fitsToo := Nat.not_lt.mp small
                cases extracted : extractLine ends
                    (inbox.buffer ++ inbox.pipe.take (min bytes chunkSize)) with
                | none => exact ih _ fitsToo
                | some cut => exact .extracted fitsToo extracted

theorem within_receiveLine (ends : α → Bool) (answers : ReceiveAnswers) (inbox : Inbox α)
    (fits : inbox.buffer.length ≤ maxMessageSize) : Within (receiveLine ends answers inbox) := by
  unfold receiveLine
  cases extracted : extractLine ends inbox.buffer with
  | some cut => exact .extracted fits extracted
  | none =>
      dsimp only
      split
      · exact within_readLoop answers.reads inbox fits
      · exact .unchanged fits rfl
      · exact .unchanged fits rfl
      · exact .unchanged fits rfl

/-- Up to the first throw for the limit, no line is beyond it. -/
theorem returned_within {calls : List ReceiveAnswers} {inbox : Inbox α}
    (fits : inbox.buffer.length ≤ maxMessageSize)
    (quiet : ∀ outcome ∈ (receiveLines ends calls inbox).1.dropLast,
      outcome ≠ .error sizeLimitError) :
    ∀ line ∈ returned (receiveLines ends calls inbox).1, line.length ≤ maxMessageSize := by
  induction calls generalizing inbox with
  | nil => simp [receiveLines]
  | cons answers calls ih =>
      have within := within_receiveLine ends answers inbox fits
      intro line member
      rw [receiveLines, returned_cons, List.mem_append] at member
      rcases member with now | later
      · refine within.line line ?_
        cases outcome : (receiveLine ends answers inbox).1 <;> simp_all [Except.toOption]
      · cases calls with
        | nil => cases later
        | cons next calls =>
            rw [receiveLines, receiveLines, List.dropLast_cons_of_ne_nil (by simp),
              List.forall_mem_cons] at quiet
            refine ih (within.buffer quiet.1) ?_ line later
            rw [receiveLines]
            exact quiet.2

/-- What is left to do for a reader that reads single bytes. -/
def Inbox.work (inbox : Inbox α) : Nat := 2 * inbox.pipe.length + inbox.buffer.length

/-- Reads one byte, unless the buffer holds a line. -/
def byteAnswers : ReceiveAnswers := ⟨[.ready], [.count 1]⟩

theorem work_byteAnswers {inbox : Inbox α}
    (left : inbox.pipe ≠ [] ∨ ∃ item ∈ inbox.buffer, ends item = true) :
    (receiveLine ends byteAnswers inbox).2.work < inbox.work := by
  obtain ⟨pipe, buffer⟩ := inbox
  unfold receiveLine
  cases extracted : extractLine ends buffer with
  | some cut =>
      obtain ⟨line, rest⟩ := cut
      obtain ⟨rfl, body, stop, rfl, _⟩ := extractLine_some extracted
      simp only [Inbox.work, List.length_append, List.length_singleton]
      omega
  | none =>
      have clean := extractLine_none.mp extracted
      cases pipe with
      | nil =>
          obtain nothing | ⟨item, member, stops⟩ := left
          · exact absurd rfl nothing
          · rw [clean item member] at stops
            cases stops
      | cons byte pipe =>
          have read := readLoop_count ends Nat.one_pos (by decide)
            (List.length_singleton : [byte].length = 1) [] pipe buffer
          rw [List.singleton_append] at read
          simp only [byteAnswers, pollLoop, read]
          split
          · simp only [Inbox.work, List.length_append, List.length_cons, List.length_nil]
            omega
          · cases again : extractLine ends (buffer ++ [byte]) with
            | none =>
                simp only [readLoop, Inbox.work, List.length_append, List.length_cons,
                  List.length_nil]
                omega
            | some cut =>
                have split := congrArg List.length (extractLine_some again).1
                simp only [List.length_append, List.length_singleton] at split
                simp only [Inbox.work, List.length_cons]
                omega

/-- Any reader can be gone on with until nothing is left but an unfinished line. -/
theorem exists_emptied (ends : α → Bool) (inbox : Inbox α) :
    ∃ calls, (receiveLines ends calls inbox).2.pipe = [] ∧
      ∀ item ∈ (receiveLines ends calls inbox).2.buffer, ends item = false := by
  induction work : inbox.work using Nat.strong_induction_on generalizing inbox with
  | _ work ih =>
      subst work
      by_cases left : inbox.pipe ≠ [] ∨ ∃ item ∈ inbox.buffer, ends item = true
      · obtain ⟨calls, emptied⟩ := ih _ (work_byteAnswers left) _ rfl
        exact ⟨byteAnswers :: calls, emptied⟩
      · rw [not_or, not_not] at left
        refine ⟨[], left.1, fun item member => ?_⟩
        by_contra stops
        exact left.2 ⟨item, member, by simpa using stops⟩

/-- Some calls return all lines of a stream, whatever their length. -/
theorem exists_returned_all (stream : Bytes) :
    ∃ calls, returned (receiveLines isNewline calls ⟨stream, []⟩).1 = completeLines stream := by
  obtain ⟨calls, empty, clean⟩ := exists_emptied isNewline ⟨stream, []⟩
  obtain ⟨read, pipe, buffer⟩ := receiveLines_conserved isNewline calls ⟨stream, []⟩
  rw [empty, List.append_nil] at pipe
  have shapes : ∀ line ∈ returned (receiveLines isNewline calls ⟨stream, []⟩).1,
      ∃ body, newline ∉ body ∧ line = body ++ [newline] :=
    fun line member => isLine_newline (isLine_of_returned calls ⟨stream, []⟩ line member)
  have unended : newline ∉ (receiveLines isNewline calls ⟨stream, []⟩).2.buffer :=
    fun member => absurd (clean newline member) (by decide)
  have cut := completeLines_flatten_append
    (receiveLines isNewline calls ⟨stream, []⟩).2.buffer shapes
  rw [← buffer, List.nil_append, ← pipe, completeLines_of_not_mem unended, List.append_nil] at cut
  exact ⟨calls, cut.symm⟩

/-- The receiver returns lines beyond the limit exactly when the stream has some.
It returns none as long as no call follows one that threw for the limit. -/
theorem returned_within_limit_iff (stream : Bytes) :
    ((∀ calls, ∀ line ∈ returned (receiveLines isNewline calls ⟨stream, []⟩).1,
        line.length ≤ maxMessageSize) ↔
      ∀ line ∈ completeLines stream, line.length ≤ maxMessageSize) ∧
    ∀ calls, (∀ outcome ∈ (receiveLines isNewline calls ⟨stream, []⟩).1.dropLast,
        outcome ≠ .error sizeLimitError) →
      ∀ line ∈ returned (receiveLines isNewline calls ⟨stream, []⟩).1,
        line.length ≤ maxMessageSize := by
  refine ⟨⟨fun within line member => ?_, fun short calls line member => ?_⟩, fun calls quiet => ?_⟩
  · obtain ⟨calls, all⟩ := exists_returned_all stream
    exact within calls line (by rwa [all])
  · exact short line ((returned_isPrefix stream calls).subset member)
  · exact returned_within (Nat.zero_le _) quiet

/-- A line of one byte more than the limit, in 256 chunks and a last byte. The first
call throws, and the second returns the line. -/
theorem line_beyond_limit_returned :
    ((receiveLines isNewline
        [⟨[.ready], List.replicate 256 (.count 4096) ++ [.count 1]⟩, ⟨[], []⟩]
        ⟨List.replicate maxMessageSize 65 ++ [newline], []⟩).1 =
      [.error sizeLimitError, .ok (some (List.replicate maxMessageSize 65 ++ [newline]))]) ∧
    maxMessageSize < (List.replicate maxMessageSize (65 : UInt8) ++ [newline]).length := by
  have size : (List.replicate maxMessageSize (65 : UInt8)).length = 256 * 4096 :=
    List.length_replicate
  have clean : ∀ byte ∈ List.replicate maxMessageSize (65 : UInt8), isNewline byte = false := by
    intro byte member
    rw [List.eq_of_mem_replicate member]
    decide
  generalize List.replicate maxMessageSize (65 : UInt8) = body at size clean
  have is : IsLine isNewline (body ++ [newline]) := ⟨body, newline, rfl, by decide, clean⟩
  have beyond : maxMessageSize < (body ++ [newline]).length := by
    rw [List.length_append, size, List.length_singleton]
    decide
  have chunks := readLoop_chunks isNewline (by decide) (Nat.le_refl _) [newline] 256
    [.count 1] size [] clean (by rw [List.nil_append, size]; decide)
  have last := readLoop_count isNewline Nat.one_pos (by decide)
    (List.length_singleton : [newline].length = 1) [] [] body
  rw [if_pos beyond] at last
  have first : receiveLine isNewline
      ⟨[.ready], List.replicate 256 (.count 4096) ++ [.count 1]⟩ ⟨body ++ [newline], []⟩ =
      (.error sizeLimitError, ⟨[], body ++ [newline]⟩) :=
    (receiveLine_ready _ _).trans (chunks.trans last)
  have second := receiveLine_buffered is [] ⟨[], []⟩ []
  rw [List.append_nil] at second
  refine ⟨?_, beyond⟩
  rw [receiveLines, first, receiveLines, second]
  rfl

end Kronos.Ipc
