import Kronos.Ipc.FifoProperties
import Kronos.Ipc.GluedMessages
import Kronos.Wal.AppendProperties

/-!
# Failed sends

A send that fails part way leaves the bytes it wrote in the pipe, and the next
send continues on the same line. Messages are delivered exactly as long as none
is sent whole behind a torn one.
-/

set_option autoImplicit false

namespace Kronos.Ipc

variable {α : Type}

/-! ## What a send leaves in the pipe -/

/-- How the loop goes on after an answer: with fewer bytes, with the same ones, or not at all. -/
def WriteAnswer.progress : WriteAnswer → Wal.WriteAnswer
  | .wrote 0 => .failed
  | .wrote count => .wrote count
  | .interrupted => .interrupted
  | .wouldBlock polls =>
      match pollLoop polls with
      | .ready | .unavailable => .interrupted
      | _ => .failed
  | .failed => .failed

/-- How many bytes of a line `::write` takes before the loop ends. -/
def taken (answers : List WriteAnswer) (size : Nat) : Nat :=
  Wal.taken (answers.map WriteAnswer.progress) size

theorem taken_le (answers : List WriteAnswer) (size : Nat) : taken answers size ≤ size :=
  Wal.taken_le _ size

/-- The loop appends what was taken, and returns normally when that is everything. -/
theorem sendLoop_spec (answers : List WriteAnswer) (remaining pipe : List α) :
    (sendLoop answers remaining pipe).2 =
        pipe ++ remaining.take (taken answers remaining.length) ∧
      ((sendLoop answers remaining pipe).1 = .ok () ↔
        taken answers remaining.length = remaining.length) := by
  induction answers generalizing remaining pipe with
  | nil => cases remaining <;> simp [sendLoop, taken, Wal.taken]
  | cons answer answers ih =>
      cases remaining with
      | nil =>
          have bound := taken_le (answer :: answers) 0
          simp only [sendLoop, List.length_nil, List.take_nil, List.append_nil, true_and, true_iff]
          omega
      | cons first rest =>
          have stops : answer.progress = .failed → taken (answer :: answers) (rest.length + 1) = 0 :=
            fun failed => by simp [taken, failed, Wal.taken]
          have again : answer.progress = .interrupted →
              taken (answer :: answers) (rest.length + 1) = taken answers (rest.length + 1) :=
            fun interrupted => by simp [taken, interrupted, Wal.taken]
          rw [List.length_cons]
          rcases answer with (_ | count) | _ | polls | _
          · simp [sendLoop, stops rfl]
          · have later := ih ((first :: rest).drop (count + 1))
              (pipe ++ (first :: rest).take (count + 1))
            have bound := taken_le answers ((first :: rest).length - (count + 1))
            have total : taken (.wrote (count + 1) :: answers) (first :: rest).length =
                min (count + 1) (first :: rest).length +
                  taken answers ((first :: rest).length - (count + 1)) := rfl
            rw [List.length_drop] at later
            rw [sendLoop, ← List.length_cons, total, later.1, later.2, Separated.take_min_append]
            · refine ⟨by simp, ?_⟩
              omega
            · simp
            · simp
          · rw [sendLoop, again rfl]
            · exact ih (first :: rest) pipe
            · simp
          · unfold sendLoop
            split
            · next up =>
                rw [again (by simp [WriteAnswer.progress, up])]
                exact ih (first :: rest) pipe
            · next up =>
                rw [again (by simp [WriteAnswer.progress, up])]
                exact ih (first :: rest) pipe
            · next down => simp [stops (by simp [WriteAnswer.progress, down])]
            · next notReady notUnavailable _ =>
                have failed : (WriteAnswer.wouldBlock polls).progress = .failed := by
                  cases down : pollLoop polls <;> simp_all [WriteAnswer.progress]
                simp [stops failed]
          · simp [sendLoop, stops rfl]

/-! ## Sequences of sends -/

/-- One call of `Transport::send`. -/
structure SendCall where
  message : ProtocolMessage
  answers : List WriteAnswer := []
  deriving DecidableEq

/-- The unread bytes of a pipe after a sequence of calls. -/
def sendAll (calls : List SendCall) (pipe : Bytes) : Bytes :=
  calls.foldl (fun pipe call => (send call.answers call.message pipe).2) pipe

/-- The call returns normally. Its outcome does not depend on the pipe. -/
def SendCall.returns (call : SendCall) : Bool := (send call.answers call.message []).1.isOk

def returnedMessages (calls : List SendCall) : List ProtocolMessage :=
  (calls.filter SendCall.returns).map SendCall.message

def SendCall.line (call : SendCall) : Bytes := messageBody call.message ++ [newline]

/-- The call reaches the write loop. -/
def SendCall.Accepted (call : SendCall) : Prop :=
  ValidKind call.message.kind ∧ call.line.length ≤ maxMessageSize

/-- The whole line gets into the pipe. -/
def SendCall.Whole (call : SendCall) : Prop :=
  call.Accepted ∧ taken call.answers call.line.length = call.line.length

/-- Some bytes of the line get into the pipe and the rest does not. -/
def SendCall.Torn (call : SendCall) : Prop :=
  call.Accepted ∧ 0 < taken call.answers call.line.length ∧
    taken call.answers call.line.length < call.line.length

instance (call : SendCall) : Decidable call.Accepted := inferInstanceAs (Decidable (_ ∧ _))
instance (call : SendCall) : Decidable call.Whole := inferInstanceAs (Decidable (_ ∧ _))
instance (call : SendCall) : Decidable call.Torn := inferInstanceAs (Decidable (_ ∧ _ ∧ _))

/-- The bytes a call puts into the pipe. -/
def SendCall.piece (call : SendCall) : Bytes :=
  if call.Accepted then call.line.take (taken call.answers call.line.length) else []

theorem send_spec (call : SendCall) (pipe : Bytes) :
    (send call.answers call.message pipe).2 = pipe ++ call.piece ∧
      ((send call.answers call.message pipe).1 = .ok () ↔ call.Whole) := by
  by_cases valid : ValidKind call.message.kind
  · rw [send, encodeMessage_eq valid]
    change (sendLine call.answers call.line pipe).2 = _ ∧
      ((sendLine call.answers call.line pipe).1 = .ok () ↔ _)
    unfold sendLine
    split
    · next large =>
        have rejected : ¬ call.Accepted := fun accepted => absurd accepted.2 (by omega)
        simp [SendCall.piece, SendCall.Whole, rejected]
    · next fits =>
        have accepted : call.Accepted := ⟨valid, by omega⟩
        have loop := sendLoop_spec call.answers call.line pipe
        rw [SendCall.piece, if_pos accepted]
        exact ⟨loop.1, loop.2.trans ⟨fun all => ⟨accepted, all⟩, fun whole => whole.2⟩⟩
  · have rejected : ¬ call.Accepted := fun accepted => valid accepted.1
    cases encoded : encodeMessage call.message with
    | error what => simp [send, encoded, SendCall.piece, SendCall.Whole, rejected]
    | ok line => exact absurd (encodeMessage_ok_iff.mp encoded).1 valid

theorem sendAll_eq (calls : List SendCall) (pipe : Bytes) :
    sendAll calls pipe = pipe ++ calls.flatMap SendCall.piece := by
  induction calls generalizing pipe with
  | nil => simp [sendAll]
  | cons call calls ih =>
      have step : sendAll (call :: calls) pipe =
        sendAll calls (send call.answers call.message pipe).2 := rfl
      rw [step, ih, (send_spec call pipe).1, List.append_assoc, List.flatMap_cons]

theorem returns_iff (call : SendCall) : call.returns = true ↔ call.Whole := by
  rw [SendCall.returns, ← (send_spec call []).2]
  cases (send call.answers call.message []).1 <;> simp [Except.isOk, Except.toBool]

theorem SendCall.Whole.piece_eq {call : SendCall} (whole : call.Whole) :
    call.piece = call.line := by
  rw [piece, if_pos whole.1, whole.2, List.take_length]

/-- The bytes of a call that is not whole do not reach the newline of its line. -/
theorem newline_not_mem_piece {call : SendCall} (partly : ¬ call.Whole) :
    newline ∉ call.piece := by
  unfold SendCall.piece
  split
  · next accepted =>
      have bound := taken_le call.answers call.line.length
      have short : taken call.answers call.line.length < call.line.length :=
        lt_of_le_of_ne bound fun all => partly ⟨accepted, all⟩
      exact Separated.not_mem_take_of_lt (newline_not_mem_messageBody accepted.1) short
  · simp

theorem piece_eq_nil_iff {call : SendCall} (partly : ¬ call.Whole) :
    call.piece = [] ↔ ¬ call.Torn := by
  have bound := taken_le call.answers call.line.length
  have size : call.line.length = (messageBody call.message).length + 1 := by
    simp [SendCall.line]
  by_cases accepted : call.Accepted
  · have short : taken call.answers call.line.length ≠ call.line.length :=
      fun all => partly ⟨accepted, all⟩
    rw [SendCall.piece, if_pos accepted, List.take_eq_nil_iff, SendCall.Torn,
      ← List.length_eq_zero_iff]
    constructor
    · intro nothing torn
      omega
    · intro notTorn
      by_contra some
      rw [not_or] at some
      exact notTorn ⟨accepted, by omega, by omega⟩
  · simp [SendCall.piece, SendCall.Torn, accepted]

/-! ## The lines the reader sees -/

/-- The messages sent whole, each behind the pieces it is glued to. -/
def glued : Bytes → List SendCall → List (Bytes × ProtocolMessage)
  | _, [] => []
  | glue, call :: calls =>
      if call.Whole then (glue, call.message) :: glued [] calls
      else glued (glue ++ call.piece) calls

theorem completeLines_pieces (calls : List SendCall) {glue : Bytes} (clean : newline ∉ glue) :
    completeLines (glue ++ calls.flatMap SendCall.piece) =
      (glued glue calls).map fun line => line.1 ++ messageBody line.2 ++ [newline] := by
  induction calls generalizing glue with
  | nil => simpa [glued] using completeLines_of_not_mem clean
  | cons call calls ih =>
      rw [List.flatMap_cons, glued]
      split
      · next whole =>
          have line : ∀ line ∈ [glue ++ messageBody call.message ++ [newline]],
              ∃ body, newline ∉ body ∧ line = body ++ [newline] := by
            rw [List.forall_mem_singleton]
            refine ⟨_, ?_, rfl⟩
            simp [clean, newline_not_mem_messageBody whole.1.1]
          have regroup : glue ++ (call.piece ++ calls.flatMap SendCall.piece) =
              [glue ++ messageBody call.message ++ [newline]].flatten ++
                ([] ++ calls.flatMap SendCall.piece) := by
            simp [whole.piece_eq, SendCall.line]
          rw [regroup, completeLines_flatten_append _ line, ih List.not_mem_nil]
          rfl
      · next partly =>
          rw [← List.append_assoc, ih]
          simp [clean, newline_not_mem_piece partly]

theorem glued_messages (calls : List SendCall) (glue : Bytes) :
    (glued glue calls).map Prod.snd = returnedMessages calls := by
  induction calls generalizing glue with
  | nil => rfl
  | cons call calls ih =>
      rw [glued]
      split
      · next whole =>
          simp only [List.map_cons, ih, returnedMessages, (returns_iff call).mpr whole,
            List.filter_cons_of_pos]
      · next partly =>
          have throws : ¬ call.returns = true := fun returns => partly ((returns_iff call).mp returns)
          rw [ih, returnedMessages, returnedMessages, List.filter_cons_of_neg throws]

theorem validKind_glued {calls : List SendCall} {glue : Bytes} {line : Bytes × ProtocolMessage}
    (member : line ∈ glued glue calls) : ValidKind line.2.kind := by
  induction calls generalizing glue with
  | nil => exact absurd member List.not_mem_nil
  | cons call calls ih =>
      rw [glued] at member
      split at member
      · next whole =>
          rcases List.mem_cons.mp member with rfl | later
          · exact whole.1.1
          · exact ih later
      · exact ih member

/-- No message is sent whole behind a torn one. -/
def NothingBehindTorn (calls : List SendCall) : Prop :=
  calls.Pairwise fun earlier later => earlier.Torn → ¬ later.Whole

instance (calls : List SendCall) : Decidable (NothingBehindTorn calls) :=
  inferInstanceAs (Decidable (List.Pairwise _ _))

/-- No message is behind glue when there is none to begin with, or no message at
all, and nothing is sent behind a torn one. -/
theorem glued_clean_iff (calls : List SendCall) (glue : Bytes) :
    (∀ line ∈ glued glue calls, line.1 = []) ↔
      (glue = [] ∨ ∀ call ∈ calls, ¬ call.Whole) ∧ NothingBehindTorn calls := by
  induction calls generalizing glue with
  | nil => simp [glued, NothingBehindTorn]
  | cons call calls ih =>
      rw [glued, NothingBehindTorn, List.pairwise_cons]
      split
      · next whole =>
          have notTorn : ¬ call.Torn := fun torn => by
            have short := torn.2.2
            have all := whole.2
            omega
          rw [List.forall_mem_cons, ih, List.forall_mem_cons]
          simp [whole, notTorn, NothingBehindTorn]
      · next partly =>
          rw [ih, List.forall_mem_cons, List.append_eq_nil_iff, piece_eq_nil_iff partly]
          simp only [partly, not_false_eq_true, true_and, NothingBehindTorn]
          by_cases torn : call.Torn
          · simp only [torn, not_true_eq_false, and_false, false_or, forall_const]
            tauto
          · simp [torn]

/-- What is asked of a use of the transport: each message whose send returned
arrives as a line that reads back as the message, in the order of the sends. -/
def Delivered (calls : List SendCall) : Prop :=
  ∃ lines : List Bytes, lines.Sublist (completeLines (sendAll calls [])) ∧
    lines.map decodeMessage = (returnedMessages calls).map .ok

/-- Messages are delivered exactly as long as none is sent whole behind a torn one. -/
theorem delivered_iff_nothingBehindTorn (calls : List SendCall) :
    Delivered calls ↔ NothingBehindTorn calls := by
  have stream : completeLines (sendAll calls []) =
      (glued [] calls).map fun line => line.1 ++ messageBody line.2 ++ [newline] := by
    rw [sendAll_eq, completeLines_pieces calls List.not_mem_nil]
  have clean : NothingBehindTorn calls ↔ ∀ line ∈ glued [] calls, line.1 = [] := by
    rw [glued_clean_iff]
    simp
  rw [Delivered, stream, clean, ← glued_messages calls []]
  constructor
  · rintro ⟨lines, sublist, decoded⟩ line member
    -- there are as many lines as messages, so each line has to be its own message
    have all := sublist.eq_of_length (by simpa using congrArg List.length decoded)
    rw [all, List.map_map, List.map_map] at decoded
    have same := List.map_inj_left.mp decoded line member
    exact (decodeMessage_append_eq_ok (validKind_glued member)).mp same
  · intro none
    refine ⟨_, .refl _, ?_⟩
    rw [List.map_map, List.map_map]
    refine List.map_congr_left fun line member => ?_
    exact (decodeMessage_append_eq_ok (validKind_glued member)).mpr (none line member)

/-- A long reply, of more bytes than a pipe takes all or none of. It is cut when the pipe
is full, and the reply to the next request follows. -/
def tornSends : List SendCall :=
  [⟨⟨1, text "OK", [List.replicate 2100 97]⟩, [.wrote 4096, .wouldBlock [.interrupted, .timedOut]]⟩,
    ⟨⟨2, text "OK", [text "submitted job 3"]⟩, []⟩]

/-- The second send returns, and its reply is never read. -/
theorem not_delivered_tornSends :
    returnedMessages tornSends = [⟨2, text "OK", [text "submitted job 3"]⟩] ∧
      ¬ Delivered tornSends := by
  refine ⟨by decide +kernel, ?_⟩
  rintro ⟨lines, sublist, decoded⟩
  have count : (completeLines (sendAll tornSends [])).length = (returnedMessages tornSends).length := by
    decide +kernel
  have all := sublist.eq_of_length (by simpa [count] using congrArg List.length decoded)
  rw [all] at decoded
  exact absurd decoded (by decide +kernel)

end Kronos.Ipc
