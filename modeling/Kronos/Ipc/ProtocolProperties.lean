import Kronos.Common.Separated
import Kronos.Ipc.Protocol

/-!
# An encoded message reads back

No part of an encoded message holds a tab or a newline, so its line splits into
the parts it was printed from. A line that has something in front of an encoded
message, or lacks its beginning, is no message.
-/

set_option autoImplicit false

namespace Kronos.Ipc

/-- The parts of a line, as they are separated by tabs. -/
def messageParts (message : ProtocolMessage) : List Bytes :=
  protocolVersion :: uint64Text message.requestId :: message.kind :: message.fields.map hexEncode

/-- A line without its newline. -/
def messageBody (message : ProtocolMessage) : Bytes := [tab].intercalate (messageParts message)

/-- The kinds `encode_message` accepts. -/
def ValidKind (kind : Bytes) : Prop := kind ≠ [] ∧ ∀ byte ∈ kind, byte ∉ reservedBytes

instance (kind : Bytes) : Decidable (ValidKind kind) := inferInstanceAs (Decidable (_ ∧ _))

theorem intercalate_cons_map (first : Bytes) (fields : List Bytes) :
    [tab].intercalate (first :: fields) = first ++ fields.flatMap fun field => tab :: field := by
  induction fields generalizing first with
  | nil => simp
  | cons field rest ih => rw [List.intercalate_cons_cons, ih, List.flatMap_cons]; simp

theorem encodeMessage_eq {message : ProtocolMessage} (valid : ValidKind message.kind) :
    encodeMessage message = .ok (messageBody message ++ [newline]) := by
  have fine : ¬ (message.kind = [] ∨ ∃ byte ∈ message.kind, byte ∈ reservedBytes) := by
    rintro (empty | ⟨byte, inside, bad⟩)
    · exact valid.1 empty
    · exact valid.2 byte inside bad
  rw [encodeMessage, if_neg fine, messageBody, messageParts, List.intercalate_cons_cons,
    List.intercalate_cons_cons, intercalate_cons_map, List.flatMap_map]
  simp

theorem encodeMessage_ok_iff {message : ProtocolMessage} {line : Bytes} :
    encodeMessage message = .ok line ↔
      ValidKind message.kind ∧ line = messageBody message ++ [newline] := by
  by_cases valid : ValidKind message.kind
  · rw [encodeMessage_eq valid, Except.ok.injEq]
    exact ⟨fun same => ⟨valid, same.symm⟩, fun both => both.2.symm⟩
  · have bad : message.kind = [] ∨ ∃ byte ∈ message.kind, byte ∈ reservedBytes := by
      by_contra fine
      rw [not_or] at fine
      exact valid ⟨fine.1, fun byte inside reserved => fine.2 ⟨byte, inside, reserved⟩⟩
    rw [encodeMessage, if_pos bad]
    simp [valid]

theorem reserved_not_mem_uint64Text (number : UInt64) :
    ∀ byte ∈ reservedBytes, byte ∉ uint64Text number := by
  intro byte reserved member
  have digit := numberByte_of_mem_uint64Text member
  clear member
  unfold NumberByte at digit
  simp only [reservedBytes, List.mem_cons, List.not_mem_nil, or_false] at reserved
  rcases reserved with rfl | rfl | rfl
  all_goals
    revert digit
    decide

theorem reserved_not_mem_hexEncode (value : Bytes) :
    ∀ byte ∈ reservedBytes, byte ∉ hexEncode value := by
  intro byte reserved member
  have digit := mem_hexEncode member
  clear member
  simp only [reservedBytes, List.mem_cons, List.not_mem_nil, or_false] at reserved
  rcases reserved with rfl | rfl | rfl
  all_goals
    revert digit
    decide

theorem reserved_not_mem_parts {message : ProtocolMessage} (valid : ValidKind message.kind) :
    ∀ byte ∈ reservedBytes, ∀ part ∈ messageParts message, byte ∉ part := by
  intro byte reserved part member
  simp only [messageParts, List.mem_cons, List.mem_map] at member
  rcases member with rfl | rfl | rfl | ⟨field, _, rfl⟩
  · simp only [reservedBytes, List.mem_cons, List.not_mem_nil, or_false] at reserved
    rcases reserved with rfl | rfl | rfl
    all_goals decide
  · exact reserved_not_mem_uint64Text _ byte reserved
  · exact fun inside => valid.2 byte inside reserved
  · exact reserved_not_mem_hexEncode field byte reserved

theorem splitTabs_body {message : ProtocolMessage} (valid : ValidKind message.kind) :
    splitTabs (messageBody message) = messageParts message := by
  refine List.splitOn_intercalate tab ?_ (by simp [messageParts])
  exact reserved_not_mem_parts valid tab (by decide)

theorem newline_not_mem_messageBody {message : ProtocolMessage} (valid : ValidKind message.kind) :
    newline ∉ messageBody message :=
  Separated.not_mem_intercalate (by decide) (reserved_not_mem_parts valid newline (by decide))

theorem carriageReturn_not_mem_messageBody {message : ProtocolMessage}
    (valid : ValidKind message.kind) : carriageReturn ∉ messageBody message :=
  Separated.not_mem_intercalate (by decide)
    (reserved_not_mem_parts valid carriageReturn (by decide))

theorem removeSuffix_concat (byte : UInt8) (line : Bytes) :
    removeSuffix byte (line ++ [byte]) = line := by
  simp [removeSuffix]

theorem removeSuffix_of_not_mem {byte : UInt8} {line : Bytes} (absent : byte ∉ line) :
    removeSuffix byte line = line := by
  refine if_neg fun last => ?_
  exact absent (List.mem_of_getLast? last)

@[simp] theorem hexDecode_hexEncode (value : Bytes) : hexDecode (hexEncode value) = .ok value := by
  simp [hexDecode, length_hexEncode, hexPairs_hexEncode]

theorem decodeFields_map_hexEncode (fields : List Bytes) :
    decodeFields (fields.map hexEncode) = .ok fields := by
  induction fields with
  | nil => rfl
  | cons field rest ih => simp [decodeFields, ih]

theorem decodeMessage_body {message : ProtocolMessage} (valid : ValidKind message.kind) :
    decodeMessage (messageBody message ++ [newline]) = .ok message := by
  rw [decodeMessage, removeSuffix_concat,
    removeSuffix_of_not_mem (carriageReturn_not_mem_messageBody valid), splitTabs_body valid]
  simp [messageParts, valid.1, decodeFields_map_hexEncode]

/-! ## Framing -/

/-- The complete lines of a stream, each with its newline. -/
def completeLines (stream : Bytes) : List Bytes :=
  ((stream.splitOn newline).dropLast).map (· ++ [newline])

theorem completeLines_terminated {bodies : List Bytes} {rest : Bytes}
    (clean : ∀ body ∈ bodies, newline ∉ body) (restClean : newline ∉ rest) :
    completeLines (Separated.terminated newline bodies ++ rest) =
      bodies.map (· ++ [newline]) := by
  rw [completeLines, Separated.splitOn_terminated_append clean restClean, List.dropLast_concat]

/-- The codec of the wire protocol: exactly the messages with a valid kind are
accepted, each as one line that reads back as the message; different messages
have different lines; and a stream of encoded messages splits into just these. -/
theorem message_codec :
    (∀ message, (∃ line, encodeMessage message = .ok line) ↔
      message.kind ≠ [] ∧ tab ∉ message.kind ∧ carriageReturn ∉ message.kind ∧
        newline ∉ message.kind) ∧
    (∀ message line, encodeMessage message = .ok line →
      decodeMessage line = .ok message ∧ ∃ body, newline ∉ body ∧ line = body ++ [newline]) ∧
    (∀ first second line, encodeMessage first = .ok line → encodeMessage second = .ok line →
      first = second) ∧
    ∀ messages lines, List.Forall₂ (fun message line => encodeMessage message = .ok line)
        messages lines →
      completeLines lines.flatten = lines ∧
        (completeLines lines.flatten).map decodeMessage = messages.map .ok := by
  refine ⟨fun message => ?_, fun message line encoded => ?_, fun first second line => ?_,
    fun messages lines encoded => ?_⟩
  · simp only [encodeMessage_ok_iff, exists_and_left, exists_eq, and_true, ValidKind]
    refine and_congr_right fun _ => ⟨fun fine => ?_, ?_⟩
    · exact ⟨fun bad => fine _ bad (by decide), fun bad => fine _ bad (by decide),
        fun bad => fine _ bad (by decide)⟩
    · rintro ⟨noTab, noReturn, noNewline⟩ byte inside reserved
      simp only [reservedBytes, List.mem_cons, List.not_mem_nil, or_false] at reserved
      rcases reserved with rfl | rfl | rfl
      · exact noTab inside
      · exact noReturn inside
      · exact noNewline inside
  · obtain ⟨valid, rfl⟩ := encodeMessage_ok_iff.mp encoded
    exact ⟨decodeMessage_body valid, messageBody message, newline_not_mem_messageBody valid, rfl⟩
  · intro encoded again
    obtain ⟨valid, same⟩ := encodeMessage_ok_iff.mp encoded
    obtain ⟨validSecond, sameSecond⟩ := encodeMessage_ok_iff.mp again
    have decoded := decodeMessage_body valid
    rw [← same, sameSecond, decodeMessage_body validSecond, Except.ok.injEq] at decoded
    exact decoded.symm
  · have shapes : lines = messages.map (fun message => messageBody message ++ [newline]) ∧
        ∀ message ∈ messages, ValidKind message.kind := by
      induction encoded with
      | nil => exact ⟨rfl, nofun⟩
      | cons head _ ih =>
          obtain ⟨valid, rfl⟩ := encodeMessage_ok_iff.mp head
          obtain ⟨rfl, rest⟩ := ih
          exact ⟨rfl, List.forall_mem_cons.mpr ⟨valid, rest⟩⟩
    obtain ⟨rfl, valid⟩ := shapes
    have clean : ∀ body ∈ messages.map messageBody, newline ∉ body := by
      intro body member
      obtain ⟨message, inside, rfl⟩ := List.mem_map.mp member
      exact newline_not_mem_messageBody (valid message inside)
    have whole := completeLines_terminated clean (List.not_mem_nil (a := newline))
    have stream : (messages.map fun message => messageBody message ++ [newline]).flatten =
        Separated.terminated newline (messages.map messageBody) ++ [] := by
      simp [Separated.terminated, List.flatMap, Function.comp_def]
    rw [stream, whole, List.map_map, List.map_map]
    refine ⟨rfl, List.map_congr_left fun message inside => ?_⟩
    exact decodeMessage_body (valid message inside)

theorem message_codec_cancel :
    encodeMessage ⟨7, text "REQUEST", [text "cancel", []]⟩ =
        .ok (text "KIPC1\t7\tREQUEST\t63616E63656C\t\n") ∧
      decodeMessage (text "KIPC1\t7\tREQUEST\t63616E63656C\t\n") =
        .ok ⟨7, text "REQUEST", [text "cancel", []]⟩ := by
  have encoded : encodeMessage ⟨7, text "REQUEST", [text "cancel", []]⟩ =
      .ok (text "KIPC1\t7\tREQUEST\t63616E63656C\t\n") := by decide +kernel
  exact ⟨encoded, (message_codec.2.1 _ _ encoded).1⟩

end Kronos.Ipc
