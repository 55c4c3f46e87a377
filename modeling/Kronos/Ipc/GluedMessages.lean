import Kronos.Ipc.ProtocolProperties

/-!
# Lines with something in front of a message

A line that ends in an encoded message but starts with other bytes never reads
as that message. It reads as a message at all only when the glue holds two
tabs and the kind happens to be hexadecimal, which no kind of this protocol is.
-/

set_option autoImplicit false

namespace Kronos.Ipc

theorem mem_hexDecode {value decoded : Bytes} (fine : hexDecode value = .ok decoded) :
    ∀ byte ∈ value, (hexValue byte).isSome := by
  unfold hexDecode at fine
  split at fine
  · cases fine
  · next even =>
      split at fine
      · next pairs => exact hexValue_of_hexPairs (by omega) pairs
      · cases fine

theorem decodeFields_ok {parts fields : List Bytes} (fine : decodeFields parts = .ok fields) :
    fields.length = parts.length ∧ ∀ part ∈ parts, ∀ byte ∈ part, (hexValue byte).isSome := by
  induction parts generalizing fields with
  | nil =>
      cases fine
      simp
  | cons part parts ih =>
      unfold decodeFields at fine
      split at fine
      · cases fine
      · next decoded =>
          split at fine
          · cases fine
          · next later =>
              cases fine
              obtain ⟨length, digits⟩ := ih later
              exact ⟨by simp [length], List.forall_mem_cons.mpr ⟨mem_hexDecode decoded, digits⟩⟩

private theorem version_first (field : Bytes) : 75 ∈ field ++ protocolVersion := by
  have first : (75 : UInt8) ∈ protocolVersion := by decide
  simp [first]

private theorem fromCharsUInt64_version (field : Bytes) :
    fromCharsUInt64 (field ++ protocolVersion) = none := by
  have rejected : ¬ (field ++ protocolVersion ≠ [] ∧
      (field ++ protocolVersion).all Decimal.isDigit) := by
    rintro ⟨_, digits⟩
    exact absurd (List.all_eq_true.mp digits 75 (version_first field)) (by decide)
  rw [fromCharsUInt64, Decimal.toNat?, if_neg rejected]

theorem messageBody_ne_nil (message : ProtocolMessage) : messageBody message ≠ [] := by
  have version : protocolVersion ≠ [] := by decide
  simp [messageBody, messageParts, List.intercalate_cons_cons, version]

/-- What is cut from a line that ends in a message, and how it decodes. -/
private theorem decodeMessage_append {glue : Bytes} {message : ProtocolMessage}
    (valid : ValidKind message.kind) :
    ∃ fields last, glue = Separated.terminated tab fields ++ last ∧
      splitTabs (removeSuffix carriageReturn
          (removeSuffix newline (glue ++ messageBody message ++ [newline]))) =
        fields ++ (last ++ protocolVersion) :: uint64Text message.requestId :: message.kind ::
          message.fields.map hexEncode := by
  obtain ⟨rest, shape⟩ : ∃ rest, messageBody message = protocolVersion ++ tab :: rest := by
    simp only [messageBody, messageParts, List.intercalate_cons_cons, List.append_assoc,
      List.singleton_append]
    exact ⟨_, rfl⟩
  have version : tab ∉ protocolVersion := by decide
  have parts := splitTabs_body valid
  rw [shape, splitTabs, List.splitOn_append_cons_self_of_not_mem version, messageParts,
    List.cons.injEq] at parts
  obtain ⟨fields, last, whole, cut⟩ := Separated.splitOn_glued glue rest version
  have ending : (glue ++ messageBody message).getLast? = (messageBody message).getLast? :=
    List.getLast?_append_of_ne_nil _ (messageBody_ne_nil message)
  have noReturn : (glue ++ messageBody message).getLast? ≠ some carriageReturn := by
    rw [ending]
    exact fun last =>
      carriageReturn_not_mem_messageBody valid (List.mem_of_getLast? last)
  refine ⟨fields, last, whole, ?_⟩
  rw [removeSuffix_concat, removeSuffix, if_neg noReturn, splitTabs, shape, cut, parts.2]

theorem decodeMessage_glued {glue : Bytes} (nonempty : glue ≠ []) {message other : ProtocolMessage}
    (valid : ValidKind message.kind)
    (decoded : decodeMessage (glue ++ messageBody message ++ [newline]) = .ok other) :
    other.fields.length = message.fields.length + 2 ∧
      ∀ byte ∈ message.kind, (hexValue byte).isSome := by
  obtain ⟨fields, last, whole, cut⟩ := @decodeMessage_append glue _ valid
  rw [decodeMessage, cut] at decoded
  rcases fields with _ | ⟨version, _ | ⟨id, _ | ⟨kind, more⟩⟩⟩
  · -- the version itself is prolonged
    have prolonged : last ++ protocolVersion ≠ protocolVersion := by
      rw [ne_eq, List.append_left_eq_self]
      rintro rfl
      exact nonempty whole
    simp [prolonged] at decoded
  · simp only [List.cons_append, List.nil_append, fromCharsUInt64_version] at decoded
    split at decoded <;> cases decoded
  · -- the request id and the kind of the message are read as fields
    simp only [List.cons_append, List.nil_append] at decoded
    split at decoded
    · cases decoded
    · split at decoded
      · cases decoded
      · split at decoded
        · cases decoded
        · next fine =>
            cases decoded
            obtain ⟨length, digits⟩ := decodeFields_ok fine
            exact ⟨by simpa using length, digits message.kind (by simp)⟩
  · -- the version is read as a field, and its first letter is no digit
    simp only [List.cons_append] at decoded
    split at decoded
    · cases decoded
    · split at decoded
      · cases decoded
      · split at decoded
        · cases decoded
        · next fine =>
            have digit := (decodeFields_ok fine).2 (last ++ protocolVersion) (by simp) 75
              (version_first last)
            exact absurd digit (by decide)

/-- Glue in front of a message hides it. -/
theorem decodeMessage_append_eq_ok {glue : Bytes} {message : ProtocolMessage}
    (valid : ValidKind message.kind) :
    decodeMessage (glue ++ messageBody message ++ [newline]) = .ok message ↔ glue = [] := by
  constructor
  · intro decoded
    by_contra nonempty
    have length := (decodeMessage_glued nonempty valid decoded).1
    omega
  · rintro rfl
    exact decodeMessage_body valid

end Kronos.Ipc
