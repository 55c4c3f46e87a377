import Kronos.Ipc.ProtocolProperties

/-!
# Lines that read as messages

The grammar of the wire protocol beside its decoder. A line is read as a message
when it has the grammar's parts, and two lines are read as one message when they
differ only where the grammar leaves a choice.
-/

set_option autoImplicit false

namespace Kronos.Ipc

/-! ## Hexadecimal digits -/

def lowerDigits : Bytes := text "0123456789abcdef"

def lowerCase (byte : UInt8) : UInt8 := if 65 ≤ byte ∧ byte ≤ 90 then byte + 32 else byte

/-- A digit of either case. -/
def IsHexDigit (byte : UInt8) : Prop := lowerCase byte ∈ lowerDigits

instance : DecidablePred IsHexDigit := fun _ => inferInstanceAs (Decidable (_ ∈ _))

def hexNumber (byte : UInt8) : Nat := lowerDigits.idxOf (lowerCase byte)

/-- The bytes that pairs of digits spell. -/
def spelledBytes : Bytes → Bytes
  | high :: low :: rest => UInt8.ofNat (16 * hexNumber high + hexNumber low) :: spelledBytes rest
  | _ => []

/-- A field behind the kind. -/
structure IsHexField (field : Bytes) : Prop where
  even : field.length % 2 = 0
  digits : ∀ byte ∈ field, IsHexDigit byte

theorem hexValue_eq (byte : UInt8) :
    hexValue byte = if IsHexDigit byte then some (UInt8.ofNat (hexNumber byte)) else none := by
  obtain ⟨⟨number⟩⟩ := byte
  revert number
  decide +kernel

theorem hexNumber_lt {byte : UInt8} (digit : IsHexDigit byte) : hexNumber byte < 16 :=
  List.idxOf_lt_length_of_mem digit

theorem joinNibbles {high low : Nat} (highSmall : high < 16) (lowSmall : low < 16) :
    UInt8.ofNat high <<< 4 ||| UInt8.ofNat low = UInt8.ofNat (16 * high + low) := by
  have all : ∀ high < 16, ∀ low < 16,
      UInt8.ofNat high <<< 4 ||| UInt8.ofNat low = UInt8.ofNat (16 * high + low) := by
    decide +kernel
  exact all high highSmall low lowSmall

theorem IsHexField.of_cons {high low : UInt8} {rest : Bytes}
    (field : IsHexField (high :: low :: rest)) :
    IsHexDigit high ∧ IsHexDigit low ∧ IsHexField rest := by
  obtain ⟨even, digits⟩ := field
  rw [List.forall_mem_cons, List.forall_mem_cons] at digits
  rw [List.length_cons, List.length_cons] at even
  exact ⟨digits.1, digits.2.1, by omega, digits.2.2⟩

theorem hexPairs_of_isHexField {field : Bytes} (is : IsHexField field) :
    hexPairs field = some (spelledBytes field) := by
  induction field using hexPairs.induct with
  | case1 high low rest ih =>
      obtain ⟨highDigit, lowDigit, restIs⟩ := is.of_cons
      simp only [hexPairs, hexValue_eq, highDigit, lowDigit, if_true, ih restIs,
        Option.bind_eq_bind, Option.bind_some, spelledBytes,
        joinNibbles (hexNumber_lt highDigit) (hexNumber_lt lowDigit)]
  | case2 field short =>
      rcases field with _ | ⟨first, _ | ⟨second, rest⟩⟩
      · rfl
      · exact absurd is.even (by simp)
      · exact absurd rfl (short first second rest)

theorem hexDecode_ok_iff {field decoded : Bytes} :
    hexDecode field = .ok decoded ↔ IsHexField field ∧ decoded = spelledBytes field := by
  constructor
  · intro read
    have is : IsHexField field := by
      unfold hexDecode at read
      split at read
      · cases read
      · next even =>
          refine ⟨by omega, fun byte member => ?_⟩
          split at read
          · next pairs =>
              have digit := hexValue_of_hexPairs (by omega) pairs byte member
              by_contra other
              rw [hexValue_eq, if_neg other] at digit
              cases digit
          · cases read
    refine ⟨is, ?_⟩
    rw [hexDecode, if_neg (by simp [is.even]), hexPairs_of_isHexField is] at read
    cases read
    rfl
  · rintro ⟨is, rfl⟩
    rw [hexDecode, if_neg (by simp [is.even]), hexPairs_of_isHexField is]

theorem decodeFields_ok_iff {parts fields : List Bytes} :
    decodeFields parts = .ok fields ↔
      (∀ part ∈ parts, IsHexField part) ∧ fields = parts.map spelledBytes := by
  induction parts generalizing fields with
  | nil =>
      rw [decodeFields, Except.ok.injEq]
      exact ⟨fun same => ⟨List.forall_mem_nil _, same.symm⟩, fun both => both.2.symm⟩
  | cons part parts ih =>
      rw [List.forall_mem_cons, List.map_cons]
      constructor
      · intro read
        unfold decodeFields at read
        split at read
        · cases read
        · next decoded first =>
            split at read
            · cases read
            · next others later =>
                cases read
                obtain ⟨is, rfl⟩ := hexDecode_ok_iff.mp first
                obtain ⟨are, rfl⟩ := ih.mp later
                exact ⟨⟨is, are⟩, rfl⟩
      · rintro ⟨⟨is, are⟩, rfl⟩
        rw [decodeFields, hexDecode_ok_iff.mpr ⟨is, rfl⟩, ih.mpr ⟨are, rfl⟩]

/-- The case of the digits is all that is not seen in the bytes. -/
theorem spelledBytes_eq_iff {left right : Bytes} (leftIs : IsHexField left)
    (rightIs : IsHexField right) :
    spelledBytes left = spelledBytes right ↔ left.map lowerCase = right.map lowerCase := by
  induction left using spelledBytes.induct generalizing right with
  | case1 high low rest ih =>
      obtain ⟨highDigit, lowDigit, restIs⟩ := leftIs.of_cons
      rcases right with _ | ⟨otherHigh, _ | ⟨otherLow, others⟩⟩
      · simp [spelledBytes]
      · exact absurd rightIs.even (by simp)
      · obtain ⟨otherHighDigit, otherLowDigit, othersAre⟩ := rightIs.of_cons
        have highBound := hexNumber_lt highDigit
        have lowBound := hexNumber_lt lowDigit
        have otherHighBound := hexNumber_lt otherHighDigit
        have otherLowBound := hexNumber_lt otherLowDigit
        have pair : UInt8.ofNat (16 * hexNumber high + hexNumber low) =
              UInt8.ofNat (16 * hexNumber otherHigh + hexNumber otherLow) ↔
            lowerCase high = lowerCase otherHigh ∧ lowerCase low = lowerCase otherLow := by
          rw [← UInt8.toNat_inj, UInt8.toNat_ofNat', UInt8.toNat_ofNat',
            ← List.idxOf_inj highDigit, ← List.idxOf_inj lowDigit]
          change _ ↔ hexNumber high = hexNumber otherHigh ∧ hexNumber low = hexNumber otherLow
          omega
        simp only [spelledBytes, List.map_cons, List.cons.injEq, pair, ih restIs othersAre,
          and_assoc]
  | case2 left short =>
      rcases left with _ | ⟨first, _ | ⟨second, rest⟩⟩
      · rcases right with _ | ⟨otherHigh, _ | ⟨otherLow, others⟩⟩
        · simp
        · exact absurd rightIs.even (by simp)
        · simp [spelledBytes]
      · exact absurd leftIs.even (by simp)
      · exact absurd rfl (short first second rest)

theorem map_spelledBytes_eq_iff {left right : List Bytes} (leftAre : ∀ field ∈ left, IsHexField field)
    (rightAre : ∀ field ∈ right, IsHexField field) :
    left.map spelledBytes = right.map spelledBytes ↔
      left.map (·.map lowerCase) = right.map (·.map lowerCase) := by
  induction left generalizing right with
  | nil => simp
  | cons field left ih =>
      cases right with
      | nil => simp
      | cons other right =>
          rw [List.forall_mem_cons] at leftAre rightAre
          simp only [List.map_cons, List.cons.injEq, spelledBytes_eq_iff leftAre.1 rightAre.1,
            ih leftAre.2 rightAre.2]

/-! ## Lines -/

/-- The parts of a line of the protocol, as they are spelt. -/
structure WireLine where
  digits : Bytes
  kind : Bytes
  fields : List Bytes
  digits_ne_nil : digits ≠ []
  isDigit : digits.all Decimal.isDigit = true
  value_lt : Decimal.value digits < 2 ^ 64
  kind_ne_nil : kind ≠ []
  tab_not_mem_kind : tab ∉ kind
  isHexField : ∀ field ∈ fields, IsHexField field

namespace WireLine

/-- The line without its ending. -/
def body (wire : WireLine) : Bytes :=
  protocolVersion ++ tab :: wire.digits ++ tab :: wire.kind ++
    wire.fields.flatMap fun field => tab :: field

/-- The message it is read as. -/
def message (wire : WireLine) : ProtocolMessage where
  requestId := UInt64.ofNat (Decimal.value wire.digits)
  kind := wire.kind
  fields := wire.fields.map spelledBytes

/-- The parts differ in leading zeros of the id and in the case of digits only. -/
structure Alike (left right : WireLine) : Prop where
  digits : Decimal.withoutZeros left.digits = Decimal.withoutZeros right.digits
  kind : left.kind = right.kind
  fields : left.fields.map (·.map lowerCase) = right.fields.map (·.map lowerCase)

def parts (wire : WireLine) : List Bytes :=
  protocolVersion :: wire.digits :: wire.kind :: wire.fields

theorem body_eq (wire : WireLine) : wire.body = [tab].intercalate wire.parts := by
  rw [parts, List.intercalate_cons_cons, List.intercalate_cons_cons, intercalate_cons_map, body]
  simp

theorem tab_not_mem_parts (wire : WireLine) : ∀ part ∈ wire.parts, tab ∉ part := by
  rw [parts, List.forall_mem_cons, List.forall_mem_cons, List.forall_mem_cons]
  refine ⟨by decide, fun member => ?_, wire.tab_not_mem_kind, fun field inside member => ?_⟩
  · exact absurd (List.all_eq_true.mp wire.isDigit tab member) (by decide)
  · exact absurd ((wire.isHexField field inside).digits tab member) (by decide)

theorem splitTabs_wireBody (wire : WireLine) : splitTabs wire.body = wire.parts := by
  rw [splitTabs, body_eq]
  exact List.splitOn_intercalate tab wire.tab_not_mem_parts (List.cons_ne_nil _ _)

theorem fromCharsUInt64_digits (wire : WireLine) :
    fromCharsUInt64 wire.digits = some wire.message.requestId := by
  rw [fromCharsUInt64, Decimal.toNat?, if_pos ⟨wire.digits_ne_nil, wire.isDigit⟩]
  exact if_pos wire.value_lt

end WireLine

/-- One final line feed is removed, and then one final carriage return. -/
def withoutEnding (line : Bytes) : Bytes := removeSuffix carriageReturn (removeSuffix newline line)

theorem decodeMessage_wire {line : Bytes} {wire : WireLine} (is : withoutEnding line = wire.body) :
    decodeMessage line = .ok wire.message := by
  have cut : splitTabs (removeSuffix carriageReturn (removeSuffix newline line)) = wire.parts := by
    rw [← withoutEnding, is, wire.splitTabs_wireBody]
  have fields : decodeFields wire.fields = .ok wire.message.fields :=
    decodeFields_ok_iff.mpr ⟨wire.isHexField, rfl⟩
  simp only [decodeMessage, cut, WireLine.parts, ne_eq, not_true_eq_false, wire.kind_ne_nil,
    or_false, if_false, wire.fromCharsUInt64_digits, fields]
  rfl

theorem exists_wire_of_decodeMessage {line : Bytes} {message : ProtocolMessage}
    (read : decodeMessage line = .ok message) : ∃ wire : WireLine, withoutEnding line = wire.body := by
  unfold decodeMessage at read
  split at read
  · next version id kind rest cut =>
      split at read
      · cases read
      · next fine =>
          rw [not_or, not_not] at fine
          split at read
          · cases read
          · next number parsed =>
              split at read
              · cases read
              · next fields decoded =>
                  obtain ⟨are, _⟩ := decodeFields_ok_iff.mp decoded
                  obtain ⟨nonempty, digits, small⟩ := fromCharsUInt64_eq_some parsed
                  have part : kind ∈ splitTabs (withoutEnding line) := by
                    rw [withoutEnding, cut]
                    simp
                  have clean : tab ∉ kind := Separated.not_mem_of_mem_splitOn part
                  let wire : WireLine :=
                    { digits := id, kind, fields := rest, digits_ne_nil := nonempty
                      isDigit := digits, value_lt := small, kind_ne_nil := fine.2
                      tab_not_mem_kind := clean, isHexField := are }
                  refine ⟨wire, ?_⟩
                  rw [wire.body_eq, WireLine.parts, ← fine.1, ← cut]
                  exact (List.intercalate_splitOn tab).symm
  · cases read

/-- Two lines are read as one message when they are spelt alike. -/
theorem message_eq_iff (left right : WireLine) :
    left.message = right.message ↔ left.Alike right := by
  have ids : UInt64.ofNat (Decimal.value left.digits) = UInt64.ofNat (Decimal.value right.digits) ↔
      Decimal.withoutZeros left.digits = Decimal.withoutZeros right.digits := by
    rw [← Decimal.value_eq_iff left.isDigit right.isDigit, ← UInt64.toNat_inj,
      UInt64.toNat_ofNat_of_lt' left.value_lt, UInt64.toNat_ofNat_of_lt' right.value_lt]
  have fields : left.fields.map spelledBytes = right.fields.map spelledBytes ↔
      left.fields.map (·.map lowerCase) = right.fields.map (·.map lowerCase) :=
    map_spelledBytes_eq_iff left.isHexField right.isHexField
  rw [WireLine.message, WireLine.message, ProtocolMessage.mk.injEq, ids, fields]
  constructor
  · rintro ⟨digits, kind, fields⟩
    exact ⟨digits, kind, fields⟩
  · intro alike
    exact ⟨alike.digits, alike.kind, alike.fields⟩

end Kronos.Ipc
