import Kronos.Common.Decimal
import Kronos.Types

/-!
# Whole-field integers

`std::from_chars` applied to a field that has to be consumed whole, as every
caller in the repository does, and the decimal text `std::to_string` and the
stream operators print. No sign is accepted for an unsigned type, and a value
out of the type's range is an error.
-/

set_option autoImplicit false

namespace Kronos

def fromCharsUInt64 (field : Bytes) : Option UInt64 :=
  match Decimal.toNat? field with
  | some number => if number < 2 ^ 64 then some (UInt64.ofNat number) else none
  | none => none

def fromCharsInt32 (field : Bytes) : Option Int32 :=
  match Decimal.toInt? field with
  | some number =>
      if -2 ^ 31 ≤ number ∧ number < 2 ^ 31 then some (Int32.ofInt number) else none
  | none => none

def fromCharsInt64 (field : Bytes) : Option Int64 :=
  match Decimal.toInt? field with
  | some number =>
      if -2 ^ 63 ≤ number ∧ number < 2 ^ 63 then some (Int64.ofInt number) else none
  | none => none

def uint64Text (number : UInt64) : Bytes := Decimal.ofNat number.toNat
def int32Text (number : Int32) : Bytes := Decimal.ofInt number.toInt
def int64Text (number : Int64) : Bytes := Decimal.ofInt number.toInt

@[simp] theorem fromCharsUInt64_uint64Text (number : UInt64) :
    fromCharsUInt64 (uint64Text number) = some number := by
  have bound := number.toNat_lt
  simp [fromCharsUInt64, uint64Text, bound]

theorem fromCharsUInt64_eq_some {field : Bytes} {number : UInt64}
    (read : fromCharsUInt64 field = some number) :
    field ≠ [] ∧ field.all Decimal.isDigit = true ∧ Decimal.value field < 2 ^ 64 := by
  unfold fromCharsUInt64 Decimal.toNat? at read
  split at read
  · next spelt =>
      split at spelt
      · next digits =>
          cases spelt
          split at read
          · next small => exact ⟨digits.1, digits.2, small⟩
          · cases read
      · cases spelt
  · cases read

@[simp] theorem fromCharsInt32_int32Text (number : Int32) :
    fromCharsInt32 (int32Text number) = some number := by
  have lower := number.le_toInt
  have upper := number.toInt_lt
  simp only [fromCharsInt32, int32Text, Decimal.toInt?_ofInt]
  rw [if_pos ⟨lower, upper⟩, Int32.ofInt_toInt]

@[simp] theorem fromCharsInt64_int64Text (number : Int64) :
    fromCharsInt64 (int64Text number) = some number := by
  have lower := number.le_toInt
  have upper := number.toInt_lt
  simp only [fromCharsInt64, int64Text, Decimal.toInt?_ofInt]
  rw [if_pos ⟨lower, upper⟩, Int64.ofInt_toInt]

/-- Printed numbers consist of digits and minus signs. -/
def NumberByte (byte : UInt8) : Prop := byte = 45 ∨ Decimal.isDigit byte = true

theorem numberByte_of_mem_uint64Text {number : UInt64} {byte : UInt8}
    (member : byte ∈ uint64Text number) : NumberByte byte :=
  .inr (Decimal.isDigit_of_mem_ofNat member)

theorem numberByte_of_mem_int32Text {number : Int32} {byte : UInt8}
    (member : byte ∈ int32Text number) : NumberByte byte :=
  Decimal.mem_ofInt member

theorem numberByte_of_mem_int64Text {number : Int64} {byte : UInt8}
    (member : byte ∈ int64Text number) : NumberByte byte :=
  Decimal.mem_ofInt member

end Kronos
