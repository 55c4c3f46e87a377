import Kronos.Types

/-!
# Hexadecimal fields

`hex_encode`, `hex_value` and the pair loop of `hex_decode`. The log and the
wire protocol each have their own copy of these functions, equal but for the
error texts, so they are modelled once and each codec adds its own texts.
-/

set_option autoImplicit false

namespace Kronos

def hexDigit (nibble : UInt8) : UInt8 :=
  (text "0123456789ABCDEF").getD nibble.toNat 0

def hexEncode (value : Bytes) : Bytes :=
  value.flatMap fun (byte : UInt8) => [hexDigit (byte >>> 4), hexDigit (byte &&& 0x0F)]

/-- `none` stands for the `-1` of the source. -/
def hexValue (value : UInt8) : Option UInt8 :=
  if 48 ≤ value ∧ value ≤ 57 then some (value - 48)
  else if 65 ≤ value ∧ value ≤ 70 then some (value - 65 + 10)
  else if 97 ≤ value ∧ value ≤ 102 then some (value - 97 + 10)
  else none

/-- The loop of `hex_decode` over a field of even length; `none` is its throw. -/
def hexPairs : Bytes → Option Bytes
  | high :: low :: rest => do
      let highValue ← hexValue high
      let lowValue ← hexValue low
      let decoded ← hexPairs rest
      some ((highValue <<< 4 ||| lowValue) :: decoded)
  | _ => some []

/-- One round of the loop at a position with a partner behind it. -/
theorem hexPairs_drop {value : Bytes} {index : Nat} (partner : index + 1 < value.length) :
    hexPairs (value.drop index) =
      (hexValue value[index]).bind fun highValue =>
        (hexValue value[index + 1]).bind fun lowValue =>
          (hexPairs (value.drop (index + 2))).bind fun decoded =>
            some ((highValue <<< 4 ||| lowValue) :: decoded) := by
  have within : index < value.length := by omega
  rw [List.drop_eq_getElem_cons within, List.drop_eq_getElem_cons partner]
  rfl

theorem length_hexEncode (value : Bytes) : (hexEncode value).length = 2 * value.length := by
  induction value with
  | nil => rfl
  | cons byte rest ih =>
      simp only [hexEncode, List.flatMap_cons, List.length_append, List.length_cons,
        List.length_nil] at ih ⊢
      omega

private theorem hexPair_digits (byte : UInt8) :
    (do let highValue ← hexValue (hexDigit (byte >>> 4))
        let lowValue ← hexValue (hexDigit (byte &&& 0x0F))
        some (highValue <<< 4 ||| lowValue)) = some byte := by
  obtain ⟨⟨number⟩⟩ := byte
  revert number
  decide +kernel

theorem hexPairs_hexEncode (value : Bytes) : hexPairs (hexEncode value) = some value := by
  induction value with
  | nil => rfl
  | cons byte rest ih =>
      have pair := hexPair_digits byte
      simp only [hexEncode, Option.bind_eq_bind] at ih pair ⊢
      simp only [List.flatMap_cons, List.cons_append, List.nil_append, hexPairs,
        Option.bind_eq_bind, ih, Option.bind_some]
      cases highCase : hexValue (hexDigit (byte >>> 4)) with
      | none => simp [highCase] at pair
      | some high =>
          cases lowCase : hexValue (hexDigit (byte &&& 0x0F)) with
          | none => simp [highCase, lowCase] at pair
          | some low =>
              simp only [highCase, lowCase, Option.bind_some, Option.some.injEq] at pair ⊢
              rw [pair]

theorem hexValue_of_hexPairs {value decoded : Bytes} (even : value.length % 2 = 0)
    (pairs : hexPairs value = some decoded) : ∀ byte ∈ value, (hexValue byte).isSome := by
  induction value using hexPairs.induct generalizing decoded with
  | case1 high low rest ih =>
      simp only [hexPairs, Option.bind_eq_bind, Option.bind_eq_some_iff] at pairs
      obtain ⟨highValue, highIs, lowValue, lowIs, others, pairs, _⟩ := pairs
      simp only [List.forall_mem_cons, highIs, lowIs, Option.isSome_some, true_and]
      rw [List.length_cons, List.length_cons] at even
      exact ih (by omega) pairs
  | case2 value short =>
      rcases value with _ | ⟨first, _ | ⟨second, rest⟩⟩
      · simp
      · simp at even
      · exact absurd rfl (short first second rest)

/-- Below sixteen the digit is one of the table. -/
theorem hexDigit_mem {nibble : UInt8} (small : nibble < 16) :
    hexDigit nibble ∈ text "0123456789ABCDEF" := by
  have within : nibble.toNat < (text "0123456789ABCDEF").length := UInt8.lt_iff_toNat_lt.mp small
  rw [hexDigit, List.getD_eq_getElem?_getD, List.getElem?_eq_getElem within, Option.getD_some]
  exact List.getElem_mem within

private theorem hexDigit_upper {nibble : UInt8} (small : nibble < 16) :
    (48 ≤ hexDigit nibble ∧ hexDigit nibble ≤ 57) ∨
      (65 ≤ hexDigit nibble ∧ hexDigit nibble ≤ 70) := by
  have upper : ∀ digit ∈ text "0123456789ABCDEF",
      (48 ≤ digit ∧ digit ≤ 57) ∨ (65 ≤ digit ∧ digit ≤ 70) := by
    decide
  exact upper _ (hexDigit_mem small)

private theorem nibbles_small (byte : UInt8) : byte >>> 4 < 16 ∧ byte &&& 0x0F < 16 := by
  have bound := byte.toNat_lt
  constructor
  · rw [UInt8.lt_iff_toNat_lt, UInt8.toNat_shiftRight, Nat.shiftRight_eq_div_pow]
    change byte.toNat / 2 ^ 4 < 16
    omega
  · rw [UInt8.lt_iff_toNat_lt, UInt8.toNat_and]
    exact Nat.lt_of_le_of_lt Nat.and_le_right (by decide)

theorem mem_hexEncode {value : Bytes} {byte : UInt8} (member : byte ∈ hexEncode value) :
    (48 ≤ byte ∧ byte ≤ 57) ∨ (65 ≤ byte ∧ byte ≤ 70) := by
  obtain ⟨source, _, inPair⟩ := List.mem_flatMap.mp member
  simp only [List.mem_cons, List.not_mem_nil, or_false] at inPair
  rcases inPair with rfl | rfl
  · exact hexDigit_upper (nibbles_small source).1
  · exact hexDigit_upper (nibbles_small source).2

end Kronos
