import Kronos.Common.ShiftRegister
import Kronos.Wal.CodecProperties

/-!
# What the checksum detects

The checksum is a shift register that the bytes are fed into, and its polynomial
has the highest bit set. So it tells texts apart that differ within four bytes,
however long they are, and its text tells checksums apart.
-/

set_option autoImplicit false

namespace Kronos.Wal

open ShiftRegister

/-! ## The register -/

def polynomial : BitVec 32 := 0xEDB88320

/-- The mask of the source adds the polynomial when the low bit is set. -/
theorem toBitVec_crc32Bit (checksum : UInt32) :
    (crc32Bit checksum).toBitVec = turn polynomial checksum.toBitVec := by
  have low : (checksum &&& 1).toBitVec =
      BitVec.setWidth 32 (BitVec.ofBool (checksum.toBitVec.getLsbD 0)) := by
    rw [UInt32.toBitVec_and]
    exact BitVec.and_one_eq_setWidth_ofBool_getLsbD
  rw [crc32Bit, UInt32.toBitVec_xor, UInt32.toBitVec_and, UInt32.toBitVec_sub, low, turn]
  cases checksum.toBitVec.getLsbD 0 with
  | false => simp
  | true => simp [polynomial]

theorem toBitVec_crc32Byte (checksum : UInt32) (byte : UInt8) :
    (crc32Byte checksum byte).toBitVec = feed polynomial checksum.toBitVec byte.toBitVec := by
  have turns : Function.Semiconj UInt32.toBitVec crc32Bit (turn polynomial) := toBitVec_crc32Bit
  rw [crc32Byte, turns.iterate_right 8 _, UInt32.toBitVec_xor, UInt8.toBitVec_toUInt32]
  rfl

theorem toBitVec_foldl_crc32Byte (value : Bytes) (checksum : UInt32) :
    (value.foldl crc32Byte checksum).toBitVec =
      (value.map UInt8.toBitVec).foldl (feed polynomial) checksum.toBitVec := by
  induction value generalizing checksum with
  | nil => rfl
  | cons byte value ih =>
      rw [List.foldl_cons, ih, toBitVec_crc32Byte]
      rfl

/-- Texts of one length with the same checksum do not differ within four bytes. -/
theorem eq_of_crc32 {left right : Bytes} {start count : Nat} (length : left.length = right.length)
    (few : count ≤ 4) (within : DifferWithin start count left right)
    (same : crc32 left = crc32 right) : left = right := by
  rw [crc32, crc32, UInt32.xor_left_inj, ← UInt32.toBitVec_inj, toBitVec_foldl_crc32Byte,
    toBitVec_foldl_crc32Byte] at same
  have tapped : polynomial.msb = true := by decide
  have bytes : left.map UInt8.toBitVec = right.map UInt8.toBitVec :=
    eq_of_foldl_feed tapped (by simpa using length) (by omega) (within.map UInt8.toBitVec) same
  exact List.map_injective_iff.mpr (fun _ _ => UInt8.toBitVec_inj.mp) bytes

theorem crc32_append_cons_injective (before after : Bytes) :
    Function.Injective fun byte => crc32 (before ++ byte :: after) := by
  intro left right same
  have within : DifferWithin before.length 1 (before ++ left :: after) (before ++ right :: after) :=
    @differWithin_append _ before after [left] [right] rfl
  have bytes := eq_of_crc32 (by simp) (by decide) within same
  simpa using bytes

/-! ## Its text -/

private theorem hexDigit_injective {left right : UInt32}
    (same : hexDigit (left &&& 0x0F).toUInt8 = hexDigit (right &&& 0x0F).toUInt8) :
    left.toNat % 16 = right.toNat % 16 := by
  have digits : ∀ left right : Fin 16,
      hexDigit (UInt8.ofNat left) = hexDigit (UInt8.ofNat right) → left = right := by
    decide +kernel
  have nibble : ∀ checksum : UInt32, (checksum &&& 0x0F).toUInt8 =
      UInt8.ofNat (⟨checksum.toNat % 16, Nat.mod_lt _ (by decide)⟩ : Fin 16) := by
    intro checksum
    apply UInt8.toNat_inj.mp
    rw [UInt32.toNat_toUInt8, UInt32.toNat_and, show (0x0F : UInt32).toNat = 2 ^ 4 - 1 from rfl,
      Nat.and_two_pow_sub_one_eq_mod]
    simp
  rw [nibble, nibble] at same
  exact congrArg Fin.val (digits _ _ same)

/-- The checksum can be read off its text. -/
theorem crc32_of_checksumText {left right : Bytes} (same : checksumText left = checksumText right) :
    crc32 left = crc32 right := by
  have digits := List.map_inj_left.mp same
  have places : ∀ place < 8, (crc32 left).toNat / 2 ^ (4 * place) % 2 ^ 4 =
      (crc32 right).toNat / 2 ^ (4 * place) % 2 ^ 4 := by
    intro place small
    have shift : UInt32.ofNat (4 * place) ∈ ([28, 24, 20, 16, 12, 8, 4, 0] : List UInt32) := by
      interval_cases place <;> decide
    have digit := hexDigit_injective (digits _ shift)
    have bound : 4 * place < 32 := by omega
    rw [UInt32.toNat_shiftRight, UInt32.toNat_shiftRight, UInt32.toNat_ofNat',
      Nat.mod_eq_of_lt (by omega : 4 * place < 2 ^ 32), Nat.mod_eq_of_lt bound,
      Nat.shiftRight_eq_div_pow, Nat.shiftRight_eq_div_pow] at digit
    exact digit
  apply UInt32.toNat_inj.mp
  apply Nat.eq_of_testBit_eq
  intro index
  by_cases within : index < 32
  · have bit := congrArg (Nat.testBit · (index % 4)) (places (index / 4) (by omega))
    have low : index % 4 < 4 := Nat.mod_lt _ (by decide)
    simp only [Nat.testBit_mod_two_pow, Nat.testBit_div_two_pow, low, decide_true,
      Bool.true_and, Nat.mod_add_div] at bit
    exact bit
  · have beyond : 2 ^ 32 ≤ 2 ^ index := Nat.pow_le_pow_right (by decide) (by omega)
    rw [Nat.testBit_lt_two_pow (Nat.lt_of_lt_of_le (crc32 left).toNat_lt beyond),
      Nat.testBit_lt_two_pow (Nat.lt_of_lt_of_le (crc32 right).toNat_lt beyond)]

/-- The checksum detects every burst of up to four bytes, and its text does too. -/
theorem crc32_detects_bursts :
    (∀ (left right : Bytes) (start count : Nat), left.length = right.length → left ≠ right →
      count ≤ 4 → DifferWithin start count left right →
      crc32 left ≠ crc32 right ∧ checksumText left ≠ checksumText right) ∧
    ∀ value : Bytes, (checksumText value).length = 8 ∧
      ∀ digit ∈ checksumText value, digit ∈ text "0123456789ABCDEF" := by
  constructor
  · intro left right start count length different few within
    have apart : crc32 left ≠ crc32 right := fun same => different (eq_of_crc32 length few within same)
    exact ⟨apart, fun same => apart (crc32_of_checksumText same)⟩
  · intro value
    exact ⟨length_checksumText value, checksumText_digits value⟩

theorem changed_work_detected :
    crc32 (text "READY|" ++ (text "10" ++ text "|")) ≠
        crc32 (text "READY|" ++ (text "99" ++ text "|")) ∧
      checksumText (text "READY|" ++ (text "10" ++ text "|")) ≠
        checksumText (text "READY|" ++ (text "99" ++ text "|")) :=
  crc32_detects_bursts.1 _ _ _ _ (by decide) (by decide) (by decide)
    (differWithin_append (text "READY|") (text "|") (by decide))

end Kronos.Wal
