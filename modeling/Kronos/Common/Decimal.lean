import Mathlib.Data.List.DropRight
import Mathlib.Data.Nat.Digits.Defs
import Mathlib.Data.Nat.Init
import Mathlib.Tactic

/-!
# Decimal text

Decimal digits of natural and integer numbers as bytes, and the parsers that
accept a whole field of digits. Printing without leading zeros and parsing
with or without them are inverse on printed text, and leading zeros are all that
the spellings of one number differ in.
-/

set_option autoImplicit false

namespace Decimal

def isDigit (byte : UInt8) : Bool := 48 ≤ byte && byte ≤ 57

def digit (value : Nat) : UInt8 := UInt8.ofNat (48 + value % 10)

/-- Digits of `value`, most significant first. The first argument bounds their number. -/
def digits : Nat → Nat → List UInt8
  | 0, value => [digit value]
  | fuel + 1, value =>
      if value < 10 then [digit value] else digits fuel (value / 10) ++ [digit value]

def ofNat (value : Nat) : List UInt8 := digits value value

def ofInt (value : Int) : List UInt8 :=
  if value < 0 then 45 :: ofNat value.natAbs else ofNat value.natAbs

def value (field : List UInt8) : Nat :=
  field.foldl (fun total byte => 10 * total + (byte.toNat - 48)) 0

/-- The number spelt by a non-empty field of digits. -/
def toNat? (field : List UInt8) : Option Nat :=
  if field ≠ [] ∧ field.all isDigit then some (value field) else none

/-- A minus sign may precede the digits; a plus sign may not. -/
def toInt? : List UInt8 → Option Int
  | 45 :: field => (toNat? field).map fun (magnitude : Nat) => -(magnitude : Int)
  | field => (toNat? field).map fun (magnitude : Nat) => (magnitude : Int)

theorem isDigit_digit (number : Nat) : isDigit (digit number) = true := by
  have small : number % 10 < 10 := Nat.mod_lt _ (by omega)
  unfold digit
  generalize number % 10 = least at small
  interval_cases least <;> decide

theorem toNat_digit (number : Nat) : (digit number).toNat = 48 + number % 10 := by
  have small : number % 10 < 10 := Nat.mod_lt _ (by omega)
  simp only [digit, UInt8.toNat_ofNat']
  omega

theorem value_append_one (field : List UInt8) (last : UInt8) :
    value (field ++ [last]) = 10 * value field + (last.toNat - 48) := by
  simp [value, List.foldl_append]

private theorem digits_spec (fuel number : Nat) (enough : number ≤ fuel) :
    digits fuel number ≠ [] ∧ (digits fuel number).all isDigit = true ∧
      value (digits fuel number) = number := by
  induction fuel generalizing number with
  | zero =>
      have zero : number = 0 := by omega
      subst number
      exact ⟨by simp [digits], by simp [digits, isDigit_digit], by decide⟩
  | succ fuel ih =>
      by_cases single : number < 10
      · have shape : digits (fuel + 1) number = [digit number] := by simp [digits, single]
        rw [shape]
        refine ⟨by simp, by simp [isDigit_digit], ?_⟩
        simp only [value, List.foldl_cons, List.foldl_nil, toNat_digit]
        omega
      · have shape : digits (fuel + 1) number = digits fuel (number / 10) ++ [digit number] := by
          simp [digits, single]
        obtain ⟨_, allDigits, same⟩ := ih (number / 10) (by omega)
        rw [shape]
        refine ⟨by simp, by simp [allDigits, isDigit_digit], ?_⟩
        rw [value_append_one, same, toNat_digit]
        omega

theorem all_isDigit_ofNat (number : Nat) : (ofNat number).all isDigit = true :=
  (digits_spec number number le_rfl).2.1

theorem isDigit_of_mem_ofNat {number : Nat} {byte : UInt8} (member : byte ∈ ofNat number) :
    isDigit byte = true :=
  List.all_eq_true.mp (all_isDigit_ofNat number) byte member

@[simp] theorem toNat?_ofNat (number : Nat) : toNat? (ofNat number) = some number := by
  obtain ⟨nonempty, allDigits, same⟩ := digits_spec number number le_rfl
  unfold toNat? ofNat
  rw [if_pos ⟨nonempty, allDigits⟩, same]

private theorem toInt?_of_digits {field : List UInt8} (allDigits : field.all isDigit = true) :
    toInt? field = (toNat? field).map fun (magnitude : Nat) => (magnitude : Int) := by
  unfold toInt?
  split
  · simp [isDigit] at allDigits
  · rfl

@[simp] theorem toInt?_ofInt (number : Int) : toInt? (ofInt number) = some number := by
  unfold ofInt
  split
  · next negative =>
      simp only [toInt?, toNat?_ofNat, Option.map_some, Option.some.injEq]
      omega
  · next positive =>
      rw [toInt?_of_digits (all_isDigit_ofNat _), toNat?_ofNat]
      simp only [Option.map_some, Option.some.injEq]
      omega

theorem mem_ofInt {number : Int} {byte : UInt8} (member : byte ∈ ofInt number) :
    byte = 45 ∨ isDigit byte = true := by
  unfold ofInt at member
  split at member
  · rcases List.mem_cons.mp member with sign | inDigits
    · exact .inl sign
    · exact .inr (isDigit_of_mem_ofNat inDigits)
  · exact .inr (isDigit_of_mem_ofNat member)

/-! ## Leading zeros -/

def zero : UInt8 := 48

def withoutZeros (field : List UInt8) : List UInt8 := field.dropWhile (· = zero)

/-- The digits as numbers, least significant first. -/
def digitValues (field : List UInt8) : List Nat := (field.map fun byte => byte.toNat - 48).reverse

theorem value_eq_ofDigits (field : List UInt8) :
    value field = Nat.ofDigits 10 (digitValues field) := by
  induction field using List.reverseRecOn with
  | nil => rfl
  | append_singleton field last ih =>
      rw [value_append_one, ih, digitValues, digitValues, List.map_append, List.reverse_append,
        List.map_singleton, List.reverse_singleton, List.singleton_append, Nat.ofDigits_cons,
        Nat.add_comm]

theorem value_withoutZeros (field : List UInt8) : value (withoutZeros field) = value field := by
  induction field with
  | nil => rfl
  | cons first field ih =>
      rw [withoutZeros, List.dropWhile_cons]
      split
      · next isZero =>
          have leading : first = zero := of_decide_eq_true isZero
          rw [leading]
          exact ih
      · rfl

theorem isDigit_iff {byte : UInt8} : isDigit byte = true ↔ 48 ≤ byte.toNat ∧ byte.toNat ≤ 57 := by
  simp [isDigit, UInt8.le_iff_toNat_le]

/-- A field of digits that does not begin with a zero is found from its value. -/
theorem digits_value {field : List UInt8} (digits : field.all isDigit = true)
    (proper : withoutZeros field = field) : Nat.digits 10 (value field) = digitValues field := by
  rw [value_eq_ofDigits]
  refine Nat.digits_ofDigits 10 (by decide) _ ?_ ?_
  · intro number member
    simp only [digitValues, List.mem_reverse, List.mem_map] at member
    obtain ⟨byte, inside, rfl⟩ := member
    have small := isDigit_iff.mp (List.all_eq_true.mp digits byte inside)
    omega
  · intro nonempty
    cases field with
    | nil => exact absurd rfl nonempty
    | cons first field =>
        have leading : first ≠ zero := by
          intro isZero
          have shorter : (withoutZeros (first :: field)).length ≤ field.length := by
            rw [withoutZeros, List.dropWhile_cons, if_pos (decide_eq_true isZero)]
            exact (List.dropWhile_sublist _).length_le
          rw [proper, List.length_cons] at shorter
          omega
        have small := isDigit_iff.mp (List.all_eq_true.mp digits first List.mem_cons_self)
        have apart : first.toNat ≠ 48 := fun same => leading (UInt8.toNat_inj.mp same)
        simp only [digitValues, List.map_cons, List.reverse_cons, List.getLast_append_singleton]
        omega

theorem map_digit_digitValues {field : List UInt8} (digits : field.all isDigit = true) :
    (digitValues field).reverse.map digit = field := by
  rw [digitValues, List.reverse_reverse, List.map_map]
  refine (List.map_congr_left fun byte member => ?_).trans (List.map_id field)
  have small := isDigit_iff.mp (List.all_eq_true.mp digits byte member)
  have number := toNat_digit (byte.toNat - 48)
  refine UInt8.toNat_inj.mp (number.trans ?_)
  rw [id_eq]
  omega

theorem all_isDigit_withoutZeros {field : List UInt8} (digits : field.all isDigit = true) :
    (withoutZeros field).all isDigit = true :=
  List.all_eq_true.mpr fun byte member =>
    List.all_eq_true.mp digits byte ((List.dropWhile_sublist _).subset member)

/-- Fields of digits spell one number when they differ in leading zeros only. -/
theorem value_eq_iff {left right : List UInt8} (leftDigits : left.all isDigit = true)
    (rightDigits : right.all isDigit = true) :
    value left = value right ↔ withoutZeros left = withoutZeros right := by
  rw [← value_withoutZeros left, ← value_withoutZeros right]
  constructor
  · intro same
    have leftAll := all_isDigit_withoutZeros leftDigits
    have rightAll := all_isDigit_withoutZeros rightDigits
    have values := digits_value leftAll (List.dropWhile_idempotent _ _)
    rw [same, digits_value rightAll (List.dropWhile_idempotent _ _)] at values
    rw [← map_digit_digitValues leftAll, ← map_digit_digitValues rightAll, values]
  · intro same
    rw [same]

end Decimal
