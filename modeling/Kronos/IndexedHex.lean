import Kronos.Common.Ranged
import Kronos.Hex

/-!
# Hexadecimal fields with their indices

The loop of `hex_decode` on positions in the field. The log and the wire protocol
have a copy each, which throw texts of their own.
-/

set_option autoImplicit false

namespace Kronos

open Ranged

variable {ε : Type}

/-- The loop of `hex_decode` from a position on, with what it throws. -/
def hexDecodeLoop (what : ε) (value : Bytes) (index : Nat) (decoded : Bytes) : Checked ε Bytes :=
  if index < value.length then do
    let high ← fetch value index
    let low ← fetch value (index + 1)
    match hexValue high, hexValue low with
    | some highValue, some lowValue =>
        hexDecodeLoop what value (index + 2) (decoded ++ [highValue <<< 4 ||| lowValue])
    | _, _ => throw what
  else return decoded
termination_by value.length - index

/-- The bytes left to the loop are an even number, so each one has its partner. -/
theorem hexDecodeLoop_eq (what : ε) (value : Bytes) (index : Nat) (decoded : Bytes)
    (even : (value.length - index) % 2 = 0) :
    hexDecodeLoop what value index decoded =
      plainly (match hexPairs (value.drop index) with
        | some rest => .ok (decoded ++ rest)
        | none => .error what) := by
  fun_induction hexDecodeLoop what value index decoded with
  | case1 index decoded within ih =>
      have partner : index + 1 < value.length := by omega
      rw [fetch_eq_pure (List.getElem?_eq_getElem within),
        fetch_eq_pure (List.getElem?_eq_getElem partner), pure_bind, pure_bind,
        hexPairs_drop partner]
      cases high : hexValue value[index] with
      | none => rfl
      | some highValue =>
          cases low : hexValue value[index + 1] with
          | none => rfl
          | some lowValue =>
              simp only [Option.bind_some]
              rw [ih highValue lowValue (by omega)]
              cases hexPairs (value.drop (index + 2)) <;> simp
  | case2 index decoded beyond =>
      rw [List.drop_eq_nil_of_le (by omega)]
      simp [hexPairs]

end Kronos
