import Mathlib.Control.Lawful

/-!
# Computations that access by position

A computation over vectors and strings may throw, and it may access out of range.
Where all its accesses are within range it is the computation without positions.
-/

set_option autoImplicit false

namespace Ranged

variable {ε α β : Type}

/-- `none` is an access out of range, an error is a throw. -/
abbrev Checked (ε : Type) := ExceptT ε Option

/-- An element of a vector or a string. -/
def fetch (values : List α) (index : Nat) : Checked ε α := ExceptT.lift values[index]?

/-- The part of a string from a position on, which is at most its end. -/
def substr (values : List α) (start : Nat) : Checked ε (List α) :=
  if start ≤ values.length then pure (values.drop start) else ExceptT.mk none

/-- A part that accesses nothing by its position. -/
def plainly (result : Except ε α) : Checked ε α := ExceptT.mk (some result)

@[simp] theorem plainly_ok (value : α) : (plainly (.ok value) : Checked ε α) = pure value := rfl

@[simp] theorem plainly_error (what : ε) : (plainly (.error what) : Checked ε α) = throw what := rfl

@[simp] theorem plainly_pure (value : α) :
    (plainly (pure value) : Checked ε α) = pure value := rfl

@[simp] theorem plainly_throw (what : ε) :
    (plainly (throw what) : Checked ε α) = throw what := rfl

@[simp] theorem plainly_bind (first : Except ε α) (rest : α → Except ε β) :
    plainly (first >>= rest) = plainly first >>= fun value => plainly (rest value) := by
  cases first <;> rfl

@[simp] theorem plainly_ite (condition : Prop) [Decidable condition] (yes no : Except ε α) :
    plainly (if condition then yes else no) = if condition then plainly yes else plainly no := by
  split <;> rfl

theorem fetch_eq_pure {values : List α} {index : Nat} {value : α}
    (found : values[index]? = some value) : (fetch values index : Checked ε α) = pure value := by
  rw [fetch, found]
  rfl

theorem substr_eq_pure {values : List α} {start : Nat} (within : start ≤ values.length) :
    (substr values start : Checked ε (List α)) = pure (values.drop start) :=
  if_pos within

end Ranged
