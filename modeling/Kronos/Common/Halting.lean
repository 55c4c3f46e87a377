import Mathlib.Logic.Function.Iterate

/-!
# Computations in turns

A computation advances one turn at a time until it is finished. However its
turns are grouped, it finishes after the same number of them.
-/

set_option autoImplicit false

namespace Turns

variable {α : Type} {advance : α → α} {finished : α → Bool}

/-- The second state is reached after `count` turns, all from unfinished states. -/
structure Runs (advance : α → α) (finished : α → Bool) (start : α) (count : Nat) (state : α) :
    Prop where
  eq : state = advance^[count] start
  unfinished : ∀ earlier < count, finished (advance^[earlier] start) = false

theorem Runs.refl (start : α) : Runs advance finished start 0 start :=
  ⟨rfl, fun _ early => absurd early (Nat.not_lt_zero _)⟩

theorem Runs.turn {start state : α} {count : Nat} (unfinished : finished start = false)
    (rest : Runs advance finished (advance start) count state) :
    Runs advance finished start (count + 1) state := by
  refine ⟨rest.eq, ?_⟩
  intro earlier early
  cases earlier with
  | zero => exact unfinished
  | succ earlier => exact rest.unfinished earlier (Nat.lt_of_succ_lt_succ early)

theorem Runs.trans {start middle state : α} {first second : Nat}
    (before : Runs advance finished start first middle)
    (after : Runs advance finished middle second state) :
    Runs advance finished start (first + second) state := by
  have shift : ∀ count, advance^[count] middle = advance^[first + count] start := by
    intro count
    rw [before.eq, ← Function.iterate_add_apply, Nat.add_comm]
  refine ⟨after.eq.trans (shift second), ?_⟩
  intro earlier early
  by_cases within : earlier < first
  · exact before.unfinished earlier within
  · have later := after.unfinished (earlier - first) (by omega)
    rw [shift, Nat.add_sub_cancel' (Nat.le_of_not_lt within)] at later
    exact later

/-- A computation inside a larger state. -/
theorem Runs.map {β : Type} {outer : β → β} {ended : β → Bool} (embed : α → β)
    (commutes : ∀ state, embed (advance state) = outer (embed state))
    (agrees : ∀ state, ended (embed state) = finished state) {start state : α} {count : Nat}
    (runs : Runs advance finished start count state) :
    Runs outer ended (embed start) count (embed state) := by
  have turns : ∀ count, embed (advance^[count] start) = outer^[count] (embed start) :=
    fun count => (show Function.Semiconj embed advance outer from commutes).iterate_right count start
  refine ⟨by rw [runs.eq, turns], ?_⟩
  intro earlier early
  rw [← turns, agrees]
  exact runs.unfinished earlier early

/-- No turn is made from a finished state. -/
theorem Runs.le_of_finished {start state final : α} {count limit : Nat}
    (runs : Runs advance finished start count state)
    (whole : Runs advance finished start limit final) (ended : finished final = true) :
    count ≤ limit := by
  by_contra longer
  have unfinished := runs.unfinished limit (Nat.lt_of_not_le longer)
  rw [← whole.eq, ended] at unfinished
  cases unfinished

theorem Runs.finished_unique {start left right : α} {first second : Nat}
    (one : Runs advance finished start first left) (oneFinished : finished left = true)
    (other : Runs advance finished start second right) (otherFinished : finished right = true) :
    first = second ∧ left = right := by
  have same : first = second :=
    Nat.le_antisymm (one.le_of_finished other otherFinished) (other.le_of_finished one oneFinished)
  refine ⟨same, ?_⟩
  rw [one.eq, other.eq, same]

end Turns
