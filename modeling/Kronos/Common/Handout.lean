import Mathlib.Data.List.Perm.Basic

/-!
# Handing out pending items

Items are inserted behind the pending ones and handed out one at a time by a
policy; all of them may be dropped at once. When an item is inserted, those that
are pending already go first if the policy serves in order of insertion, or if it
never chooses the item while they are pending.
-/

set_option autoImplicit false

namespace Handout

variable {α : Type}

/-- The pending items, the one that is handed out, and what is left of them. -/
abbrev Policy (α : Type) := List α → α → List α → Prop

/-- One move, with the items it inserts and hands out. -/
inductive Moves (policy : Policy α) : List α → List α → List α → List α → Prop
  | keep {pending : List α} : Moves policy pending [] [] pending
  | insert {pending : List α} (item : α) : Moves policy pending [item] [] (pending ++ [item])
  | take {pending left : List α} {item : α} (chosen : policy pending item left) :
      Moves policy pending [] [item] left
  | clear {pending : List α} : Moves policy pending [] [] []

/-- A sequence of moves, with all the items they insert and hand out. -/
inductive Runs (policy : Policy α) (start : List α) : List α → List α → List α → Prop
  | refl : Runs policy start [] [] start
  | tail {inserted handed pending more out left : List α}
      (before : Runs policy start inserted handed pending)
      (move : Moves policy pending more out left) :
      Runs policy start (inserted ++ more) (handed ++ out) left

variable [DecidableEq α]

/-- An item was inserted behind the pending ones. When more copies of it have been
handed out than were pending and have come in since, it is among them, and then all
copies of the other item that were pending have been handed out too. -/
def HandsFirst (pending : List α) (item other : α) (inserted handed : List α) : Prop :=
  pending.count item + inserted.count item < handed.count item →
    pending.count other ≤ handed.count other

/-- The item was dropped: what is left of it and what was handed out came otherwise. -/
def Dropped (pending : List α) (item : α) (inserted handed left : List α) : Prop :=
  handed.count item + left.count item ≤ pending.count item + inserted.count item

variable {policy : Policy α} {pending inserted handed left : List α} {item other : α}

theorem Dropped.moves (dropped : Dropped pending item inserted handed left)
    (takes : ∀ pending item left, policy pending item left → pending.Perm (item :: left))
    {more out next : List α} (move : Moves policy left more out next) :
    Dropped pending item (inserted ++ more) (handed ++ out) next := by
  unfold Dropped at dropped ⊢
  rw [List.count_append, List.count_append]
  cases move with
  | keep => simpa using dropped
  | insert new =>
      rw [List.count_append, List.count_nil]
      omega
  | take chosen =>
      have same := (takes _ _ _ chosen).count_eq item
      rw [List.count_cons] at same
      rw [List.count_nil, List.count_singleton]
      omega
  | clear =>
      rw [List.count_nil]
      omega

theorem Dropped.of_clear (fewer : handed.count item ≤ pending.count item + inserted.count item) :
    Dropped pending item (inserted ++ []) (handed ++ []) [] := by
  unfold Dropped
  rw [List.append_nil, List.append_nil, List.count_nil, Nat.add_zero]
  exact fewer

theorem Dropped.handsFirst (dropped : Dropped pending item inserted handed left) :
    HandsFirst pending item other inserted handed := by
  unfold Dropped at dropped
  intro again
  omega

theorem count_le_append {values : List α} (enough : pending.count other ≤ handed.count other) :
    pending.count other ≤ (handed ++ values).count other := by
  rw [List.count_append]
  omega

/-! ## Service in order of insertion -/

/-- Some of the pending items are handed out, the others are in front of the item. -/
def InFront (pending : List α) (item : α) (inserted handed left : List α) : Prop :=
  ∃ waiting, pending = handed ++ waiting ∧ left = waiting ++ item :: inserted

theorem InFront.moves (front : InFront pending item inserted handed left)
    (serves : ∀ pending item left, policy pending item left → pending = item :: left)
    {more out next : List α} (move : Moves policy left more out next) :
    InFront pending item (inserted ++ more) (handed ++ out) next ∨
      pending.count other ≤ (handed ++ out).count other ∨
      Dropped pending item (inserted ++ more) (handed ++ out) next := by
  obtain ⟨waiting, rfl, rfl⟩ := front
  cases move with
  | keep => exact .inl ⟨waiting, by simp, by simp⟩
  | insert new => exact .inl ⟨waiting, by simp, by simp⟩
  | take chosen =>
      have first := serves _ _ _ chosen
      cases waiting with
      | nil => exact .inr (.inl (count_le_append (by simp)))
      | cons next waiting =>
          rw [List.cons_append, List.cons.injEq] at first
          obtain ⟨rfl, rfl⟩ := first
          exact .inl ⟨waiting, by simp, by simp⟩
  | clear =>
      refine .inr (.inr (.of_clear ?_))
      rw [List.count_append]
      omega

/-- In order of insertion, what is pending goes before what is inserted. -/
theorem Runs.handsFirst_of_serves (runs : Runs policy (pending ++ [item]) inserted handed left)
    (serves : ∀ pending item left, policy pending item left → pending = item :: left) :
    HandsFirst pending item other inserted handed := by
  have takes : ∀ pending item left, policy pending item left → pending.Perm (item :: left) := by
    intro pending item left chosen
    rw [serves _ _ _ chosen]
  have phase : InFront pending item inserted handed left ∨
      pending.count other ≤ handed.count other ∨
      Dropped pending item inserted handed left := by
    induction runs with
    | refl => exact .inl ⟨pending, by simp, by simp⟩
    | tail _ move ih =>
        rcases ih with front | all | dropped
        · exact front.moves serves move
        · exact .inr (.inl (count_le_append all))
        · exact .inr (.inr (dropped.moves takes move))
  rcases phase with ⟨waiting, rfl, _⟩ | all | dropped
  · intro again
    rw [List.count_append] at again
    omega
  · exact fun _ => all
  · exact dropped.handsFirst

/-! ## Service by rank -/

/-- The item is not handed out yet, and no item is lost. -/
structure NotYet (pending : List α) (item : α) (inserted handed left : List α) : Prop where
  fewer : handed.count item ≤ pending.count item + inserted.count item
  balance : ∀ any, handed.count any + left.count any =
    pending.count any + [item].count any + inserted.count any

theorem NotYet.moves (notYet : NotYet pending item inserted handed left)
    (takes : ∀ pending item left, policy pending item left → pending.Perm (item :: left))
    (waits : ∀ pending left, policy pending item left → other ∉ pending) (different : other ≠ item)
    {more out next : List α} (move : Moves policy left more out next) :
    NotYet pending item (inserted ++ more) (handed ++ out) next ∨
      pending.count other ≤ (handed ++ out).count other ∨
      Dropped pending item (inserted ++ more) (handed ++ out) next := by
  cases move with
  | keep => exact .inl ⟨by simpa using notYet.fewer, by simpa using notYet.balance⟩
  | insert new =>
      refine .inl ⟨?_, fun any => ?_⟩
      · have fewer := notYet.fewer
        rw [List.append_nil, List.count_append]
        omega
      · have balance := notYet.balance any
        rw [List.append_nil, List.count_append, List.count_append]
        omega
  | @take _ taken chosen =>
      by_cases again : taken = item
      · -- the other item is not pending any more
        subst again
        have balance := notYet.balance other
        have none := List.count_eq_zero.mpr (waits _ _ chosen)
        rw [List.count_singleton, beq_eq_false_iff_ne.mpr (Ne.symm different)] at balance
        refine .inr (.inl (count_le_append ?_))
        simp only [Bool.false_eq_true, if_false] at balance
        omega
      · refine .inl ⟨?_, fun any => ?_⟩
        · have fewer := notYet.fewer
          rw [List.append_nil, List.count_append, List.count_singleton,
            beq_eq_false_iff_ne.mpr again]
          simpa using fewer
        · have balance := notYet.balance any
          have same := (takes _ _ _ chosen).count_eq any
          rw [List.count_cons] at same
          rw [List.append_nil, List.count_append, List.count_singleton]
          omega
  | clear => exact .inr (.inr (.of_clear notYet.fewer))

/-- By rank, an item waits for the pending ones that it is not chosen in front of. -/
theorem Runs.handsFirst_of_waits (runs : Runs policy (pending ++ [item]) inserted handed left)
    (takes : ∀ pending item left, policy pending item left → pending.Perm (item :: left))
    (waits : ∀ pending left, policy pending item left → other ∉ pending)
    (different : other ≠ item) : HandsFirst pending item other inserted handed := by
  have phase : NotYet pending item inserted handed left ∨
      pending.count other ≤ handed.count other ∨
      Dropped pending item inserted handed left := by
    induction runs with
    | refl => exact .inl ⟨by simp, by simp [List.count_append]⟩
    | tail _ move ih =>
        rcases ih with notYet | all | dropped
        · exact notYet.moves takes waits different move
        · exact .inr (.inl (count_le_append all))
        · exact .inr (.inr (dropped.moves takes move))
  rcases phase with notYet | all | dropped
  · have fewer := notYet.fewer
    intro again
    omega
  · exact fun _ => all
  · exact dropped.handsFirst

end Handout
