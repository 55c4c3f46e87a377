import Mathlib.Data.List.Basic
import Mathlib.Data.List.Range
import Mathlib.Tactic

/-!
# Values drawn from a counter

A 64-bit counter is to give values that exceed a history and one another. The
values of a counter that starts above the history do so as long as the counter
does not wrap around, and no values at all do so beyond that.
-/

set_option autoImplicit false

namespace Drawn

/-- Every value exceeds the whole history and all values before it. -/
def Follows (history drawn : List UInt64) : Prop :=
  (∀ value ∈ drawn, ∀ past ∈ history, past < value) ∧ drawn.Pairwise (· < ·)

/-- So many values are left above the history. -/
def Room (history : List UInt64) (count : Nat) : Prop :=
  count ≤ 2 ^ 64 ∧ ∀ past ∈ history, past.toNat + count < 2 ^ 64

instance (history : List UInt64) (count : Nat) : Decidable (Room history count) :=
  -- the values of the history are tried, not all values
  @instDecidableAnd _ _ (Nat.decLe _ _)
    (List.decidableBAll (fun past : UInt64 => past.toNat + count < 2 ^ 64) history)

variable {history drawn : List UInt64}

/-- A strictly increasing list takes as much room as it has values. -/
theorem add_length_le_of_pairwise {least : Nat} (pairwise : drawn.Pairwise (· < ·))
    (above : ∀ value ∈ drawn, least ≤ value.toNat) (small : least ≤ 2 ^ 64) :
    least + drawn.length ≤ 2 ^ 64 := by
  induction drawn generalizing least with
  | nil => exact small
  | cons first rest ih =>
      obtain ⟨next, pairwiseRest⟩ := List.pairwise_cons.mp pairwise
      have beyond : ∀ value ∈ rest, first.toNat + 1 ≤ value.toNat := fun value member =>
        UInt64.lt_iff_toNat_lt.mp (next value member)
      have bound := ih pairwiseRest beyond first.toNat_lt
      have lower := above first List.mem_cons_self
      rw [List.length_cons]
      omega

theorem Follows.room (follows : Follows history drawn) : Room history drawn.length := by
  obtain ⟨exceeds, pairwise⟩ := follows
  refine ⟨?_, ?_⟩
  · have bound := add_length_le_of_pairwise pairwise (fun _ _ => Nat.zero_le _) (Nat.zero_le _)
    omega
  · intro past member
    have beyond : ∀ value ∈ drawn, past.toNat + 1 ≤ value.toNat := fun value drew =>
      UInt64.lt_iff_toNat_lt.mp (exceeds value drew past member)
    have bound := add_length_le_of_pairwise pairwise beyond past.toNat_lt
    omega

theorem follows_of_range {first count : Nat} (values : drawn.map UInt64.toNat = List.range' first count)
    (above : ∀ past ∈ history, past.toNat < first) : Follows history drawn := by
  refine ⟨?_, ?_⟩
  · intro value member past inside
    have counted : value.toNat ∈ List.range' first count := by
      rw [← values]
      exact List.mem_map_of_mem member
    obtain ⟨offset, _, same⟩ := List.mem_range'.mp counted
    have less := above past inside
    show past.toNat < value.toNat
    omega
  · have increasing := @List.pairwise_lt_range' first count 1 Nat.one_pos
    rw [← values, List.pairwise_map] at increasing
    exact increasing

/-- The values drawn so far and where the counter stands, as long as it has not
wrapped around. -/
structure Counts (first : UInt64) (drawn : List UInt64) (value : UInt64) : Prop where
  value : first.toNat + drawn.length < 2 ^ 64 → value.toNat = first.toNat + drawn.length
  drawn : first.toNat + drawn.length ≤ 2 ^ 64 →
    drawn.map UInt64.toNat = List.range' first.toNat drawn.length

namespace Counts

variable {first value : UInt64}

theorem nil (first : UInt64) : Counts first [] first := ⟨fun _ => rfl, fun _ => rfl⟩

theorem keep {later : UInt64} (counts : Counts first drawn value)
    (same : first.toNat + drawn.length < 2 ^ 64 → later = value) : Counts first drawn later :=
  ⟨fun room => by rw [same room]; exact counts.value room, counts.drawn⟩

theorem draw (counts : Counts first drawn value) : Counts first (drawn ++ [value]) (value + 1) := by
  have succeeds : (value + 1).toNat = (value.toNat + 1) % 2 ^ 64 := UInt64.toNat_add value 1
  refine ⟨fun room => ?_, fun room => ?_⟩ <;> rw [List.length_append, List.length_singleton] at room ⊢
  · have reached := counts.value (by omega)
    omega
  · have reached := counts.value (by omega)
    have before := counts.drawn (by omega)
    rw [List.map_append, before, List.map_singleton, reached, List.range'_1_concat]

/-- A counter that started right above the history gives values that follow it
exactly as long as there is room. -/
theorem follows_iff (counts : Counts first drawn value)
    (past : ∀ old ∈ history, old + 1 ≤ first)
    (reached : first = 0 ∨ ∃ old ∈ history, first.toNat = old.toNat + 1) :
    Follows history drawn ↔ Room history drawn.length := by
  refine ⟨Follows.room, ?_⟩
  rintro ⟨small, room⟩
  have unwrapped : first.toNat + drawn.length ≤ 2 ^ 64 := by
    rcases reached with zero | ⟨old, member, same⟩
    · rw [zero]
      simpa using small
    · have left := room old member
      omega
  cases drawn with
  | nil => exact ⟨fun _ member => absurd member List.not_mem_nil, .nil⟩
  | cons one rest =>
      refine follows_of_range (counts.drawn unwrapped) ?_
      intro old member
      have left := room old member
      have next : (old + 1).toNat = (old.toNat + 1) % 2 ^ 64 := UInt64.toNat_add old 1
      have below : (old + 1).toNat ≤ first.toNat := UInt64.le_iff_toNat_le.mp (past old member)
      rw [List.length_cons] at left
      omega

end Counts

end Drawn
