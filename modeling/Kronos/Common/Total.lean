import Mathlib.Algebra.BigOperators.Group.List.Basic
import Mathlib.Tactic

/-!
# Totals over a list of threads

A weight summed over a list, and how the sum changes when one thread moves.
-/

set_option autoImplicit false

namespace Threads

variable {α : Type}

/-- The sum of a weight over a list. -/
def total (weight : α → Nat) (threads : List α) : Nat := (threads.map weight).sum

@[simp] theorem total_nil (weight : α → Nat) : total weight [] = 0 := rfl

@[simp] theorem total_cons (weight : α → Nat) (first : α) (rest : List α) :
    total weight (first :: rest) = weight first + total weight rest := by
  simp [total]

@[simp] theorem total_append (weight : α → Nat) (left right : List α) :
    total weight (left ++ right) = total weight left + total weight right := by
  simp [total]

/-- One thread moves: its old weight leaves the sum and its new weight enters. -/
theorem total_set (weight : α → Nat) {threads : List α} {index : Nat} {old : α}
    (found : threads[index]? = some old) (new : α) :
    total weight (threads.set index new) + weight old = total weight threads + weight new := by
  induction threads generalizing index with
  | nil => simp at found
  | cons first rest ih =>
      cases index with
      | zero =>
          obtain rfl : first = old := by simpa using found
          simp only [List.set_cons_zero, total_cons]
          omega
      | succ index =>
          have found : rest[index]? = some old := by simpa using found
          have moved := ih found
          simp only [List.set_cons_succ, total_cons]
          omega

theorem weight_le_total {weight : α → Nat} {threads : List α} {thread : α}
    (member : thread ∈ threads) : weight thread ≤ total weight threads :=
  List.le_sum_of_mem (List.mem_map.mpr ⟨thread, member, rfl⟩)

theorem total_eq_zero_iff {weight : α → Nat} {threads : List α} :
    total weight threads = 0 ↔ ∀ thread ∈ threads, weight thread = 0 := by
  simp [total, List.sum_eq_zero_iff]

theorem exists_of_total_pos {weight : α → Nat} {threads : List α}
    (positive : 0 < total weight threads) : ∃ thread ∈ threads, 0 < weight thread := by
  by_contra none
  have zero : total weight threads = 0 := by
    rw [total_eq_zero_iff]
    intro thread member
    by_contra weighs
    exact none ⟨thread, member, Nat.pos_of_ne_zero weighs⟩
  omega

theorem add_le_total {weight : α → Nat} {threads : List α} {first second : Nat} {left right : α}
    (different : first ≠ second) (foundLeft : threads[first]? = some left)
    (foundRight : threads[second]? = some right) :
    weight left + weight right ≤ total weight threads := by
  induction threads generalizing first second with
  | nil => simp at foundLeft
  | cons head rest ih =>
      cases first with
      | zero =>
          cases second with
          | zero => exact absurd rfl different
          | succ second =>
              obtain rfl : head = left := by simpa using foundLeft
              have found : rest[second]? = some right := by simpa using foundRight
              have bound := @weight_le_total _ weight _ _ (List.mem_of_getElem? found)
              rw [total_cons]
              omega
      | succ first =>
          have foundLeft : rest[first]? = some left := by simpa using foundLeft
          cases second with
          | zero =>
              obtain rfl : head = right := by simpa using foundRight
              have bound := @weight_le_total _ weight _ _ (List.mem_of_getElem? foundLeft)
              rw [total_cons]
              omega
          | succ second =>
              have foundRight : rest[second]? = some right := by simpa using foundRight
              have bound := ih (fun same => different (by rw [same])) foundLeft foundRight
              rw [total_cons]
              omega

theorem total_le_total {lower upper : α → Nat} (below : ∀ thread, lower thread ≤ upper thread)
    {threads : List α} : total lower threads ≤ total upper threads :=
  List.sum_le_sum fun thread _ => below thread

theorem total_ite_eq_countP (property : α → Bool) (threads : List α) :
    total (fun thread => if property thread then 1 else 0) threads = threads.countP property := by
  induction threads with
  | nil => rfl
  | cons first rest ih => rw [total_cons, List.countP_cons, ih, Nat.add_comm]

theorem total_congr {weight other : α → Nat} {threads : List α}
    (same : ∀ thread ∈ threads, weight thread = other thread) :
    total weight threads = total other threads := by
  rw [total, total, List.map_congr_left same]

/-- The difference of two weights at one thread is a difference of the totals. -/
theorem total_add_sub_le {lower upper : α → Nat} (below : ∀ thread, lower thread ≤ upper thread)
    {threads : List α} {thread : α} (member : thread ∈ threads) :
    total lower threads + (upper thread - lower thread) ≤ total upper threads := by
  induction threads with
  | nil => cases member
  | cons first rest ih =>
      have bound := below first
      rcases List.mem_cons.mp member with rfl | later
      · have others := @total_le_total _ _ _ below rest
        simp only [total_cons]
        omega
      · have others := ih later
        simp only [total_cons]
        omega

/-- What holds of every thread still holds when one moves to where it holds. -/
theorem forall_mem_set {property : α → Prop} {threads : List α} {index : Nat} {new : α}
    (all : ∀ thread ∈ threads, property thread) (moved : property new) :
    ∀ thread ∈ threads.set index new, property thread := by
  intro thread member
  rcases List.mem_or_eq_of_mem_set member with old | rfl
  · exact all thread old
  · exact moved

theorem getElem?_set_cases {threads : List α} {index other : Nat} {new thread : α}
    (found : (threads.set index new)[other]? = some thread) :
    other = index ∧ thread = new ∨ other ≠ index ∧ threads[other]? = some thread := by
  by_cases same : other = index
  · subst same
    have bound : other < threads.length := by
      simpa using (List.getElem?_eq_some_iff.mp found).1
    rw [List.getElem?_set_self bound] at found
    exact .inl ⟨rfl, (Option.some.inj found).symm⟩
  · rw [List.getElem?_set_ne (Ne.symm same)] at found
    exact .inr ⟨same, found⟩

theorem getElem?_concat_cases {threads : List α} {last thread : α} {index : Nat}
    (found : (threads ++ [last])[index]? = some thread) :
    index = threads.length ∧ thread = last ∨ threads[index]? = some thread := by
  by_cases bound : index < threads.length
  · rw [List.getElem?_append_left bound] at found
    exact .inr found
  · have inside := (List.getElem?_eq_some_iff.mp found).1
    rw [List.length_append, List.length_singleton] at inside
    have is : index = threads.length := by omega
    rw [is, List.getElem?_concat_length] at found
    exact .inl ⟨is, (Option.some.inj found).symm⟩

theorem forall_mem_concat {property : α → Prop} {threads : List α} {last : α}
    (all : ∀ thread ∈ threads, property thread) (also : property last) :
    ∀ thread ∈ threads ++ [last], property thread := by
  intro thread member
  rcases List.mem_append.mp member with old | added
  · exact all thread old
  · rw [List.mem_singleton.mp added]
    exact also

/-- The positions of the threads with a property. -/
def positions (property : α → Bool) (threads : List α) : List Nat :=
  (threads.zipIdx.filter fun thread => property thread.1).map Prod.snd

theorem mem_positions {property : α → Bool} {threads : List α} {index : Nat} :
    index ∈ positions property threads ↔
      ∃ thread, threads[index]? = some thread ∧ property thread = true := by
  simp [positions, List.mem_zipIdx_iff_getElem?]

theorem nodup_positions (property : α → Bool) (threads : List α) :
    (positions property threads).Nodup := by
  have all : (threads.zipIdx.map Prod.snd).Nodup := by
    rw [List.zipIdx_map_snd]
    exact List.nodup_range'
  exact all.sublist (List.filter_sublist.map Prod.snd)

theorem length_positions (property : α → Bool) (threads : List α) :
    (positions property threads).length = threads.countP property := by
  rw [positions, List.length_map, ← List.countP_eq_length_filter]
  have first : threads.countP property = (threads.zipIdx.map Prod.fst).countP property := by
    rw [List.zipIdx_map_fst]
  rw [first, List.countP_map]
  rfl

theorem filterMap_cons_toList {β : Type} (choose : α → Option β) (first : α) (rest : List α) :
    (first :: rest).filterMap choose = (choose first).toList ++ rest.filterMap choose := by
  cases chosen : choose first with
  | none => exact List.filterMap_cons_none chosen
  | some value => exact List.filterMap_cons_some chosen

/-- One thread moves: what is chosen of it changes, and nothing else. -/
theorem filterMap_set_perm {β : Type} (choose : α → Option β) {threads : List α} {index : Nat}
    {old : α} (found : threads[index]? = some old) (new : α) :
    ((choose old).toList ++ (threads.set index new).filterMap choose).Perm
      ((choose new).toList ++ threads.filterMap choose) := by
  obtain ⟨bound, is⟩ := List.getElem?_eq_some_iff.mp found
  have before := (List.getElem_cons_eraseIdx_perm bound).filterMap choose
  have after := (List.set_perm_cons_eraseIdx bound new).filterMap choose
  rw [is, filterMap_cons_toList] at before
  rw [filterMap_cons_toList] at after
  refine (after.append_left _).trans (List.Perm.trans ?_ (before.append_left _))
  rw [← List.append_assoc, ← List.append_assoc]
  exact List.perm_append_comm.append_right _

end Threads
