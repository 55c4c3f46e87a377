import Kronos.Types
import Mathlib.Data.List.Perm.Basic

/-!
# Scheduling strategies

The four implementations of `IScheduler`. The two ordered strategies keep their
entries in a `std::priority_queue`; here an entry that no other pending entry
outranks is taken out of a list.
-/

set_option autoImplicit false

namespace Kronos

structure SchedulerEntry where
  id : JobId
  priority : Int32
  estimatedWorkUnits : WorkUnits
  submissionSequence : UInt64
  deriving DecidableEq

/-- `PriorityCompare`: the left entry ranks below the right one. -/
def priorityCompare (lhs rhs : SchedulerEntry) : Bool :=
  if lhs.priority ≠ rhs.priority then lhs.priority < rhs.priority
  else lhs.submissionSequence > rhs.submissionSequence

/-- `SjfCompare`: the left entry ranks below the right one. -/
def sjfCompare (lhs rhs : SchedulerEntry) : Bool :=
  if lhs.estimatedWorkUnits ≠ rhs.estimatedWorkUnits then
    lhs.estimatedWorkUnits > rhs.estimatedWorkUnits
  else lhs.submissionSequence > rhs.submissionSequence

/-- `top()` of a priority queue with the given comparison. -/
def top (compare : SchedulerEntry → SchedulerEntry → Bool) :
    List SchedulerEntry → Option SchedulerEntry
  | [] => none
  | first :: rest =>
      some (rest.foldl (fun best entry => if compare best entry then entry else best) first)

def popPriorityQueue (compare : SchedulerEntry → SchedulerEntry → Bool)
    (entries : List SchedulerEntry) : Option (SchedulerEntry × List SchedulerEntry) :=
  (top compare entries).map fun entry => (entry, entries.erase entry)

/-- The drain loop; the bound is the number of pending entries. -/
def drainPriorityQueue (compare : SchedulerEntry → SchedulerEntry → Bool) :
    Nat → List SchedulerEntry → List SchedulerEntry
  | 0, _ => []
  | bound + 1, entries =>
      match popPriorityQueue compare entries with
      | none => []
      | some (entry, rest) => entry :: drainPriorityQueue compare bound rest

inductive Scheduler where
  | fifo (entries : List SchedulerEntry)
  | priority (entries : List SchedulerEntry)
  | sjf (entries : List SchedulerEntry)
  | roundRobin (entries : List SchedulerEntry) (quantum : WorkUnits)
  deriving DecidableEq

namespace Scheduler

/-- The pending entries, earliest insertion first. -/
def entries : Scheduler → List SchedulerEntry
  | .fifo entries => entries
  | .priority entries => entries
  | .sjf entries => entries
  | .roundRobin entries _ => entries

def push (entry : SchedulerEntry) : Scheduler → Scheduler
  | .fifo entries => .fifo (entries ++ [entry])
  | .priority entries => .priority (entries ++ [entry])
  | .sjf entries => .sjf (entries ++ [entry])
  | .roundRobin entries quantum => .roundRobin (entries ++ [entry]) quantum

def pop : Scheduler → Option (SchedulerEntry × Scheduler)
  | .fifo [] => none
  | .fifo (entry :: rest) => some (entry, .fifo rest)
  | .priority entries =>
      (popPriorityQueue priorityCompare entries).map fun (entry, rest) => (entry, .priority rest)
  | .sjf entries =>
      (popPriorityQueue sjfCompare entries).map fun (entry, rest) => (entry, .sjf rest)
  | .roundRobin [] _ => none
  | .roundRobin (entry :: rest) quantum => some (entry, .roundRobin rest quantum)

/-- The entries a `drain()` returns; it leaves the strategy empty. -/
def drain : Scheduler → List SchedulerEntry
  | .fifo entries => entries
  | .priority entries => drainPriorityQueue priorityCompare entries.length entries
  | .sjf entries => drainPriorityQueue sjfCompare entries.length entries
  | .roundRobin entries _ => entries

def drained : Scheduler → Scheduler
  | .fifo _ => .fifo []
  | .priority _ => .priority []
  | .sjf _ => .sjf []
  | .roundRobin _ quantum => .roundRobin [] quantum

def empty (scheduler : Scheduler) : Bool := scheduler.entries.isEmpty

def sliceBudget : Scheduler → WorkUnits
  | .roundRobin _ quantum => quantum
  | _ => unlimitedWork

end Scheduler

def makeScheduler (config : SchedulerConfig) : Except String Scheduler :=
  match config.kind with
  | .fifo => .ok (.fifo [])
  | .priority => .ok (.priority [])
  | .shortestJobFirst => .ok (.sjf [])
  | .roundRobin =>
      if config.quantum = 0 then .error "round-robin quantum must be greater than zero"
      else .ok (.roundRobin [] config.quantum)

/-! ## What each operation does to the pending entries -/

theorem top_mem {compare : SchedulerEntry → SchedulerEntry → Bool}
    {entries : List SchedulerEntry} {entry : SchedulerEntry}
    (found : top compare entries = some entry) : entry ∈ entries := by
  cases entries with
  | nil => cases found
  | cons first rest =>
      obtain rfl := Option.some.inj found
      clear found
      induction rest generalizing first with
      | nil => simp
      | cons next rest ih =>
          rw [List.foldl_cons]
          split
          · exact List.mem_cons_of_mem _ (ih next)
          · rcases List.mem_cons.mp (ih first) with best | later
            · rw [best]
              exact List.mem_cons_self
            · exact List.mem_cons_of_mem _ (List.mem_cons_of_mem _ later)

theorem popPriorityQueue_eq_some {compare : SchedulerEntry → SchedulerEntry → Bool}
    {entries rest : List SchedulerEntry} {entry : SchedulerEntry}
    (popped : popPriorityQueue compare entries = some (entry, rest)) :
    top compare entries = some entry ∧ rest = entries.erase entry := by
  obtain ⟨_, found, same⟩ := Option.map_eq_some_iff.mp popped
  cases same
  exact ⟨found, rfl⟩

theorem popPriorityQueue_perm {compare : SchedulerEntry → SchedulerEntry → Bool}
    {entries rest : List SchedulerEntry} {entry : SchedulerEntry}
    (popped : popPriorityQueue compare entries = some (entry, rest)) :
    entries.Perm (entry :: rest) := by
  obtain ⟨found, rfl⟩ := popPriorityQueue_eq_some popped
  exact List.perm_cons_erase (top_mem found)

theorem popPriorityQueue_eq_none {compare : SchedulerEntry → SchedulerEntry → Bool}
    {entries : List SchedulerEntry} (popped : popPriorityQueue compare entries = none) :
    entries = [] := by
  cases entries with
  | nil => rfl
  | cons first rest => simp [popPriorityQueue, top] at popped

theorem drainPriorityQueue_perm (compare : SchedulerEntry → SchedulerEntry → Bool)
    {bound : Nat} {entries : List SchedulerEntry} (enough : entries.length ≤ bound) :
    (drainPriorityQueue compare bound entries).Perm entries := by
  induction bound generalizing entries with
  | zero =>
      rw [List.length_eq_zero_iff.mp (Nat.le_zero.mp enough)]
      exact List.Perm.refl _
  | succ bound ih =>
      cases popped : popPriorityQueue compare entries with
      | none =>
          rw [popPriorityQueue_eq_none popped, drainPriorityQueue]
          exact List.Perm.refl _
      | some pair =>
          obtain ⟨entry, rest⟩ := pair
          have split := popPriorityQueue_perm popped
          have shorter : rest.length ≤ bound := by
            have length := split.length_eq
            rw [List.length_cons] at length
            omega
          simp only [drainPriorityQueue, popped]
          exact ((ih shorter).cons entry).trans split.symm

namespace Scheduler

@[simp] theorem entries_push (scheduler : Scheduler) (entry : SchedulerEntry) :
    (scheduler.push entry).entries = scheduler.entries ++ [entry] := by
  cases scheduler <;> rfl

@[simp] theorem entries_drained (scheduler : Scheduler) : scheduler.drained.entries = [] := by
  cases scheduler <;> rfl

/-- What a strategy pops, and what it leaves. -/
inductive Pops : Scheduler → SchedulerEntry → Scheduler → Prop
  | fifo {entry : SchedulerEntry} {rest : List SchedulerEntry} :
      Pops (.fifo (entry :: rest)) entry (.fifo rest)
  | priority {entries rest : List SchedulerEntry} {entry : SchedulerEntry}
      (popped : popPriorityQueue priorityCompare entries = some (entry, rest)) :
      Pops (.priority entries) entry (.priority rest)
  | sjf {entries rest : List SchedulerEntry} {entry : SchedulerEntry}
      (popped : popPriorityQueue sjfCompare entries = some (entry, rest)) :
      Pops (.sjf entries) entry (.sjf rest)
  | roundRobin {entry : SchedulerEntry} {rest : List SchedulerEntry} {quantum : WorkUnits} :
      Pops (.roundRobin (entry :: rest) quantum) entry (.roundRobin rest quantum)

theorem pops_of_pop {scheduler rest : Scheduler} {entry : SchedulerEntry}
    (popped : scheduler.pop = some (entry, rest)) : Pops scheduler entry rest := by
  cases scheduler with
  | fifo entries =>
      cases entries <;> cases popped
      exact .fifo
  | priority entries =>
      obtain ⟨_, found, same⟩ := Option.map_eq_some_iff.mp popped
      cases same
      exact .priority found
  | sjf entries =>
      obtain ⟨_, found, same⟩ := Option.map_eq_some_iff.mp popped
      cases same
      exact .sjf found
  | roundRobin entries quantum =>
      cases entries <;> cases popped
      exact .roundRobin

theorem pop_perm {scheduler rest : Scheduler} {entry : SchedulerEntry}
    (popped : scheduler.pop = some (entry, rest)) :
    scheduler.entries.Perm (entry :: rest.entries) := by
  cases pops_of_pop popped with
  | fifo => exact List.Perm.refl _
  | priority found => exact popPriorityQueue_perm found
  | sjf found => exact popPriorityQueue_perm found
  | roundRobin => exact List.Perm.refl _

theorem pop_eq_none {scheduler : Scheduler} (popped : scheduler.pop = none) :
    scheduler.entries = [] := by
  cases scheduler with
  | fifo entries => cases entries <;> simp_all [pop, Scheduler.entries]
  | roundRobin entries quantum => cases entries <;> simp_all [pop, Scheduler.entries]
  | priority entries => exact popPriorityQueue_eq_none (Option.map_eq_none_iff.mp popped)
  | sjf entries => exact popPriorityQueue_eq_none (Option.map_eq_none_iff.mp popped)

theorem drain_perm (scheduler : Scheduler) : scheduler.drain.Perm scheduler.entries := by
  cases scheduler with
  | fifo entries => exact List.Perm.refl _
  | roundRobin entries quantum => exact List.Perm.refl _
  | priority entries => exact drainPriorityQueue_perm _ (Nat.le_refl _)
  | sjf entries => exact drainPriorityQueue_perm _ (Nat.le_refl _)

/-- Reinserting entries one by one puts them behind what is there. -/
theorem entries_foldl_push (entries : List SchedulerEntry) (scheduler : Scheduler) :
    (entries.foldl (fun scheduler entry => scheduler.push entry) scheduler).entries =
      scheduler.entries ++ entries := by
  induction entries generalizing scheduler with
  | nil => simp
  | cons entry entries ih => simp [ih]

end Scheduler

theorem entries_makeScheduler {config : SchedulerConfig} {scheduler : Scheduler}
    (made : makeScheduler config = .ok scheduler) : scheduler.entries = [] := by
  unfold makeScheduler at made
  split at made
  · cases made; rfl
  · cases made; rfl
  · cases made; rfl
  · split at made
    · cases made
    · cases made; rfl

end Kronos
