import Kronos.TaskQueue
import Mathlib.Order.Defs.Unbundled
import Mathlib.Tactic

/-!
# The task queue as an ordered multiset

What the queue is for, said without its containers: it holds the pending
entries in the order of their insertion, and the configured policy says which
of them is next. Changing the policy inserts them again in the order in which
the old one would have handed them out. The queue of the engine refines this
over every sequence of operations.
-/

set_option autoImplicit false

namespace Kronos

/-! ## The comparisons -/

theorem priorityCompare_iff {lhs rhs : SchedulerEntry} :
    priorityCompare lhs rhs = true ↔
      lhs.priority.toInt < rhs.priority.toInt ∨
        lhs.priority.toInt = rhs.priority.toInt ∧
          rhs.submissionSequence.toNat < lhs.submissionSequence.toNat := by
  unfold priorityCompare
  rw [← UInt64.lt_iff_toNat_lt, ← Int32.lt_iff_toInt_lt, Int32.toInt_inj]
  split
  · next different => simp [different]
  · next same =>
      rw [not_not] at same
      simp [same]

theorem sjfCompare_iff {lhs rhs : SchedulerEntry} :
    sjfCompare lhs rhs = true ↔
      rhs.estimatedWorkUnits.toNat < lhs.estimatedWorkUnits.toNat ∨
        lhs.estimatedWorkUnits.toNat = rhs.estimatedWorkUnits.toNat ∧
          rhs.submissionSequence.toNat < lhs.submissionSequence.toNat := by
  unfold sjfCompare
  rw [← UInt64.lt_iff_toNat_lt, ← UInt64.lt_iff_toNat_lt, UInt64.toNat_inj]
  split
  · next different => simp [different]
  · next same =>
      rw [not_not] at same
      simp [same]

/-- The relation a comparison stands for: the left entry ranks below the right one. -/
def Below (compare : SchedulerEntry → SchedulerEntry → Bool) (lhs rhs : SchedulerEntry) : Prop :=
  compare lhs rhs = true

instance : IsStrictWeakOrder SchedulerEntry (Below priorityCompare) where
  irrefl entry := by
    rw [Below, priorityCompare_iff]
    omega
  trans first second third := by
    simp only [Below, priorityCompare_iff]
    omega
  incomp_trans first second third := by
    simp only [Below, priorityCompare_iff]
    omega

instance : IsStrictWeakOrder SchedulerEntry (Below sjfCompare) where
  irrefl entry := by
    rw [Below, sjfCompare_iff]
    omega
  trans first second third := by
    simp only [Below, sjfCompare_iff]
    omega
  incomp_trans first second third := by
    simp only [Below, sjfCompare_iff]
    omega

/-- The top of a priority queue ranks below no entry. -/
theorem top_max {compare : SchedulerEntry → SchedulerEntry → Bool}
    [order : IsStrictWeakOrder SchedulerEntry (Below compare)] {entries : List SchedulerEntry}
    {entry : SchedulerEntry} (found : top compare entries = some entry) :
    ∀ other ∈ entries, ¬ Below compare entry other := by
  cases entries with
  | nil => cases found
  | cons first rest =>
      obtain rfl := Option.some.inj found
      clear found
      -- the invariant of the loop: no entry seen so far outranks the best one
      suffices loop : ∀ (seen : List SchedulerEntry) (best : SchedulerEntry),
          (∀ other ∈ seen, ¬ Below compare best other) → ∀ other ∈ seen ++ rest,
            ¬ Below compare (rest.foldl (fun best entry => if compare best entry then entry
              else best) best) other from
        loop [first] first (by simpa using order.irrefl first)
      induction rest with
      | nil => simp
      | cons next rest ih =>
          intro seen best above other member
          rw [List.append_cons] at member
          rw [List.foldl_cons]
          refine ih (seen ++ [next]) _ ?_ other member
          intro earlier inside
          split
          · next outranked =>
              rcases List.mem_append.mp inside with old | new
              · exact fun worse => above earlier old (order.trans _ _ _ outranked worse)
              · rw [List.mem_singleton.mp new]
                exact order.irrefl next
          · next keeps =>
              rcases List.mem_append.mp inside with old | new
              · exact above earlier old
              · rwa [List.mem_singleton.mp new]

/-! ## Which entry is next -/

/-- Each policy's choice among the pending entries, listed in insertion order. -/
def Next (kind : SchedulerKind) (pending : List SchedulerEntry) (entry : SchedulerEntry) : Prop :=
  match kind with
  | .fifo | .roundRobin => pending.head? = some entry
  | .priority =>
      entry ∈ pending ∧ ∀ other ∈ pending, other ≠ entry →
        other.priority < entry.priority ∨
          other.priority = entry.priority ∧ entry.submissionSequence < other.submissionSequence
  | .shortestJobFirst =>
      entry ∈ pending ∧ ∀ other ∈ pending, other ≠ entry →
        entry.estimatedWorkUnits < other.estimatedWorkUnits ∨
          other.estimatedWorkUnits = entry.estimatedWorkUnits ∧
            entry.submissionSequence < other.submissionSequence

/-- The order in which a policy hands out the pending entries when nothing else happens. -/
inductive HandsOut (kind : SchedulerKind) : List SchedulerEntry → List SchedulerEntry → Prop
  | nil : HandsOut kind [] []
  | cons {pending rest : List SchedulerEntry} {entry : SchedulerEntry}
      (first : Next kind pending entry) (later : HandsOut kind (pending.erase entry) rest) :
      HandsOut kind pending (entry :: rest)

def budgetOf (config : SchedulerConfig) : WorkUnits :=
  if config.kind = .roundRobin then config.quantum else unlimitedWork

/-- Pending entries have different submission sequences. -/
def DistinctPending (pending : List SchedulerEntry) : Prop :=
  (pending.map fun entry => entry.submissionSequence).Nodup

instance (pending : List SchedulerEntry) : Decidable (DistinctPending pending) :=
  inferInstanceAs (Decidable (List.Nodup _))

theorem DistinctPending.ne {pending : List SchedulerEntry} (distinct : DistinctPending pending)
    {left right : SchedulerEntry} (leftMember : left ∈ pending) (rightMember : right ∈ pending)
    (different : left ≠ right) :
    left.submissionSequence.toNat ≠ right.submissionSequence.toNat := by
  intro same
  exact different (List.inj_on_of_nodup_map distinct leftMember rightMember
    (UInt64.toNat_inj.mp same))

theorem DistinctPending.erase {pending : List SchedulerEntry} (distinct : DistinctPending pending)
    (entry : SchedulerEntry) : DistinctPending (pending.erase entry) :=
  distinct.sublist (List.erase_sublist.map _)

/-! ## Strategies -/

namespace Scheduler

def kind : Scheduler → SchedulerKind
  | .fifo _ => .fifo
  | .priority _ => .priority
  | .sjf _ => .shortestJobFirst
  | .roundRobin _ _ => .roundRobin

@[simp] theorem kind_push (scheduler : Scheduler) (entry : SchedulerEntry) :
    (scheduler.push entry).kind = scheduler.kind := by
  cases scheduler <;> rfl

@[simp] theorem kind_drained (scheduler : Scheduler) : scheduler.drained.kind = scheduler.kind := by
  cases scheduler <;> rfl

@[simp] theorem sliceBudget_push (scheduler : Scheduler) (entry : SchedulerEntry) :
    (scheduler.push entry).sliceBudget = scheduler.sliceBudget := by
  cases scheduler <;> rfl

@[simp] theorem sliceBudget_drained (scheduler : Scheduler) :
    scheduler.drained.sliceBudget = scheduler.sliceBudget := by
  cases scheduler <;> rfl

theorem kept_of_pop {scheduler rest : Scheduler} {entry : SchedulerEntry}
    (popped : scheduler.pop = some (entry, rest)) :
    rest.kind = scheduler.kind ∧ rest.sliceBudget = scheduler.sliceBudget := by
  cases pops_of_pop popped with
  | fifo => exact ⟨rfl, rfl⟩
  | priority => exact ⟨rfl, rfl⟩
  | sjf => exact ⟨rfl, rfl⟩
  | roundRobin => exact ⟨rfl, rfl⟩

end Scheduler

theorem next_priority {entries rest : List SchedulerEntry} {entry : SchedulerEntry}
    (distinct : DistinctPending entries)
    (popped : popPriorityQueue priorityCompare entries = some (entry, rest)) :
    Next .priority entries entry := by
  obtain ⟨found, _⟩ := popPriorityQueue_eq_some popped
  refine ⟨top_mem found, fun other member different => ?_⟩
  have unranked := top_max found other member
  have sequences := distinct.ne member (top_mem found) different
  rw [Below, priorityCompare_iff] at unranked
  rw [Int32.lt_iff_toInt_lt, ← Int32.toInt_inj, UInt64.lt_iff_toNat_lt]
  omega

theorem next_sjf {entries rest : List SchedulerEntry} {entry : SchedulerEntry}
    (distinct : DistinctPending entries)
    (popped : popPriorityQueue sjfCompare entries = some (entry, rest)) :
    Next .shortestJobFirst entries entry := by
  obtain ⟨found, _⟩ := popPriorityQueue_eq_some popped
  refine ⟨top_mem found, fun other member different => ?_⟩
  have unranked := top_max found other member
  have sequences := distinct.ne member (top_mem found) different
  rw [Below, sjfCompare_iff] at unranked
  rw [UInt64.lt_iff_toNat_lt, ← UInt64.toNat_inj, UInt64.lt_iff_toNat_lt]
  omega

/-- A strategy pops what its policy says is next. -/
theorem Scheduler.pop_spec {scheduler rest : Scheduler} {entry : SchedulerEntry}
    (distinct : DistinctPending scheduler.entries) (popped : scheduler.pop = some (entry, rest)) :
    Next scheduler.kind scheduler.entries entry ∧
      rest.entries = scheduler.entries.erase entry ∧ rest.kind = scheduler.kind ∧
        rest.sliceBudget = scheduler.sliceBudget := by
  refine and_assoc.mp ⟨?_, kept_of_pop popped⟩
  cases pops_of_pop popped with
  | fifo => exact ⟨rfl, by simp [Scheduler.entries]⟩
  | priority found => exact ⟨next_priority distinct found, (popPriorityQueue_eq_some found).2⟩
  | sjf found => exact ⟨next_sjf distinct found, (popPriorityQueue_eq_some found).2⟩
  | roundRobin => exact ⟨rfl, by simp [Scheduler.entries]⟩

theorem handsOut_drainPriorityQueue {compare : SchedulerEntry → SchedulerEntry → Bool}
    {kind : SchedulerKind}
    (chooses : ∀ {entries rest : List SchedulerEntry} {entry : SchedulerEntry},
      DistinctPending entries → popPriorityQueue compare entries = some (entry, rest) →
        Next kind entries entry)
    {bound : Nat} {entries : List SchedulerEntry} (enough : entries.length ≤ bound)
    (distinct : DistinctPending entries) :
    HandsOut kind entries (drainPriorityQueue compare bound entries) := by
  induction bound generalizing entries with
  | zero =>
      rw [List.length_eq_zero_iff.mp (Nat.le_zero.mp enough)]
      exact .nil
  | succ bound ih =>
      cases popped : popPriorityQueue compare entries with
      | none =>
          rw [popPriorityQueue_eq_none popped]
          exact .nil
      | some pair =>
          obtain ⟨entry, rest⟩ := pair
          have length := (popPriorityQueue_perm popped).length_eq
          have shape := (popPriorityQueue_eq_some popped).2
          rw [List.length_cons] at length
          simp only [drainPriorityQueue, popped]
          refine .cons (chooses distinct popped) ?_
          rw [← shape]
          refine ih (by omega) ?_
          rw [shape]
          exact distinct.erase entry

theorem handsOut_self {kind : SchedulerKind} (queues : kind = .fifo ∨ kind = .roundRobin)
    (entries : List SchedulerEntry) : HandsOut kind entries entries := by
  induction entries with
  | nil => exact .nil
  | cons entry rest ih =>
      have first : Next kind (entry :: rest) entry := by
        rcases queues with rfl | rfl <;> rfl
      refine .cons first ?_
      rwa [List.erase_cons_head]

theorem Scheduler.handsOut_drain (scheduler : Scheduler)
    (distinct : DistinctPending scheduler.entries) :
    HandsOut scheduler.kind scheduler.entries scheduler.drain := by
  cases scheduler with
  | fifo entries => exact handsOut_self (.inl rfl) entries
  | roundRobin entries quantum => exact handsOut_self (.inr rfl) entries
  | priority entries => exact handsOut_drainPriorityQueue next_priority (Nat.le_refl _) distinct
  | sjf entries => exact handsOut_drainPriorityQueue next_sjf (Nat.le_refl _) distinct

/-! ## Operations -/

inductive QueueOperation where
  | pushExternal (entry : SchedulerEntry)
  | requeue (entry : SchedulerEntry)
  | pop
  | setScheduler (config : SchedulerConfig)
  | closeAndDrainPending (drainPending : Bool)
  deriving DecidableEq

/-- How an operation ends. A `pop` gives `nothing` when it waits on, and when the
queue is closed and empty. -/
inductive QueueOutcome where
  | accepted
  | refused
  | dispatched (dispatch : Dispatch)
  | nothing
  | changed
  | threw (what : String)
  | drained (entries : List SchedulerEntry)
  deriving DecidableEq

def TaskQueue.perform (queue : TaskQueue) : QueueOperation → QueueOutcome × TaskQueue
  | .pushExternal entry =>
      match queue.pushExternal entry with
      | some next => (.accepted, next)
      | none => (.refused, queue)
  | .requeue entry => (.accepted, queue.requeue entry)
  | .pop =>
      match queue.pop with
      | .dispatch dispatch rest => (.dispatched dispatch, rest)
      | _ => (.nothing, queue)
  | .setScheduler config =>
      match queue.setScheduler config with
      | .ok next => (.changed, next)
      | .error what => (.threw what, queue)
  | .closeAndDrainPending drainPending =>
      let closed := queue.closeAndDrainPending drainPending
      (.drained closed.1, closed.2)

/-- The outcomes of a sequence of operations, and the queue after it. -/
def TaskQueue.performAll (queue : TaskQueue) :
    List QueueOperation → List QueueOutcome × TaskQueue
  | [] => ([], queue)
  | operation :: rest =>
      let first := queue.perform operation
      let later := first.2.performAll rest
      (first.1 :: later.1, later.2)

/-- The entry an operation has put into the queue. -/
def entriesIn : QueueOperation × QueueOutcome → List SchedulerEntry
  | (.pushExternal entry, .accepted) => [entry]
  | (.requeue entry, .accepted) => [entry]
  | _ => []

/-- The entries an operation has handed out. -/
def entriesOut : QueueOutcome → List SchedulerEntry
  | .dispatched dispatch => [dispatch.entry]
  | .drained entries => entries
  | _ => []

/-- The queue without its containers. -/
structure OrderedQueue where
  pending : List SchedulerEntry := []
  config : SchedulerConfig
  closed : Bool := false

/-- What each operation is to do. -/
inductive OrderedQueue.Step (queue : OrderedQueue) :
    QueueOperation → QueueOutcome → OrderedQueue → Prop
  | push {entry : SchedulerEntry} (opened : queue.closed = false) :
      Step queue (.pushExternal entry) .accepted { queue with pending := queue.pending ++ [entry] }
  | refuse {entry : SchedulerEntry} (closed : queue.closed = true) :
      Step queue (.pushExternal entry) .refused queue
  | requeue {entry : SchedulerEntry} :
      Step queue (.requeue entry) .accepted { queue with pending := queue.pending ++ [entry] }
  | pop {entry : SchedulerEntry} (next : Next queue.config.kind queue.pending entry) :
      Step queue .pop (.dispatched ⟨entry, budgetOf queue.config⟩)
        { queue with pending := queue.pending.erase entry }
  | popNothing (empty : queue.pending = []) : Step queue .pop .nothing queue
  | change {config : SchedulerConfig} {order : List SchedulerEntry}
      (opened : queue.closed = false) (valid : config.kind = .roundRobin → config.quantum ≠ 0)
      (reinserted : HandsOut queue.config.kind queue.pending order) :
      Step queue (.setScheduler config) .changed { queue with pending := order, config }
  | rejectQuantum {config : SchedulerConfig}
      (zero : config.kind = .roundRobin ∧ config.quantum = 0) :
      Step queue (.setScheduler config)
        (.threw "round-robin quantum must be greater than zero") queue
  | rejectClosed {config : SchedulerConfig} (closed : queue.closed = true)
      (valid : config.kind = .roundRobin → config.quantum ≠ 0) :
      Step queue (.setScheduler config) (.threw "cannot change scheduler after shutdown") queue
  | close : Step queue (.closeAndDrainPending false) (.drained []) { queue with closed := true }
  | drain {order : List SchedulerEntry}
      (handed : HandsOut queue.config.kind queue.pending order) :
      Step queue (.closeAndDrainPending true) (.drained order)
        { queue with pending := [], closed := true }

inductive OrderedQueue.Run :
    OrderedQueue → List QueueOperation → List QueueOutcome → OrderedQueue → Prop
  | nil {queue : OrderedQueue} : Run queue [] [] queue
  | cons {queue next final : OrderedQueue} {operation : QueueOperation}
      {operations : List QueueOperation} {outcome : QueueOutcome} {outcomes : List QueueOutcome}
      (first : Step queue operation outcome next) (later : Run next operations outcomes final) :
      Run queue (operation :: operations) (outcome :: outcomes) final

def TaskQueue.ordered (queue : TaskQueue) : OrderedQueue :=
  ⟨queue.entries, queue.config, queue.closed⟩

/-- The strategy is the one that was configured. -/
structure TaskQueue.Configured (queue : TaskQueue) : Prop where
  kind : queue.scheduler.kind = queue.config.kind
  budget : queue.scheduler.sliceBudget = budgetOf queue.config

/-! ## Refinement -/

theorem makeScheduler_spec (config : SchedulerConfig) :
    (config.kind = .roundRobin ∧ config.quantum = 0 ∧
        makeScheduler config = .error "round-robin quantum must be greater than zero") ∨
      (config.kind = .roundRobin → config.quantum ≠ 0) ∧ ∃ scheduler,
        makeScheduler config = .ok scheduler ∧ scheduler.entries = [] ∧
          scheduler.kind = config.kind ∧ scheduler.sliceBudget = budgetOf config := by
  obtain ⟨kind, quantum⟩ := config
  cases kind with
  | fifo => exact .inr ⟨nofun, _, rfl, rfl, rfl, rfl⟩
  | priority => exact .inr ⟨nofun, _, rfl, rfl, rfl, rfl⟩
  | shortestJobFirst => exact .inr ⟨nofun, _, rfl, rfl, rfl, rfl⟩
  | roundRobin =>
      by_cases zero : quantum = 0
      · exact .inl ⟨rfl, zero, by simp [makeScheduler, zero]⟩
      · exact .inr ⟨fun _ => zero, .roundRobin [] quantum, by simp [makeScheduler, zero], rfl, rfl,
          rfl⟩

theorem foldl_push_kept (entries : List SchedulerEntry) (scheduler : Scheduler) :
    (entries.foldl (fun scheduler entry => scheduler.push entry) scheduler).kind =
        scheduler.kind ∧
      (entries.foldl (fun scheduler entry => scheduler.push entry) scheduler).sliceBudget =
        scheduler.sliceBudget := by
  induction entries generalizing scheduler with
  | nil => exact ⟨rfl, rfl⟩
  | cons entry entries ih => simpa using ih (scheduler.push entry)

theorem TaskQueue.Configured.pushed {queue : TaskQueue} (configured : queue.Configured)
    (entry : SchedulerEntry) :
    Configured { queue with scheduler := queue.scheduler.push entry } :=
  ⟨by simpa using configured.kind, by simpa using configured.budget⟩

/-- One operation: the queue does what the ordered queue is to do. -/
theorem TaskQueue.perform_refines {queue : TaskQueue} (configured : queue.Configured)
    (distinct : DistinctPending queue.entries) (operation : QueueOperation) :
    queue.ordered.Step operation (queue.perform operation).1 (queue.perform operation).2.ordered ∧
      (queue.perform operation).2.Configured := by
  cases operation with
  | pushExternal entry =>
      simp only [perform, pushExternal]
      split
      · next closed pushed =>
          split at pushed
          · cases pushed
          · next opened =>
              cases pushed
              simp only [ordered, entries, Scheduler.entries_push]
              exact ⟨.push (by simpa using opened), configured.pushed entry⟩
      · next refused =>
          split at refused
          · next closed => exact ⟨.refuse closed, configured⟩
          · cases refused
  | requeue entry =>
      simp only [perform, TaskQueue.requeue, ordered, entries, Scheduler.entries_push]
      exact ⟨.requeue, configured.pushed entry⟩
  | pop =>
      cases popped : queue.scheduler.pop with
      | none =>
          have performed : queue.perform .pop = (.nothing, queue) := by
            simp only [perform, TaskQueue.pop, popped]
            cases queue.closed <;> rfl
          rw [performed]
          exact ⟨.popNothing (Scheduler.pop_eq_none popped), configured⟩
      | some pair =>
          obtain ⟨entry, rest⟩ := pair
          have performed : queue.perform .pop =
              (.dispatched ⟨entry, rest.sliceBudget⟩, { queue with scheduler := rest }) := by
            simp only [perform, TaskQueue.pop, popped]
          obtain ⟨next, left, kind, budget⟩ := Scheduler.pop_spec distinct popped
          have shape : TaskQueue.ordered { queue with scheduler := rest } =
              { queue.ordered with pending := queue.ordered.pending.erase entry } := by
            simp only [ordered, entries, left]
          rw [performed, shape, budget, configured.budget]
          refine ⟨.pop ?_, kind.trans configured.kind, budget.trans configured.budget⟩
          rw [ordered, ← configured.kind]
          exact next
  | setScheduler config =>
      rcases makeScheduler_spec config with
        ⟨kind, zero, rejected⟩ | ⟨valid, scheduler, made, empty, kind, budget⟩
      · simp only [perform, TaskQueue.setScheduler, rejected]
        exact ⟨.rejectQuantum ⟨kind, zero⟩, configured⟩
      · by_cases closed : queue.closed = true
        · simp only [perform, TaskQueue.setScheduler, made, closed, if_true]
          exact ⟨.rejectClosed closed valid, configured⟩
        · have opened : queue.closed = false := by simpa using closed
          have kept := foldl_push_kept queue.scheduler.drain scheduler
          have order : HandsOut queue.config.kind queue.entries queue.scheduler.drain := by
            rw [← configured.kind]
            exact queue.scheduler.handsOut_drain distinct
          have shape : (queue.perform (.setScheduler config)).2.ordered =
              { queue.ordered with pending := queue.scheduler.drain, config } := by
            simp [perform, TaskQueue.setScheduler, made, opened, ordered, entries,
              Scheduler.entries_foldl_push, empty]
          have changed : (queue.perform (.setScheduler config)).1 = .changed := by
            simp [perform, TaskQueue.setScheduler, made, opened]
          rw [shape, changed]
          refine ⟨.change opened valid order, ?_⟩
          simp only [perform, TaskQueue.setScheduler, made, opened, Bool.false_eq_true, if_false]
          exact ⟨kept.1.trans kind, kept.2.trans budget⟩
  | closeAndDrainPending drainPending =>
      cases drainPending with
      | false => exact ⟨.close, configured.kind, configured.budget⟩
      | true =>
          simp only [perform, TaskQueue.closeAndDrainPending, if_true, ordered, entries,
            Scheduler.entries_drained]
          refine ⟨.drain ?_, ?_⟩
          · rw [← configured.kind]
            exact queue.scheduler.handsOut_drain distinct
          · exact ⟨queue.scheduler.kind_drained.trans configured.kind,
              queue.scheduler.sliceBudget_drained.trans configured.budget⟩

/-- What is put in is handed out or still pending. -/
theorem TaskQueue.perform_perm (queue : TaskQueue) (operation : QueueOperation) :
    (queue.entries ++ entriesIn (operation, (queue.perform operation).1)).Perm
      (entriesOut (queue.perform operation).1 ++ (queue.perform operation).2.entries) := by
  cases operation with
  | pushExternal entry =>
      simp only [perform]
      split
      · next pushed =>
          rw [(pushExternal_eq_some pushed).2.2]
          exact .refl _
      · simp [entriesIn, entriesOut]
  | requeue entry => simp [perform, entriesIn, entriesOut]
  | pop =>
      simp only [perform]
      split
      · next popped => simpa [entriesIn, entriesOut] using (pop_eq_dispatch popped).2
      · simp [entriesIn, entriesOut]
  | setScheduler config =>
      simp only [perform]
      split
      · next changed => simpa [entriesIn, entriesOut] using (setScheduler_eq_ok changed).2.2.symm
      · simp [entriesIn, entriesOut]
  | closeAndDrainPending drainPending =>
      simpa [perform, entriesIn, entriesOut] using queue.closeAndDrainPending_perm drainPending

theorem TaskQueue.performAll_perm (queue : TaskQueue) (operations : List QueueOperation) :
    (queue.entries ++ (operations.zip (queue.performAll operations).1).flatMap entriesIn).Perm
      ((queue.performAll operations).1.flatMap entriesOut ++
        (queue.performAll operations).2.entries) := by
  induction operations generalizing queue with
  | nil => simp [performAll]
  | cons operation rest ih =>
      simp only [performAll, List.zip_cons_cons, List.flatMap_cons]
      rw [← List.append_assoc queue.entries]
      refine ((queue.perform_perm operation).append_right _).trans ?_
      rw [List.append_assoc, List.append_assoc]
      exact (ih (queue.perform operation).2).append_left _

theorem TaskQueue.performAll_refines {queue : TaskQueue} (configured : queue.Configured)
    {operations : List QueueOperation}
    (distinct : ∀ before, before <+: operations →
      DistinctPending (queue.performAll before).2.entries) :
    OrderedQueue.Run queue.ordered operations (queue.performAll operations).1
      (queue.performAll operations).2.ordered := by
  induction operations generalizing queue with
  | nil => exact .nil
  | cons operation rest ih =>
      obtain ⟨step, kept⟩ :=
        perform_refines configured (distinct [] List.nil_prefix) operation
      refine .cons step (ih kept fun before shorter => ?_)
      exact distinct (operation :: before) (List.prefix_cons_inj operation |>.mpr shorter)

/-- From any valid configuration and over any operations that keep the sequences
of the pending entries distinct, the queue does what the ordered queue does: the
same outcomes, the same pending entries in the same order. What was accepted is
what was popped, drained or is pending. -/
theorem taskQueue_refines_orderedQueue (config : SchedulerConfig) (queue : TaskQueue)
    (made : TaskQueue.make config = .ok queue) (operations : List QueueOperation)
    (distinct : ∀ before, before <+: operations →
      DistinctPending (queue.performAll before).2.entries) :
    OrderedQueue.Run { config } operations (queue.performAll operations).1
        (queue.performAll operations).2.ordered ∧
      ((operations.zip (queue.performAll operations).1).flatMap entriesIn).Perm
        ((queue.performAll operations).1.flatMap entriesOut ++
          (queue.performAll operations).2.entries) := by
  rcases makeScheduler_spec config with
    ⟨_, _, rejected⟩ | ⟨_, scheduler, built, empty, kind, budget⟩
  · simp [TaskQueue.make, rejected] at made
  · obtain rfl : queue = ⟨scheduler, config, false⟩ := by
      simpa [TaskQueue.make, built] using made.symm
    have start : TaskQueue.ordered ⟨scheduler, config, false⟩ = { config } := by
      simp [TaskQueue.ordered, TaskQueue.entries, empty]
    have balance := TaskQueue.performAll_perm ⟨scheduler, config, false⟩ operations
    rw [TaskQueue.entries, empty, List.nil_append] at balance
    exact ⟨start ▸ TaskQueue.performAll_refines ⟨kind, budget⟩ distinct, balance⟩

/-- A change of policy between pushes and pops, and a close. -/
def mixedOperations : List QueueOperation :=
  [.pushExternal ⟨1, 0, 9, 0⟩, .pushExternal ⟨2, 5, 4, 1⟩, .pushExternal ⟨3, 5, 2, 2⟩, .pop,
    .setScheduler ⟨.roundRobin, 0⟩, .setScheduler ⟨.roundRobin, 3⟩, .pop,
    .requeue ⟨3, 5, 2, 2⟩, .closeAndDrainPending true, .pushExternal ⟨4, 0, 1, 3⟩, .pop]

theorem taskQueue_refines_mixedOperations :
    OrderedQueue.Run { config := ⟨.priority, 100⟩ } mixedOperations
      [.accepted, .accepted, .accepted, .dispatched ⟨⟨2, 5, 4, 1⟩, unlimitedWork⟩,
        .threw "round-robin quantum must be greater than zero", .changed,
        .dispatched ⟨⟨3, 5, 2, 2⟩, 3⟩, .accepted, .drained [⟨1, 0, 9, 0⟩, ⟨3, 5, 2, 2⟩], .refused,
        .nothing]
      ⟨[], ⟨.roundRobin, 3⟩, true⟩ := by
  have distinct : ∀ before ∈ mixedOperations.inits, DistinctPending
      (TaskQueue.performAll ⟨.priority [], ⟨.priority, 100⟩, false⟩ before).2.entries := by
    decide +kernel
  have refined := (taskQueue_refines_orderedQueue ⟨.priority, 100⟩
    ⟨.priority [], ⟨.priority, 100⟩, false⟩ rfl mixedOperations fun before shorter =>
      distinct before ((List.mem_inits _ _).mpr shorter)).1
  exact refined

end Kronos
