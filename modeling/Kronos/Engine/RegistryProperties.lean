import Kronos.Engine.RecordProperties
import Kronos.Common.Total
import Kronos.Engine.Step

/-!
# The registry

The record a job id stands for, and how it changes when a critical section is
run on a record or a new record is registered.
-/

set_option autoImplicit false

namespace Kronos.Engine

variable {Task : Type}

namespace Registry

/-- The record registered under an id. -/
def recordOf (registry : Registry Task) (id : JobId) : Option (JobRecord Task) :=
  (registry.find id).bind fun ref => registry.heap[ref]?

theorem locked_eq_some {registry : Registry Task} {ref : RecordRef} {locked : Locked Task}
    (read : registry.locked ref = some locked) :
    registry.heap[ref]? = some locked.record ∧ locked.journal = registry.journal := by
  obtain ⟨record, found, rfl⟩ := Option.map_eq_some_iff.mp read
  exact ⟨found, rfl⟩

@[simp] theorem find_store (registry : Registry Task) (ref : RecordRef) (locked : Locked Task)
    (id : JobId) : (registry.store ref locked).find id = registry.find id := rfl

@[simp] theorem heap_store (registry : Registry Task) (ref : RecordRef) (locked : Locked Task) :
    (registry.store ref locked).heap = registry.heap.set ref locked.record := rfl

@[simp] theorem find_make (registry : Registry Task) (record : JobRecord Task) (id : JobId) :
    (registry.make record).find id = registry.find id := rfl

theorem find_emplace {registry : Registry Task} {id : JobId} (ref : RecordRef)
    (fresh : registry.find id = none) (other : JobId) :
    (registry.emplace id ref).find other = if other = id then some ref else registry.find other := by
  have appended : (registry.emplace id ref).records = registry.records ++ [(id, ref)] := by
    simp [emplace, fresh]
  rw [find, appended, List.lookup_append]
  by_cases same : other = id
  · subst same
    have none : registry.records.lookup other = none := fresh
    simp [none]
  · have distinct : (other == id) = false := by simpa using same
    have apart : List.lookup other [(id, ref)] = none := by
      simp [List.lookup_cons, distinct]
    rw [apart, Option.or_none, if_neg same]
    rfl

/-- What is registered stays registered. -/
theorem find_emplace_of_some {registry : Registry Task} {id other : JobId} {ref otherRef : RecordRef}
    (found : registry.find other = some otherRef) :
    (registry.emplace id ref).find other = some otherRef := by
  cases free : registry.find id with
  | none =>
      rw [find_emplace ref free]
      split
      · next same =>
          rw [same, free] at found
          cases found
      · exact found
  | some taken => simpa [emplace, free] using found

/-- The id of a new record is found, and all others are found as before. -/
theorem find_register {registry : Registry Task} {id : JobId} (record : JobRecord Task)
    (ref : RecordRef) (fresh : registry.find id = none) (other : JobId) :
    ((registry.make record).emplace id ref).find other =
      if other = id then some ref else registry.find other :=
  find_emplace ref (show (registry.make record).find id = none from fresh) other

@[simp] theorem heap_emplace (registry : Registry Task) (id : JobId) (ref : RecordRef) :
    (registry.emplace id ref).heap = registry.heap := by
  unfold emplace
  split <;> rfl

@[simp] theorem journal_emplace (registry : Registry Task) (id : JobId) (ref : RecordRef) :
    (registry.emplace id ref).journal = registry.journal := by
  unfold emplace
  split <;> rfl

end Registry

/-- Every registered id stands for a record of that id, and every record is sound. -/
structure RegistryOk (registry : Registry Task) : Prop where
  stored : ∀ {id : JobId} {ref : RecordRef}, registry.find id = some ref →
    ∃ record, registry.heap[ref]? = some record ∧ record.snapshot.id = id
  recordOk : ∀ record ∈ registry.heap, RecordOk record

namespace RegistryOk

variable {registry : Registry Task}

theorem recordOf_eq (ok : RegistryOk registry) {id : JobId} {ref : RecordRef}
    (found : registry.find id = some ref) :
    ∃ record, registry.recordOf id = some record ∧ registry.heap[ref]? = some record ∧
      record.snapshot.id = id := by
  obtain ⟨record, read, same⟩ := ok.stored found
  exact ⟨record, by simp [Registry.recordOf, found, read], read, same⟩

theorem find_eq_none (ok : RegistryOk registry) {id : JobId}
    (missing : registry.recordOf id = none) :
    registry.find id = none := by
  cases found : registry.find id with
  | none => rfl
  | some ref =>
      obtain ⟨record, known, _⟩ := ok.recordOf_eq found
      rw [known] at missing
      cases missing

theorem recordOf_ok (ok : RegistryOk registry) {id : JobId} {record : JobRecord Task}
    (known : registry.recordOf id = some record) : RecordOk record ∧ record.snapshot.id = id := by
  obtain ⟨ref, found, read⟩ := Option.bind_eq_some_iff.mp known
  obtain ⟨stored, readStored, same⟩ := ok.stored found
  rw [read] at readStored
  cases readStored
  exact ⟨ok.recordOk record (List.mem_of_getElem? read), same⟩

/-- A reference is registered under one id only. -/
theorem id_unique (ok : RegistryOk registry) {id other : JobId} {ref : RecordRef}
    (found : registry.find id = some ref) (otherFound : registry.find other = some ref) :
    other = id := by
  obtain ⟨record, read, same⟩ := ok.stored found
  obtain ⟨otherRecord, otherRead, otherSame⟩ := ok.stored otherFound
  rw [read] at otherRead
  cases otherRead
  exact otherSame.symm.trans same

/-- A record registered under an id is replaced by one of the same id. -/
theorem replace (ok : RegistryOk registry) {id : JobId} {ref : RecordRef}
    {record : JobRecord Task} {journal : Journal} (found : registry.find id = some ref)
    (recordOk : RecordOk record) (same : record.snapshot.id = id) :
    RegistryOk (registry.store ref ⟨record, journal⟩) ∧
      ∀ other, (registry.store ref ⟨record, journal⟩).recordOf other =
        if other = id then some record else registry.recordOf other := by
  obtain ⟨old, read, _⟩ := ok.stored found
  have bound : ref < registry.heap.length := (List.getElem?_eq_some_iff.mp read).1
  refine ⟨⟨?_, ?_⟩, ?_⟩
  · intro other otherRef otherFound
    by_cases sameRef : otherRef = ref
    · subst sameRef
      refine ⟨record, by simp [Registry.store, bound], ?_⟩
      rw [same, ok.id_unique found otherFound]
    · obtain ⟨otherRecord, otherRead, otherSame⟩ := ok.stored otherFound
      refine ⟨otherRecord, ?_, otherSame⟩
      rw [← otherRead]
      exact List.getElem?_set_ne (Ne.symm sameRef)
  · exact Threads.forall_mem_set ok.recordOk recordOk
  · intro other
    by_cases sameId : other = id
    · subst sameId
      simp [Registry.recordOf, found, bound]
    · rw [if_neg sameId]
      cases otherFound : registry.find other with
      | none => simp [Registry.recordOf, otherFound]
      | some otherRef =>
          have different : ref ≠ otherRef := by
            rintro rfl
            exact sameId (ok.id_unique found otherFound)
          simp [Registry.recordOf, otherFound, List.getElem?_set_ne different]

/-- A new record is registered under an id that was free. -/
theorem register (ok : RegistryOk registry) {id : JobId} {record : JobRecord Task}
    (fresh : registry.find id = none) (recordOk : RecordOk record)
    (same : record.snapshot.id = id) :
    RegistryOk ((registry.make record).emplace id registry.heap.length) ∧
      ∀ other, ((registry.make record).emplace id registry.heap.length).recordOf other =
        if other = id then some record else registry.recordOf other := by
  have bound : ∀ {other : JobId} {ref : RecordRef}, registry.find other = some ref →
      ref < registry.heap.length := by
    intro other ref found
    obtain ⟨stored, read, _⟩ := ok.stored found
    exact (List.getElem?_eq_some_iff.mp read).1
  refine ⟨⟨?_, ?_⟩, ?_⟩
  · intro other ref found
    rw [Registry.find_register _ _ fresh] at found
    rw [Registry.heap_emplace]
    split at found
    · next sameId =>
        cases found
        exact ⟨record, by simp [Registry.make], by rw [same, sameId]⟩
    · obtain ⟨stored, read, storedSame⟩ := ok.stored found
      exact ⟨stored, by rw [← read]; exact List.getElem?_append_left (bound found), storedSame⟩
  · intro stored member
    rw [Registry.heap_emplace] at member
    rcases List.mem_append.mp member with old | added
    · exact ok.recordOk stored old
    · rwa [List.mem_singleton.mp added]
  · intro other
    rw [Registry.recordOf, Registry.find_register _ _ fresh, Registry.heap_emplace]
    split
    · simp [Registry.make]
    · rw [Registry.recordOf]
      cases found : registry.find other with
      | none => rfl
      | some ref => exact List.getElem?_append_left (bound found)

end RegistryOk

/-! ## Sections on registered records -/

/-- A section replaces the record of its job and no other. -/
theorem RegistryOk.change {registry : Registry Task} (ok : RegistryOk registry) {id : JobId}
    {ref : RecordRef} {env : Environment} {units : WorkUnits} {locked after : Locked Task}
    (found : registry.find id = some ref) (read : registry.locked ref = some locked)
    (change : Change env units locked after) :
    RegistryOk (registry.store ref after) ∧ registry.recordOf id = some locked.record ∧
      ∀ other, (registry.store ref after).recordOf other =
        if other = id then some after.record else registry.recordOf other := by
  obtain ⟨heapRead, _⟩ := Registry.locked_eq_some read
  obtain ⟨record, known, storedRead, sameId⟩ := ok.recordOf_eq found
  rw [heapRead] at storedRead
  cases storedRead
  have recordOk := ok.recordOk _ (List.mem_of_getElem? heapRead)
  obtain ⟨nextOk, others⟩ := @RegistryOk.replace _ _ ok _ _ _ after.journal found
    (change.recordOk recordOk) (change.sameIdentity.id.trans sameId)
  exact ⟨nextOk, known, others⟩

/-- A slice replaces the task of its record and nothing else. -/
theorem RegistryOk.slice {registry : Registry Task} (ok : RegistryOk registry) {id : JobId}
    {ref : RecordRef} {record : JobRecord Task} (found : registry.find id = some ref)
    (read : registry.heap[ref]? = some record) (task : Task) :
    RegistryOk { registry with heap := registry.heap.set ref { record with task } } ∧
      registry.recordOf id = some record ∧
      ∀ other, Registry.recordOf
          { registry with heap := registry.heap.set ref { record with task } } other =
        if other = id then some { record with task } else registry.recordOf other := by
  obtain ⟨stored, known, storedRead, sameId⟩ := ok.recordOf_eq found
  rw [read] at storedRead
  cases storedRead
  obtain ⟨published, promise, begun, entry, unstopped⟩ :=
    ok.recordOk record (List.mem_of_getElem? read)
  obtain ⟨nextOk, others⟩ := @RegistryOk.replace _ _ ok _ _ { record with task } registry.journal
    found ⟨published, promise, begun, entry, unstopped⟩ sameId
  exact ⟨nextOk, known, others⟩

/-- A critical section on the record of one job. -/
inductive Section (env : Environment) (units : WorkUnits) (id : JobId) (registry : Registry Task) :
    Registry Task → Prop
  | mk {ref : RecordRef} {locked after : Locked Task} (found : registry.find id = some ref)
      (read : registry.locked ref = some locked) (change : Change env units locked after) :
      Section env units id registry (registry.store ref after)

namespace Section

variable {env : Environment} {units : WorkUnits} {id : JobId} {registry next : Registry Task}

theorem find (ran : Section env units id registry next) (other : JobId) :
    next.find other = registry.find other := by
  cases ran
  rfl

/-- The job's record changes as sections change records, and no other record changes. -/
theorem recordOf (ran : Section env units id registry next) (ok : RegistryOk registry) :
    RegistryOk next ∧ ∃ record after, registry.recordOf id = some record ∧
      Change env units ⟨record, registry.journal⟩ ⟨after, next.journal⟩ ∧
      ∀ other, next.recordOf other = if other = id then some after else registry.recordOf other := by
  obtain @⟨ref, locked, after, found, read, change⟩ := ran
  obtain ⟨nextOk, known, others⟩ := ok.change found read change
  refine ⟨nextOk, locked.record, after.record, known, ?_, others⟩
  rw [← (Registry.locked_eq_some read).2]
  exact change

end Section

/-- One turn of the loop over the drained entries. -/
theorem section_cancelEntryLocked {registry : Registry Task} (ok : RegistryOk registry)
    (env : Environment) (entry : SchedulerEntry) :
    (registry.find entry.id = none ∧ cancelEntryLocked env registry entry = registry) ∨
      (Section env 0 entry.id registry (cancelEntryLocked env registry entry) ∧
        ∀ record, (cancelEntryLocked env registry entry).recordOf entry.id = some record →
          isTerminal record.snapshot.state = true) := by
  cases found : registry.find entry.id with
  | none => exact .inl ⟨rfl, by simp [cancelEntryLocked, found]⟩
  | some ref =>
      right
      obtain ⟨record, known, read, same⟩ := ok.recordOf_eq found
      have locks : registry.locked ref = some ⟨record, registry.journal⟩ := by
        simp [Registry.locked, read]
      have recordOk := ok.recordOk record (List.mem_of_getElem? read)
      have result : cancelEntryLocked env registry entry =
          registry.store ref (shutdownLocked env ⟨record, registry.journal⟩) := by
        simp [cancelEntryLocked, found, locks]
      rw [result]
      have ran := Section.mk found locks
        (@change_shutdownLocked _ env ⟨record, registry.journal⟩ recordOk)
      refine ⟨ran, ?_⟩
      intro after known
      have bound : ref < registry.heap.length := (List.getElem?_eq_some_iff.mp read).1
      simp only [Registry.recordOf, Registry.find_store, found, Option.bind_some, Registry.heap_store,
        List.getElem?_set_self bound, Option.some.injEq] at known
      rw [← known]
      exact isTerminal_shutdownLocked recordOk

@[simp] theorem length_cancelPendingLocked (env : Environment) (registry : Registry Task)
    (pending : List SchedulerEntry) :
    (cancelPendingLocked env registry pending).heap.length = registry.heap.length := by
  induction pending generalizing registry with
  | nil => rfl
  | cons entry rest ih =>
      have one : (cancelEntryLocked env registry entry).heap.length = registry.heap.length := by
        unfold cancelEntryLocked
        split
        · rfl
        · split
          · rfl
          · simp
      rw [← one]
      exact ih _

/-- The loop over the drained entries is a sequence of sections. -/
theorem cancelPendingLocked_induction {env : Environment} {registry : Registry Task}
    (ok : RegistryOk registry) (pending : List SchedulerEntry) {property : Registry Task → Prop}
    (holds : property registry)
    (kept : ∀ (before after : Registry Task) (id : JobId), RegistryOk before → property before →
      Section env 0 id before after →
      (∀ record, after.recordOf id = some record → isTerminal record.snapshot.state = true) →
      property after) :
    RegistryOk (cancelPendingLocked env registry pending) ∧
      property (cancelPendingLocked env registry pending) := by
  induction pending generalizing registry with
  | nil => exact ⟨ok, holds⟩
  | cons entry rest ih =>
      rcases section_cancelEntryLocked ok env entry with ⟨_, same⟩ | ⟨ran, finished⟩
      · simp only [cancelPendingLocked, List.foldl_cons, same]
        exact ih ok holds
      · exact ih (ran.recordOf ok).1 (kept _ _ _ ok holds ran finished)

theorem find_cancelPendingLocked {registry : Registry Task} (ok : RegistryOk registry)
    (env : Environment) (pending : List SchedulerEntry) (id : JobId) :
    (cancelPendingLocked env registry pending).find id = registry.find id :=
  (@cancelPendingLocked_induction _ env registry ok pending
    (fun next => next.find id = registry.find id) rfl
    fun _ _ _ _ same ran _ => (ran.find id).trans same).2

theorem RegistryOk.cancelPendingLocked {registry : Registry Task} (ok : RegistryOk registry)
    (env : Environment) (pending : List SchedulerEntry) :
    RegistryOk (cancelPendingLocked env registry pending) :=
  (@cancelPendingLocked_induction _ env registry ok pending (fun _ => True) trivial
    fun _ _ _ _ _ _ _ => trivial).1

/-- The loop leaves the jobs alone that have no entry or are finished already. -/
theorem cancelPendingLocked_untouched {registry : Registry Task} (ok : RegistryOk registry)
    (env : Environment) {pending : List SchedulerEntry} {id : JobId} {record : JobRecord Task}
    (known : registry.recordOf id = some record)
    (which : (∀ entry ∈ pending, entry.id ≠ id) ∨ isTerminal record.snapshot.state = true) :
    (cancelPendingLocked env registry pending).recordOf id = some record := by
  induction pending generalizing registry with
  | nil => exact known
  | cons entry rest ih =>
      have later : (∀ entry ∈ rest, entry.id ≠ id) ∨ isTerminal record.snapshot.state = true :=
        which.imp_left fun none other member => none other (List.mem_cons_of_mem _ member)
      rcases section_cancelEntryLocked ok env entry with ⟨missing, same⟩ | ⟨ran, _⟩
      · simp only [cancelPendingLocked, List.foldl_cons, same]
        exact ih ok known later
      · obtain ⟨nextOk, before, after, beforeKnown, change, recordOf⟩ := ran.recordOf ok
        refine ih nextOk ?_ later
        rw [recordOf]
        split
        · next same =>
            rw [← same, known] at beforeKnown
            cases beforeKnown
            rcases which with none | terminal
            · exact absurd same.symm (none entry List.mem_cons_self)
            · have unchanged := change.eq_of_terminal terminal
              simp only [Locked.mk.injEq] at unchanged
              rw [unchanged.1]
        · exact known

/-- The loop finishes the jobs of its entries. -/
theorem cancelPendingLocked_finished {registry : Registry Task} (ok : RegistryOk registry)
    (env : Environment) {pending : List SchedulerEntry} {entry : SchedulerEntry}
    (member : entry ∈ pending) {record : JobRecord Task}
    (known : (cancelPendingLocked env registry pending).recordOf entry.id = some record) :
    isTerminal record.snapshot.state = true := by
  induction pending generalizing registry with
  | nil => cases member
  | cons first rest ih =>
      rcases section_cancelEntryLocked ok env first with ⟨missing, same⟩ | ⟨ran, finished⟩
      · simp only [cancelPendingLocked, List.foldl_cons, same] at known
        rcases List.mem_cons.mp member with rfl | later
        · change (cancelPendingLocked env registry rest).recordOf entry.id = some record at known
          rw [Registry.recordOf, find_cancelPendingLocked ok, missing] at known
          cases known
        · exact ih ok later known
      · obtain ⟨nextOk, before, after, beforeKnown, change, recordOf⟩ := ran.recordOf ok
        rcases List.mem_cons.mp member with rfl | later
        · have cancelled : (cancelEntryLocked env registry entry).recordOf entry.id = some after := by
            rw [recordOf, if_pos rfl]
          have terminal := finished after cancelled
          have kept := @cancelPendingLocked_untouched _ _ nextOk env rest _ _ cancelled
            (.inr terminal)
          change (cancelPendingLocked env _ rest).recordOf entry.id = some record at known
          rw [kept] at known
          cases known
          exact terminal
        · exact ih nextOk later known

end Kronos.Engine
