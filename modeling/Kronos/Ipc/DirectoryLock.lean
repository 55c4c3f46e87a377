import Kronos.Ipc.DirectoryShape

/-!
# The lock of the directory

A server that has the lock is the only one that changes the FIFOs of the directory. What
a step of one server leaves to the others is said once, and every invariant of a server
rests on it.
-/

set_option autoImplicit false

namespace Kronos.Ipc

/-! ## What a step changes -/

namespace FileSystem

/-- Every name is the name of a file. -/
def Valid (fs : FileSystem) : Prop :=
  ∀ {name : Name} {inode : Inode}, fs.entries name = some inode → inode < fs.files.length

/-- The process holds the lock of the directory. -/
def LockedBy (fs : FileSystem) (index : Nat) : Prop :=
  ∃ lock, fs.entries .lock = some lock ∧ fs.holders lock = some index

theorem LockedBy.unique {fs : FileSystem} {first second : Nat} (one : fs.LockedBy first)
    (two : fs.LockedBy second) : first = second := by
  obtain ⟨lock, named, held⟩ := one
  obtain ⟨other, alsoNamed, alsoHeld⟩ := two
  rw [named] at alsoNamed
  cases alsoNamed
  rw [held] at alsoHeld
  exact Option.some.inj alsoHeld

/-- What a step of one server leaves to the others. -/
structure Keeps (index : Nat) (fs next : FileSystem) : Prop where
  user : next.user = fs.user
  files {inode : Inode} {file : File} : fs.files[inode]? = some file →
    next.files[inode]? = some file
  lock {inode : Inode} : fs.entries .lock = some inode → next.entries .lock = some inode
  holders (inode : Inode) {other : Nat} : other ≠ index →
    (next.holders inode = some other ↔ fs.holders inode = some other)
  fifos : ¬ fs.LockedBy index → ∀ fifo, next.entries (.fifo fifo) = fs.entries (.fifo fifo)
  /-- A FIFO that is named afterwards was named before, or it is the server's own. -/
  named {fifo : Fifo} {inode : Inode} {file : File} : next.entries (.fifo fifo) = some inode →
    next.files[inode]? = some file →
    fs.entries (.fifo fifo) = some inode ∧ fs.files[inode]? = some file ∨ file.maker = some index
  makers {inode : Inode} {file : File} : next.files[inode]? = some file →
    fs.files[inode]? = some file ∨ file.maker = some index
  valid : next.Valid

section Changes

variable {fs : FileSystem} {index : Nat}

@[simp]
theorem create_entries_self (name : Name) (file : File) :
    (fs.create name file).entries name = some fs.files.length := Function.update_self ..

theorem create_entries_of_ne {name other : Name} (another : other ≠ name) (file : File) :
    (fs.create name file).entries other = fs.entries other := Function.update_of_ne another ..

@[simp]
theorem unlink_entries_self (name : Name) : (fs.unlink name).entries name = none :=
  Function.update_self ..

theorem unlink_entries_of_ne {name other : Name} (another : other ≠ name) :
    (fs.unlink name).entries other = fs.entries other := Function.update_of_ne another ..

theorem Valid.create (valid : fs.Valid) (name : Name) (file : File) : (fs.create name file).Valid := by
  intro other inode named
  have grown : (fs.create name file).files.length = fs.files.length + 1 := List.length_append ..
  rw [grown]
  by_cases same : other = name
  · rw [same, create_entries_self] at named
    cases named
    exact Nat.lt_succ_self _
  · rw [create_entries_of_ne same] at named
    exact Nat.lt_succ_of_lt (valid named)

theorem Valid.unlink (valid : fs.Valid) (name : Name) : (fs.unlink name).Valid := by
  intro other inode named
  by_cases same : other = name
  · rw [same, unlink_entries_self] at named
    cases named
  · rw [unlink_entries_of_ne same] at named
    exact valid named

theorem Keeps.refl (valid : fs.Valid) : Keeps index fs fs where
  user := rfl
  files found := found
  lock found := found
  holders _ _ _ := Iff.rfl
  fifos _ _ := rfl
  named entry found := .inl ⟨entry, found⟩
  makers found := .inl found
  valid := valid

theorem Keeps.directory (valid : fs.Valid) (directory : Option File) :
    Keeps index fs { fs with directory } :=
  { Keeps.refl valid with valid := valid }

theorem file_of_create {name : Name} {file other : File} {inode : Inode}
    (bound : inode < fs.files.length) (found : (fs.create name file).files[inode]? = some other) :
    fs.files[inode]? = some other := by
  rwa [FileSystem.create, List.getElem?_append_left bound] at found

theorem files_create {name : Name} {file other : File} {inode : Inode}
    (found : fs.files[inode]? = some other) :
    (fs.create name file).files[inode]? = some other := by
  rwa [FileSystem.create, List.getElem?_append_left (List.getElem?_eq_some_iff.mp found).1]

theorem file_or_created {name : Name} {file other : File} {inode : Inode}
    (found : (fs.create name file).files[inode]? = some other) :
    fs.files[inode]? = some other ∨ other = file := by
  by_cases bound : inode < fs.files.length
  · exact .inl (file_of_create bound found)
  · rw [FileSystem.create, List.getElem?_append_right (Nat.le_of_not_lt bound)] at found
    exact .inr (List.mem_singleton.mp (List.mem_of_getElem? found))

theorem Keeps.createLock (valid : fs.Valid) (free : fs.entries .lock = none) {file : File}
    (own : file.maker = some index) : Keeps index fs (fs.create .lock file) where
  user := rfl
  files found := files_create found
  lock found := by
    rw [free] at found
    cases found
  holders _ _ _ := Iff.rfl
  fifos _ _ := rfl
  named {fifo inode _} entry found := by
    have entry : fs.entries (.fifo fifo) = some inode := entry
    exact .inl ⟨entry, file_of_create (valid entry) found⟩
  makers found := by
    rcases file_or_created found with before | rfl
    · exact .inl before
    · exact .inr own
  valid := valid.create .lock file

theorem Keeps.createFifo (valid : fs.Valid) (locked : fs.LockedBy index) (fifo : Fifo) {file : File}
    (own : file.maker = some index) : Keeps index fs (fs.create (.fifo fifo) file) where
  user := rfl
  files found := files_create found
  lock found := found
  holders _ _ _ := Iff.rfl
  fifos unlocked := absurd locked unlocked
  named {other inode _} entry found := by
    by_cases same : Name.fifo other = .fifo fifo
    · rw [same, create_entries_self] at entry
      cases entry
      simp only [FileSystem.create, List.getElem?_concat_length] at found
      cases found
      exact .inr own
    · rw [create_entries_of_ne same] at entry
      exact .inl ⟨entry, file_of_create (valid entry) found⟩
  makers found := by
    rcases file_or_created found with before | rfl
    · exact .inl before
    · exact .inr own
  valid := valid.create _ file

theorem Keeps.unlink (valid : fs.Valid) (locked : fs.LockedBy index) (fifo : Fifo) :
    Keeps index fs (fs.unlink (.fifo fifo)) where
  user := rfl
  files found := found
  lock found := found
  holders _ _ _ := Iff.rfl
  fifos unlocked := absurd locked unlocked
  named {other _ _} entry found := by
    by_cases same : Name.fifo other = .fifo fifo
    · rw [same, unlink_entries_self] at entry
      cases entry
    · rw [unlink_entries_of_ne same] at entry
      exact .inl ⟨entry, found⟩
  makers found := .inl found
  valid := valid.unlink _

theorem Keeps.lockFor (valid : fs.Valid) {lock : Inode} (free : fs.holders lock = none) :
    Keeps index fs (fs.lockFor lock index) :=
  { Keeps.refl valid with
    valid := valid
    holders := by
      intro inode other another
      simp only [FileSystem.lockFor]
      by_cases same : inode = lock
      · rw [same, Function.update_self, free]
        simp [another.symm]
      · rw [Function.update_of_ne same] }

@[simp]
theorem release_entries (lock : Inode) : (fs.release lock index).entries = fs.entries := by
  unfold FileSystem.release
  split <;> rfl

@[simp]
theorem release_files (lock : Inode) : (fs.release lock index).files = fs.files := by
  unfold FileSystem.release
  split <;> rfl

@[simp]
theorem release_user (lock : Inode) : (fs.release lock index).user = fs.user := by
  unfold FileSystem.release
  split <;> rfl

theorem Keeps.release (valid : fs.Valid) (lock : Inode) :
    Keeps index fs (fs.release lock index) := by
  unfold FileSystem.release
  split
  · next held =>
      exact { Keeps.refl valid with
        valid := valid
        holders := by
          intro inode other another
          by_cases same : inode = lock
          · simp [same, held, another.symm]
          · simp [Function.update_of_ne same] }
  · exact Keeps.refl valid

end Changes

end FileSystem

/-! ## The lock -/

namespace Server

/-- The server holds the lock while its stage says so, and no other. -/
structure LockOk (fs : FileSystem) (index : Nat) (server : Server) : Prop where
  named {lock : Inode} : server.lockFd = some lock → fs.entries .lock = some lock
  held : server.stage.locks = true →
    ∃ lock, server.lockFd = some lock ∧ fs.holders lock = some index
  holds {inode : Inode} : fs.holders inode = some index →
    server.lockFd = some inode ∧ server.stage.early = false

section Lock

variable {fs next : FileSystem} {index other : Nat} {server moved : Server}

theorem LockOk.lockedBy (ok : server.LockOk fs index) (locks : server.stage.locks = true) :
    fs.LockedBy index := by
  obtain ⟨lock, opened, held⟩ := ok.held locks
  exact ⟨lock, ok.named opened, held⟩

/-- A step of another server. -/
theorem LockOk.frame (ok : server.LockOk fs index) (keeps : FileSystem.Keeps other fs next)
    (another : index ≠ other) : server.LockOk next index := by
  constructor
  · intro lock opened
    exact keeps.lock (ok.named opened)
  · intro locks
    obtain ⟨lock, opened, held⟩ := ok.held locks
    exact ⟨lock, opened, (keeps.holders lock another).mpr held⟩
  · intro inode held
    exact ok.holds ((keeps.holders inode another).mp held)

/-- The lock is as it was, and so is the descriptor. -/
theorem LockOk.goOn (ok : server.LockOk fs index) (named : next.entries .lock = fs.entries .lock)
    (held : next.holders = fs.holders) (same : moved.lockFd = server.lockFd)
    (locks : moved.stage.locks = true → server.stage.locks = true)
    (early : moved.stage.early = true → server.stage.early = true) : moved.LockOk next index := by
  constructor
  · intro lock opened
    rw [named]
    exact ok.named (same.symm.trans opened)
  · intro nowLocks
    rw [same, held]
    exact ok.held (locks nowLocks)
  · intro inode nowHeld
    rw [held] at nowHeld
    obtain ⟨opened, late⟩ := ok.holds nowHeld
    refine ⟨same.trans opened, ?_⟩
    cases nowEarly : moved.stage.early with
    | false => rfl
    | true => exact absurd (early nowEarly) (by simp [late])

/-- A server in front of the lock may open any lock file, or none. -/
theorem LockOk.early (ok : server.LockOk fs index) (early : server.stage.early = true)
    (held : next.holders = fs.holders) (unlocked : moved.stage.locks = false)
    (named : ∀ {lock : Inode}, moved.lockFd = some lock → next.entries .lock = some lock) :
    moved.LockOk next index := by
  constructor
  · exact named
  · intro locks
    rw [unlocked] at locks
    cases locks
  · intro inode nowHeld
    rw [held] at nowHeld
    obtain ⟨-, late⟩ := ok.holds nowHeld
    rw [early] at late
    cases late

/-- The only lock that the server may hold is released. -/
theorem LockOk.not_held_release (ok : server.LockOk fs index) {lock : Inode}
    (opened : server.lockFd = some lock) (inode : Inode) :
    (fs.release lock index).holders inode ≠ some index := by
  intro held
  unfold FileSystem.release at held
  split at held
  · by_cases same : inode = lock
    · simp [same] at held
    · simp only [Function.update_of_ne same] at held
      rw [(ok.holds held).1] at opened
      exact same (Option.some.inj opened)
  · next free =>
      have found := (ok.holds held).1
      rw [opened] at found
      cases found
      exact free held

theorem LockOk.release (ok : server.LockOk fs index) {lock : Inode}
    (opened : server.lockFd = some lock) (unlocked : moved.stage.locks = false)
    (same : ∀ {inode : Inode}, moved.lockFd = some inode → server.lockFd = some inode) :
    moved.LockOk (fs.release lock index) index := by
  constructor
  · intro inode still
    rw [FileSystem.release_entries]
    exact ok.named (same still)
  · intro locks
    rw [unlocked] at locks
    cases locks
  · intro inode held
    exact absurd held (ok.not_held_release opened inode)

theorem LockOk.step (ok : server.LockOk fs index) (move : ServerMove fs index server next moved) :
    moved.LockOk next index := by
  -- between two stages of the lock holder
  have goOn : ∀ {fs' : FileSystem} {stage : ServerStage} {result : Server}, server.stage = stage →
      stage.locks = true → fs'.entries .lock = fs.entries .lock → fs'.holders = fs.holders →
      result.lockFd = server.lockFd → result.stage.early = false → result.LockOk fs' index := by
    intro fs' stage result is locks named held same late
    exact ok.goOn named held same (fun _ => is ▸ locks) (by simp [late])
  cases move with
  | throwEarly what early => exact ok.early early rfl rfl (by simp [throwEarly])
  | makeDirectory early => exact ok.early early rfl rfl ok.named
  | goOn early later => exact ok.early early rfl (ServerStage.not_locks_of_early later) ok.named
  | makeLock early free => exact ok.early early rfl rfl (by simp [FileSystem.create])
  | openLock early found => exact ok.early early rfl rfl (by simp [found])
  | @takeLock early lock opened free =>
      constructor
      · intro other alsoOpened
        exact ok.named alsoOpened
      · intro _
        exact ⟨lock, opened, Function.update_self ..⟩
      · intro inode held
        refine ⟨?_, rfl⟩
        simp only [FileSystem.lockFor] at held
        by_cases same : inode = lock
        · rw [same]
          exact opened
        · rw [Function.update_of_ne same] at held
          exact (ok.holds held).1
  | raise what tries => exact goOn rfl (ServerStage.locks_of_tries tries) rfl rfl rfl rfl
  | inspectFree stage => exact goOn stage rfl rfl rfl rfl rfl
  | inspectStale stage _ _ => exact goOn stage rfl rfl rfl rfl rfl
  | remove stage => exact goOn stage rfl rfl rfl rfl rfl
  | @make fifo stage free => cases fifo <;> exact goOn stage rfl rfl rfl rfl rfl
  | @«open» fifo inode stage found => cases fifo <;> exact goOn stage rfl rfl rfl rfl rfl
  | construct stage => exact goOn stage rfl rfl rfl rfl rfl
  | closeRequest stage => exact goOn stage rfl rfl rfl rfl rfl
  | closeResponse stage => exact goOn stage rfl rfl rfl rfl rfl
  | skipRequests stage _ => exact goOn stage rfl rfl rfl rfl rfl
  | leaveRequests stage => exact goOn stage rfl rfl rfl rfl rfl
  | unlinkRequests stage _ => exact goOn stage rfl rfl rfl rfl rfl
  | skipResponses stage _ => exact goOn stage rfl rfl rfl rfl rfl
  | leaveResponses stage => exact goOn stage rfl rfl rfl rfl rfl
  | unlinkResponses stage _ => exact goOn stage rfl rfl rfl rfl rfl
  | keepLock stage => exact goOn stage rfl rfl rfl rfl rfl
  | unlock stage opened => exact ok.release opened rfl id
  | closeLock stage opened => exact ok.release opened rfl (by simp)

theorem keeps_of_move (valid : fs.Valid) (ok : server.LockOk fs index)
    (move : ServerMove fs index server next moved) : FileSystem.Keeps index fs next := by
  cases move with
  | makeDirectory early => exact .directory valid _
  | makeLock early free => exact .createLock valid free rfl
  | takeLock early opened free => exact .lockFor valid free
  | @remove fifo stage => exact .unlink valid (ok.lockedBy (by rw [stage]; rfl)) fifo
  | @make fifo stage free => exact .createFifo valid (ok.lockedBy (by rw [stage]; rfl)) fifo rfl
  | unlinkRequests stage _ => exact .unlink valid (ok.lockedBy (by rw [stage]; rfl)) .requests
  | unlinkResponses stage _ => exact .unlink valid (ok.lockedBy (by rw [stage]; rfl)) .responses
  | unlock stage opened => exact .release valid _
  | closeLock stage opened => exact .release valid _
  | _ => exact .refl valid

end Lock

end Server

end Kronos.Ipc
