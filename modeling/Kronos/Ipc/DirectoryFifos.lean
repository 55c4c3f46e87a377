import Kronos.Ipc.DirectoryLock

/-!
# The FIFOs of a server

From its lock on, the FIFOs that a server has made are the ones that the directory names,
until it unlinks them.
-/

set_option autoImplicit false

namespace Kronos.Ipc

namespace Server

/-! ## The FIFOs -/

/-- A FIFO that the server has made is still its own. -/
def Owns (server : Server) (fifo : Fifo) : Prop :=
  server.made fifo = true ∧ server.stage.owns fifo = true

/-- Why the directory may name a FIFO that the server has made. -/
def Accounts (server : Server) (fifo : Fifo) : Prop :=
  server.Owns fifo ∨ server.leftover = true ∨ server.stage = .killed

/-- The FIFOs that the server has made are the ones that the directory names. -/
structure FifosOk (fs : FileSystem) (index : Nat) (server : Server) : Prop where
  owned {fifo : Fifo} : server.Owns fifo → ∃ inode,
    fs.entries (.fifo fifo) = some inode ∧ fs.files[inode]? = some ⟨.fifo, fs.user, some index⟩
  opened {fifo : Fifo} {inode : Inode} : server.descriptor fifo = some inode →
    fs.entries (.fifo fifo) = some inode
  apart : server.Owns .requests →
    fs.entries (.fifo .responses) ≠ fs.entries (.fifo .requests)
  stale {fifo : Fifo} : server.stage = .remove fifo →
    ∃ file, fs.file (.fifo fifo) = some file ∧ file.safe fs = true
  own {fifo : Fifo} {inode : Inode} {file : File} : fs.entries (.fifo fifo) = some inode →
    fs.files[inode]? = some file → file.maker = some index → server.Accounts fifo

section Fifos

variable {fs next : FileSystem} {index other : Nat} {server moved : Server}

theorem FifosOk.frame (ok : server.FifosOk fs index) (shaped : server.Shaped)
    (lock : server.LockOk fs index) (keeps : FileSystem.Keeps other fs next)
    (another : index ≠ other) : server.FifosOk next index := by
  -- the other server changes no FIFO while this one has the lock
  have same : server.stage.locks = true →
      ∀ fifo, next.entries (.fifo fifo) = fs.entries (.fifo fifo) := by
    intro locks
    apply keeps.fifos
    intro locked
    exact another ((lock.lockedBy locks).unique locked)
  constructor
  · intro fifo owns
    obtain ⟨inode, entry, found⟩ := ok.owned owns
    refine ⟨inode, ?_, ?_⟩
    · rw [same (ServerStage.locks_of_owns owns.2)]
      exact entry
    · rw [keeps.user]
      exact keeps.files found
  · intro fifo inode opened
    have opens := (shaped.opened fifo opened).2
    rw [same (ServerStage.locks_of_owns (ServerStage.owns_of_opens opens))]
    exact ok.opened opened
  · intro owns
    rw [same (ServerStage.locks_of_owns owns.2), same (ServerStage.locks_of_owns owns.2)]
    exact ok.apart owns
  · intro fifo stage
    obtain ⟨file, found, safe⟩ := ok.stale stage
    obtain ⟨inode, entry, found⟩ := Option.bind_eq_some_iff.mp found
    refine ⟨file, Option.bind_eq_some_iff.mpr ⟨inode, ?_, keeps.files found⟩, ?_⟩
    · rw [same (by rw [stage]; rfl)]
      exact entry
    · rw [File.safe, keeps.user]
      exact safe
  · intro fifo inode file entry found maker
    rcases keeps.named entry found with ⟨before, foundBefore⟩ | others
    · exact ok.own before foundBefore maker
    · rw [maker] at others
      exact absurd (Option.some.inj others) another

/-- A step that leaves the FIFOs alone. -/
theorem FifosOk.goOn (ok : server.FifosOk fs index)
    (same : ∀ fifo, next.entries (.fifo fifo) = fs.entries (.fifo fifo)) (user : next.user = fs.user)
    (files : ∀ {fifo : Fifo} {inode : Inode}, fs.entries (.fifo fifo) = some inode →
      next.files[inode]? = fs.files[inode]?)
    (owns : ∀ {fifo : Fifo}, moved.Owns fifo → server.Owns fifo)
    (opened : ∀ {fifo : Fifo} {inode : Inode}, moved.descriptor fifo = some inode →
      fs.entries (.fifo fifo) = some inode)
    (stale : ∀ {fifo : Fifo}, moved.stage = .remove fifo →
      ∃ file, fs.file (.fifo fifo) = some file ∧ file.safe fs = true)
    (accounts : ∀ {fifo : Fifo}, server.Accounts fifo → moved.Accounts fifo) :
    moved.FifosOk next index := by
  constructor
  · intro fifo nowOwns
    obtain ⟨inode, entry, found⟩ := ok.owned (owns nowOwns)
    rw [same, user]
    exact ⟨inode, entry, (files entry).trans found⟩
  · intro fifo inode nowOpened
    rw [same]
    exact opened nowOpened
  · intro nowOwns
    rw [same, same]
    exact ok.apart (owns nowOwns)
  · intro fifo stage
    obtain ⟨file, found, safe⟩ := stale stage
    obtain ⟨inode, entry, found⟩ := Option.bind_eq_some_iff.mp found
    refine ⟨file, Option.bind_eq_some_iff.mpr ⟨inode, (same fifo).trans entry, ?_⟩, ?_⟩
    · exact (files entry).trans found
    · rw [File.safe, user]
      exact safe
  · intro fifo inode file entry found maker
    rw [same] at entry
    rw [files entry] at found
    exact accounts (ok.own entry found maker)

theorem FifosOk.unlink (ok : server.FifosOk fs index) (fifo : Fifo) (gone : ¬ moved.Owns fifo)
    (closed : moved.descriptor fifo = none)
    (owns : ∀ {other : Fifo}, moved.Owns other → server.Owns other)
    (opened : ∀ {other : Fifo} {inode : Inode}, moved.descriptor other = some inode →
      server.descriptor other = some inode)
    (stale : ∀ {other : Fifo}, moved.stage ≠ .remove other)
    (accounts : ∀ {other : Fifo}, other ≠ fifo → server.Accounts other → moved.Accounts other) :
    moved.FifosOk (fs.unlink (.fifo fifo)) index := by
  have entries : ∀ {other : Fifo}, other ≠ fifo →
      (fs.unlink (.fifo fifo)).entries (.fifo other) = fs.entries (.fifo other) :=
    fun another => FileSystem.unlink_entries_of_ne (by simpa using another)
  have unlinked := fs.unlink_entries_self (.fifo fifo)
  constructor
  · intro other nowOwns
    have another : other ≠ fifo := fun same => gone (same ▸ nowOwns)
    rw [entries another]
    exact ok.owned (owns nowOwns)
  · intro other inode nowOpened
    have another : other ≠ fifo := by
      intro same
      rw [same, closed] at nowOpened
      cases nowOpened
    rw [entries another]
    exact ok.opened (opened nowOpened)
  · intro nowOwns
    have another : .requests ≠ fifo := fun same => gone (same ▸ nowOwns)
    obtain ⟨inode, entry, -⟩ := ok.owned (owns nowOwns)
    have responses : fifo = .responses := by
      cases fifo with
      | requests => exact absurd rfl another
      | responses => rfl
    rw [entries another, entry, ← responses, unlinked]
    simp
  · intro other stage
    exact absurd stage stale
  · intro other inode file entry found maker
    have another : other ≠ fifo := by
      intro same
      rw [same, unlinked] at entry
      cases entry
    rw [entries another] at entry
    exact accounts another (ok.own entry found maker)

theorem owns_created {fifo : Fifo} : (server.created fifo).Owns fifo := by
  cases fifo <;> exact ⟨rfl, rfl⟩

theorem owns_created_iff {fifo other : Fifo} (another : other ≠ fifo)
    (stage : server.stage = .make fifo) : (server.created fifo).Owns other ↔ server.Owns other := by
  unfold Owns
  rw [stage]
  cases fifo <;> cases other <;> first | exact absurd rfl another | exact Iff.rfl

theorem FifosOk.make (ok : server.FifosOk fs index) (shaped : server.Shaped) (valid : fs.Valid)
    {fifo : Fifo} (stage : server.stage = .make fifo) :
    (server.created fifo).FifosOk (fs.create (.fifo fifo) ⟨.fifo, fs.user, some index⟩) index := by
  have entries : ∀ {other : Fifo}, other ≠ fifo →
      (fs.create (.fifo fifo) ⟨.fifo, fs.user, some index⟩).entries (.fifo other) =
        fs.entries (.fifo other) :=
    fun another => FileSystem.create_entries_of_ne (by simpa using another) _
  have created := fs.create_entries_self (.fifo fifo) ⟨.fifo, fs.user, some index⟩
  have fresh : ∀ other, fs.entries (.fifo other) ≠ some fs.files.length :=
    fun other entry => Nat.lt_irrefl _ (valid entry)
  constructor
  · intro other nowOwns
    by_cases same : other = fifo
    · rw [same, created]
      exact ⟨fs.files.length, rfl, List.getElem?_concat_length ..⟩
    · obtain ⟨inode, entry, found⟩ := ok.owned ((owns_created_iff same stage).mp nowOwns)
      rw [entries same]
      exact ⟨inode, entry, FileSystem.files_create found⟩
  · intro other inode nowOpened
    have opened : server.descriptor other = some inode := by
      cases fifo <;> exact nowOpened
    rw [shaped.closed_make stage] at opened
    cases opened
  · intro nowOwns
    cases fifo with
    | requests =>
        rw [created, entries (by simp)]
        exact fresh .responses
    | responses =>
        rw [created, entries (by simp)]
        exact (fresh .requests).symm
  · intro other is
    cases fifo <;> cases is
  · intro other inode file entry found maker
    by_cases same : other = fifo
    · rw [same]
      exact .inl owns_created
    · rw [entries same] at entry
      rcases ok.own entry (FileSystem.file_of_create (valid entry) found) maker with
        owns | leftover | killed
      · exact .inl ((owns_created_iff same stage).mpr owns)
      · refine .inr (.inl ?_)
        cases fifo <;> exact leftover
      · rw [stage] at killed
        cases killed

theorem Shaped.not_made_early (shaped : server.Shaped) (early : server.stage.early = true)
    (fifo : Fifo) : server.made fifo = false := by
  obtain ⟨first, second, -⟩ := shaped.built_early early
  cases fifo with
  | requests => exact first
  | responses => exact second

theorem Accounts.imp {fifo : Fifo} (accounts : server.Accounts fifo)
    (alive : server.stage ≠ .killed) (owns : server.Owns fifo → moved.Owns fifo)
    (leftover : server.leftover = true → moved.leftover = true) : moved.Accounts fifo := by
  rcases accounts with before | before | before
  · exact .inl (owns before)
  · exact .inr (.inl (leftover before))
  · exact absurd before alive

/-- In front of the lock nothing is made. -/
theorem FifosOk.early (ok : server.FifosOk fs index) (shaped : server.Shaped)
    (early : server.stage.early = true)
    (same : ∀ fifo, next.entries (.fifo fifo) = fs.entries (.fifo fifo)) (user : next.user = fs.user)
    (files : ∀ {fifo : Fifo} {inode : Inode}, fs.entries (.fifo fifo) = some inode →
      next.files[inode]? = fs.files[inode]?)
    (made : moved.made = server.made) (opened : moved.descriptor = server.descriptor)
    (leftover : moved.leftover = server.leftover)
    (stale : ∀ {fifo : Fifo}, moved.stage ≠ .remove fifo) : moved.FifosOk next index := by
  have unmade : ∀ {fifo : Fifo}, server.made fifo ≠ true := by
    intro fifo
    simp [shaped.not_made_early early]
  apply ok.goOn same user files
  · intro fifo owns
    rw [Owns, made] at owns
    exact absurd owns.1 unmade
  · intro fifo inode nowOpened
    rw [opened] at nowOpened
    exact ok.opened nowOpened
  · intro fifo stage
    exact absurd stage stale
  · intro fifo accounts
    refine accounts.imp ?_ (fun owns => absurd owns.1 unmade) (by simp [leftover])
    intro killed
    rw [killed] at early
    cases early

/-- The server has the lock and unlinks nothing yet. -/
theorem FifosOk.hold (ok : server.FifosOk fs index)
    (owns : ∀ fifo, server.stage.owns fifo = true) (still : ∀ fifo, moved.stage.owns fifo = true)
    (made : moved.made = server.made) (leftover : moved.leftover = server.leftover)
    (opened : ∀ {fifo : Fifo} {inode : Inode}, moved.descriptor fifo = some inode →
      fs.entries (.fifo fifo) = some inode)
    (stale : ∀ {fifo : Fifo}, moved.stage = .remove fifo →
      ∃ file, fs.file (.fifo fifo) = some file ∧ file.safe fs = true) : moved.FifosOk fs index := by
  apply ok.goOn (fun _ => rfl) rfl (fun _ => rfl) _ opened stale
  · intro fifo accounts
    refine accounts.imp ?_ (fun before => ⟨made ▸ before.1, still fifo⟩) (by simp [leftover])
    intro killed
    have owned := owns .requests
    rw [killed] at owned
    cases owned
  · intro fifo after
    exact ⟨made ▸ after.1, owns fifo⟩

/-- The server has no FIFOs any more. -/
theorem FifosOk.undone (ok : server.FifosOk fs index)
    (same : ∀ fifo, next.entries (.fifo fifo) = fs.entries (.fifo fifo)) (user : next.user = fs.user)
    (files : next.files = fs.files) (alive : server.stage ≠ .killed)
    (owns : ∀ fifo, server.stage.owns fifo = false) (still : ∀ fifo, moved.stage.owns fifo = false)
    (opened : moved.descriptor = server.descriptor) (leftover : moved.leftover = server.leftover) :
    moved.FifosOk next index := by
  apply ok.goOn same user (fun _ => by rw [files])
  · intro fifo after
    exact absurd (still fifo) (by simp [after.2])
  · intro fifo inode nowOpened
    rw [opened] at nowOpened
    exact ok.opened nowOpened
  · intro fifo stage
    have keeps := still fifo
    rw [stage] at keeps
    cases keeps
  · intro fifo accounts
    exact accounts.imp alive (fun before => absurd (owns fifo) (by simp [before.2]))
      (by simp [leftover])

/-- `create_fifo` unlinks what it has inspected, before it makes its own. -/
theorem FifosOk.remove (ok : server.FifosOk fs index) (shaped : server.Shaped) {fifo : Fifo}
    (stage : server.stage = .remove fifo) :
    Server.FifosOk (fs.unlink (.fifo fifo)) index { server with stage := .make fifo } := by
  have unmade : server.made fifo = false := by
    cases fifo with
    | requests =>
        obtain ⟨first, -⟩ : server.Built 0 := shaped.built (by rw [stage]; rfl)
        exact first
    | responses =>
        obtain ⟨-, second, -⟩ : server.Built 1 := shaped.built (by rw [stage]; rfl)
        exact second
  have closed : server.descriptor fifo = none := by
    cases opened : server.descriptor fifo with
    | none => rfl
    | some inode =>
        rw [(shaped.opened fifo opened).1 fifo] at unmade
        cases unmade
  refine ok.unlink fifo ?_ closed ?_ id (by simp) ?_
  · intro owns
    exact absurd (unmade.symm.trans owns.1) (by simp)
  · intro other owns
    exact ⟨owns.1, by rw [stage]; rfl⟩
  · intro other another accounts
    exact accounts.imp (by simp [stage]) (fun owns => ⟨owns.1, rfl⟩) id

theorem FifosOk.open (ok : server.FifosOk fs index) {fifo : Fifo} {inode : Inode}
    (stage : server.stage = .open fifo) (found : fs.entries (.fifo fifo) = some inode) :
    (server.opened inode fifo).FifosOk fs index := by
  have opened : ∀ {other : Fifo} {descriptor : Inode},
      (server.opened inode fifo).descriptor other = some descriptor →
        fs.entries (.fifo other) = some descriptor := by
    intro other descriptor opened
    by_cases same : other = fifo
    · subst same
      have is : (server.opened inode other).descriptor other = some inode := by
        cases other <;> rfl
      rw [is] at opened
      cases opened
      exact found
    · have is : (server.opened inode fifo).descriptor other = server.descriptor other := by
        cases fifo <;> cases other <;> first | rfl | exact absurd rfl same
      exact ok.opened (is.symm.trans opened)
  cases fifo with
  | requests =>
      exact ok.hold (fun _ => by rw [stage]; rfl) (fun _ => rfl) rfl rfl opened
        (by simp [Server.opened])
  | responses =>
      exact ok.hold (fun _ => by rw [stage]; rfl) (fun _ => rfl) rfl rfl opened
        (by simp [Server.opened])

theorem FifosOk.step (ok : server.FifosOk fs index) (shaped : server.Shaped) (valid : fs.Valid)
    (move : ServerMove fs index server next moved) : moved.FifosOk next index := by
  cases move with
  | throwEarly what early =>
      exact ok.early shaped early (fun _ => rfl) rfl (fun _ => rfl) rfl rfl rfl (by simp [throwEarly])
  | makeDirectory early =>
      exact ok.early shaped early (fun _ => rfl) rfl (fun _ => rfl) rfl rfl rfl (by simp)
  | @goOn early stage later =>
      refine ok.early shaped early (fun _ => rfl) rfl (fun _ => rfl) rfl rfl rfl ?_
      intro fifo is
      cases is
      cases later
  | makeLock early free =>
      refine ok.early shaped early (fun _ => rfl) rfl ?_ rfl rfl rfl (by simp)
      intro fifo inode entry
      exact List.getElem?_append_left (valid entry)
  | openLock early found =>
      exact ok.early shaped early (fun _ => rfl) rfl (fun _ => rfl) rfl rfl rfl (by simp)
  | takeLock early _ free =>
      exact ok.early shaped early (fun _ => rfl) rfl (fun _ => rfl) rfl rfl rfl (by simp)
  | raise what tries =>
      exact ok.hold (ServerStage.owns_of_tries tries) (fun _ => rfl) rfl rfl ok.opened (by simp [raise])
  | inspectFree stage =>
      exact ok.hold (fun _ => by rw [stage]; rfl) (fun _ => rfl) rfl rfl ok.opened (by simp)
  | inspectStale stage found safe =>
      refine ok.hold (fun _ => by rw [stage]; rfl) (fun _ => rfl) rfl rfl ok.opened ?_
      intro fifo is
      cases is
      exact ⟨_, found, safe⟩
  | remove stage => exact ok.remove shaped stage
  | make stage free => exact ok.make shaped valid stage
  | «open» stage found => exact ok.open stage found
  | construct stage =>
      exact ok.hold (fun _ => by rw [stage]; rfl) (fun _ => rfl) rfl rfl ok.opened (by simp)
  | closeRequest stage =>
      refine ok.hold (fun _ => by rw [stage]; rfl) (fun _ => rfl) rfl rfl ?_ (by simp)
      intro fifo inode opened
      cases fifo with
      | requests => cases opened
      | responses => exact ok.opened (show server.descriptor .responses = _ from opened)
  | closeResponse stage =>
      refine ok.hold (fun _ => by rw [stage]; rfl) (fun _ => rfl) rfl rfl ?_ (by simp)
      intro fifo inode opened
      cases fifo with
      | requests => exact ok.opened (show server.descriptor .requests = _ from opened)
      | responses => cases opened
  | skipRequests stage none =>
      refine ok.goOn (fun _ => rfl) rfl (fun _ => rfl) ?_ ok.opened (by simp) ?_
      · intro fifo owns
        exact ⟨owns.1, by rw [stage]; rfl⟩
      · intro fifo accounts
        refine accounts.imp (by simp [stage]) ?_ id
        intro owns
        cases fifo with
        | requests => exact absurd (none.symm.trans owns.1) (by simp)
        | responses => exact ⟨owns.1, rfl⟩
  | leaveRequests stage =>
      refine ok.goOn (fun _ => rfl) rfl (fun _ => rfl) ?_ ok.opened (by simp) ?_
      · intro fifo owns
        exact ⟨owns.1, by rw [stage]; rfl⟩
      · intro fifo _
        exact .inr (.inl rfl)
  | unlinkRequests stage created =>
      refine ok.unlink .requests ?_ (shaped.closed .requests (by rw [stage]; rfl)) ?_ id (by simp) ?_
      · intro owns
        cases owns.2
      · intro fifo owns
        exact ⟨owns.1, by rw [stage]; rfl⟩
      · intro fifo another accounts
        refine accounts.imp (by simp [stage]) ?_ id
        intro owns
        cases fifo with
        | requests => exact absurd rfl another
        | responses => exact ⟨owns.1, rfl⟩
  | skipResponses stage none =>
      refine ok.goOn (fun _ => rfl) rfl (fun _ => rfl) ?_ ok.opened (by simp) ?_
      · intro fifo owns
        cases owns.2
      · intro fifo accounts
        refine accounts.imp (by simp [stage]) ?_ id
        intro owns
        rw [Owns, stage] at owns
        cases fifo with
        | requests => cases owns.2
        | responses => exact absurd (none.symm.trans owns.1) (by simp)
  | leaveResponses stage =>
      refine ok.goOn (fun _ => rfl) rfl (fun _ => rfl) ?_ ok.opened (by simp) ?_
      · intro fifo owns
        cases owns.2
      · intro fifo _
        exact .inr (.inl rfl)
  | unlinkResponses stage created =>
      refine ok.unlink .responses ?_ (shaped.closed .responses (by rw [stage]; rfl)) ?_ id (by simp) ?_
      · intro owns
        cases owns.2
      · intro fifo owns
        cases owns.2
      · intro fifo another accounts
        refine accounts.imp (by simp [stage]) ?_ id
        intro owns
        rw [Owns, stage] at owns
        cases fifo with
        | requests => cases owns.2
        | responses => exact absurd rfl another
  | keepLock stage =>
      exact ok.undone (fun _ => rfl) rfl rfl (by simp [stage]) (fun _ => by rw [stage]; rfl)
        (fun _ => rfl) rfl rfl
  | unlock stage opened =>
      exact ok.undone (by simp) (by simp) (by simp) (by simp [stage]) (fun _ => by rw [stage]; rfl)
        (fun _ => rfl) rfl rfl
  | closeLock stage opened =>
      exact ok.undone (by simp) (by simp) (by simp) (by simp [stage]) (fun _ => by rw [stage]; rfl)
        (fun _ => rfl) rfl rfl

end Fifos

/-! ## Servers of a directory -/

structure Ok (fs : FileSystem) (index : Nat) (server : Server) : Prop where
  shaped : server.Shaped
  lock : server.LockOk fs index
  fifos : server.FifosOk fs index

section All

variable {fs next : FileSystem} {index other : Nat} {server moved : Server}

theorem Ok.step (ok : server.Ok fs index) (valid : fs.Valid)
    (move : ServerMove fs index server next moved) : moved.Ok next index :=
  ⟨ok.shaped.step move, ok.lock.step move, ok.fifos.step ok.shaped valid move⟩

theorem Ok.frame (ok : server.Ok fs index) (keeps : FileSystem.Keeps other fs next)
    (another : index ≠ other) : server.Ok next index :=
  ⟨ok.shaped, ok.lock.frame keeps another, ok.fifos.frame ok.shaped ok.lock keeps another⟩

/-- A new server. -/
theorem Ok.start (unlocked : ∀ inode, fs.holders inode ≠ some index)
    (unmade : ∀ {inode : Inode} {file : File}, fs.files[inode]? = some file →
      file.maker ≠ some index) : Server.Ok fs index {} := by
  constructor
  · constructor
    · intro done progress
      cases progress
      exact ⟨rfl, rfl, rfl, rfl⟩
    · intro fifo inode opened
      cases fifo <;> cases opened
    · intro gone
      rfl
  · constructor
    · intro lock opened
      cases opened
    · intro locks
      cases locks
    · intro inode held
      exact absurd held (unlocked inode)
  · constructor
    · intro fifo owns
      cases owns.2
    · intro fifo inode opened
      cases fifo <;> cases opened
    · intro owns
      cases owns.2
    · intro fifo stage
      cases stage
    · intro fifo inode file entry found maker
      exact absurd maker (unmade found)

/-- The destructor begins. -/
theorem Ok.stop (ok : server.Ok fs index) (ready : server.stage = .ready) :
    Server.Ok fs index { server with stage := .closeRequest none } := by
  constructor
  · constructor
    · intro done progress
      cases progress
    · intro fifo inode opened
      exact ⟨(ok.shaped.opened fifo opened).1, rfl⟩
    · intro gone
      cases gone
  · exact ok.lock.goOn rfl rfl rfl (fun _ => by rw [ready]; rfl) (by simp [ServerStage.early])
  · exact ok.fifos.hold (fun _ => by rw [ready]; rfl) (fun _ => rfl) rfl rfl ok.fifos.opened (by simp)

@[simp]
theorem killServer_entries : (killServer fs index server).1.entries = fs.entries := by
  unfold killServer
  cases server.lockFd <;> simp

@[simp]
theorem killServer_user : (killServer fs index server).1.user = fs.user := by
  unfold killServer
  cases server.lockFd <;> simp

@[simp]
theorem killServer_files : (killServer fs index server).1.files = fs.files := by
  unfold killServer
  cases server.lockFd <;> simp

theorem LockOk.kill (ok : server.LockOk fs index) :
    (killServer fs index server).2.LockOk (killServer fs index server).1 index := by
  unfold killServer
  cases opened : server.lockFd with
  | some lock => exact ok.release opened rfl (by simp)
  | none =>
      constructor
      · intro lock nowOpened
        cases nowOpened
      · intro locks
        cases locks
      · intro inode held
        have found := (ok.holds held).1
        rw [opened] at found
        cases found

theorem FifosOk.kill (ok : server.FifosOk fs index) :
    (killServer fs index server).2.FifosOk (killServer fs index server).1 index := by
  apply ok.goOn (by simp) (by simp) (by simp)
  · intro fifo owns
    cases owns.2
  · intro fifo inode opened
    cases fifo <;> cases opened
  · intro fifo stage
    cases stage
  · intro fifo _
    exact .inr (.inr rfl)

theorem Ok.kill (ok : server.Ok fs index) :
    (killServer fs index server).2.Ok (killServer fs index server).1 index := by
  refine ⟨⟨?_, ?_, fun _ => rfl⟩, ok.lock.kill, ok.fifos.kill⟩
  · intro done progress
    cases progress
  · intro fifo inode opened
    cases fifo <;> cases opened

theorem keeps_kill (valid : fs.Valid) : FileSystem.Keeps index fs (killServer fs index server).1 := by
  unfold killServer
  cases server.lockFd with
  | none => exact .refl valid
  | some lock => exact .release valid lock

end All

end Server

end Kronos.Ipc
