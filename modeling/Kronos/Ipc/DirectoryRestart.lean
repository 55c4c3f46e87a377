import Kronos.Ipc.DirectoryProperties

/-!
# A server after the others

Whatever the servers before it have left, a server that starts when none of them is
there any more becomes ready, if no system call fails. A server that was killed leaves
its FIFOs and its lock file, and both are taken over.
-/

set_option autoImplicit false

namespace Kronos.Ipc

open Threads

/-! ## Directories without files of others -/

/-- The names in the directory are free or safe. -/
structure FileSystem.Clean (fs : FileSystem) : Prop where
  directory {file : File} : fs.directory = some file →
    file.kind = .directory ∧ file.owner = fs.user
  lock {file : File} : fs.file .lock = some file → file.kind = .regular ∧ file.owner = fs.user
  fifo {fifo : Fifo} {file : File} : fs.file (.fifo fifo) = some file → file.safe fs = true

section Clean

variable {fs next : FileSystem} {index : Nat} {server moved : Server}

theorem FileSystem.file_create_self (name : Name) (file : File) :
    (fs.create name file).file name = some file := by
  simp [FileSystem.file, FileSystem.create]

theorem FileSystem.file_create_of_ne (valid : fs.Valid) {name other : Name} (another : other ≠ name)
    (file : File) : (fs.create name file).file other = fs.file other := by
  rw [FileSystem.file, FileSystem.create_entries_of_ne another, FileSystem.file]
  cases entry : fs.entries other with
  | none => rfl
  | some inode => exact List.getElem?_append_left (valid entry)

theorem FileSystem.file_unlink {name other : Name} {file : File}
    (found : (fs.unlink name).file other = some file) : fs.file other = some file := by
  by_cases same : other = name
  · rw [FileSystem.file, same, FileSystem.unlink_entries_self] at found
    cases found
  · rwa [FileSystem.file, FileSystem.unlink_entries_of_ne same] at found

theorem FileSystem.Clean.unlink (clean : fs.Clean) (name : Name) : (fs.unlink name).Clean where
  directory := clean.directory
  lock found := clean.lock (FileSystem.file_unlink found)
  fifo found := clean.fifo (FileSystem.file_unlink found)

theorem FileSystem.Clean.createLock (clean : fs.Clean) (valid : fs.Valid) (maker : Option Nat) :
    (fs.create .lock ⟨.regular, fs.user, maker⟩).Clean where
  directory := clean.directory
  lock found := by
    rw [FileSystem.file_create_self] at found
    cases found
    exact ⟨rfl, rfl⟩
  fifo found := by
    rw [FileSystem.file_create_of_ne valid (by simp)] at found
    exact clean.fifo found

theorem FileSystem.Clean.createFifo (clean : fs.Clean) (valid : fs.Valid) (fifo : Fifo)
    (maker : Option Nat) : (fs.create (.fifo fifo) ⟨.fifo, fs.user, maker⟩).Clean where
  directory := clean.directory
  lock found := by
    rw [FileSystem.file_create_of_ne valid (by simp)] at found
    exact clean.lock found
  fifo {other file} found := by
    by_cases same : other = fifo
    · rw [same, FileSystem.file_create_self] at found
      cases found
      simp [File.safe, FileSystem.create]
    · rw [FileSystem.file_create_of_ne valid (by simpa using same)] at found
      exact clean.fifo found

theorem FileSystem.Clean.of_same (clean : fs.Clean) (user : next.user = fs.user)
    (directory : next.directory = fs.directory) (entries : next.entries = fs.entries)
    (files : next.files = fs.files) : next.Clean := by
  have file : ∀ name, next.file name = fs.file name := by
    intro name
    rw [FileSystem.file, FileSystem.file, entries, files]
  constructor
  · intro found is
    rw [user]
    exact clean.directory (directory.symm.trans is)
  · intro found is
    rw [user]
    exact clean.lock ((file .lock).symm.trans is)
  · intro fifo found is
    rw [File.safe, user]
    exact clean.fifo ((file (.fifo fifo)).symm.trans is)

theorem FileSystem.Clean.release (clean : fs.Clean) (lock : Inode) :
    (fs.release lock index).Clean := by
  refine clean.of_same (FileSystem.release_user lock) ?_ (FileSystem.release_entries lock)
    (FileSystem.release_files lock)
  unfold FileSystem.release
  split <;> rfl

theorem FileSystem.Clean.step (clean : fs.Clean) (valid : fs.Valid)
    (move : ServerMove fs index server next moved) : next.Clean := by
  cases move with
  | makeDirectory early =>
      refine ⟨?_, clean.lock, clean.fifo⟩
      intro file is
      cases is
      exact ⟨rfl, rfl⟩
  | makeLock early free => exact clean.createLock valid _
  | takeLock early opened free => exact clean.of_same rfl rfl rfl rfl
  | remove stage => exact clean.unlink _
  | make stage free => exact clean.createFifo valid _ _
  | unlinkRequests stage made => exact clean.unlink _
  | unlinkResponses stage made => exact clean.unlink _
  | unlock stage opened => exact clean.release _
  | closeLock stage opened => exact clean.release _
  | _ => exact clean

theorem Site.clean_run {start final : Site} (ok : start.Ok) (clean : start.fs.Clean)
    (run : Site.Run start final) : final.fs.Clean := by
  have both : final.Ok ∧ final.fs.Clean := by
    refine run.invariant (fun site => site.Ok ∧ site.fs.Clean) ⟨ok, clean⟩ ?_
    intro site event next before _ stepped
    obtain ⟨ok, clean⟩ := before
    have move := siteMove_of_step stepped
    refine ⟨ok.step move, ?_⟩
    cases move with
    | server found move => exact clean.step ok.valid move
    | @kill index server found =>
        change (killServer site.fs index server).1.Clean
        unfold killServer
        cases server.lockFd with
        | none => exact clean
        | some lock => exact clean.release lock
    | _ => exact clean
  exact both.2

end Clean

/-! ## Building -/

namespace ServerStage

/-- How many steps the constructor still has, at most. -/
def remaining : ServerStage → Nat
  | .createDirectory => 15
  | .inspectDirectory => 14
  | .secureDirectory => 13
  | .openLock => 12
  | .checkLock => 11
  | .takeLock => 10
  | .inspect .requests => 9
  | .remove .requests => 8
  | .make .requests => 7
  | .inspect .responses => 6
  | .remove .responses => 5
  | .make .responses => 4
  | .open .requests => 3
  | .open .responses => 2
  | .construct => 1
  | _ => 0

theorem tries_of_progress {stage : ServerStage} (building : stage.progress.isSome = true)
    (late : stage.early = false) (unfinished : stage ≠ .ready) : stage.tries = true := by
  cases stage <;> simp_all [progress, early, tries]

end ServerStage

/-- What a server that nobody disturbs has found and left on its way. -/
structure Server.Undisturbed (fs : FileSystem) (index : Nat) (server : Server) : Prop where
  building : server.stage.progress.isSome = true
  directory : server.stage ≠ .createDirectory → fs.directory ≠ none
  opened : server.stage = .checkLock ∨ server.stage = .takeLock → server.lockFd ≠ none
  free {fifo : Fifo} : server.stage = .make fifo → fs.entries (.fifo fifo) = none
  alone {inode : Inode} {other : Nat} : fs.holders inode = some other → other = index

section Building

variable {fs : FileSystem} {index : Nat} {server : Server}

theorem FileSystem.exists_file (valid : fs.Valid) {name : Name} {inode : Inode}
    (entry : fs.entries name = some inode) :
    ∃ file, fs.file name = some file ∧ fs.files[inode]? = some file := by
  have found := List.getElem?_eq_getElem (valid entry)
  refine ⟨_, ?_, found⟩
  rw [FileSystem.file, entry, Option.bind_some, found]

/-- A step up to the lock that does not fail brings the constructor on. -/
theorem Server.Undisturbed.lockStep (calm : server.Undisturbed fs index) (ok : server.Ok fs index)
    (valid : fs.Valid) (clean : fs.Clean) (early : server.stage.early = true) :
    ∃ next moved, Ipc.lockStep fs index false server = some (next, moved) ∧
      moved.Undisturbed next index ∧ moved.stage.remaining < server.stage.remaining := by
  cases stage : server.stage with
  | createDirectory =>
      cases is : fs.directory with
      | none =>
          refine ⟨{ fs with directory := some ⟨.directory, fs.user, none⟩ },
            { server with stage := .inspectDirectory }, ?_, ?_, Nat.lt_succ_self _⟩
          · simp [Ipc.lockStep, stage, is]
          · exact ⟨rfl, by simp, by simp, by simp, calm.alone⟩
      | some file =>
          have kind := (clean.directory is).1
          refine ⟨fs, { server with stage := .inspectDirectory }, ?_, ?_, Nat.lt_succ_self _⟩
          · simp [Ipc.lockStep, stage, is, kind]
          · exact ⟨rfl, by simp [is], by simp, by simp, calm.alone⟩
  | inspectDirectory =>
      obtain ⟨file, is⟩ := Option.ne_none_iff_exists'.mp (calm.directory (by simp [stage]))
      obtain ⟨kind, owner⟩ := clean.directory is
      refine ⟨fs, { server with stage := .secureDirectory }, ?_, ?_, Nat.lt_succ_self _⟩
      · simp [Ipc.lockStep, stage, is, kind, owner]
      · exact ⟨rfl, by simp [is], by simp, by simp, calm.alone⟩
  | secureDirectory =>
      have directory := calm.directory (by simp [stage])
      refine ⟨fs, { server with stage := .openLock }, ?_, ?_, Nat.lt_succ_self _⟩
      · simp [Ipc.lockStep, stage]
      · exact ⟨rfl, fun _ => directory, by simp, by simp, calm.alone⟩
  | openLock =>
      have directory := calm.directory (by simp [stage])
      cases is : fs.entries .lock with
      | none =>
          refine ⟨fs.create .lock ⟨.regular, fs.user, some index⟩,
            { server with stage := .checkLock, lockFd := some fs.files.length }, ?_, ?_,
            Nat.lt_succ_self _⟩
          · simp [Ipc.lockStep, stage, is]
          · exact ⟨rfl, fun _ => directory, by simp, by simp, calm.alone⟩
      | some inode =>
          obtain ⟨file, found, -⟩ := FileSystem.exists_file valid is
          have kind := (clean.lock found).1
          refine ⟨fs, { server with stage := .checkLock, lockFd := some inode }, ?_, ?_,
            Nat.lt_succ_self _⟩
          · simp [Ipc.lockStep, stage, is, found, kind]
          · exact ⟨rfl, fun _ => directory, by simp, by simp, calm.alone⟩
  | checkLock =>
      have directory := calm.directory (by simp [stage])
      obtain ⟨lock, opened⟩ := Option.ne_none_iff_exists'.mp (calm.opened (.inl stage))
      obtain ⟨file, found, isFile⟩ := FileSystem.exists_file valid (ok.lock.named opened)
      obtain ⟨kind, owner⟩ := clean.lock found
      refine ⟨fs, { server with stage := .takeLock }, ?_, ?_, Nat.lt_succ_self _⟩
      · simp [Ipc.lockStep, stage, opened, isFile, kind, owner]
      · exact ⟨rfl, fun _ => directory, by simp [opened], by simp, calm.alone⟩
  | takeLock =>
      have directory := calm.directory (by simp [stage])
      obtain ⟨lock, opened⟩ := Option.ne_none_iff_exists'.mp (calm.opened (.inr stage))
      have free : fs.holders lock = none := by
        cases held : fs.holders lock with
        | none => rfl
        | some other =>
            rw [calm.alone held] at held
            have late := (ok.lock.holds held).2
            rw [early] at late
            cases late
      refine ⟨fs.lockFor lock index, { server with stage := .inspect .requests }, ?_, ?_,
        Nat.lt_succ_self _⟩
      · simp [Ipc.lockStep, stage, opened, free]
      · refine ⟨rfl, fun _ => directory, by simp, by simp, ?_⟩
        intro inode other held
        simp only [FileSystem.lockFor] at held
        by_cases same : inode = lock
        · rw [same, Function.update_self] at held
          exact (Option.some.inj held).symm
        · rw [Function.update_of_ne same] at held
          exact calm.alone held
  | _ =>
      rw [stage] at early
      cases early

/-- A step of the `try` block that does not fail brings the constructor on. -/
theorem Server.Undisturbed.tryStep (calm : server.Undisturbed fs index) (ok : server.Ok fs index)
    (valid : fs.Valid) (clean : fs.Clean) (tries : server.stage.tries = true) :
    ∃ next moved, Ipc.tryStep fs index false server = some (next, moved) ∧
      moved.Undisturbed next index ∧ moved.stage.remaining < server.stage.remaining := by
  have directory : fs.directory ≠ none := by
    apply calm.directory
    intro stage
    rw [stage] at tries
    cases tries
  cases stage : server.stage with
  | inspect fifo =>
      cases is : fs.file (.fifo fifo) with
      | none =>
          have free : fs.entries (.fifo fifo) = none := by
            cases entry : fs.entries (.fifo fifo) with
            | none => rfl
            | some inode =>
                obtain ⟨file, found, -⟩ := FileSystem.exists_file valid entry
                rw [is] at found
                cases found
          refine ⟨fs, { server with stage := .make fifo }, ?_, ?_, ?_⟩
          · simp [Ipc.tryStep, stage, is]
          · refine ⟨?_, fun _ => directory, by simp, ?_, calm.alone⟩
            · cases fifo <;> rfl
            · intro other same
              cases same
              exact free
          · cases fifo <;> simp [ServerStage.remaining]
      | some file =>
          have safe := clean.fifo is
          refine ⟨fs, { server with stage := .remove fifo }, ?_, ?_, ?_⟩
          · simp [Ipc.tryStep, stage, is, safe]
          · refine ⟨?_, fun _ => directory, by simp, by simp, calm.alone⟩
            cases fifo <;> rfl
          · cases fifo <;> simp [ServerStage.remaining]
  | remove fifo =>
      obtain ⟨file, found, -⟩ := ok.fifos.stale stage
      obtain ⟨inode, entry, -⟩ := Option.bind_eq_some_iff.mp found
      refine ⟨fs.unlink (.fifo fifo), { server with stage := .make fifo }, ?_, ?_, ?_⟩
      · simp [Ipc.tryStep, stage, entry]
      · refine ⟨?_, fun _ => directory, by simp, ?_, calm.alone⟩
        · cases fifo <;> rfl
        · intro other same
          cases same
          exact fs.unlink_entries_self _
      · cases fifo <;> simp [ServerStage.remaining]
  | make fifo =>
      refine ⟨fs.create (.fifo fifo) ⟨.fifo, fs.user, some index⟩, server.created fifo, ?_, ?_, ?_⟩
      · simp [Ipc.tryStep, stage, calm.free stage]
      · cases fifo <;>
          exact ⟨rfl, fun _ => directory, by simp [created], by simp [created], calm.alone⟩
      · cases fifo <;> exact Nat.lt_succ_self _
  | «open» fifo =>
      have made : server.made fifo = true := by
        cases fifo with
        | requests => exact (@Shaped.built _ ok.shaped 2 (by rw [stage]; rfl)).1
        | responses => exact (@Shaped.built _ ok.shaped 3 (by rw [stage]; rfl)).2.1
      obtain ⟨inode, entry, -⟩ := ok.fifos.owned ⟨made, by rw [stage]; rfl⟩
      refine ⟨fs, server.opened inode fifo, ?_, ?_, ?_⟩
      · simp [Ipc.tryStep, stage, entry]
      · cases fifo <;>
          exact ⟨rfl, fun _ => directory, by simp [Server.opened], by simp [Server.opened], calm.alone⟩
      · cases fifo <;> exact Nat.lt_succ_self _
  | construct =>
      refine ⟨fs, { server with stage := .ready }, ?_, ?_, Nat.lt_succ_self _⟩
      · simp [Ipc.tryStep, stage]
      · exact ⟨rfl, fun _ => directory, by simp, by simp, calm.alone⟩
  | _ =>
      rw [stage] at tries
      cases tries

theorem Server.Undisturbed.step (calm : server.Undisturbed fs index) (ok : server.Ok fs index)
    (valid : fs.Valid) (clean : fs.Clean) (unfinished : server.stage ≠ .ready) :
    ∃ next moved, serverStep fs index false server = some (next, moved) ∧
      moved.Undisturbed next index ∧ moved.stage.remaining < server.stage.remaining := by
  cases early : server.stage.early with
  | true =>
      obtain ⟨next, moved, stepped, rest⟩ := calm.lockStep ok valid clean early
      exact ⟨next, moved, by simp [serverStep, stepped], rest⟩
  | false =>
      have tries := ServerStage.tries_of_progress calm.building early unfinished
      have behind : Ipc.lockStep fs index false server = none := by
        unfold Ipc.lockStep
        split <;> first | rfl | (next stage => rw [stage] at early; cases early)
      obtain ⟨next, moved, stepped, rest⟩ := calm.tryStep ok valid clean tries
      exact ⟨next, moved, by simp [serverStep, behind, stepped], rest⟩

end Building

namespace Site

/-- A server that nobody disturbs becomes ready. -/
theorem becomes_ready {site : Site} {index remaining : Nat} {server : Server} (ok : site.Ok)
    (clean : site.fs.Clean) (found : site.servers[index]? = some server)
    (calm : server.Undisturbed site.fs index) (few : server.stage.remaining ≤ remaining) :
    ∃ steps ≤ remaining, ∃ final moved,
      runAll Site.step (fun _ _ => True) site (List.replicate steps (.server index false)) =
        some final ∧ final.servers[index]? = some moved ∧ moved.stage = .ready := by
  induction remaining generalizing site server with
  | zero =>
      refine ⟨0, Nat.le_refl 0, site, server, rfl, found, ?_⟩
      by_contra unfinished
      obtain ⟨_, _, _, _, less⟩ :=
        calm.step (ok.servers found) ok.valid clean unfinished
      omega
  | succ remaining ih =>
      by_cases finished : server.stage = .ready
      · exact ⟨0, Nat.zero_le _, site, server, rfl, found, finished⟩
      · obtain ⟨fs, moved, stepped, still, less⟩ :=
          calm.step (ok.servers found) ok.valid clean finished
        have move := move_of_serverStep stepped
        have bound := (List.getElem?_eq_some_iff.mp found).1
        obtain ⟨steps, most, final, last, ran, is, ready⟩ :=
          ih (ok.step (.server found move)) (clean.step ok.valid move)
            (List.getElem?_set_self bound) still (by omega)
        refine ⟨steps + 1, Nat.succ_le_succ most, final, last, ?_, is, ready⟩
        have first : site.step (.server index false) =
            some { site with fs, servers := site.servers.set index moved } := by
          simp [Site.step, found, stepped]
        rw [List.replicate_succ, runAll, if_pos trivial, first]
        exact ran

/-- Once all servers before it are over, a new server becomes ready within 15 steps, unless
one of its system calls fails. -/
theorem next_server_ready {start site : Site} (starts : start.Starts) (clean : start.fs.Clean)
    (run : Run start site) (gone : ∀ server ∈ site.servers, server.stage.gone = true) :
    ∃ steps ≤ 15, ∃ final server,
      runAll Site.step (fun _ _ => True) site
          (.start :: List.replicate steps (.server site.servers.length false)) = some final ∧
        final.servers[site.servers.length]? = some server ∧ server.stage = .ready := by
  have ok := starts.ok.run run
  -- nobody who is over holds a lock
  have unlocked : ∀ inode, site.fs.holders inode = none := by
    intro inode
    cases held : site.fs.holders inode with
    | none => rfl
    | some index =>
        have found := List.getElem?_eq_getElem (ok.holders held)
        have server := ok.servers found
        have closed := server.shaped.gone (gone _ (List.getElem_mem _))
        rw [(server.lock.holds held).1] at closed
        cases closed
  have calm : Server.Undisturbed site.fs site.servers.length {} := by
    refine ⟨rfl, by simp, by simp, by simp, ?_⟩
    intro inode other held
    rw [unlocked] at held
    cases held
  have stillClean : site.fs.Clean := clean_run starts.ok clean run
  obtain ⟨steps, most, final, server, ran, found, ready⟩ :=
    @becomes_ready { site with servers := site.servers ++ [{}] } _ 15 _ ok.start stillClean
      (List.getElem?_concat_length ..) calm (Nat.le_refl 15)
  refine ⟨steps, most, final, server, ?_, found, ready⟩
  rw [runAll, if_pos trivial]
  exact ran

/-- A server is killed when it has made the request FIFO. -/
def killedEvents : List SiteEvent := .start :: List.replicate 8 (.server 0 false) ++ [.kill 0]

private theorem killed_ran :
    (runAll Site.step (fun _ _ => True) ⟨emptyDirectory, [], []⟩ killedEvents).isSome = true := by
  decide +kernel

def killedSite : Site := Option.get _ killed_ran

theorem killedSite_taken_over :
    killedSite.fs.entries (.fifo .requests) = some 1 ∧ ∃ steps ≤ 15, ∃ final server,
      runAll Site.step (fun _ _ => True) killedSite
          (.start :: List.replicate steps (.server killedSite.servers.length false)) = some final ∧
        final.servers[killedSite.servers.length]? = some server ∧ server.stage = .ready :=
  have clean : emptyDirectory.Clean :=
    ⟨by simp [emptyDirectory], by simp [emptyDirectory, FileSystem.file],
      by simp [emptyDirectory, FileSystem.file]⟩
  ⟨by decide +kernel,
    next_server_ready emptyDirectory_starts clean
      (reaches_of_runAll (Option.some_get killed_ran).symm) (by decide +kernel)⟩

end Site

end Kronos.Ipc
