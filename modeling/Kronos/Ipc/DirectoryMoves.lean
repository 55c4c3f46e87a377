import Kronos.Ipc.Directory

/-!
# What a server and a client can do

The steps of a server and of a client once more, with one constructor for each way a
step can go.
-/

set_option autoImplicit false

namespace Kronos.Ipc

/-- In front of the lock. -/
def ServerStage.early : ServerStage → Bool
  | .createDirectory => true
  | .inspectDirectory => true
  | .secureDirectory => true
  | .openLock => true
  | .checkLock => true
  | .takeLock => true
  | _ => false

/-- In the `try` block. -/
def ServerStage.tries : ServerStage → Bool
  | .inspect _ => true
  | .remove _ => true
  | .make _ => true
  | .open _ => true
  | .construct => true
  | _ => false

inductive ServerMove (fs : FileSystem) (index : Nat) (server : Server) : FileSystem → Server → Prop
  | throwEarly (what : Bytes) (early : server.stage.early = true) :
      ServerMove fs index server fs (server.throwEarly what)
  | makeDirectory (early : server.stage.early = true) :
      ServerMove fs index server { fs with directory := some ⟨.directory, fs.user, none⟩ }
        { server with stage := .inspectDirectory }
  | goOn (early : server.stage.early = true) {next : ServerStage} (later : next.early = true) :
      ServerMove fs index server fs { server with stage := next }
  | makeLock (early : server.stage.early = true) (free : fs.entries .lock = none) :
      ServerMove fs index server (fs.create .lock ⟨.regular, fs.user, some index⟩)
        { server with stage := .checkLock, lockFd := some fs.files.length }
  | openLock (early : server.stage.early = true) {inode : Inode}
      (found : fs.entries .lock = some inode) :
      ServerMove fs index server fs { server with stage := .checkLock, lockFd := some inode }
  | takeLock (early : server.stage.early = true) {lock : Inode} (opened : server.lockFd = some lock)
      (free : fs.holders lock = none) :
      ServerMove fs index server (fs.lockFor lock index) { server with stage := .inspect .requests }
  | raise (what : Bytes) (tries : server.stage.tries = true) :
      ServerMove fs index server fs (server.raise what)
  | inspectFree {fifo : Fifo} (stage : server.stage = .inspect fifo) :
      ServerMove fs index server fs { server with stage := .make fifo }
  | inspectStale {fifo : Fifo} {file : File} (stage : server.stage = .inspect fifo)
      (found : fs.file (.fifo fifo) = some file) (safe : file.safe fs = true) :
      ServerMove fs index server fs { server with stage := .remove fifo }
  | remove {fifo : Fifo} (stage : server.stage = .remove fifo) :
      ServerMove fs index server (fs.unlink (.fifo fifo)) { server with stage := .make fifo }
  | make {fifo : Fifo} (stage : server.stage = .make fifo) (free : fs.entries (.fifo fifo) = none) :
      ServerMove fs index server (fs.create (.fifo fifo) ⟨.fifo, fs.user, some index⟩)
        (server.created fifo)
  | open {fifo : Fifo} {inode : Inode} (stage : server.stage = .open fifo)
      (found : fs.entries (.fifo fifo) = some inode) :
      ServerMove fs index server fs (server.opened inode fifo)
  | construct (stage : server.stage = .construct) :
      ServerMove fs index server fs { server with stage := .ready }
  | closeRequest {what : Option Bytes} (stage : server.stage = .closeRequest what) :
      ServerMove fs index server fs { server with stage := .closeResponse what, request := none }
  | closeResponse {what : Option Bytes} (stage : server.stage = .closeResponse what) :
      ServerMove fs index server fs { server with stage := .unlinkRequests what, response := none }
  | skipRequests {what : Option Bytes} (stage : server.stage = .unlinkRequests what)
      (none : server.requestCreated = false) :
      ServerMove fs index server fs { server with stage := .unlinkResponses what }
  | leaveRequests {what : Option Bytes} (stage : server.stage = .unlinkRequests what) :
      ServerMove fs index server fs
        { server with stage := .unlinkResponses what, leftover := true }
  | unlinkRequests {what : Option Bytes} (stage : server.stage = .unlinkRequests what)
      (created : server.requestCreated = true) :
      ServerMove fs index server (fs.unlink (.fifo .requests))
        { server with stage := .unlinkResponses what }
  | skipResponses {what : Option Bytes} (stage : server.stage = .unlinkResponses what)
      (none : server.responseCreated = false) :
      ServerMove fs index server fs { server with stage := .unlock what }
  | leaveResponses {what : Option Bytes} (stage : server.stage = .unlinkResponses what) :
      ServerMove fs index server fs { server with stage := .unlock what, leftover := true }
  | unlinkResponses {what : Option Bytes} (stage : server.stage = .unlinkResponses what)
      (created : server.responseCreated = true) :
      ServerMove fs index server (fs.unlink (.fifo .responses)) { server with stage := .unlock what }
  | keepLock {what : Option Bytes} (stage : server.stage = .unlock what) :
      ServerMove fs index server fs { server with stage := .closeLock what }
  | unlock {what : Option Bytes} {lock : Inode} (stage : server.stage = .unlock what)
      (opened : server.lockFd = some lock) :
      ServerMove fs index server (fs.release lock index) { server with stage := .closeLock what }
  | closeLock {what : Option Bytes} {lock : Inode} (stage : server.stage = .closeLock what)
      (opened : server.lockFd = some lock) :
      ServerMove fs index server (fs.release lock index)
        { server with stage := .ended what, lockFd := none }

section Inversion

variable {fs next : FileSystem} {index : Nat} {fails : Bool} {server moved : Server}

theorem move_of_lockStep (stepped : lockStep fs index fails server = some (next, moved)) :
    ServerMove fs index server next moved := by
  have early : ∀ {stage : ServerStage}, server.stage = stage → stage.early = true →
      server.stage.early = true := by
    intro stage is isEarly
    rw [is]
    exact isEarly
  unfold lockStep at stepped
  split at stepped
  · next stage =>
      split at stepped
      · split at stepped
        · cases stepped
          exact .throwEarly _ (early stage rfl)
        · cases stepped
          exact .makeDirectory (early stage rfl)
      · split at stepped
        · cases stepped
          exact .throwEarly _ (early stage rfl)
        · cases stepped
          exact .goOn (early stage rfl) rfl
  · next stage =>
      split at stepped
      · cases stepped
        exact .throwEarly _ (early stage rfl)
      · split at stepped
        · cases stepped
          exact .throwEarly _ (early stage rfl)
        · split at stepped
          · cases stepped
            exact .throwEarly _ (early stage rfl)
          · cases stepped
            exact .goOn (early stage rfl) rfl
  · next stage =>
      split at stepped
      · cases stepped
        exact .throwEarly _ (early stage rfl)
      · cases stepped
        exact .goOn (early stage rfl) rfl
  · next stage =>
      split at stepped
      · next free =>
          split at stepped
          · cases stepped
            exact .throwEarly _ (early stage rfl)
          · cases stepped
            exact .makeLock (early stage rfl) free
      · next inode found =>
          split at stepped
          · cases stepped
            exact .throwEarly _ (early stage rfl)
          · cases stepped
            exact .openLock (early stage rfl) found
  · next stage =>
      split at stepped
      · cases stepped
        exact .throwEarly _ (early stage rfl)
      · cases stepped
        exact .goOn (early stage rfl) rfl
  · next stage =>
      split at stepped
      · cases stepped
      · next lock opened =>
          split at stepped
          · cases stepped
            exact .throwEarly _ (early stage rfl)
          · next free =>
              cases stepped
              rw [not_or, not_not] at free
              exact .takeLock (early stage rfl) opened free.2
  · cases stepped

theorem move_of_tryStep (stepped : tryStep fs index fails server = some (next, moved)) :
    ServerMove fs index server next moved := by
  have tries : ∀ {stage : ServerStage}, server.stage = stage → stage.tries = true →
      server.stage.tries = true := by
    intro stage is isTrying
    rw [is]
    exact isTrying
  unfold tryStep at stepped
  split at stepped
  · next fifo stage =>
      split at stepped
      · cases stepped
        exact .raise _ (tries stage rfl)
      · split at stepped
        · cases stepped
          exact .inspectFree stage
        · next file found =>
            split at stepped
            · next safe =>
                cases stepped
                exact .inspectStale stage found safe
            · cases stepped
              exact .raise _ (tries stage rfl)
  · next fifo stage =>
      split at stepped
      · cases stepped
        exact .raise _ (tries stage rfl)
      · cases stepped
        exact .remove stage
  · next fifo stage =>
      split at stepped
      · cases stepped
        exact .raise _ (tries stage rfl)
      · next free =>
          cases stepped
          rw [not_or, not_not] at free
          exact .make stage free.2
  · next fifo stage =>
      split at stepped
      · cases stepped
        exact .raise _ (tries stage rfl)
      · next inode found =>
          split at stepped
          · cases stepped
            exact .raise _ (tries stage rfl)
          · cases stepped
            exact .open stage found
  · next stage =>
      split at stepped
      · cases stepped
        exact .raise _ (tries stage rfl)
      · cases stepped
        exact .construct stage
  · cases stepped

theorem move_of_undoStep (stepped : undoStep fs index fails server = some (next, moved)) :
    ServerMove fs index server next moved := by
  unfold undoStep cleanUp at stepped
  split at stepped
  · next what stage =>
      cases stepped
      exact .closeRequest stage
  · next what stage =>
      cases stepped
      exact .closeResponse stage
  · next what stage =>
      split at stepped
      · next none =>
          cases stepped
          exact .skipRequests stage none
      · next created =>
          split at stepped
          · cases stepped
            exact .leaveRequests stage
          · cases stepped
            exact .unlinkRequests stage (by simpa using created)
  · next what stage =>
      split at stepped
      · next none =>
          cases stepped
          exact .skipResponses stage none
      · next created =>
          split at stepped
          · cases stepped
            exact .leaveResponses stage
          · cases stepped
            exact .unlinkResponses stage (by simpa using created)
  · next what stage =>
      split at stepped
      · cases stepped
      · next lock opened =>
          cases fails with
          | true =>
              cases stepped
              exact .keepLock stage
          | false =>
              cases stepped
              exact .unlock stage opened
  · next what stage =>
      split at stepped
      · cases stepped
      · next lock opened =>
          cases stepped
          exact .closeLock stage opened
  · cases stepped

theorem move_of_serverStep (stepped : serverStep fs index fails server = some (next, moved)) :
    ServerMove fs index server next moved := by
  unfold serverStep at stepped
  cases first : lockStep fs index fails server with
  | some done =>
      rw [first] at stepped
      cases stepped
      exact move_of_lockStep first
  | none =>
      rw [first] at stepped
      cases second : tryStep fs index fails server with
      | some done =>
          rw [second] at stepped
          cases stepped
          exact move_of_tryStep second
      | none =>
          rw [second] at stepped
          exact move_of_undoStep stepped

end Inversion

inductive ClientMove (fs : FileSystem) (readers : Inode → Bool) (client : Client) : Client → Prop
  | throw (what : Bytes) : ClientMove fs readers client (client.throw what)
  | validated {fifo : Fifo} (stage : client.stage = .validate fifo) :
      ClientMove fs readers client (client.validated fifo)
  | openRequests {inode : Inode} (stage : client.stage = .open .requests)
      (found : fs.entries (.fifo .requests) = some inode)
      (read : (fs.file (.fifo .requests)).any (fun file => file.kind == .fifo) = true →
        readers inode = true) :
      ClientMove fs readers client { client with stage := .open .responses, request := some inode }
  | openResponses {inode : Inode} (stage : client.stage = .open .responses)
      (found : fs.entries (.fifo .responses) = some inode) :
      ClientMove fs readers client { client with stage := .construct, response := some inode }
  | connect (stage : client.stage = .construct) :
      ClientMove fs readers client { client with stage := .connected }

theorem move_of_clientStep {fs : FileSystem} {readers : Inode → Bool} {fails : Bool}
    {client moved : Client} (stepped : clientStep fs readers fails client = some moved) :
    ClientMove fs readers client moved := by
  unfold clientStep at stepped
  split at stepped
  · next fifo stage =>
      split at stepped
      · cases stepped
        exact .throw _
      · split at stepped
        · cases stepped
          exact .throw _
        · split at stepped
          · cases stepped
            exact .throw _
          · split at stepped
            · cases stepped
              exact .throw _
            · cases stepped
              exact .validated stage
  · next stage =>
      split at stepped
      · cases stepped
        exact .throw _
      · next inode found =>
          split at stepped
          · cases stepped
            exact .throw _
          · next read =>
              cases stepped
              refine .openRequests stage found ?_
              intro isFifo
              rw [not_or] at read
              cases reads : readers inode with
              | true => rfl
              | false => exact absurd ⟨reads, isFifo⟩ read.2
  · next stage =>
      split at stepped
      · cases stepped
        exact .throw _
      · next inode found =>
          split at stepped
          · cases stepped
            exact .throw _
          · cases stepped
            exact .openResponses stage found
  · next stage =>
      split at stepped
      · cases stepped
        exact .throw _
      · cases stepped
        exact .connect stage
  · cases stepped
  · cases stepped

inductive SiteMove (site : Site) : Site → Prop
  | start : SiteMove site { site with servers := site.servers ++ [{}] }
  | connect : SiteMove site { site with clients := site.clients ++ [{}] }
  | server {index : Nat} {server moved : Server} {fs : FileSystem}
      (found : site.servers[index]? = some server)
      (move : ServerMove site.fs index server fs moved) :
      SiteMove site { site with fs, servers := site.servers.set index moved }
  | client {index : Nat} {client moved : Client} (found : site.clients[index]? = some client)
      (move : ClientMove site.fs site.reads client moved) :
      SiteMove site { site with clients := site.clients.set index moved }
  | stop {index : Nat} {server : Server} (found : site.servers[index]? = some server)
      (ready : server.stage = .ready) :
      SiteMove site
        { site with servers := site.servers.set index { server with stage := .closeRequest none } }
  | disconnect (index : Nat) :
      SiteMove site { site with clients := site.clients.set index ⟨.ended none, none, none⟩ }
  | kill {index : Nat} {server : Server} (found : site.servers[index]? = some server) :
      SiteMove site
        { site with
          fs := (killServer site.fs index server).1
          servers := site.servers.set index (killServer site.fs index server).2 }

theorem siteMove_of_step {site next : Site} {event : SiteEvent}
    (stepped : site.step event = some next) : SiteMove site next := by
  cases event with
  | start =>
      cases stepped
      exact .start
  | connect =>
      cases stepped
      exact .connect
  | server index fails =>
      rw [Site.step] at stepped
      split at stepped
      · cases stepped
      · next server found =>
          obtain ⟨⟨fs, moved⟩, done, rfl⟩ := Option.map_eq_some_iff.mp stepped
          exact .server found (move_of_serverStep done)
  | client index fails =>
      rw [Site.step] at stepped
      split at stepped
      · cases stepped
      · next client found =>
          obtain ⟨moved, done, rfl⟩ := Option.map_eq_some_iff.mp stepped
          exact .client found (move_of_clientStep done)
  | stop index =>
      rw [Site.step] at stepped
      split at stepped
      · cases stepped
      · next server found =>
          split at stepped
          · next ready =>
              cases stepped
              exact .stop found ready
          · cases stepped
  | disconnect index =>
      rw [Site.step] at stepped
      split at stepped
      · cases stepped
      · cases stepped
        exact .disconnect index
  | kill index =>
      rw [Site.step] at stepped
      split at stepped
      · cases stepped
      · next server found =>
          cases stepped
          exact .kill found

end Kronos.Ipc
