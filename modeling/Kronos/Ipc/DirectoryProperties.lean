import Kronos.Common.Total
import Kronos.Ipc.DirectoryFifos

/-!
# One server in a directory

What holds in every run of servers and clients in one IPC directory, whatever fails and
whoever is killed.
-/

set_option autoImplicit false

namespace Kronos.Ipc

open Threads

/-! ## Clients -/

/-- The request FIFO is made and not open yet. -/
def ServerStage.waits (stage : ServerStage) : Bool :=
  stage.progress = some 1 ∨ stage.progress = some 2

theorem ServerStage.tries_of_waits {stage : ServerStage} (waits : stage.waits = true) :
    stage.tries = true := by
  cases stage <;> first | rfl | cases waits

/-- Both FIFOs are open. -/
def ClientStage.opened : ClientStage → Bool
  | .construct => true
  | .connected => true
  | _ => false

def Client.Has (client : Client) (inode : Inode) : Prop :=
  client.request = some inode ∨ client.response = some inode

/-- A client has no FIFO that its server has not opened. Where the server still reads
what the client writes, the client reads what the directory names. -/
structure Client.Ok (fs : FileSystem) (servers : List Server) (client : Client) : Prop where
  bound {inode : Inode} : client.Has inode → inode < fs.files.length
  unread {index : Nat} {server : Server} {inode : Inode} : servers[index]? = some server →
    server.stage.waits = true → fs.entries (.fifo .requests) = some inode → ¬ client.Has inode
  paired {index : Nat} {server : Server} {inode : Inode} : servers[index]? = some server →
    server.request = some inode → client.request = some inode → client.stage.opened = true →
    client.response = fs.entries (.fifo .responses)

/-! ## The invariant -/

namespace Site

structure Ok (site : Site) : Prop where
  valid : site.fs.Valid
  servers {index : Nat} {server : Server} : site.servers[index]? = some server →
    server.Ok site.fs index
  clients : ∀ client ∈ site.clients, client.Ok site.fs site.servers
  holders {inode : Inode} {index : Nat} : site.fs.holders inode = some index →
    index < site.servers.length
  makers {inode : Inode} {file : File} {index : Nat} : site.fs.files[inode]? = some file →
    file.maker = some index → index < site.servers.length

/-- Nobody is there yet. The directory may have any content. -/
structure Starts (site : Site) : Prop where
  valid : site.fs.Valid
  noServers : site.servers = []
  noClients : site.clients = []
  unlocked (inode : Inode) : site.fs.holders inode = none
  foreign {inode : Inode} {file : File} : site.fs.files[inode]? = some file → file.maker = none

theorem Starts.ok {site : Site} (starts : site.Starts) : site.Ok := by
  constructor
  · exact starts.valid
  · intro index server found
    simp [starts.noServers] at found
  · intro client member
    simp [starts.noClients] at member
  · intro inode index held
    rw [starts.unlocked] at held
    cases held
  · intro inode file index found maker
    rw [starts.foreign found] at maker
    cases maker

section Steps

variable {site : Site} {index : Nat} {server : Server}

/-- Two servers that have the lock are one. -/
theorem Ok.unique (ok : site.Ok) {other : Nat} {second : Server}
    (found : site.servers[index]? = some server) (also : site.servers[other]? = some second)
    (locks : server.stage.locks = true) (alsoLocks : second.stage.locks = true) : index = other :=
  ((ok.servers found).lock.lockedBy locks).unique ((ok.servers also).lock.lockedBy alsoLocks)

/-- A server moves. Its clients need to know when it makes the request FIFO, when it
opens it, and that it keeps the response FIFO while that is open. -/
theorem Ok.move (ok : site.Ok) {fs : FileSystem} {moved : Server}
    (found : site.servers[index]? = some server) (keeps : FileSystem.Keeps index site.fs fs)
    (after : moved.Ok fs index)
    (unread : moved.stage.waits = true →
      server.stage.waits = true ∧
          fs.entries (.fifo .requests) = site.fs.entries (.fifo .requests) ∨
        fs.entries (.fifo .requests) = some site.fs.files.length)
    (paired : ∀ {inode : Inode}, moved.request = some inode →
      server.request = some inode ∧
          fs.entries (.fifo .responses) = site.fs.entries (.fifo .responses) ∨
        server.stage = .open .requests ∧ site.fs.entries (.fifo .requests) = some inode) :
    Ok { site with fs, servers := site.servers.set index moved } := by
  have bound : index < site.servers.length := (List.getElem?_eq_some_iff.mp found).1
  -- who has the lock finds the FIFOs as they were, if another one moves
  have same : ∀ {other : Nat} {second : Server} (fifo : Fifo), other ≠ index →
      site.servers[other]? = some second → second.stage.locks = true →
      fs.entries (.fifo fifo) = site.fs.entries (.fifo fifo) := by
    intro other second fifo another also locks
    apply keeps.fifos
    intro locked
    exact another (((ok.servers also).lock.lockedBy locks).unique locked)
  constructor
  · exact keeps.valid
  · intro other second is
    rcases getElem?_set_cases is with ⟨rfl, rfl⟩ | ⟨another, also⟩
    · exact after
    · exact (ok.servers also).frame keeps another
  · intro client member
    have before := ok.clients client member
    constructor
    · intro inode has
      have inside := before.bound has
      exact (List.getElem?_eq_some_iff.mp (keeps.files (List.getElem?_eq_getElem inside))).1
    · intro other second inode is waits entry
      rcases getElem?_set_cases is with ⟨rfl, rfl⟩ | ⟨another, also⟩
      · rcases unread waits with ⟨alreadyWaits, unchanged⟩ | fresh
        · rw [unchanged] at entry
          exact before.unread found alreadyWaits entry
        · intro has
          rw [fresh] at entry
          cases entry
          exact Nat.lt_irrefl _ (before.bound has)
      · have locks := ServerStage.locks_of_tries (ServerStage.tries_of_waits waits)
        rw [same .requests another also locks] at entry
        exact before.unread also waits entry
    · intro other second inode is opened requested connected
      rcases getElem?_set_cases is with ⟨rfl, rfl⟩ | ⟨another, also⟩
      · rcases paired opened with ⟨alreadyOpened, unchanged⟩ | ⟨stage, entry⟩
        · rw [unchanged]
          exact before.paired found alreadyOpened requested connected
        · exact absurd (.inl requested) (before.unread found (by rw [stage]; rfl) entry)
      · have opens := ((ok.servers also).shaped.opened .requests opened).2
        have locks := ServerStage.locks_of_owns (ServerStage.owns_of_opens opens)
        rw [same .responses another also locks]
        exact before.paired also opened requested connected
  · intro inode other held
    rw [List.length_set]
    by_cases is : other = index
    · rw [is]
      exact bound
    · exact ok.holders ((keeps.holders inode is).mp held)
  · intro inode file other is maker
    rw [List.length_set]
    rcases keeps.makers is with before | own
    · exact ok.makers before maker
    · rw [own] at maker
      cases maker
      exact bound

theorem waits_of_move {fs next : FileSystem} {moved : Server}
    (move : ServerMove fs index server next moved) (waits : moved.stage.waits = true) :
    server.stage.waits = true ∧ next.entries (.fifo .requests) = fs.entries (.fifo .requests) ∨
      next.entries (.fifo .requests) = some fs.files.length := by
  cases move with
  | goOn early later =>
      have early := ServerStage.not_tries_of_early later
      rw [ServerStage.tries_of_waits waits] at early
      cases early
  | @inspectFree fifo stage =>
      cases fifo with
      | requests => cases waits
      | responses => exact .inl ⟨by rw [stage]; rfl, rfl⟩
  | @inspectStale fifo file stage found safe =>
      cases fifo with
      | requests => cases waits
      | responses => exact .inl ⟨by rw [stage]; rfl, rfl⟩
  | @remove fifo stage =>
      cases fifo with
      | requests => cases waits
      | responses => exact .inl ⟨by rw [stage]; rfl, rfl⟩
  | @make fifo stage free =>
      cases fifo with
      | requests => exact .inr (fs.create_entries_self _ _)
      | responses => exact .inl ⟨by rw [stage]; rfl, rfl⟩
  | @«open» fifo inode stage found => cases fifo <;> cases waits
  | _ => cases waits

/-- The response FIFO stays in the directory while the request FIFO is open. -/
theorem request_of_move {fs next : FileSystem} {moved : Server} (shaped : server.Shaped)
    (move : ServerMove fs index server next moved) {inode : Inode}
    (opened : moved.request = some inode) :
    server.request = some inode ∧ next.entries (.fifo .responses) = fs.entries (.fifo .responses) ∨
      server.stage = .open .requests ∧ fs.entries (.fifo .requests) = some inode := by
  cases move with
  | @remove fifo stage =>
      cases fifo with
      | requests => exact .inl ⟨opened, rfl⟩
      | responses =>
          obtain ⟨-, -, third, -⟩ : server.Built 1 := shaped.built (by rw [stage]; rfl)
          rw [show server.request = some inode from opened] at third
          cases third
  | @make fifo stage free =>
      have closed := shaped.closed_make stage .requests
      cases fifo with
      | requests => exact .inl ⟨opened, rfl⟩
      | responses =>
          rw [show server.descriptor .requests = some inode from opened] at closed
          cases closed
  | @«open» fifo other stage found =>
      cases fifo with
      | requests =>
          cases opened
          exact .inr ⟨stage, found⟩
      | responses => exact .inl ⟨opened, rfl⟩
  | closeRequest stage => cases opened
  | unlinkResponses stage created =>
      have closed := shaped.closed .requests (by rw [stage]; rfl)
      rw [show server.descriptor .requests = some inode from opened] at closed
      cases closed
  | unlock stage lock => exact .inl ⟨opened, by simp⟩
  | closeLock stage lock => exact .inl ⟨opened, by simp⟩
  | _ => exact .inl ⟨opened, rfl⟩

theorem Ok.start (ok : site.Ok) : Ok { site with servers := site.servers ++ [{}] } := by
  constructor
  · exact ok.valid
  · intro other second is
    rcases getElem?_concat_cases is with ⟨rfl, rfl⟩ | before
    · apply Server.Ok.start
      · intro inode held
        exact Nat.lt_irrefl _ (ok.holders held)
      · intro inode file found maker
        exact Nat.lt_irrefl _ (ok.makers found maker)
    · exact ok.servers before
  · intro client member
    have before := ok.clients client member
    constructor
    · exact before.bound
    · intro other second inode is waits
      rcases getElem?_concat_cases is with ⟨rfl, rfl⟩ | found
      · cases waits
      · exact before.unread found waits
    · intro other second inode is opened
      rcases getElem?_concat_cases is with ⟨rfl, rfl⟩ | found
      · cases opened
      · exact before.paired found opened
  · intro inode other held
    rw [List.length_append]
    exact Nat.lt_add_right 1 (ok.holders held)
  · intro inode file other found maker
    rw [List.length_append]
    exact Nat.lt_add_right 1 (ok.makers found maker)

/-- The clients change, and nothing else. -/
theorem Ok.withClients (ok : site.Ok) {clients : List Client}
    (all : ∀ client ∈ clients, client.Ok site.fs site.servers) : Ok { site with clients } :=
  ⟨ok.valid, ok.servers, all, ok.holders, ok.makers⟩

/-- A server that waits has its request FIFO and no descriptor. -/
theorem built_of_waits (shaped : server.Shaped) (waits : server.stage.waits = true) :
    server.Owns .requests ∧ ∀ fifo, server.descriptor fifo = none := by
  have owns := ServerStage.owns_of_tries (ServerStage.tries_of_waits waits) .requests
  rcases of_decide_eq_true waits with progress | progress
  · exact ⟨⟨(shaped.built progress).1, owns⟩, shaped.closed_of_progress progress (by decide)⟩
  · exact ⟨⟨(shaped.built progress).1, owns⟩, shaped.closed_of_progress progress (by decide)⟩

/-- Nobody reads the request FIFO of a server that waits. -/
theorem Ok.not_reads (ok : site.Ok) (found : site.servers[index]? = some server)
    (waits : server.stage.waits = true) {inode : Inode}
    (entry : site.fs.entries (.fifo .requests) = some inode) : site.reads inode = false := by
  have locks := ServerStage.locks_of_tries (ServerStage.tries_of_waits waits)
  have closed : ∀ second ∈ site.servers, ∀ fifo, second.descriptor fifo ≠ some inode := by
    intro second member fifo opened
    obtain ⟨other, also⟩ := List.mem_iff_getElem?.mp member
    have opens := ((ok.servers also).shaped.opened fifo opened).2
    have same := ok.unique found also locks
      (ServerStage.locks_of_owns (ServerStage.owns_of_opens opens))
    rw [← same, found] at also
    cases also
    rw [(built_of_waits (ok.servers found).shaped waits).2 fifo] at opened
    cases opened
  have unread : ∀ client ∈ site.clients, client.response ≠ some inode := by
    intro client member responded
    exact (ok.clients client member).unread found waits entry (.inr responded)
  rw [reads, Bool.or_eq_false_iff, List.any_eq_false, List.any_eq_false]
  constructor
  · intro second member
    have first := closed second member .requests
    have last := closed second member .responses
    simpa [Server.descriptor] using ⟨first, last⟩
  · intro client member
    simpa using unread client member

/-- A client without descriptors. -/
theorem clientOk_of_closed {client : Client} (noRequest : client.request = none)
    (noResponse : client.response = none) : client.Ok site.fs site.servers := by
  have closed : ∀ inode, ¬ client.Has inode := by
    intro inode has
    simp [Client.Has, noRequest, noResponse] at has
  constructor
  · intro inode has
    exact absurd has (closed inode)
  · intro other second inode found waits entry
    exact closed inode
  · intro other second inode found opened requested
    exact absurd (.inl requested) (closed inode)

theorem Ok.clientMove (ok : site.Ok) {client moved : Client}
    (before : client.Ok site.fs site.servers) (move : ClientMove site.fs site.reads client moved) :
    moved.Ok site.fs site.servers := by
  cases move with
  | throw what =>
      constructor
      · rintro inode (requested | responded)
        · cases requested
        · exact before.bound (.inr responded)
      · rintro other second inode found waits entry (requested | responded)
        · cases requested
        · exact before.unread found waits entry (.inr responded)
      · intro other second inode found opened requested
        cases requested
  | @validated fifo stage =>
      have has : ∀ {inode : Inode}, (client.validated fifo).Has inode → client.Has inode := by
        intro inode has
        cases fifo <;> exact has
      constructor
      · intro inode nowHas
        exact before.bound (has nowHas)
      · intro other second inode found waits entry nowHas
        exact before.unread found waits entry (has nowHas)
      · intro other second inode found opened requested connected
        cases fifo <;> cases connected
  | @openRequests inode stage found read =>
      constructor
      · rintro other (requested | responded)
        · cases requested
          exact ok.valid found
        · exact before.bound (.inr responded)
      · rintro index server other isServer waits entry (requested | responded)
        · cases requested
          -- the server made it, so it is a FIFO and could be opened only with a reader
          have owns := (built_of_waits (ok.servers isServer).shaped waits).1
          obtain ⟨made, named, file⟩ := (ok.servers isServer).fifos.owned owns
          have isFifo : (site.fs.file (.fifo .requests)).any (fun file => file.kind == .fifo) = true := by
            simp [FileSystem.file, named, file]
          have unread := ok.not_reads isServer waits entry
          rw [read isFifo] at unread
          cases unread
        · exact before.unread isServer waits entry (.inr responded)
      · intro other second inode isServer opened requested connected
        cases connected
  | @openResponses inode stage found =>
      constructor
      · rintro other (requested | responded)
        · exact before.bound (.inl requested)
        · cases responded
          exact ok.valid found
      · rintro index server other isServer waits entry (requested | responded)
        · exact before.unread isServer waits entry (.inl requested)
        · cases responded
          have server := ok.servers isServer
          have apart := server.fifos.apart (built_of_waits server.shaped waits).1
          exact apart (found.trans entry.symm)
      · intro index server other isServer opened requested connected
        exact found.symm
  | connect stage =>
      refine ⟨before.bound, before.unread, fun isServer opened requested _ => ?_⟩
      exact before.paired isServer opened requested (by rw [stage]; rfl)

theorem Ok.step (ok : site.Ok) {next : Site} (move : SiteMove site next) : next.Ok := by
  cases move with
  | start => exact ok.start
  | connect => exact ok.withClients (forall_mem_concat ok.clients (clientOk_of_closed rfl rfl))
  | server found move =>
      have before := ok.servers found
      exact ok.move found (Server.keeps_of_move ok.valid before.lock move) (before.step ok.valid move)
        (waits_of_move move) (request_of_move before.shaped move)
  | client found move =>
      have before := ok.clients _ (List.mem_of_getElem? found)
      exact ok.withClients (forall_mem_set ok.clients (ok.clientMove before move))
  | stop found ready =>
      exact ok.move found (.refl ok.valid) ((ok.servers found).stop ready)
        (fun waits => by cases waits) (fun opened => .inl ⟨opened, rfl⟩)
  | disconnect index =>
      exact ok.withClients (forall_mem_set ok.clients (clientOk_of_closed rfl rfl))
  | kill found =>
      exact ok.move found (Server.keeps_kill ok.valid) (ok.servers found).kill
        (fun waits => by cases waits) (fun opened => by cases opened)

end Steps

/-- Everything that the processes may do. -/
abbrev Run (start final : Site) : Prop := Reaches Site.step (fun _ _ => True) start final

theorem Ok.run {start final : Site} (ok : start.Ok) (run : Run start final) : final.Ok := by
  refine run.invariant Site.Ok ok ?_
  intro site event next before _ stepped
  exact before.step (siteMove_of_step stepped)

/-! ## A directory in use -/

/-- Nothing is there but the name of the directory. -/
def emptyDirectory : FileSystem where
  user := 1000
  path := text "/run/kronos"
  directory := none
  files := []
  entries _ := none
  holders _ := none

theorem emptyDirectory_starts : Starts ⟨emptyDirectory, [], []⟩ where
  valid named := by cases named
  noServers := rfl
  noClients := rfl
  unlocked _ := rfl
  foreign found := by cases found

/-- A server becomes ready and a client connects. A second server finds the lock taken. -/
def busyEvents : List SiteEvent :=
  .start :: List.replicate 13 (.server 0 false) ++
    .connect :: List.replicate 5 (.client 0 false) ++
    .start :: List.replicate 6 (.server 1 false)

private theorem busy_ran :
    (runAll Site.step (fun _ _ => True) ⟨emptyDirectory, [], []⟩ busyEvents).isSome = true := by
  decide +kernel

def busySite : Site := Option.get _ busy_ran

def readyServer : Server :=
  { stage := .ready, lockFd := some 0, request := some 1, response := some 2,
    requestCreated := true, responseCreated := true }

def refusedServer : Server :=
  { stage := .ended (some (text "another Kronos engine is already using this IPC directory")) }

def connectedClient : Client := { stage := .connected, request := some 1, response := some 2 }

theorem busySite_reached : Run ⟨emptyDirectory, [], []⟩ busySite :=
  reaches_of_runAll (Option.some_get busy_ran).symm

section Results

variable {start site final : Site}

/-! ## One server -/

/-- At most one server is behind the lock, and the FIFOs of a server that is ready are
the ones that the directory names, made by that server. -/
theorem one_server_per_directory (starts : start.Starts) (run : Run start site) :
    (∀ {first second : Nat} {one two : Server}, site.servers[first]? = some one →
      site.servers[second]? = some two → one.stage.locks = true → two.stage.locks = true →
      first = second) ∧
    ∀ {index : Nat} {server : Server}, site.servers[index]? = some server → server.stage = .ready →
      ∃ request response, server.request = some request ∧ server.response = some response ∧
        request ≠ response ∧ site.fs.entries (.fifo .requests) = some request ∧
        site.fs.entries (.fifo .responses) = some response ∧
        site.fs.files[request]? = some ⟨.fifo, site.fs.user, some index⟩ ∧
        site.fs.files[response]? = some ⟨.fifo, site.fs.user, some index⟩ := by
  have ok := starts.ok.run run
  constructor
  · intro first second one two found also locks alsoLocks
    exact ok.unique found also locks alsoLocks
  · intro index server found ready
    have before := ok.servers found
    obtain ⟨requestCreated, responseCreated, request, response⟩ : server.Built 4 :=
      before.shaped.built (by rw [ready]; rfl)
    have owns : ∀ fifo, server.stage.owns fifo = true := fun fifo => by rw [ready]; rfl
    obtain ⟨requests, openRequests⟩ := Option.isSome_iff_exists.mp request
    obtain ⟨responses, openResponses⟩ := Option.isSome_iff_exists.mp response
    have namedRequests := @before.fifos.opened .requests _ openRequests
    have namedResponses := @before.fifos.opened .responses _ openResponses
    obtain ⟨_, entry, fileRequests⟩ := @before.fifos.owned .requests ⟨requestCreated, owns _⟩
    rw [namedRequests] at entry
    cases entry
    obtain ⟨_, entry, fileResponses⟩ := @before.fifos.owned .responses ⟨responseCreated, owns _⟩
    rw [namedResponses] at entry
    cases entry
    refine ⟨requests, responses, openRequests, openResponses, ?_, namedRequests, namedResponses,
      fileRequests, fileResponses⟩
    rintro rfl
    exact before.fifos.apart ⟨requestCreated, owns _⟩ (namedResponses.trans namedRequests.symm)

theorem busySite_one_server :
    busySite.servers = [readyServer, refusedServer] ∧
    ∃ request response, readyServer.request = some request ∧
      readyServer.response = some response ∧ request ≠ response ∧
      busySite.fs.entries (.fifo .requests) = some request ∧
      busySite.fs.entries (.fifo .responses) = some response :=
  have servers : busySite.servers = [readyServer, refusedServer] := by decide +kernel
  have found : busySite.servers[0]? = some readyServer := by rw [servers]; rfl
  have ⟨request, response, one, two, apart, requests, responses, _⟩ :=
    (one_server_per_directory emptyDirectory_starts busySite_reached).2 found rfl
  ⟨servers, request, response, one, two, apart, requests, responses⟩

/-- A server that has ended holds no lock and no descriptor, and unless an `unlink` failed
the directory names no FIFO of its own. -/
theorem ended_server_leaves_nothing (starts : start.Starts) (run : Run start site) {index : Nat}
    {server : Server} {what : Option Bytes} (found : site.servers[index]? = some server)
    (ended : server.stage = .ended what) :
    server.request = none ∧ server.response = none ∧ server.lockFd = none ∧
    (∀ inode, site.fs.holders inode ≠ some index) ∧
    (server.leftover = false → ∀ (fifo : Fifo) (inode : Inode) (file : File),
      site.fs.entries (.fifo fifo) = some inode → site.fs.files[inode]? = some file →
      file.maker ≠ some index) := by
  have ok := (starts.ok.run run).servers found
  have unlocked := ok.shaped.gone (by rw [ended]; rfl)
  refine ⟨ok.shaped.closed .requests (by rw [ended]; rfl),
    ok.shaped.closed .responses (by rw [ended]; rfl), unlocked, ?_, ?_⟩
  · intro inode held
    rw [(ok.lock.holds held).1] at unlocked
    cases unlocked
  · intro clean fifo inode file entry isFile maker
    rcases ok.fifos.own entry isFile maker with owns | leftover | killed
    · rw [Server.Owns, ended] at owns
      cases owns.2
    · rw [clean] at leftover
      cases leftover
    · rw [ended] at killed
      cases killed

/-- The second server of the busy site is refused, and holds nothing. -/
theorem busySite_refused :
    busySite.servers[1]? = some refusedServer ∧ ∀ inode, busySite.fs.holders inode ≠ some 1 :=
  have found : busySite.servers[1]? = some refusedServer := by decide +kernel
  have ⟨_, _, _, free, _⟩ :=
    ended_server_leaves_nothing emptyDirectory_starts busySite_reached found rfl
  ⟨found, free⟩

/-! ## Clients and servers -/

/-- A client whose requests a server reads has the responses of the same server: no
client is between two servers. -/
theorem client_paired (starts : start.Starts) (run : Run start site) {index : Nat} {server : Server}
    {client : Client} {inode : Inode} (found : site.servers[index]? = some server)
    (member : client ∈ site.clients) (connected : client.stage = .connected)
    (requested : client.request = some inode) (opened : server.request = some inode) :
    ∃ response, client.response = some response ∧
      site.fs.files[response]? = some ⟨.fifo, site.fs.user, some index⟩ ∧
      ∀ other, server.response = some other → other = response := by
  have ok := starts.ok.run run
  have before := ok.servers found
  obtain ⟨made, opens⟩ := before.shaped.opened .requests opened
  have owns : server.Owns .responses := by
    refine ⟨made .responses, ?_⟩
    cases stage : server.stage <;> rw [stage] at opens <;> first | rfl | cases opens
  obtain ⟨response, entry, file⟩ := before.fifos.owned owns
  have responds := (ok.clients client member).paired found opened requested (by rw [connected]; rfl)
  refine ⟨response, responds.trans entry, file, ?_⟩
  intro other alsoOpened
  have named := @Server.FifosOk.opened _ _ _ before.fifos .responses _ alsoOpened
  rw [entry] at named
  exact (Option.some.inj named).symm

theorem busySite_paired :
    busySite.clients = [connectedClient] ∧ ∃ response, connectedClient.response = some response ∧
      ∀ other, readyServer.response = some other → other = response :=
  have clients : busySite.clients = [connectedClient] := by decide +kernel
  have found : busySite.servers[0]? = some readyServer := by decide +kernel
  have ⟨response, responds, _, same⟩ :=
    client_paired emptyDirectory_starts busySite_reached found (by rw [clients]; exact .head _) rfl
      rfl rfl
  ⟨clients, response, responds, same⟩

/-! ## Files of others -/

/-- Only FIFOs of the user are unlinked, and nothing is made over a file. -/
theorem entry_kept {fs next : FileSystem} {index : Nat} {server moved : Server}
    (ok : server.Ok fs index) (move : ServerMove fs index server next moved) {name : Name}
    {inode : Inode} {file : File} (entry : fs.entries name = some inode)
    (found : fs.files[inode]? = some file) (foreign : file.safe fs = false) :
    next.entries name = some inode := by
  -- the FIFO that is unlinked is safe, so it is another one
  have unlinked : ∀ {fifo : Fifo}, (∃ other, fs.file (.fifo fifo) = some other ∧
      other.safe fs = true) → (fs.unlink (.fifo fifo)).entries name = some inode := by
    intro fifo inspected
    obtain ⟨other, isOther, safe⟩ := inspected
    rw [FileSystem.unlink_entries_of_ne]
    · exact entry
    · rintro rfl
      rw [FileSystem.file, entry, Option.bind_some, found] at isOther
      cases isOther
      rw [foreign] at safe
      cases safe
  have owned : ∀ {fifo : Fifo}, server.Owns fifo →
      ∃ other, fs.file (.fifo fifo) = some other ∧ other.safe fs = true := by
    intro fifo owns
    obtain ⟨made, named, isFile⟩ := ok.fifos.owned owns
    exact ⟨_, Option.bind_eq_some_iff.mpr ⟨made, named, isFile⟩, by simp [File.safe]⟩
  have created : ∀ {other : Name} (file : File), fs.entries other = none →
      (fs.create other file).entries name = some inode := by
    intro other file free
    rw [FileSystem.create_entries_of_ne]
    · exact entry
    · rintro rfl
      rw [entry] at free
      cases free
  cases move with
  | makeLock early free => exact created _ free
  | remove stage => exact unlinked (ok.fifos.stale stage)
  | make stage free => exact created _ free
  | unlinkRequests stage made => exact unlinked (owned ⟨made, by rw [stage]; rfl⟩)
  | unlinkResponses stage made => exact unlinked (owned ⟨made, by rw [stage]; rfl⟩)
  | unlock stage opened => simpa using entry
  | closeLock stage opened => simpa using entry
  | _ => exact entry

/-- A name that is not a FIFO of the user stays: it is neither unlinked nor replaced,
whatever the processes do. -/
theorem foreign_files_kept (starts : start.Starts) (run : Run start site) (further : Run site final)
    {name : Name} {inode : Inode} {file : File} (entry : site.fs.entries name = some inode)
    (found : site.fs.files[inode]? = some file) (foreign : file.safe site.fs = false) :
    final.fs.entries name = some inode ∧ final.fs.files[inode]? = some file := by
  have kept : final.Ok ∧ final.fs.entries name = some inode ∧ final.fs.files[inode]? = some file ∧
      file.safe final.fs = false := by
    refine further.invariant (fun state => state.Ok ∧ state.fs.entries name = some inode ∧
      state.fs.files[inode]? = some file ∧ file.safe state.fs = false) ?_ ?_
    · exact ⟨starts.ok.run run, entry, found, foreign⟩
    · intro state event next before _ stepped
      obtain ⟨ok, entry, found, foreign⟩ := before
      have move := siteMove_of_step stepped
      refine ⟨ok.step move, ?_⟩
      cases move with
      | server isServer move =>
          have server := ok.servers isServer
          have keeps := Server.keeps_of_move ok.valid server.lock move
          refine ⟨entry_kept server move entry found foreign, keeps.files found, ?_⟩
          rw [File.safe, keeps.user]
          exact foreign
      | @kill index server isServer =>
          have keeps : FileSystem.Keeps index state.fs (killServer state.fs index server).1 :=
            Server.keeps_kill ok.valid
          refine ⟨by simpa using entry, keeps.files found, ?_⟩
          rw [File.safe, keeps.user]
          exact foreign
      | _ => exact ⟨entry, found, foreign⟩
  exact ⟨kept.2.1, kept.2.2.1⟩

/-- The name of the response FIFO is taken by a regular file. -/
def takenDirectory : FileSystem :=
  { emptyDirectory with
    files := [⟨.regular, 1000, none⟩]
    entries := fun name => if name = .fifo .responses then some 0 else none }

theorem takenDirectory_starts : Starts ⟨takenDirectory, [], []⟩ where
  valid {name inode} named := by
    have named : (if name = .fifo .responses then some 0 else none) = some inode := named
    split at named
    · cases named
      decide
    · cases named
  noServers := rfl
  noClients := rfl
  unlocked _ := rfl
  foreign {inode _} found := by
    have found := List.mem_singleton.mp (List.mem_of_getElem? found)
    rw [found]

private theorem taken_ran :
    (runAll Site.step (fun _ _ => True) ⟨takenDirectory, [], []⟩
      (.start :: List.replicate 15 (.server 0 false))).isSome = true := by
  decide +kernel

def takenSite : Site := Option.get _ taken_ran

/-- The server gives up, and the file is still there. -/
theorem takenSite_kept :
    takenSite.servers.map (·.stage) = [.ended (some (text
      "refusing to replace unsafe IPC path: /run/kronos/responses.fifo"))] ∧
    takenSite.fs.entries (.fifo .responses) = some 0 :=
  ⟨by decide +kernel,
    (foreign_files_kept takenDirectory_starts .refl
      (reaches_of_runAll (Option.some_get taken_ran).symm : Run _ takenSite) rfl rfl rfl).1⟩

end Results

end Site

end Kronos.Ipc
