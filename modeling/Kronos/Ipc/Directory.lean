import Kronos.Common.Reaches
import Kronos.Types

/-!
# The IPC directory

Servers and clients that come and go in one IPC directory. `FifoServer::Impl` takes
an advisory lock, replaces the FIFOs that an earlier server may have left and opens
its own; when it fails on the way, and when it is destroyed, it undoes what it has
done. `FifoClient::Impl` checks the FIFOs and opens them. A step is one system call,
which may fail, and a process may be killed between any two of them.
-/

set_option autoImplicit false

namespace Kronos.Ipc

/-! ## Files -/

/-- The index of a file among all that were ever there. -/
abbrev Inode := Nat

inductive FileKind where
  | fifo
  | regular
  | directory
  | symlink
  | other
  deriving DecidableEq

structure File where
  kind : FileKind
  /-- `st_uid` -/
  owner : Nat
  /-- The server that made the file. No code reads it. -/
  maker : Option Nat := none
  deriving DecidableEq

inductive Fifo where
  | requests
  | responses
  deriving DecidableEq

/-- The names in the directory that the code knows. -/
inductive Name where
  | lock
  | fifo (fifo : Fifo)
  deriving DecidableEq

/-- The directory and the files it names. `holders` are the processes that hold the
exclusive `flock` of a file. -/
structure FileSystem where
  /-- `getuid()` of all processes -/
  user : Nat
  path : Bytes
  directory : Option File
  files : List File
  entries : Name → Option Inode
  holders : Inode → Option Nat

namespace FileSystem

/-- What `lstat` finds. -/
def file (fs : FileSystem) (name : Name) : Option File := (fs.entries name).bind (fs.files[·]?)

def create (fs : FileSystem) (name : Name) (file : File) : FileSystem :=
  { fs with
    files := fs.files ++ [file]
    entries := Function.update fs.entries name (some fs.files.length) }

def unlink (fs : FileSystem) (name : Name) : FileSystem :=
  { fs with entries := Function.update fs.entries name none }

def lockFor (fs : FileSystem) (inode : Inode) (process : Nat) : FileSystem :=
  { fs with holders := Function.update fs.holders inode (some process) }

/-- A descriptor of a locked file is closed, or its lock is given back. -/
def release (fs : FileSystem) (inode : Inode) (process : Nat) : FileSystem :=
  if fs.holders inode = some process then
    { fs with holders := Function.update fs.holders inode none }
  else fs

/-- `directory / name` -/
def join (directory name : Bytes) : Bytes :=
  if directory = [] ∨ directory.getLast? = some 47 then directory ++ name
  else directory ++ 47 :: name

def fifoPath (fs : FileSystem) : Fifo → Bytes
  | .requests => join fs.path (text "requests.fifo")
  | .responses => join fs.path (text "responses.fifo")

end FileSystem

/-! ## The server -/

/-- Where a server stands. From `closeRequest` on it undoes what it has done, with the
exception that it is about to throw, or none in its destructor. -/
inductive ServerStage where
  | createDirectory
  | inspectDirectory
  | secureDirectory
  | openLock
  | checkLock
  | takeLock
  /-- in `create_fifo`, at `lstat` -/
  | inspect (fifo : Fifo)
  /-- in `create_fifo`, at `unlink` -/
  | remove (fifo : Fifo)
  /-- in `create_fifo`, at `mkfifo` -/
  | make (fifo : Fifo)
  | open (fifo : Fifo)
  | construct
  | ready
  | closeRequest (what : Option Bytes)
  | closeResponse (what : Option Bytes)
  | unlinkRequests (what : Option Bytes)
  | unlinkResponses (what : Option Bytes)
  | unlock (what : Option Bytes)
  | closeLock (what : Option Bytes)
  /-- destroyed, or left by an exception -/
  | ended (what : Option Bytes)
  | killed
  deriving DecidableEq

structure Server where
  stage : ServerStage := .createDirectory
  lockFd : Option Inode := none
  request : Option Inode := none
  response : Option Inode := none
  requestCreated : Bool := false
  responseCreated : Bool := false
  /-- An `unlink` whose result the code ignores has failed. No code reads it. -/
  leftover : Bool := false
  deriving DecidableEq

namespace Server

/-- The exception leaves the constructor; the lock file is closed. -/
def throwEarly (server : Server) (what : Bytes) : Server :=
  { server with stage := .ended (some what), lockFd := none }

/-- The `catch` block is entered. -/
def raise (server : Server) (what : Bytes) : Server :=
  { server with stage := .closeRequest (some what) }

/-- What `create_fifo` has returned for. -/
def created (server : Server) : Fifo → Server
  | .requests => { server with requestCreated := true, stage := .inspect .responses }
  | .responses => { server with responseCreated := true, stage := .open .requests }

def opened (server : Server) (inode : Inode) : Fifo → Server
  | .requests => { server with request := some inode, stage := .open .responses }
  | .responses => { server with response := some inode, stage := .construct }

end Server

/-- The file is a FIFO of the user. -/
def File.safe (fs : FileSystem) (file : File) : Bool := file.kind == .fifo && file.owner == fs.user

/-- A step of the constructor up to the lock. -/
def lockStep (fs : FileSystem) (index : Nat) (fails : Bool) (server : Server) :
    Option (FileSystem × Server) :=
  match server.stage with
  | .createDirectory =>
      match fs.directory with
      | none =>
          if fails then some (fs, server.throwEarly (text "filesystem error: cannot create directories"))
          else
            some ({ fs with directory := some ⟨.directory, fs.user, none⟩ },
              { server with stage := .inspectDirectory })
      | some file =>
          if fails ∨ file.kind ≠ .directory ∧ file.kind ≠ .symlink then
            some (fs, server.throwEarly (text "filesystem error: cannot create directories"))
          else some (fs, { server with stage := .inspectDirectory })
  | .inspectDirectory =>
      match fs.directory with
      | none => some (fs, server.throwEarly (text "failed to inspect IPC directory"))
      | some file =>
          if fails then some (fs, server.throwEarly (text "failed to inspect IPC directory"))
          else if file.kind ≠ .directory ∨ file.owner ≠ fs.user then
            some (fs, server.throwEarly (text "IPC directory is not a safe user-owned directory"))
          else some (fs, { server with stage := .secureDirectory })
  | .secureDirectory =>
      if fails then some (fs, server.throwEarly (text "failed to secure IPC directory"))
      else some (fs, { server with stage := .openLock })
  | .openLock =>
      match fs.entries .lock with
      | none =>
          if fails then some (fs, server.throwEarly (text "failed to open engine lock"))
          else
            some (fs.create .lock ⟨.regular, fs.user, some index⟩,
              { server with stage := .checkLock, lockFd := some fs.files.length })
      | some inode =>
          -- `O_NOFOLLOW` refuses a link, and `O_RDWR` a directory
          if fails ∨ (fs.file .lock).any (fun file => file.kind == .symlink || file.kind == .directory)
          then some (fs, server.throwEarly (text "failed to open engine lock"))
          else some (fs, { server with stage := .checkLock, lockFd := some inode })
  | .checkLock =>
      if fails ∨ (server.lockFd.bind (fs.files[·]?)).all
          (fun file => file.kind != .regular || file.owner != fs.user) then
        some (fs, server.throwEarly (text "engine lock is not a safe user-owned file"))
      else some (fs, { server with stage := .takeLock })
  | .takeLock =>
      match server.lockFd with
      | none => none
      | some lock =>
          if fails ∨ fs.holders lock ≠ none then
            some (fs, server.throwEarly
              (text "another Kronos engine is already using this IPC directory"))
          else some (fs.lockFor lock index, { server with stage := .inspect .requests })
  | _ => none

/-- A step of the `try` block. -/
def tryStep (fs : FileSystem) (index : Nat) (fails : Bool) (server : Server) :
    Option (FileSystem × Server) :=
  match server.stage with
  | .inspect fifo =>
      if fails then some (fs, server.raise (text "failed to inspect FIFO path"))
      else
        match fs.file (.fifo fifo) with
        | none => some (fs, { server with stage := .make fifo })
        | some file =>
            if file.safe fs then some (fs, { server with stage := .remove fifo })
            else
              some (fs, server.raise
                (text "refusing to replace unsafe IPC path: " ++ fs.fifoPath fifo))
  | .remove fifo =>
      if fails ∨ fs.entries (.fifo fifo) = none then
        some (fs, server.raise (text "failed to replace stale FIFO"))
      else some (fs.unlink (.fifo fifo), { server with stage := .make fifo })
  | .make fifo =>
      if fails ∨ fs.entries (.fifo fifo) ≠ none then
        some (fs, server.raise (text "failed to create FIFO"))
      else some (fs.create (.fifo fifo) ⟨.fifo, fs.user, some index⟩, server.created fifo)
  | .open fifo =>
      match fs.entries (.fifo fifo) with
      | none => some (fs, server.raise (text "failed to open FIFO: " ++ fs.fifoPath fifo))
      | some inode =>
          if fails then some (fs, server.raise (text "failed to open FIFO: " ++ fs.fifoPath fifo))
          else some (fs, server.opened inode fifo)
  | .construct =>
      if fails then some (fs, server.raise (text "std::bad_alloc"))
      else some (fs, { server with stage := .ready })
  | _ => none

/-- `unlink` of a FIFO that was created; its result is ignored. -/
def cleanUp (fs : FileSystem) (fails created : Bool) (fifo : Fifo) (server : Server) :
    FileSystem × Server :=
  if created = false then (fs, server)
  else if fails then (fs, { server with leftover := true })
  else (fs.unlink (.fifo fifo), server)

/-- A step of the `catch` block or the destructor. -/
def undoStep (fs : FileSystem) (index : Nat) (fails : Bool) (server : Server) :
    Option (FileSystem × Server) :=
  match server.stage with
  | .closeRequest what => some (fs, { server with stage := .closeResponse what, request := none })
  | .closeResponse what => some (fs, { server with stage := .unlinkRequests what, response := none })
  | .unlinkRequests what =>
      some (cleanUp fs fails server.requestCreated .requests
        { server with stage := .unlinkResponses what })
  | .unlinkResponses what =>
      some (cleanUp fs fails server.responseCreated .responses { server with stage := .unlock what })
  | .unlock what =>
      match server.lockFd with
      | none => none
      | some lock =>
          some (if fails then fs else fs.release lock index, { server with stage := .closeLock what })
  | .closeLock what =>
      match server.lockFd with
      | none => none
      | some lock =>
          some (fs.release lock index, { server with stage := .ended what, lockFd := none })
  | _ => none

def serverStep (fs : FileSystem) (index : Nat) (fails : Bool) (server : Server) :
    Option (FileSystem × Server) :=
  lockStep fs index fails server <|> tryStep fs index fails server <|> undoStep fs index fails server

/-- The kernel closes the descriptors of a process that is killed. -/
def killServer (fs : FileSystem) (index : Nat) (server : Server) : FileSystem × Server :=
  (match server.lockFd with
    | none => fs
    | some lock => fs.release lock index,
    { server with stage := .killed, lockFd := none, request := none, response := none })

/-! ## The client -/

inductive ClientStage where
  | validate (fifo : Fifo)
  | open (fifo : Fifo)
  | construct
  | connected
  | ended (what : Option Bytes)
  deriving DecidableEq

structure Client where
  stage : ClientStage := .validate .requests
  request : Option Inode := none
  response : Option Inode := none
  deriving DecidableEq

namespace Client

/-- The `catch` block closes the request FIFO only. -/
def throw (client : Client) (what : Bytes) : Client :=
  { client with stage := .ended (some what), request := none }

def validated (client : Client) : Fifo → Client
  | .requests => { client with stage := .validate .responses }
  | .responses => { client with stage := .open .requests }

end Client

/-- A step of `FifoClient::Impl`. A FIFO that nobody reads cannot be opened for writing. -/
def clientStep (fs : FileSystem) (readers : Inode → Bool) (fails : Bool) (client : Client) :
    Option Client :=
  match client.stage with
  | .validate fifo =>
      match fs.file (.fifo fifo) with
      | none => some (client.throw (text "IPC FIFO does not exist: " ++ fs.fifoPath fifo))
      | some file =>
          if fails then some (client.throw (text "IPC FIFO does not exist: " ++ fs.fifoPath fifo))
          else if file.kind ≠ .fifo then
            some (client.throw (text "IPC path is not a FIFO: " ++ fs.fifoPath fifo))
          else if file.owner ≠ fs.user then
            some (client.throw (text "IPC FIFO is owned by another user: " ++ fs.fifoPath fifo))
          else some (client.validated fifo)
  | .open .requests =>
      match fs.entries (.fifo .requests) with
      | none => some (client.throw (text "failed to open FIFO: " ++ fs.fifoPath .requests))
      | some inode =>
          if fails ∨ readers inode = false ∧
              (fs.file (.fifo .requests)).any (fun file => file.kind == .fifo) then
            some (client.throw (text "failed to open FIFO: " ++ fs.fifoPath .requests))
          else some { client with stage := .open .responses, request := some inode }
  | .open .responses =>
      match fs.entries (.fifo .responses) with
      | none => some (client.throw (text "failed to open FIFO: " ++ fs.fifoPath .responses))
      | some inode =>
          if fails then
            some (client.throw (text "failed to open FIFO: " ++ fs.fifoPath .responses))
          else some { client with stage := .construct, response := some inode }
  | .construct =>
      if fails then some (client.throw (text "std::bad_alloc"))
      else some { client with stage := .connected }
  | .connected => none
  | .ended _ => none

/-! ## All processes -/

structure Site where
  fs : FileSystem
  servers : List Server := []
  clients : List Client := []

inductive SiteEvent where
  | start
  | connect
  | server (index : Nat) (fails : Bool)
  | client (index : Nat) (fails : Bool)
  /-- a server is destroyed -/
  | stop (index : Nat)
  /-- a client is destroyed or killed -/
  | disconnect (index : Nat)
  | kill (index : Nat)

/-- Some process has the FIFO open for reading. A server opens both with `O_RDWR`. -/
def Site.reads (site : Site) (inode : Inode) : Bool :=
  site.servers.any (fun server => server.request = some inode ∨ server.response = some inode) ||
    site.clients.any (fun client => client.response = some inode)

def Site.step (site : Site) : SiteEvent → Option Site
  | .start => some { site with servers := site.servers ++ [{}] }
  | .connect => some { site with clients := site.clients ++ [{}] }
  | .server index fails =>
      match site.servers[index]? with
      | none => none
      | some server =>
          (serverStep site.fs index fails server).map fun (fs, next) =>
            { site with fs, servers := site.servers.set index next }
  | .client index fails =>
      match site.clients[index]? with
      | none => none
      | some client =>
          (clientStep site.fs site.reads fails client).map fun next =>
            { site with clients := site.clients.set index next }
  | .stop index =>
      match site.servers[index]? with
      | none => none
      | some server =>
          if server.stage = .ready then
            some { site with
              servers := site.servers.set index { server with stage := .closeRequest none } }
          else none
  | .disconnect index =>
      match site.clients[index]? with
      | none => none
      | some _ => some { site with clients := site.clients.set index ⟨.ended none, none, none⟩ }
  | .kill index =>
      match site.servers[index]? with
      | none => none
      | some server =>
          let (fs, next) := killServer site.fs index server
          some { site with fs, servers := site.servers.set index next }

end Kronos.Ipc
