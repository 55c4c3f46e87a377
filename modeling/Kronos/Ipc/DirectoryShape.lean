import Kronos.Ipc.DirectoryMoves

/-!
# What a server has made

The FIFOs that a server has made and the descriptors that it has open follow from its
stage.
-/

set_option autoImplicit false

namespace Kronos.Ipc

/-! ## Stages -/

namespace ServerStage

/-- How far the constructor is: 1 with the request FIFO made, 2 with both, 3 with the
request FIFO open, 4 with both. -/
def progress : ServerStage → Option Nat
  | .createDirectory => some 0
  | .inspectDirectory => some 0
  | .secureDirectory => some 0
  | .openLock => some 0
  | .checkLock => some 0
  | .takeLock => some 0
  | .inspect .requests => some 0
  | .remove .requests => some 0
  | .make .requests => some 0
  | .inspect .responses => some 1
  | .remove .responses => some 1
  | .make .responses => some 1
  | .open .requests => some 2
  | .open .responses => some 3
  | .construct => some 4
  | .ready => some 4
  | _ => none

/-- The server has the lock. -/
def locks : ServerStage → Bool
  | .closeRequest _ => true
  | .closeResponse _ => true
  | .unlinkRequests _ => true
  | .unlinkResponses _ => true
  | .unlock _ => true
  | .ready => true
  | stage => stage.tries

/-- A FIFO that was made is not unlinked yet. -/
def owns : ServerStage → Fifo → Bool
  | .closeRequest _, _ => true
  | .closeResponse _, _ => true
  | .unlinkRequests _, _ => true
  | .unlinkResponses _, .responses => true
  | .ready, _ => true
  | stage, _ => stage.tries

/-- A FIFO that was opened is not closed yet. -/
def opens : ServerStage → Fifo → Bool
  | .closeRequest _, _ => true
  | .closeResponse _, .responses => true
  | .ready, _ => true
  | stage, _ => stage.tries

/-- The server is no more. -/
def gone : ServerStage → Bool
  | .ended _ => true
  | .killed => true
  | _ => false

theorem locks_of_owns {stage : ServerStage} {fifo : Fifo} (owned : stage.owns fifo = true) :
    stage.locks = true := by
  cases stage <;> cases fifo <;> first | rfl | cases owned

theorem owns_of_opens {stage : ServerStage} {fifo : Fifo} (opened : stage.opens fifo = true) :
    stage.owns fifo = true := by
  cases stage <;> cases fifo <;> first | rfl | cases opened

theorem owns_of_tries {stage : ServerStage} (tries : stage.tries = true) (fifo : Fifo) :
    stage.owns fifo = true := by
  cases stage <;> first | rfl | cases tries

theorem locks_of_tries {stage : ServerStage} (tries : stage.tries = true) : stage.locks = true :=
  locks_of_owns (owns_of_tries tries .requests)

theorem progress_of_early {stage : ServerStage} (early : stage.early = true) :
    stage.progress = some 0 := by
  cases stage <;> first | rfl | cases early

theorem not_tries_of_early {stage : ServerStage} (early : stage.early = true) :
    stage.tries = false := by
  cases stage <;> first | rfl | cases early

theorem not_opens_of_early {stage : ServerStage} (early : stage.early = true) (fifo : Fifo) :
    stage.opens fifo = false := by
  cases stage <;> first | rfl | cases early

theorem not_locks_of_early {stage : ServerStage} (early : stage.early = true) :
    stage.locks = false := by
  cases stage <;> first | rfl | cases early

end ServerStage

/-! ## What a server has -/

namespace Server

def descriptor (server : Server) : Fifo → Option Inode
  | .requests => server.request
  | .responses => server.response

def made (server : Server) : Fifo → Bool
  | .requests => server.requestCreated
  | .responses => server.responseCreated

/-- The constructor has made and opened as much as its progress says. -/
def Built (server : Server) (done : Nat) : Prop :=
  server.requestCreated = decide (1 ≤ done) ∧ server.responseCreated = decide (2 ≤ done) ∧
    server.request.isSome = decide (3 ≤ done) ∧ server.response.isSome = decide (4 ≤ done)

/-- What the server has made and opened fits its stage. -/
structure Shaped (server : Server) : Prop where
  built {done : Nat} : server.stage.progress = some done → server.Built done
  opened (fifo : Fifo) {inode : Inode} : server.descriptor fifo = some inode →
    (∀ other, server.made other = true) ∧ server.stage.opens fifo = true
  gone : server.stage.gone = true → server.lockFd = none

section Shape

variable {fs next : FileSystem} {index : Nat} {server moved : Server}

theorem Shaped.built_early (shaped : server.Shaped) (early : server.stage.early = true) :
    server.Built 0 := shaped.built (ServerStage.progress_of_early early)

theorem Shaped.closed (shaped : server.Shaped) (fifo : Fifo)
    (closed : server.stage.opens fifo = false) : server.descriptor fifo = none := by
  cases opened : server.descriptor fifo with
  | none => rfl
  | some inode =>
      rw [(shaped.opened fifo opened).2] at closed
      cases closed

theorem Shaped.closed_of_progress (shaped : server.Shaped) {done : Nat}
    (progress : server.stage.progress = some done) (few : done ≤ 2) (fifo : Fifo) :
    server.descriptor fifo = none := by
  obtain ⟨-, -, third, fourth⟩ := shaped.built progress
  cases fifo with
  | requests =>
      rw [decide_eq_false (by omega)] at third
      exact Option.isNone_iff_eq_none.mp (Option.isSome_eq_false_iff.mp third)
  | responses =>
      rw [decide_eq_false (by omega)] at fourth
      exact Option.isNone_iff_eq_none.mp (Option.isSome_eq_false_iff.mp fourth)

theorem Shaped.closed_make (shaped : server.Shaped) {fifo : Fifo} (stage : server.stage = .make fifo)
    (other : Fifo) : server.descriptor other = none := by
  cases fifo with
  | requests => exact @Shaped.closed_of_progress _ shaped 0 (by rw [stage]; rfl) (by decide) other
  | responses => exact @Shaped.closed_of_progress _ shaped 1 (by rw [stage]; rfl) (by decide) other

/-- Progress is made in `create_fifo` and `open_fifo` only. -/
theorem Shaped.built_step (shaped : server.Shaped) (move : ServerMove fs index server next moved)
    {done : Nat} (progress : moved.stage.progress = some done) : moved.Built done := by
  cases move with
  | makeDirectory early =>
      cases progress
      exact shaped.built_early early
  | goOn early later =>
      rw [ServerStage.progress_of_early later] at progress
      cases progress
      exact shaped.built_early early
  | makeLock early free =>
      cases progress
      exact shaped.built_early early
  | openLock early found =>
      cases progress
      exact shaped.built_early early
  | takeLock early opened free =>
      cases progress
      exact shaped.built_early early
  | @inspectFree fifo stage =>
      cases fifo <;> cases progress <;> exact shaped.built (by rw [stage]; rfl)
  | @inspectStale fifo file stage found safe =>
      cases fifo <;> cases progress <;> exact shaped.built (by rw [stage]; rfl)
  | @remove fifo stage =>
      cases fifo <;> cases progress <;> exact shaped.built (by rw [stage]; rfl)
  | @make fifo stage free =>
      cases fifo with
      | requests =>
          obtain ⟨-, others⟩ : server.Built 0 := shaped.built (by rw [stage]; rfl)
          cases progress
          exact ⟨rfl, others⟩
      | responses =>
          obtain ⟨first, -, others⟩ : server.Built 1 := shaped.built (by rw [stage]; rfl)
          cases progress
          exact ⟨first, rfl, others⟩
  | @«open» fifo inode stage found =>
      cases fifo with
      | requests =>
          obtain ⟨first, second, -, last⟩ : server.Built 2 := shaped.built (by rw [stage]; rfl)
          cases progress
          exact ⟨first, second, rfl, last⟩
      | responses =>
          obtain ⟨first, second, third, -⟩ : server.Built 3 := shaped.built (by rw [stage]; rfl)
          cases progress
          exact ⟨first, second, third, rfl⟩
  | construct stage =>
      cases progress
      exact shaped.built (by rw [stage]; rfl)
  | _ => cases progress

theorem Shaped.opened_step (shaped : server.Shaped) (move : ServerMove fs index server next moved)
    {fifo : Fifo} {inode : Inode} (opened : moved.descriptor fifo = some inode) :
    (∀ other, moved.made other = true) ∧ moved.stage.opens fifo = true := by
  have closed : server.stage.opens fifo = false → server.descriptor fifo ≠ some inode := by
    intro closed
    rw [shaped.closed fifo closed]
    simp
  have closedEarly : server.stage.early = true → server.descriptor fifo ≠ some inode :=
    fun early => closed (ServerStage.not_opens_of_early early fifo)
  cases move with
  | throwEarly what early => exact absurd opened (closedEarly early)
  | makeDirectory early => exact absurd opened (closedEarly early)
  | goOn early later => exact absurd opened (closedEarly early)
  | makeLock early free => exact absurd opened (closedEarly early)
  | openLock early found => exact absurd opened (closedEarly early)
  | takeLock early _ free => exact absurd opened (closedEarly early)
  | raise what tries => exact ⟨(shaped.opened fifo opened).1, rfl⟩
  | inspectFree stage => exact ⟨(shaped.opened fifo opened).1, rfl⟩
  | inspectStale stage found safe => exact ⟨(shaped.opened fifo opened).1, rfl⟩
  | remove stage => exact ⟨(shaped.opened fifo opened).1, rfl⟩
  | @make making stage free =>
      have closed : server.descriptor fifo = none := shaped.closed_make stage fifo
      cases making <;> exact absurd (closed.symm.trans opened) (by simp)
  | @«open» opening found stage =>
      -- both were made before the first is opened
      have made : ∀ other, server.made other = true := by
        intro other
        cases opening with
        | requests =>
            obtain ⟨first, second, -⟩ : server.Built 2 := shaped.built (by rw [stage]; rfl)
            cases other with
            | requests => exact first
            | responses => exact second
        | responses =>
            obtain ⟨first, second, -⟩ : server.Built 3 := shaped.built (by rw [stage]; rfl)
            cases other with
            | requests => exact first
            | responses => exact second
      cases opening <;> exact ⟨made, rfl⟩
  | construct stage => exact ⟨(shaped.opened fifo opened).1, rfl⟩
  | closeRequest stage =>
      cases fifo with
      | requests => cases opened
      | responses => exact ⟨(shaped.opened .responses opened).1, rfl⟩
  | closeResponse stage =>
      cases fifo with
      | requests => exact absurd opened (closed (by rw [stage]; rfl))
      | responses => cases opened
  | skipRequests stage _ => exact absurd opened (closed (by rw [stage]; rfl))
  | leaveRequests stage => exact absurd opened (closed (by rw [stage]; rfl))
  | unlinkRequests stage _ => exact absurd opened (closed (by rw [stage]; rfl))
  | skipResponses stage _ => exact absurd opened (closed (by rw [stage]; rfl))
  | leaveResponses stage => exact absurd opened (closed (by rw [stage]; rfl))
  | unlinkResponses stage _ => exact absurd opened (closed (by rw [stage]; rfl))
  | keepLock stage => exact absurd opened (closed (by rw [stage]; rfl))
  | unlock stage _ => exact absurd opened (closed (by rw [stage]; rfl))
  | closeLock stage _ => exact absurd opened (closed (by rw [stage]; rfl))

theorem gone_step (move : ServerMove fs index server next moved)
    (gone : moved.stage.gone = true) : moved.lockFd = none := by
  cases move with
  | throwEarly what early => rfl
  | @goOn early stage later => cases stage <;> simp [ServerStage.gone, ServerStage.early] at gone later
  | @make fifo stage free => cases fifo <;> cases gone
  | @«open» fifo inode stage found => cases fifo <;> cases gone
  | closeLock stage opened => rfl
  | _ => cases gone

theorem Shaped.step (shaped : server.Shaped) (move : ServerMove fs index server next moved) :
    moved.Shaped :=
  ⟨shaped.built_step move, fun _ _ => shaped.opened_step move, gone_step move⟩

end Shape

end Server

end Kronos.Ipc
