import Kronos.Common.Reaches
import Kronos.Daemon.Lifetime
import Kronos.Engine.Numbering
import Kronos.Engine.Submissions

/-!
# Lifetimes of the daemon on one log

A run of daemons one after the other on the same file. A process may end at any
time. If it ends during an append, the file is left with a part of that record.
-/

set_option autoImplicit false

namespace Kronos.Daemon

open Engine Wal Threads

structure World where
  /-- The contents of the log file. -/
  file : Bytes := []
  life : Option Lifetime := none
  /-- The records that were appended in full. No code reads them. -/
  log : List Stamped := []
  /-- The engines of earlier lifetimes as they were at the end. No code reads them. -/
  past : List (State BuiltinTask) := []
  /-- What the calls of `recover` gave. No code reads it. -/
  recoveries : List (Except String RecoveryReport) := []
  deriving DecidableEq

/-- What happens next. The records appended by a step are stamped with the given
times. -/
inductive Happening where
  /-- a daemon is started -/
  | start (config : SchedulerConfig) (requested detected : Nat) (repair : RepairAnswers := {})
  | run (event : Event) (times : Nat → Int64)
  /-- `history` is asked for -/
  | history (repair : RepairAnswers := {})
  /-- the process ends, in whatever way, while nothing is appended -/
  | stop
  /-- the process ends during the appends of a step: some records are complete, and
  some bytes of the next one -/
  | crash (event : Event) (times : Nat → Int64) (complete torn : Nat)

/-- The records of the engine's journal. -/
def Lifetime.journal (life : Lifetime) : List JournalRecord :=
  life.engine.registry.journal.getD []

/-- The records that a step has appended, stamped. -/
def appended (before after : Lifetime) (times : Nat → Int64) : List Stamped :=
  (after.journal.drop before.journal.length).mapIdx fun index record => ⟨times index, record⟩

/-- A proper part of the line of a record. -/
def tornLine (torn : Nat) : Option Stamped → Bytes
  | none => []
  | some stamped => stamped.line.dropLast.take torn

namespace World

def step (world : World) : Happening → Option World
  | .start config requested detected repair =>
      match world.life, TaskQueue.make config with
      | none, .ok queue =>
          let (outcome, contents) := recoverWith repair world.file
          some { world with
            file := contents
            recoveries := world.recoveries ++ [outcome]
            life :=
              match outcome with
              | .error _ => none
              | .ok report =>
                  some
                    { engine := .make queue requested detected (some (records world.log))
                      todo := startupOf report } }
      | _, _ => none
  | .run event times =>
      match world.life with
      | none => none
      | some life =>
          match life.step event with
          | none => none
          | some next =>
              some { world with
                file := world.file ++ encodeAll (appended life next times)
                log := world.log ++ appended life next times
                life := some next }
  | .history repair =>
      match world.life with
      | none => none
      | some life =>
          if life.ready then
            let (outcome, contents) := recoverWith repair world.file
            some { world with file := contents, recoveries := world.recoveries ++ [outcome] }
          else none
  | .stop =>
      match world.life with
      | none => none
      | some life => some { world with life := none, past := world.past ++ [life.engine] }
  | .crash event times complete torn =>
      match world.life with
      | none => none
      | some life =>
          match life.step event with
          | none => none
          | some next =>
              let added := appended life next times
              some { world with
                file := world.file ++ encodeAll (added.take complete) ++
                  tornLine torn added[complete]?
                log := world.log ++ added.take complete
                life := none
                past := world.past ++ [life.engine] }

/-- The engines of all lifetimes so far. -/
def engines (world : World) : List (State BuiltinTask) :=
  world.past ++ (world.life.map Lifetime.engine).toList

/-- The number of jobs submitted so far. -/
def drawn (world : World) : Nat := total State.drawn world.engines

end World

end Kronos.Daemon
