/-
LineTrace.Run.Progress — how far a run has come.

A run moves through states in one order: the command is spawned, runs, has
exited, its log is drained, done. It fails where the command cannot be started
or the log cannot be drained. What a run leaves behind is kept beside the
states: the files, what was done with the log, and what was recorded.
-/
import LineTrace.Log.Record
import LineTrace.Trace.LogFile

namespace LineTrace

/-- The states of a run. -/
inductive RunState where
  | init
  | spawned
  | running
  | exited
  | draining
  | done
  | failed
  deriving DecidableEq, Repr

/-- The name of a state. -/
def RunState.name : RunState → Text
  | .init => "init"
  | .spawned => "spawned"
  | .running => "running"
  | .exited => "exited"
  | .draining => "draining"
  | .done => "done"
  | .failed => "failed"

/-- What is done with the log. -/
inductive LogEvent where
  | opening
  | closing
  | reading
  | deleting
  deriving DecidableEq, Repr

/-- A run under way: the files, its log, what was done with that, the states
it has been in and what was recorded, all in order. -/
structure Progress where
  files : FileSystem
  log : TraceLog
  events : List LogEvent
  states : List RunState
  records : List LogRecord

namespace Progress

/-- The state that a run is in. -/
def state (p : Progress) : RunState := p.states.getLast?.getD .init

/-- The run in its next state. -/
def enter (p : Progress) (s : RunState) : Progress := { p with states := p.states ++ [s] }

/-- The run with records of others added. -/
def recorded (p : Progress) (records : List LogRecord) : Progress :=
  { p with records := p.records ++ records }

/-- The logger of runs. -/
def logger : Text := ".runner"

/-- The run with a message recorded. -/
def tell (p : Progress) (level : Level) (message : Text) : Progress :=
  p.recorded [LogRecord.of level logger message]

/-- The run with a detail recorded by another logger. -/
def note (p : Progress) (by_ message : Text) : Progress :=
  p.recorded [LogRecord.of Level.debug by_ message]

/-- The number of the descriptor on which the log is open. -/
def logDescriptor : Nat := 3

/-- The run with its log opened, or why it could not be. -/
def openLog (p : Progress) : Progress × Except Fault Unit :=
  let (files, log, result) := p.log.opened p.files
  let p := { p with files, log, events := p.events ++ [.opening] }
  match result with
  | .error e => (p, .error e)
  | .ok () =>
    (p.note ".xtrace.log" ("Opened trace log " ++ log.path.getD [] ++ " on fd " ++
      Text.ofNat logDescriptor), .ok ())

/-- The run with its log closed. -/
def closeLog (p : Progress) : Progress :=
  { p with log := p.log.closed, events := p.events ++ [.closing] }

/-- The content of the run's log. -/
def readLog (p : Progress) : Progress × Except Fault Bytes :=
  ({ p with events := p.events ++ [.reading] }, p.log.content p.files)

/-- The run with its log deleted. -/
def deleteLog (p : Progress) : Progress :=
  { p with files := p.log.deleted p.files, events := p.events ++ [.deleting] }

end Progress

end LineTrace
