/-
LineTrace.Run.Child — the traced command as a run sees it.

A run asks a `Spawner` to start the command and afterwards knows only what a
parent knows of a child: that it could not be started, what it wrote to the
shared log, how waiting for it ended. Two things may go wrong with the log
meanwhile: it may be removed, while the command runs or after it has ended,
and reading it may fail after some reads. `hostSpawner` starts real commands;
every law about runs holds for any spawner.
-/
import LineTrace.Command.Launch
import LineTrace.Command.Lookup

namespace LineTrace

/-- A command to be traced: its words, the variables it gets beside those of
the process, the descriptors it keeps, and whether its output is discarded. -/
structure TracedCommand where
  words : List Text
  environment : Environment
  descriptors : List Nat
  mute : Bool

/-- When the log's file is removed, if it is: while the command runs, however waiting
for it ends, or after it has ended and just before the log is read. A run that stops
before it reads its log does not come to the second of these. -/
inductive LogLoss where
  | never
  | running
  | ended
  deriving DecidableEq, Repr

/-- A child that was started: what it and its descendants write to the log,
how waiting for it ends, when the log's file is removed, and after how many
reads reading fails, and how. -/
structure Child where
  writes : Bytes
  ending : Except Fault Int
  loss : LogLoss
  readLimit : Option (Nat × Fault)

/-- Whether the log's file is gone when it is read. -/
def Child.removesLog (c : Child) : Bool := c.loss ≠ .never

/-- What becomes of a command to be traced, and what is recorded about it. -/
abbrev Spawner := FileSystem → TracedCommand → Except Fault Child × List LogRecord

namespace Command

/-- The refusal of a command that could not be started. -/
def unstarted (words : List Text) (e : Fault) : Fault :=
  refusal ("failed to start " ++ Text.shellCommand words ++ ": " ++ e.message) none

/-- A command to be traced, started on a host in a directory. Its first word
is looked up on the search path that the child will have. -/
def startTraced (host : Host) (environment : Environment) (directory : Option Text)
    (fs : FileSystem) (c : TracedCommand) : Except Fault Finished × List LogRecord :=
  let all := overlaid environment c.environment
  match c.words with
  | [] => (.error noWords, [])
  | name :: arguments =>
    match resolve fs ((Table.get? searchVariable all).getD []) name with
    | .error e => (.error e, [])
    | .ok path =>
      match start host fs ⟨path :: arguments, directory, all⟩ c.descriptors with
      | (.ok finished, records) => (.ok finished, records)
      | (.error e, records) =>
        if e.isSystemRefusal then (.error (unstarted c.words e), records)
        else (.error e, records)

/-- The spawner that starts commands on a host which traces nothing itself. -/
def hostSpawner (host : Host) (environment : Environment) (directory : Option Text) : Spawner :=
  fun fs c =>
    match startTraced host environment directory fs c with
    | (.ok finished, records) => (.ok ⟨[], .ok finished.status, .never, none⟩, records)
    | (.error e, records) => (.error e, records)

end Command

end LineTrace
