/-
LineTrace.Command.Launch — starting commands.

What a command does when it is started is not for this library to say: a
`Host` says it, as a function of the files and of what is started. So a
statement about a run can be made for every host. A command is a list of
words, at least one.
-/
import LineTrace.Config.Draft
import LineTrace.Failure.Basic
import LineTrace.Json.Basic
import LineTrace.Log.Record
import LineTrace.Number.Double
import LineTrace.Text.ShellWord

namespace LineTrace.Command

/-! ## 1. Hosts -/

/-- A command to be started, the directory it starts in if not the working
one, and all its variables. -/
structure Launch where
  words : List Text
  directory : Option Text
  environment : Environment

/-- How a command went that was started: its status, below zero for the signal
that ended it, what it wrote, and how long it took. -/
structure Finished where
  status : Int
  output : Bytes
  errors : Bytes
  milliseconds : Nat

/-- What becomes of a command: the fault that keeps it from starting, or how
it went. -/
abbrev Host := FileSystem → Launch → Except Fault Finished

/-! ## 2. Words -/

/-- The complaint about a value that is no list of words. -/
def noWords : Fault := .badValue "args must be a non-empty sequence of strings"

/-- The complaint about a list in which something is no word. -/
def notAllWords : Fault := .badValue "all subprocess arguments must be strings"

/-- The text of a value that is one. -/
def wordOf? : Json → Option Text
  | .str t => some t
  | _ => none

/-- The words of a value. -/
def wordsOf (v : Json) : Except Fault (List Text) :=
  match v with
  | .arr (item :: items) =>
    match (item :: items).mapM wordOf? with
    | some words => .ok words
    | none => .error notAllWords
  | _ => .error noWords

/-- The variables with others put over them. -/
def overlaid (environment added : Environment) : Environment :=
  added.foldl (fun all (name, v) => Table.put name v all) environment

/-! ## 3. Long-running commands -/

/-- The logger of started commands. -/
def launchLogger : Text := "._safe_subprocess"

/-- Descriptors as a message shows them. -/
def descriptorsText (descriptors : List Nat) : Text :=
  [40] ++ Text.joinWith ", " (descriptors.map Text.ofNat) ++
    (if descriptors.length = 1 then ([44] : Text) else []) ++ [41]

/-- A command started on a host with descriptors that it keeps. That is recorded
before it is tried, and a refusal of the system before it is passed on. -/
def start (host : Host) (fs : FileSystem) (launch : Launch) (descriptors : List Nat) :
    Except Fault Finished × List LogRecord :=
  let shown := Text.shellCommand launch.words
  let tried := LogRecord.of Level.debug launchLogger
    ("Spawning process: " ++ shown ++ " (pass_fds=" ++ descriptorsText descriptors ++ ")")
  match launch.words with
  | [] => (.error noWords, [])
  | _ :: _ =>
    match host fs launch with
    | .ok finished => (.ok finished, [tried])
    | .error e =>
      if e.isSystemRefusal then
        (.error e, [tried, LogRecord.of Level.error launchLogger
          ("Failed to spawn process " ++ shown ++ ": " ++ e.message)])
      else (.error e, [tried])

/-- What may be asked of a long-running command beside its words; neither a
shell nor another program in the first word's place is permitted. -/
structure Wishes where
  shell : Bool
  program : Bool

/-- The complaint about wishes that are not permitted. -/
def Wishes.complaint (w : Wishes) : Option Fault :=
  if w.shell then some (.badValue "shell-based invocation is not permitted in safe_popen")
  else if w.program then
    some (.badValue "Overriding the executable is not permitted in safe_popen")
  else none

end LineTrace.Command
