/-
LineTrace.Failure.Report — telling a user what went wrong, or right.

A failed command ends with one line of JSON and an exit status. The line has a
label and a detail, a hint and a context only where there is something in
them. Label and status are those of the first class, in a fixed order, that the
failure belongs to. A fault that is no failure is still reported so, under a label
that says that nothing better was known; only a missing file has a label of its own.

The line cannot be written where an integer of the context has too many digits. Then
nothing is, and the end of the command is the fault of the writing.
-/
import LineTrace.Failure.Basic
import LineTrace.Json.Writer

namespace LineTrace

/-! ## 1. Reports -/

/-- A value on one line. Nothing is written where an integer in it has too many digits. -/
def Json.line (v : Json) : Except Fault Text :=
  if v.hasNumerals then .ok v.compact else .error .unwritableInteger

/-- The one line that ends a failed command. -/
structure Report where
  label : Text
  detail : Text
  hint : Option Text
  context : Option Json

namespace Report

/-- A hint that says something. -/
def hintEntry : Option Text → List (Text × Json)
  | none => []
  | some t => if t = [] then [] else [("hint", .str t)]

/-- A context with something in it. -/
def contextEntry : Option Json → List (Text × Json)
  | some (.obj (e :: es)) => [("context", .obj (e :: es))]
  | _ => []

/-- The report as JSON. -/
def toJson (r : Report) : Json :=
  .obj (("error", .str r.label) :: ("detail", .str r.detail) ::
    (hintEntry r.hint ++ contextEntry r.context))

/-- The report as one line, if it can be written. -/
def line (r : Report) : Except Fault Text := r.toJson.line.map (· ++ [10])

end Report

/-! ## 2. Classes -/

/-- The classes of failures that an exit status and a label are listed for. -/
inductive FailureClass where
  | spawn
  | traceLog
  | badInput
  | invariant
  | policy
  | fileSystem
  deriving DecidableEq, Repr

namespace FailureClass

/-- A class, and the listed classes that it is derived from. -/
def ancestors : FailureClass → List FailureClass
  | .spawn => [.spawn, .badInput]
  | .traceLog => [.traceLog, .fileSystem]
  | c => [c]

/-- The exit status of a command that ends with a failure of a class. -/
def status : FailureClass → Int
  | .spawn => 2
  | .traceLog => 5
  | .badInput => 2
  | .invariant => 3
  | .policy => 4
  | .fileSystem => 5

/-- The label of a failure of a class. -/
def label : FailureClass → Text
  | .spawn => "Spawn"
  | .traceLog => "TraceLog"
  | .badInput => "BadInput"
  | .invariant => "Invariant"
  | .policy => "Policy"
  | .fileSystem => "IO"

/-- The classes in the order in which a failure is compared with them. A class stands
before those that it is derived from, or it would never be found. -/
def inOrder : List FailureClass := [.spawn, .traceLog, .badInput, .invariant, .policy, .fileSystem]

end FailureClass

/-! ## 3. Failures -/

/-- A failure as it is told. Its own class may be one that is not listed; all that is
known of it are the listed classes that it is, or is derived from, in whatever way. -/
structure Envelope where
  bases : List FailureClass
  message : Text
  hint : Option Text
  context : Option (List (Text × Json))

namespace Envelope

/-- The listed classes that a failure belongs to. -/
def classes (e : Envelope) : List FailureClass := e.bases.flatMap FailureClass.ancestors

/-- The class that a failure is told as. -/
def toldAs? (e : Envelope) : Option FailureClass :=
  FailureClass.inOrder.find? fun c => c ∈ e.classes

/-- The exit status of a command that ends with a failure. -/
def status (e : Envelope) : Int :=
  match e.toldAs? with
  | some c => c.status
  | none => 4

/-- The label of a failure. -/
def label (e : Envelope) : Text :=
  match e.toldAs? with
  | some c => c.label
  | none => "UnhandledEnvelope"

/-- The report of a failure. -/
def report (e : Envelope) : Report := ⟨e.label, e.message, e.hint, e.context.map .obj⟩

end Envelope

/-- The listed classes that a kind of failure is, or is derived from. -/
def FailureKind.bases : FailureKind → List FailureClass
  | .unlisted => []
  | .badInput => [.badInput]
  | .spawn => [.spawn]
  | .invariant => [.invariant]
  | .stackUnderflow => [.invariant]
  | .policy => [.policy]
  | .fileSystem => [.fileSystem]
  | .traceLog _ => [.traceLog]

/-- What a failed drain had gathered, in numbers. -/
def PartialRun.context (p : PartialRun) : List (Text × Json) := [
  ("returncode", match p.returncode with
    | some n => .int n
    | none => .null),
  ("skipped", .int p.skipped),
  ("partial_files", .int (match p.coverage with
    | some c => c.fileCount
    | none => 0))]

/-- The context that a kind of failure has. -/
def FailureKind.context : FailureKind → Option (List (Text × Json))
  | .traceLog run => some run.context
  | _ => none

/-- A failure of the program itself, as it is told. -/
def Failure.envelope (f : Failure) : Envelope := ⟨f.kind.bases, f.message, f.hint, f.kind.context⟩

/-! ## 4. Faults -/

/-- How a guarded command ends: with its value; with one line on the error stream and
an exit status, the line perhaps announced in the log; or with a fault that nobody is
told about, because the line could not be written. -/
inductive Guarded (α : Type) where
  | done (value : α)
  | failed (announced : Bool) (line : Text) (status : Int)
  | escaped (e : Fault)

/-- What is written on the error stream at the end of a command, beside the log. -/
def Guarded.errors {α : Type} : Guarded α → Text
  | .done _ => []
  | .failed _ line _ => line
  | .escaped _ => []

/-- The end of a command that is told in a report. -/
def Report.guarded {α : Type} (r : Report) (announced : Bool) (status : Int) : Guarded α :=
  match r.line with
  | .ok line => .failed announced line status
  | .error e => .escaped e

/-- The end of a command that stops with a failure. -/
def Envelope.guarded {α : Type} (e : Envelope) : Guarded α := e.report.guarded false e.status

/-- The end of a command that stops with a fault. -/
def Fault.guarded {α : Type} (e : Fault) : Guarded α :=
  match e with
  | .failure f => f.envelope.guarded
  | e =>
    if e.isMissingFile then Report.guarded ⟨"FileNotFound", e.message, none, none⟩ false 5
    else Report.guarded ⟨"Unhandled", e.label ++ ": " ++ e.message, none, none⟩ true 4

/-- The end of a command. -/
def guarded {α : Type} : Except Fault α → Guarded α
  | .ok a => .done a
  | .error e => e.guarded

/-! ## 5. Success -/

/-- What a command that succeeded prints: one JSON object with the data, or
the text alone. The text is left out where the data hold a result. -/
def successText (asJson : Bool) (command : Text) (text : Option Text)
    (data : List (Text × Json)) : Except Fault Text :=
  if asJson then
    let entries : Table Text Json :=
      Table.ofEntries (("ok", .bool true) :: ("command", .str command) :: data)
    let entries : Table Text Json :=
      match text, Table.get? ("result" : Text) entries with
      | some t, none => Table.put "result" (.str t) entries
      | _, _ => entries
    (Json.obj entries).line.map (· ++ [10])
  else
    match text with
    | some t => .ok (t ++ [10])
    | none => .ok []

/-- The exit status of a command: that of the child, or 128 and the number of
the signal that ended it. -/
def exitStatus (returncode : Int) : Int := if returncode < 0 then 128 - returncode else returncode

end LineTrace
