/-
LineTrace.Shell.Session — what a running script has.

Variables, parameters, the files and the directory, and the status of the last
command. What does not run anything is here: values of parameters, fields of
expanded words, and streams led elsewhere.
-/
import LineTrace.Config.Draft
import LineTrace.Shell.Script
import LineTrace.Shell.Utility

namespace LineTrace.Shell

/-! ## 1. Sessions -/

/-- A running script: the files, whose working directory is its own, its name
and parameters, its variables and which of them its children get, the last
status, and whether its `echo` undoes escapes. -/
structure Session where
  files : FileSystem
  name : Text
  parameters : List Text
  vars : Table Text Text
  exported : List Text
  status : Int
  escapes : Bool

/-- The number of a running script's process. -/
def processNumber : Nat := 4242

/-- The variables that children get. -/
def Session.environment (s : Session) : Environment :=
  s.vars.filter fun (name, _) => s.exported.contains name

/-- The session with a variable set. -/
def Session.set (s : Session) (name value : Text) : Session :=
  { s with vars := Table.put name value s.vars }

/-- The value of a parameter, if it has one. -/
def Session.value? (s : Session) (name : Text) : Option Text :=
  if name = "#" then some (Text.ofNat s.parameters.length)
  else if name = "?" then some (Text.ofInt s.status)
  else if name = "$" then some (Text.ofNat processNumber)
  else if name = "@" ∨ name = "*" then
    if s.parameters = [] then none else some (Text.joinWith [32] s.parameters)
  else if name = "-" ∨ name = "!" then some []
  else if name = "0" then some s.name
  else if name ≠ [] ∧ name.all Text.isDigit then
    s.parameters[Text.decimalValue (name.map (· - 48)) - 1]?
  else Table.get? name s.vars

/-- How a script goes on: with the next command, not at all, or not at all
because of a signal. -/
inductive Flow where
  | goesOn
  | exits
  | killed (signal : Nat)
  deriving DecidableEq, Repr

/-- What a command did to its session. -/
structure Step where
  session : Session
  output : Bytes
  errors : Bytes
  milliseconds : Nat
  flow : Flow

/-- A step with a status and nothing else. -/
def Session.ended (s : Session) (status : Int) : Step := ⟨{ s with status }, [], [], 0, .goesOn⟩

/-- The hour that a script without an end takes. -/
def endless : Nat := 3600000

/-- The step of a script that does not end. -/
def Session.goesOnAlways (s : Session) : Step := ⟨s, [], [], endless, .exits⟩

/-- A step with the effect of a program. -/
def Session.did (s : Session) (e : Effect) : Step :=
  ⟨{ s with status := e.status }, e.output, e.errors, e.milliseconds, .goesOn⟩

/-- A step that complains, with the name of the script and the line. -/
def Session.complains (s : Session) (line : Nat) (status : Int) (message : Text) : Step :=
  s.did (.failed status (s.name ++ ": " ++ Text.ofNat line ++ ": " ++ message))

/-- The second of two steps after the first. -/
def Step.andThen (first second : Step) : Step :=
  { second with
    output := first.output ++ second.output
    errors := first.errors ++ second.errors
    milliseconds := first.milliseconds + second.milliseconds }

/-! ## 2. Fields -/

/-- Fields under construction: those that are complete, and the one that is
being added to, if one has begun. -/
structure Fields where
  complete : List Text
  current : Option Text

/-- The fields with text added to the one under construction. -/
def Fields.add (f : Fields) (t : Text) : Fields :=
  { f with current := some (f.current.getD [] ++ t) }

/-- The fields with the one under construction completed. -/
def Fields.close (f : Fields) : Fields :=
  match f.current with
  | some t => ⟨f.complete ++ [t], none⟩
  | none => f

/-- The fields with text added that blanks split. -/
def Fields.addSplit (f : Fields) : Text → Fields
  | [] => f
  | c :: rest =>
    if c = 32 ∨ c = 9 ∨ c = 10 then addSplit f.close rest else addSplit (f.add [c]) rest

/-- The fields with whole texts added, the first to the one under
construction. -/
def Fields.addAll (f : Fields) : List Text → Fields
  | [] => f
  | [t] => f.add t
  | t :: rest => addAll (f.add t).close rest

/-- All fields. -/
def Fields.toList (f : Fields) : List Text := f.close.complete

/-! ## 3. Streams -/

/-- Where a stream ends. -/
inductive Sink where
  | output
  | errors
  | nowhere
  | file (path : Text)
  deriving DecidableEq, Repr

/-- Where the two streams of a command end, and its input if it has one of its
own. -/
structure Streams where
  output : Sink
  errors : Sink
  input : Option Bytes

/-- The device that swallows everything. -/
def nullDevice : Text := "/dev/null"

/-- Bytes put into a sink: what is left of them for the two streams outside,
and the files after it. -/
def Sink.receive (fs : FileSystem) (bytes : Bytes) : Sink → Bytes × Bytes × FileSystem
  | .output => (bytes, [], fs)
  | .errors => ([], bytes, fs)
  | .nowhere => ([], [], fs)
  | .file p => ([], [], fs.appendFile p bytes)

/-- The step with its streams led to their sinks. -/
def Streams.lead (streams : Streams) (step : Step) : Step :=
  let fs := step.session.files
  let (out, err, fs) := streams.output.receive fs step.output
  let (out', err', fs) := streams.errors.receive fs step.errors
  { step with
    session := { step.session with files := fs }
    output := out ++ out'
    errors := err ++ err' }

/-- The streams after one redirection to a target, and the files; or the
complaint. -/
def Streams.redirect (streams : Streams) (fs : FileSystem) (r : Redirection)
    (target : Text) : Except Text (Streams × FileSystem) :=
  let set (sink : Sink) : Streams :=
    if r.descriptor = 2 then { streams with errors := sink } else { streams with output := sink }
  match r.direction with
  | .same =>
    let sink := if target = "2" then streams.errors else streams.output
    .ok (set sink, fs)
  | .from_ =>
    if target = nullDevice then .ok ({ streams with input := some [] }, fs)
    else
      match fs.bytesOf target with
      | .ok content => .ok ({ streams with input := some content }, fs)
      | .error _ => .error ("cannot open " ++ target ++ ": No such file")
  | direction =>
    if target = nullDevice then .ok (set .nowhere, fs)
    else
      let old : Bytes :=
        match direction, fs.bytesOf target with
        | .onto, .ok content => content
        | _, _ => []
      match fs.writeFile target old with
      | .ok fs => .ok (set (.file target), fs)
      | .error _ => .error ("cannot create " ++ target ++ ": Directory nonexistent")

end LineTrace.Shell
