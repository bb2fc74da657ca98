/-
LineTrace.Config.Load — the configuration of a file and the environment.

Without a file the defaults stand. The environment comes after the file and
the check after the environment, so a bad value in a file may still be
overridden, and a value that only the check refuses is reported after one that
cannot be read at all.
-/
import LineTrace.Config.Draft
import LineTrace.Config.Toml
import LineTrace.Coverage.ResultsetFile

namespace LineTrace.Config

/-- The fault of a text that is no document. -/
def tomlFault : Toml.Fault → Fault
  | .malformed => .failure (Failure.badInput "Invalid TOML: the document is malformed")
  | .numeralTooLong digits => .badValue (integerMessage (.tooLong digits))
  | .tooDeep => .other "RecursionError" "maximum recursion depth exceeded"

/-- The draft of a file. -/
def ofFile (fs : FileSystem) (path : Text) : Except Fault Draft :=
  match Resultset.readText fs path with
  | .error e =>
    if e.isMissingFile then
      .error (.failure (Failure.badInput ("Config file not found: " ++ Path.tidy path)))
    else .error e
  | .ok t =>
    match Toml.read t with
    | .error e => .error (tomlFault e)
    | .ok entries => Draft.ofTable entries

/-- The settings of an optional file and the environment; an empty path is
none. -/
def load (fs : FileSystem) (env : Environment) (path : Option Text) : Except Fault Settings := do
  let draft ←
    match path with
    | some (c :: cs) => ofFile fs (c :: cs)
    | _ => .ok Draft.default
  match draft.override env with
  | (_, .error e) => .error e
  | (draft, .ok ()) => draft.check fs

end LineTrace.Config
