/-
LineTrace.Coverage.Resultset — a traced run as a JSON document, and back.

`Resultset.toJson` lists the members in a fixed order with sorted files and
lines; `coverageOf` refuses a value that has any problem, and otherwise
records every line of every file, so two spellings of one line number add up
where hits are counted.
-/
import LineTrace.Coverage.Map
import LineTrace.Coverage.Schema

namespace LineTrace

/-- A traced run as it is written out. -/
structure Resultset where
  command : List Text
  returncode : Int
  coverage : Coverage
  skipped : Int
  unattributed : Int

namespace Resultset

/-! ## 1. Writing -/

/-- The lines of a file with their counts, by line number. -/
def linesJson (lines : List (Int × Count)) : Json :=
  .obj (lines.map fun (line, hits) => (Text.ofInt line, hits.toJson))

/-- The files of a map in order. -/
def coverageJson (c : Coverage) : Json :=
  .obj (c.sortedHits.map fun (path, lines) => (path, linesJson lines))

/-- The document of a run. -/
def toJson (r : Resultset) : Json :=
  .obj [
    ("schema", .str mark),
    ("command", .arr (r.command.map .str)),
    ("returncode", .int r.returncode),
    ("skipped", .int r.skipped),
    ("unattributed", .int r.unattributed),
    ("count_hits", .bool r.coverage.countHits),
    ("coverage", coverageJson r.coverage)]

/-- Why there is no document, or a value gives no coverage: its problems, an
integer that has too many digits to be written, a line number that cannot be
converted, or counts that cannot be added. -/
inductive Fault where
  | invalid (problems : List Text)
  | unwritable
  | lineNumber (fault : Text.IntegerFault)
  | countTooLarge
  deriving DecidableEq, Repr

/-- The document of a run whose line numbers can all be written. -/
def document (r : Resultset) : Except Fault Json :=
  if r.coverage.files.all fun (_, lines) => lines.keys.all Text.hasNumeral then .ok r.toJson
  else .error .unwritable

/-! ## 2. Reading -/

/-- The messages of everything that is wrong, if all of them can be written. -/
def report (v : Json) : Except Fault (List Text) :=
  if (problems v).all fun p => p.violation.isShowable then .ok (errors v) else .error .unwritable

/-- The value itself, if nothing is wrong with it. -/
def check (v : Json) : Except Fault Unit :=
  match report v with
  | .error e => .error e
  | .ok [] => .ok ()
  | .ok problems => .error (.invalid problems)

/-- The map after one line of a document. -/
def recordEntry (c : Coverage) (path name : Text) (value : Json) : Except Fault Coverage :=
  match Text.readInteger name with
  | .error e => .error (.lineNumber e)
  | .ok line =>
    let hits := (Count.ofJson? value).getD (.whole 0)
    if c.countHits ∧ ((c.hits path line).add? hits).isNone then .error .countTooLarge
    else .ok (c.record path line hits)

/-- The map after the lines of one file. -/
def recordEntries (c : Coverage) (path : Text) : List (Text × Json) → Except Fault Coverage
  | [] => .ok c
  | (name, value) :: rest =>
    match recordEntry c path name value with
    | .error e => .error e
    | .ok c => recordEntries c path rest

/-- The map after the files of a document. -/
def recordFiles (c : Coverage) : List (Text × Json) → Except Fault Coverage
  | [] => .ok c
  | (path, .obj entries) :: rest =>
    match recordEntries c path entries with
    | .error e => .error e
    | .ok c => recordFiles c rest
  | _ :: rest => recordFiles c rest

/-- The coverage of a document. -/
def coverageOf (v : Json) : Except Fault Coverage :=
  match check v with
  | .error e => .error e
  | .ok () =>
    let countHits :=
      match v.field? "count_hits" with
      | some (.bool b) => b
      | _ => false
    match v.field? "coverage" with
    | some (.obj files) => recordFiles (Coverage.empty countHits) files
    | _ => .ok (Coverage.empty countHits)

end Resultset

end LineTrace
