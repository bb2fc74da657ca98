/-
LineTrace.Coverage.ResultsetFile — result sets in files.

A result set is written to a temporary file beside its target, which then
takes the target's place, so a reader sees the old content or the new one.
Reading undoes the line breaks of other systems, decodes, parses and checks.
-/
import LineTrace.Coverage.Resultset
import LineTrace.Failure.Basic
import LineTrace.Json.Reader
import LineTrace.Json.Writer
import LineTrace.Text.LineBreak

namespace LineTrace.Resultset

/-- The fault of a value that is no result set. -/
def Fault.fault : Resultset.Fault → LineTrace.Fault
  | .invalid problems =>
    .failure (Failure.badInput ("invalid resultset: " ++ Text.joinWith "; " problems))
  | .unwritable => .unwritableInteger
  | .lineNumber e => .badValue (integerMessage e)
  | .countTooLarge => .tooLarge "int too large to convert to float"

/-! ## 1. Writing -/

/-- The bytes of pieces of text, as far as there is a text and all its code
points have bytes, and the fault that ends them. -/
def encodePieces : List (Option Text) → Bytes × Option LineTrace.Fault
  | [] => ([], none)
  | none :: _ => ([], some .unwritableInteger)
  | some piece :: rest =>
    match Text.encode .utf8 piece with
    | .error e => ([], some (.encode e))
    | .ok bs =>
      let (more, fault) := encodePieces rest
      (bs ++ more, fault)

/-- The bytes of a document: the value one item a line and a line break. -/
def documentBytes (v : Json) : Bytes × Option LineTrace.Fault :=
  encodePieces (v.prettyPieces ++ [some [10]])

/-- The file system after a checked document was written in place of a target,
and the target's tidy path. A piece without text or without bytes stops the
writing and leaves the temporary file; a refused replacement takes it away
again. -/
def writeChecked (fs : FileSystem) (v : Json) (target : Text) :
    FileSystem × Except LineTrace.Fault Text :=
  match fs.makeTemporary (Path.parent target) ([46] ++ Path.fileName target ++ [46]) ".tmp" with
  | .error e => (fs, .error (.file e))
  | .ok (made, temporary) =>
    let (content, fault) := documentBytes v
    let filled := made.appendFile temporary content
    match fault with
    | some e => (filled, .error e)
    | none =>
      match filled.replace temporary target with
      | .ok done => (done, .ok target)
      | .error e =>
        let cleaned :=
          match filled.remove temporary with
          | .ok fs => fs
          | .error _ => filled
        (cleaned, .error (.failure ⟨.fileSystem,
          "cannot write resultset " ++ target ++ ": " ++ e.message, none⟩))

/-- The file system after a document was written, if nothing is wrong with
it. -/
def write (fs : FileSystem) (v : Json) (path : Text) :
    FileSystem × Except LineTrace.Fault Text :=
  match check v with
  | .error e => (fs, .error e.fault)
  | .ok () => writeChecked fs v (Path.tidy path)

/-! ## 2. Reading -/

/-- The text of a file. -/
def readText (fs : FileSystem) (path : Text) : Except LineTrace.Fault Text :=
  match fs.bytesOf (Path.tidy path) with
  | .error e => .error (.file e)
  | .ok bs =>
    match Text.decodeStrict bs with
    | .error e => .error (.decode e)
    | .ok t => .ok (Text.unifyBreaks t)

/-- The value of a text. -/
def parse (t : Text) : Except LineTrace.Fault Json :=
  match Json.read t with
  | .ok v => .ok v
  | .error (.numeralTooLong digits) => .error (.badValue (integerMessage (.tooLong digits)))
  | .error (.tooDeep container) => .error (.other "RecursionError" container.message)
  | .error (.missing expected left) =>
    .error (.failure (Failure.badInput
      ("resultset is not valid JSON: " ++ Json.placed expected t left)))

/-- The document in a file, if nothing is wrong with it. -/
def read (fs : FileSystem) (path : Text) : Except LineTrace.Fault Json := do
  let t ← readText fs path
  let v ← parse t
  match check v with
  | .error e => .error e.fault
  | .ok () => .ok v

end LineTrace.Resultset
