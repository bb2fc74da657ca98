/-
LineTrace.Trace.Hits — from groups of fields to line hits.

A group is a record if it has four fields, the first of them a number and the
third not empty. A record moves the directory stack and then is a hit on a
source file, or unattributed where it names none. Anything else is malformed:
it is reported with its reason, and it changes nothing.

A relative source belongs to the first candidate directory that holds such a
file. What a source resolved to is remembered together with the candidates it
was resolved among, so a file is asked about again only when they differ; the
paths asked about are kept, the latest first.
-/
import LineTrace.Path.Basic
import LineTrace.Table
import LineTrace.Text.Integer
import LineTrace.Text.Quoted
import LineTrace.Trace.Directories
import LineTrace.Trace.Format

namespace LineTrace

/-! ## 1. Outcomes -/

/-- Why a group is no record. -/
inductive Malformation where
  | fieldCount (count : Nat)
  | lineNumber (field : Text)
  | noDirectory
  | underflow
  deriving DecidableEq, Repr

/-- The wording of a popping that fails. -/
def Underflow.message (_ : Underflow) : Text := "directory stack underflow"

/-- The wording of a malformation. -/
def Malformation.message : Malformation → Text
  | .fieldCount n =>
    "expected " ++ Text.ofNat TraceFormat.fieldCount ++ " fields, got " ++ Text.ofNat n
  | .lineNumber field => "expected integer LINENO, got " ++ Text.quoted field
  | .noDirectory => "missing PWD"
  | .underflow => Underflow.mk.message

/-- The wording as far as its first comma, under which malformations are
counted. -/
def Malformation.heading (m : Malformation) : Text := m.message.takeWhile (· ≠ 44)

/-- A line of a source file that was run. -/
structure Hit where
  path : Text
  line : Nat
  event : DirEvent
  deriving DecidableEq, Repr

/-- What a group is. -/
inductive Outcome where
  | hit (h : Hit)
  | malformed (reason : Malformation) (fields : List Text)
  | unattributed (line : Nat)
  deriving DecidableEq, Repr

/-! ## 2. Records -/

/-- A well-formed record. -/
structure Record where
  line : Nat
  source : Text
  pwd : Text
  oldpwd : Text
  deriving DecidableEq, Repr

/-- A line number of more digits than can be converted. -/
structure LineTooLong where
  digits : Nat
  deriving DecidableEq, Repr

/-- The decimal digits of a text that holds nothing else. -/
def lineDigits? (t : Text) : Option (List Nat) :=
  if t ≠ [] ∧ t.all Text.isDigit then some (t.map (· - 48)) else none

/-- The record of a group, or what is wrong with it. -/
def Record.ofFields (fields : List Text) : Except LineTooLong (Except Malformation Record) :=
  match fields with
  | [line, source, pwd, oldpwd] =>
    match lineDigits? line with
    | none => .ok (.error (.lineNumber line))
    | some ds =>
      if pwd = [] then .ok (.error .noDirectory)
      else if Text.digitLimit < ds.length then .error ⟨ds.length⟩
      else .ok (.ok ⟨Text.decimalValue ds, source, pwd, oldpwd⟩)
  | _ => .ok (.error (.fieldCount fields.length))

/-! ## 3. Following a trace -/

/-- The directories, the sources resolved so far with the candidates they were
resolved among, and the paths asked about, the latest first. -/
structure Follower where
  directories : Directories
  resolved : Table (Text × List Text) Text
  asked : List Text

namespace Follower

/-- The follower before the first group. -/
def start (directories : Directories) : Follower := ⟨directories, [], []⟩

/-- The first of the paths that is a file, and the paths asked about until it
is found, the latest first. -/
def firstFile (isFile : Text → Bool) : List Text → List Text → Option Text × List Text
  | asked, [] => (none, asked)
  | asked, p :: rest =>
    if isFile p then (some p, p :: asked) else firstFile isFile (p :: asked) rest

/-- The path that a source means among candidates: in the first directory that
holds it, else in the first directory. Without candidates it is meant from the
working directory. -/
def placeOf (isFile : Text → Bool) (cwd source : Text) (dirs : List Text) : Text × List Text :=
  let (found, asked) := firstFile isFile [] (dirs.map fun d => Path.join d source)
  let path :=
    match found, dirs with
    | some p, _ => p
    | none, d :: _ => Path.join d source
    | none, [] => Path.absolute cwd source
  (Path.normalize path, asked)

/-- The path of a source, remembered. -/
def resolve (isFile : Text → Bool) (cwd : Text) (f : Follower) (source : Text) :
    Follower × Text :=
  if Path.isAbsolute source then (f, Path.normalize source)
  else
    let (directories, dirs) := f.directories.candidates
    match Table.get? (source, dirs) f.resolved with
    | some path => ({ f with directories }, path)
    | none =>
      let (path, asked) := placeOf isFile cwd source dirs
      (⟨directories, Table.put (source, dirs) path f.resolved, asked ++ f.asked⟩, path)

/-- How a record's directory is judged; `Directories.classify` unless another
judgement is asked for. -/
abbrev Judge := Directories → Text → Text → Directories × DirEvent

/-- The directories after a judged record; unwinding to a directory that is
not stacked starts a new stack there. -/
def move (d : Directories) (event : DirEvent) (pwd oldpwd : Text) :
    Directories × Except Underflow Unit :=
  match event with
  | .hit => (d, .ok ())
  | .push => (d.push pwd oldpwd, .ok ())
  | .pop =>
    match d.popTo pwd with
    | (d', .ok _) => (d', .ok ())
    | (d', .error e) => (d'.reseed pwd oldpwd, .error e)

/-- What one group is, and the follower after it. -/
def stepWith (judge : Judge) (isFile : Text → Bool) (cwd : Text) (f : Follower)
    (fields : List Text) : Except LineTooLong (Follower × Outcome) :=
  match Record.ofFields fields with
  | .error e => .error e
  | .ok (.error reason) => .ok (f, .malformed reason fields)
  | .ok (.ok r) =>
    let (judged, event) := judge f.directories r.pwd r.oldpwd
    match move judged event r.pwd r.oldpwd with
    | (moved, .error _) => .ok ({ f with directories := moved }, .malformed .underflow fields)
    | (moved, .ok _) =>
      let f := { f with directories := moved }
      if r.source = [] then .ok (f, .unattributed r.line)
      else
        let (f, path) := resolve isFile cwd f r.source
        .ok (f, .hit ⟨path, r.line, event⟩)

/-- What one group is, and the follower after it. -/
def step (isFile : Text → Bool) (cwd : Text) (f : Follower) (fields : List Text) :
    Except LineTooLong (Follower × Outcome) :=
  stepWith Directories.classify isFile cwd f fields

end Follower

/-! ## 4. Whole traces -/

/-- The hits of a trace and its malformed groups, and what else was in it. -/
structure Tally where
  hits : List Hit
  malformed : List (Malformation × List Text)
  skipped : Nat
  unattributed : Nat
  reasons : Table Text Nat

namespace Tally

/-- The tally of no groups. -/
def empty : Tally := ⟨[], [], 0, 0, []⟩

/-- The tally with one more group; the latest hit is first, and so is the latest
malformed group. -/
def add (t : Tally) : Outcome → Tally
  | .hit h => { t with hits := h :: t.hits }
  | .malformed reason fields =>
    { t with
      malformed := (reason, fields) :: t.malformed
      skipped := t.skipped + 1
      reasons := Table.modify reason.heading (fun n => n.getD 0 + 1) t.reasons }
  | .unattributed _ => { t with unattributed := t.unattributed + 1 }

/-- The tally with hits and malformed groups in the order of the trace. -/
def inOrder (t : Tally) : Tally :=
  { t with hits := t.hits.reverse, malformed := t.malformed.reverse }

/-- The reasons, the most frequent first and equally frequent ones in the
order in which they were met. -/
def mostCommon (t : Tally) : List (Text × Nat) := t.reasons.mergeSort fun a b => b.2 ≤ a.2

end Tally

/-- The follower and the tally after groups, as far as the first line number
that is too long. -/
def Follower.runWith (judge : Follower.Judge) (isFile : Text → Bool) (cwd : Text) :
    Follower → Tally → List (List Text) → Follower × Tally × Option LineTooLong
  | f, t, [] => (f, t.inOrder, none)
  | f, t, fields :: rest =>
    match f.stepWith judge isFile cwd fields with
    | .error e => (f, t.inOrder, some e)
    | .ok (f', outcome) => runWith judge isFile cwd f' (t.add outcome) rest

/-- The follower and the tally after all groups of a trace. -/
def Follower.run (isFile : Text → Bool) (cwd : Text) (f : Follower)
    (groups : List (List Text)) : Follower × Tally × Option LineTooLong :=
  f.runWith Directories.classify isFile cwd Tally.empty groups

end LineTrace
