/-
LineTrace.Command.Version — whether a shell can write its trace to a
descriptor of its own.

A shell is asked for the first two parts of its version. One that cannot be
asked, or gives no version, counts as too old; not being able to ask is
recorded.
-/
import LineTrace.Command.Helper
import LineTrace.Text.Blank
import LineTrace.Text.Integer

namespace LineTrace.Command

/-- The first two parts of a version. -/
structure Version where
  major : Nat
  minor : Nat
  deriving DecidableEq, Repr

/-- The least version that can write its trace to a descriptor. -/
def Version.least : Version := ⟨4, 1⟩

/-- Whether a version is another one or later. -/
def Version.reaches (v other : Version) : Bool :=
  other.major < v.major || (other.major == v.major && other.minor ≤ v.minor)

/-- The digits at the front, of any script. -/
def leadingDigits (t : Text) : List Nat :=
  (t.takeWhile fun c => (Text.digitValue? c).isSome).filterMap Text.digitValue?

/-- The value of digits, unless there are too many of them. -/
def boundedValue (ds : List Nat) : Except Text.IntegerFault Nat :=
  if Text.digitLimit < ds.length then .error (.tooLong ds.length)
  else .ok (Text.decimalValue ds)

/-- The version at the front of a text: digits, a point, digits. -/
def Version.read? (t : Text) : Except Text.IntegerFault (Option Version) :=
  let major := leadingDigits t
  match t.drop major.length with
  | 46 :: rest =>
    let minor := leadingDigits rest
    if major = [] ∨ minor = [] then .ok none
    else
      match boundedValue major, boundedValue minor with
      | .ok a, .ok b => .ok (some ⟨a, b⟩)
      | .error e, _ => .error e
      | .ok _, .error e => .error e
  | _ => .ok none

/-- The variable that names a startup file of a shell. -/
def startupVariable : Text := "BASH_ENV"

/-- The variable that names the descriptor a shell writes its trace to. -/
def descriptorVariable : Text := "BASH_XTRACEFD"

/-- What is asked of a shell. -/
def versionQuestion (shell : Text) : List Text :=
  [shell, "--norc", "--noprofile", "-c",
    "echo \"$\x7bBASH_VERSINFO[0]\x7d.$\x7bBASH_VERSINFO[1]\x7d\""]

/-- The logger of runs. -/
def runLogger : Text := ".runner"

/-- Whether a shell could not be asked, which is no fault of the asker. -/
def isUnanswered : Fault → Bool
  | .helper _ => true
  | e => e.isSystemRefusal

/-- The version of a shell, none where there is no telling. -/
def versionOf (host : Host) (fs : FileSystem) (environment : Environment) (shell : Text) :
    Except Fault (Option Version) × List LogRecord :=
  let helper : Helper := {
    launch := ⟨versionQuestion shell, none, Table.put startupVariable [] environment⟩
    limit := .nearest false 10 1
    mustSucceed := true }
  match ask host fs helper with
  | (.ok answer, records) =>
    match Version.read? (Text.strip answer.output) with
    | .ok v => (.ok v, records)
    | .error e => (.error (.badValue (integerMessage e)), records)
  | (.error e, records) =>
    if isUnanswered e then
      (.ok none, records ++ [LogRecord.of Level.warning runLogger
        ("Cannot determine version of " ++ shell ++ ": " ++ e.message)])
    else (.error e, records)

/-- Whether a version is late enough. -/
def Version.suffices : Option Version → Bool
  | some v => v.reaches Version.least
  | none => false

end LineTrace.Command
