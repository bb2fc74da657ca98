/-
LineTrace.Command.Helper — short helper commands and their output.

A helper command has a time limit, its output is text, and a status other than
zero is a failure where it is asked to be one. What it wrote to its error
stream is part of the failure.
-/
import LineTrace.Command.Launch
import LineTrace.Json.Reader
import LineTrace.Number.Shortest
import LineTrace.Text.Blank
import LineTrace.Text.LineBreak

namespace LineTrace.Command

/-- A helper command: what is started, its time limit in seconds, and whether
its status has to be zero. -/
structure Helper where
  launch : Launch
  limit : Double
  mustSucceed : Bool

/-- How a helper command went. -/
structure Answer where
  status : Int
  output : Text
  errors : Text
  deriving DecidableEq, Repr

/-- The time limit unless another is given. -/
def defaultLimit : Double := .nearest false 30 1

/-- The time limit that a value means. -/
def limitOf (v : Json) : Except Fault Double :=
  let ofInt (i : Int) : Except Fault Double :=
    match Double.ofInt? i with
    | some x => .ok x
    | none => .error (.tooLarge "int too large to convert to float")
  match v with
  | .float x => .ok x
  | .int i => ofInt i
  | .bool b => ofInt (if b then 1 else 0)
  | .str t =>
    match Json.read (Text.strip t) with
    | .ok (.float x) => .ok x
    | .ok (.int i) => ofInt i
    | _ => .error (.badValue ("could not convert string to float: " ++ Text.quoted t))
  | v =>
    .error (.badType ("float() argument must be a string or a real number, not '" ++
      (Setting.ofJson v).kindName ++ "'"))

/-- The milliseconds that a wait can be told. -/
def waitBound : Int := 2147483648

/-- The milliseconds that a clock can tell. -/
def tellBound : Int := 9223372036855

/-- Why nothing can wait as long as a limit says, if that is so. -/
def waitRefusal? (limit : Double) : Option Fault :=
  match limit, limit.thousandfoldCeiling? with
  | .nan, _ => some (.badValue "cannot convert float NaN to integer")
  | .infinite false, _ => some (.tooLarge "cannot convert float infinity to integer")
  | _, some ms =>
    if tellBound ≤ ms then some (.tooLarge "timestamp too large to convert to C _PyTime_t")
    else if waitBound ≤ ms then some (.tooLarge "timeout is too large")
    else none
  | _, none => none

/-- Bytes that a command wrote, as text. -/
def outputText (bytes : Bytes) : Except Fault Text :=
  match Text.decodeStrict bytes with
  | .ok t => .ok (Text.unifyBreaks t)
  | .error e => .error (.decode e)

/-- A failure of a helper command, told in the log and to the caller. -/
def failedHelper (message : Text) : Except Fault Answer × List LogRecord :=
  (.error (.helper message), [LogRecord.of Level.warning launchLogger message])

/-- Whether a command that took so long was still running at its limit. A
limit of nothing leaves no time at all. -/
def outOfTime (limit : Double) (milliseconds : Nat) : Bool :=
  limit.exceededBy milliseconds || limit.eqInt 0

/-- The answer of a helper command that was started and has ended. -/
def settled (h : Helper) (shown : Text) (finished : Finished) :
    Except Fault Answer × List LogRecord :=
  if outOfTime h.limit finished.milliseconds then
    failedHelper ("Command timed out after " ++ h.limit.fixed 1 ++ "s: " ++ shown)
  else
    match outputText finished.output, outputText finished.errors with
    | .error e, _ => (.error e, [])
    | .ok _, .error e => (.error e, [])
    | .ok output, .ok errors =>
      if h.mustSucceed ∧ finished.status ≠ 0 then
        failedHelper ("Command failed (exit " ++ Text.ofInt finished.status ++ "): " ++
          shown ++ "\nstderr:\n" ++ errors)
      else
        (.ok ⟨finished.status, output, errors⟩,
          [LogRecord.of Level.debug launchLogger
            ("Command finished with code " ++ Text.ofInt finished.status ++ ": " ++ shown)])

/-- The answer of a helper command on a host, and what is recorded of it. A
limit that nothing can wait for is noticed only once the command was started. -/
def ask (host : Host) (fs : FileSystem) (h : Helper) : Except Fault Answer × List LogRecord :=
  let shown := Text.shellCommand h.launch.words
  let tried := LogRecord.of Level.debug launchLogger
    ("Executing command: " ++ shown ++ " (timeout=" ++ h.limit.floatText ++ ")")
  match h.launch.words with
  | [] => (.error noWords, [])
  | _ :: _ =>
    match host fs h.launch with
    | .error e => (.error e, [tried])
    | .ok finished =>
      match waitRefusal? h.limit with
      | some e => (.error e, [tried])
      | none =>
        let (result, records) := settled h shown finished
        (result, tried :: records)

end LineTrace.Command
