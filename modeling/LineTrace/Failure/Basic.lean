/-
LineTrace.Failure.Basic — what can go wrong, as data.

A `Failure` is one that a user is told about in one machine-readable line; its
kind fixes the exit status and the label of that line. A trace log that could
not be read back carries what had been gathered before. A `Fault` is anything
that stops an operation: a failure, or a refusal of the file system, of an
encoding, of a conversion, which nothing has put into words for a user yet.
-/
import LineTrace.Coverage.Map
import LineTrace.FileSystem.Basic

namespace LineTrace

/-! ## 1. Failures -/

/-- What a drain that failed had gathered, and what the command had returned. -/
structure PartialRun where
  coverage : Option Coverage
  skipped : Int
  returncode : Option Int

/-- The kinds of failures. -/
inductive FailureKind where
  | unlisted
  | badInput
  | spawn
  | invariant
  | stackUnderflow
  | policy
  | fileSystem
  | traceLog (run : PartialRun)

/-- A failure as a user is told about it. -/
structure Failure where
  kind : FailureKind
  message : Text
  hint : Option Text

/-- Bad input, without a hint. -/
def Failure.badInput (message : Text) : Failure := ⟨.badInput, message, none⟩

/-! ## 2. Faults -/

/-- Whatever stops an operation. `helper` is a helper command that failed or
took too long, and `other` a fault of a collaborator, with its own name. -/
inductive Fault where
  | failure (f : Failure)
  | file (e : FileError)
  | decode (fault : Text.DecodeFault)
  | encode (fault : Text.EncodeFault)
  | badValue (message : Text)
  | badType (message : Text)
  | tooLarge (message : Text)
  | helper (message : Text)
  | other (label message : Text)

/-- The refusal of what there is no room for. -/
def Fault.noRoom : Fault := .other "MemoryError" []

/-- The wording of a byte that is no text. -/
def decodeMessage (e : Text.DecodeFault) : Text :=
  let where_ : Text :=
    if e.span = 1 then
      "byte 0x" ++ Text.padLeft 2 48 (Text.numeral 16 e.byte.toNat) ++ " in position " ++
        Text.ofNat e.position
    else
      "bytes in position " ++ Text.ofNat e.position ++ "-" ++
        Text.ofNat (e.position + e.span - 1)
  let what : Text :=
    match e.fault with
    | .start => "invalid start byte"
    | .continuation => "invalid continuation byte"
    | .ended => "unexpected end of data"
  "'utf-8' codec can't decode " ++ where_ ++ ": " ++ what

/-- The wording of a code point that has no bytes. -/
def encodeMessage (e : Text.EncodeFault) : Text :=
  let where_ : Text :=
    if e.span = 1 then
      "character '" ++ Text.codeEscape e.first ++ "' in position " ++ Text.ofNat e.position
    else
      "characters in position " ++ Text.ofNat e.position ++ "-" ++
        Text.ofNat (e.position + e.span - 1)
  let (name, what) : Text × Text :=
    match e.encoding with
    | .ascii => ("ascii", "ordinal not in range(128)")
    | .utf8 => ("utf-8", "surrogates not allowed")
    | .utf8Escaped => ("utf-8", "surrogates not allowed")
  "'" ++ name ++ "' codec can't encode " ++ where_ ++ ": " ++ what

/-- The wording of a text that is no integer. -/
def integerMessage : Text.IntegerFault → Text
  | .notANumber => "not an integer"
  | .tooLong digits =>
    "Exceeds the limit (4300 digits) for integer string conversion: value has " ++
      Text.ofNat digits ++
      " digits; use sys.set_int_max_str_digits() to increase the limit"

/-- The refusal of an integer that has too many digits to be written. -/
def Fault.unwritableInteger : Fault :=
  .badValue ("Exceeds the limit (4300 digits) for integer string conversion; " ++
    "use sys.set_int_max_str_digits() to increase the limit")

/-- The wording of a fault. -/
def Fault.message : Fault → Text
  | .failure f => f.message
  | .file ⟨.nullByte, _⟩ => FileCause.nullByte.text
  | .file ⟨.unwritableName fault, _⟩ => encodeMessage fault
  | .file e => e.message
  | .decode e => decodeMessage e
  | .encode e => encodeMessage e
  | .badValue m => m
  | .badType m => m
  | .tooLarge m => m
  | .helper m => m
  | .other _ m => m

/-- The label of a refusal that has none of its own. -/
def plainRefusal : Text := "OSError"

/-- The refusals of the system that have labels of their own, by number. -/
def refusalLabels : List (Int × Text) := [
  (1, "PermissionError"), (2, "FileNotFoundError"), (3, "ProcessLookupError"),
  (4, "InterruptedError"), (10, "ChildProcessError"), (11, "BlockingIOError"),
  (13, "PermissionError"), (17, "FileExistsError"), (20, "NotADirectoryError"),
  (21, "IsADirectoryError"), (32, "BrokenPipeError"), (103, "ConnectionAbortedError"),
  (104, "ConnectionResetError"), (108, "BrokenPipeError"), (110, "TimeoutError"),
  (111, "ConnectionRefusedError"), (114, "BlockingIOError"), (115, "BlockingIOError")]

/-- The label of a refusal by its number. -/
def refusalLabel (number : Int) : Text :=
  ((refusalLabels.find? fun (n, _) => n = number).map Prod.snd).getD plainRefusal

/-- Whether a label is that of a refusal. -/
def isRefusalLabel (label : Text) : Bool :=
  label = plainRefusal || refusalLabels.any fun (_, l) => l = label

/-- The label of a refused file operation. -/
def FileCause.label : FileCause → Text
  | .nullByte => "ValueError"
  | .unwritableName _ => "UnicodeEncodeError"
  | e => refusalLabel e.number

/-- The label of a fault that no user is told about otherwise; failures have
labels of their own. -/
def Fault.label : Fault → Text
  | .failure _ => "Failure"
  | .file e => e.cause.label
  | .decode _ => "UnicodeDecodeError"
  | .encode _ => "UnicodeEncodeError"
  | .badValue _ => "ValueError"
  | .badType _ => "TypeError"
  | .tooLarge _ => "OverflowError"
  | .helper _ => "SubprocessError"
  | .other label _ => label

/-- Whether a fault is that a file is not there. -/
def Fault.isMissingFile : Fault → Bool
  | .file e => e.cause = .notFound
  | .other label _ => label = "FileNotFoundError"
  | _ => false

/-- Whether a fault is a refusal of the system, not of a conversion. -/
def Fault.isSystemRefusal : Fault → Bool
  | .file ⟨.nullByte, _⟩ => false
  | .file ⟨.unwritableName _, _⟩ => false
  | .file _ => true
  | .other label _ => isRefusalLabel label
  | _ => false

/-- A line number that is too long, as a fault. -/
def LineTooLong.fault (e : LineTooLong) : Fault := .badValue (integerMessage (.tooLong e.digits))

/-- A format that there is not, as a fault. -/
def TraceFormat.Fault.fault (e : TraceFormat.Fault) : LineTrace.Fault := .badValue e.message

end LineTrace
