/-
LineTrace.Trace.Format — how a traced shell writes its records, and the
startup text that makes it write them.

A record is the event marker `+`, the delimiter, four fields with separators
between them and the delimiter again; the shell repeats the marker once per
level of indirection and lets the command text follow. The four fields are
the line, the source file, the working directory and the one before it. The
format makes no promise about the fields' bytes; it only keeps the marker,
the separator and the shell's quoting characters out of the delimiter.
-/
import LineTrace.Text.Utf8
import LineTrace.Text.Quoted
import LineTrace.Text.ShellWord

namespace LineTrace

/-- The event marker. -/
def marker : CodePoint := 43

/-- The unit separator, between fields unless another is asked for. -/
def unitSeparator : CodePoint := 31

/-- The code points that no delimiter may hold. -/
def reservedIn (separator : CodePoint) : List CodePoint := [39, 92, 36, marker, separator]

/-- A delimiter and a separator that keep records apart. -/
structure TraceFormat where
  delimiter : Text
  separator : CodePoint
  delimiter_ne : delimiter ≠ []
  delimiter_plain : ∀ c ∈ delimiter, c ∉ reservedIn separator

namespace TraceFormat

/-! ## 1. Making a format -/

/-- Why there is no such format. -/
inductive Fault where
  | emptyDelimiter
  | reservedCharacter (delimiter : Text)
  | separatorLength
  | negativeLength
  deriving DecidableEq, Repr

/-- The wording of a fault. -/
def Fault.message : Fault → Text
  | .emptyDelimiter => "delimiter must not be empty"
  | .reservedCharacter d => "delimiter contains a reserved character: " ++ Text.quoted d
  | .separatorLength => "separator must be a single character"
  | .negativeLength => "negative argument not allowed"

/-- The format of a delimiter and a separator. A separator of another length
than one reserves nothing, so the delimiter is complained about first. -/
def make (delimiter separator : Text) : Except Fault TraceFormat :=
  if hd : delimiter = [] then .error .emptyDelimiter
  else
    match separator with
    | [s] =>
      if hp : ∀ c ∈ delimiter, c ∉ reservedIn s then .ok ⟨delimiter, s, hd, hp⟩
      else .error (.reservedCharacter delimiter)
    | _ =>
      if delimiter.any fun c => reservedIn 39 |>.contains c then
        .error (.reservedCharacter delimiter)
      else .error .separatorLength

/-- The format with a delimiter of `2 * count` hexadecimal digits, which `hex`
supplies, and the unit separator. -/
def generate (hex : Nat → Text) (count : Int) : Except Fault TraceFormat :=
  if count < 0 then .error .negativeLength
  else make (hex (2 * count.toNat)) [unitSeparator]

/-! ## 2. The record and the startup text -/

/-- What the shell expands to the fields of a record. -/
def fields : List Text :=
  ["$\x7bLINENO-\x7d", "$\x7bBASH_SOURCE[0]-\x7d", "$\x7bPWD-\x7d", "$\x7bOLDPWD-\x7d"]

/-- The number of fields of a whole record. -/
def fieldCount : Nat := fields.length

/-- The text that the shell expands in front of each traced command. -/
def template (f : TraceFormat) : Text :=
  marker :: f.delimiter ++ Text.joinWith [f.separator] fields ++ f.delimiter

/-- The separator as an escape of two hexadecimal digits, more where it needs
them. -/
def separatorEscape (f : TraceFormat) : Text :=
  [92, 120] ++ Text.padLeft 2 48 (Text.numeral 16 f.separator)

/-- The line that reads in the startup file `chain`, if it can be read. -/
def chainLine (chain : Text) : Text :=
  "if [ -r " ++ Text.shellWord chain ++ " ]; then . " ++ Text.shellWord chain ++ "; fi\n"

/-- The startup text: another startup file first, then the template, then
tracing on, in this order so that nothing of it is traced. -/
def preamble (f : TraceFormat) (chain : Option Text) : Text :=
  (match chain with
   | some (c :: cs) => chainLine (c :: cs)
   | _ => []) ++
  "PS4=$'" ++ marker :: f.delimiter ++ Text.joinWith f.separatorEscape fields ++ f.delimiter ++
  "'\nset -x\n"

/-! ## 3. Bytes -/

/-- The bytes of the delimiter in the log. -/
def delimiterBytes (f : TraceFormat) : Except Text.EncodeFault Bytes :=
  Text.encode .ascii f.delimiter

/-- The bytes of the separator in the log. -/
def separatorBytes (f : TraceFormat) : Except Text.EncodeFault Bytes :=
  Text.encode .ascii [f.separator]

/-- The byte of the event marker. -/
def markerByte : UInt8 := 43

end TraceFormat

end LineTrace
