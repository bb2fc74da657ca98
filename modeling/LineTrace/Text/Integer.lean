/-
LineTrace.Text.Integer — integers read from text.

Blanks around the number, one sign, then digits of any script with single low
lines between them. More than `digitLimit` digits are refused before what
follows them is looked at: converting is quadratic in their number, and so an
integer of more digits is not written either (`hasNumeral`).
-/
import LineTrace.Text.Blank

namespace LineTrace.Text

/-- The most digits a decimal numeral may have. -/
def digitLimit : Nat := 4300

/-- Whether an integer has few enough digits to be written. -/
def hasNumeral (i : Int) : Bool := (ofNat i.natAbs).length ≤ digitLimit

/-- Why a text is no integer. -/
inductive IntegerFault where
  | notANumber
  | tooLong (digits : Nat)
  deriving DecidableEq, Repr

/-- The digits at the front, a single low line allowed between two of them,
and the rest. None where a low line stands anywhere else. -/
def digitRun (afterDigit : Bool) : Text → Option (List Nat × Text)
  | [] => some ([], [])
  | c :: rest =>
    if c = 95 then
      if afterDigit && (rest.head?.bind digitValue?).isSome then digitRun false rest else none
    else
      match digitValue? c with
      | some d => (digitRun true rest).map fun (ds, tail) => (d :: ds, tail)
      | none => some ([], c :: rest)

/-- The sign at the front. -/
def signOf : Text → Bool × Text
  | 45 :: rest => (true, rest)
  | 43 :: rest => (false, rest)
  | rest => (false, rest)

/-- The integer that a text spells. -/
def readInteger (t : Text) : Except IntegerFault Int :=
  let (negative, body) := signOf (t.dropWhile isNumberBlank)
  match digitRun false body with
  | none => .error .notANumber
  | some ([], _) => .error .notANumber
  | some (ds, tail) =>
    if digitLimit < ds.length then .error (.tooLong ds.length)
    else if tail.all isNumberBlank then
      let n := decimalValue ds
      .ok (if negative then -n else n)
    else .error .notANumber

end LineTrace.Text
