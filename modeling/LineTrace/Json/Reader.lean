/-
LineTrace.Json.Reader — JSON text to values.

One left-to-right pass over the code points. The reader takes the three names
of numbers that are not finite, keeps lone surrogate escapes, and gives a
repeated name its first place and its last value. A fault says what was
expected and how much of the text was left there, so its position follows
from the length of the whole text and no scanner has to count.

An integer of more digits than `Text.digitLimit` is refused apart from the
grammar: it is well-formed, only too long to convert. So is a value that lies
within more than `depthLimit` others, which keeps a reader from running out of
stack.
-/
import LineTrace.Json.Basic
import LineTrace.Text.Integer

namespace LineTrace.Json

/-! ## 1. Faults -/

/-- What the text does not have where it should. -/
inductive Expected where
  | value
  | propertyName
  | colon
  | comma
  | closingQuote
  | plainCharacter
  | escapeLetter
  | hexDigits
  | ending
  | noByteOrderMark
  deriving DecidableEq, Repr

/-- The values that hold others. -/
inductive Container where
  | array
  | object
  deriving DecidableEq, Repr

/-- Why a text is no JSON value: what was expected where `left` code points
remained, a numeral that is too long, or a value that lies too deep. -/
inductive ReadFault where
  | missing (expected : Expected) (left : Nat)
  | numeralTooLong (digits : Nat)
  | tooDeep (container : Container)
  deriving DecidableEq, Repr

/-- The wording of an expectation. -/
def Expected.message : Expected → Text
  | .value => "Expecting value"
  | .propertyName => "Expecting property name enclosed in double quotes"
  | .colon => "Expecting ':' delimiter"
  | .comma => "Expecting ',' delimiter"
  | .closingQuote => "Unterminated string starting at"
  | .plainCharacter => "Invalid control character at"
  | .escapeLetter => "Invalid \\escape"
  | .hexDigits => "Invalid \\uXXXX escape"
  | .ending => "Extra data"
  | .noByteOrderMark => "Unexpected UTF-8 BOM (decode using utf-8-sig)"

/-- The wording of a value that lies too deep. -/
def Container.message (c : Container) : Text :=
  let kind : Text :=
    match c with
    | .array => "array"
    | .object => "object"
  "maximum recursion depth exceeded while decoding a JSON " ++ kind ++ " from a unicode string"

/-- The message of a place in `text`, with its line, column and offset. -/
def placed (expected : Expected) (text : Text) (left : Nat) : Text :=
  let offset := text.length - left
  let before := text.take offset
  let column := (before.reverse.takeWhile (· ≠ 10)).length + 1
  expected.message ++ ": line " ++ Text.ofNat (before.count 10 + 1) ++ " column " ++
    Text.ofNat column ++ " (char " ++ Text.ofNat offset ++ ")"

/-! ## 2. Strings -/

/-- The blanks between tokens. -/
def isSpace (c : CodePoint) : Bool := c == 32 || c == 9 || c == 10 || c == 13

/-- The text from the next token on. -/
def skipSpace (t : Text) : Text := t.dropWhile isSpace

/-- The number of four hexadecimal digits at the front. A string cannot end
with them, so something has to follow. -/
def unit? : Text → Option Nat
  | a :: b :: c :: d :: _ :: _ => do
    let a ← Text.hexValue? a
    let b ← Text.hexValue? b
    let c ← Text.hexValue? c
    let d ← Text.hexValue? d
    return 4096 * a + 256 * b + 16 * c + d
  | _ => none

/-- The code point of the high surrogate `high` and an escaped low surrogate
that follows it. -/
def surrogatePair? (high : Nat) : Text → Option CodePoint
  | 92 :: 117 :: rest =>
    if 0xD800 ≤ high ∧ high ≤ 0xDBFF then
      match unit? rest with
      | some low =>
        if 0xDC00 ≤ low ∧ low ≤ 0xDFFF then
          some (0x10000 + (high - 0xD800) * 1024 + (low - 0xDC00))
        else none
      | none => none
    else none
  | _ => none

/-- The code point of a one-letter escape. -/
def letterEscape? (c : CodePoint) : Option CodePoint :=
  if c = 34 ∨ c = 92 ∨ c = 47 then some c
  else if c = 98 then some 8
  else if c = 102 then some 12
  else if c = 110 then some 10
  else if c = 114 then some 13
  else if c = 116 then some 9
  else none

/-- A code point in front of a string that has been read. -/
def pushChar (c : CodePoint) (r : Except ReadFault (Text × Text)) :
    Except ReadFault (Text × Text) :=
  r.map fun (t, rest) => (c :: t, rest)

/-- The string whose opening quote, with `opened` code points left, is read,
and the text after its closing quote. -/
def readString (opened : Nat) : Text → Except ReadFault (Text × Text)
  | [] => .error (.missing .closingQuote opened)
  | c :: rest =>
    if c = 34 then .ok ([], rest)
    else if c = 92 then
      match rest with
      | [] => .error (.missing .closingQuote opened)
      | e :: more =>
        if e = 117 then
          match unit? more with
          | none => .error (.missing .hexDigits (more.length + 1))
          | some u =>
            match surrogatePair? u (more.drop 4) with
            | some p => pushChar p (readString opened (more.drop 10))
            | none => pushChar u (readString opened (more.drop 4))
        else
          match letterEscape? e with
          | some d => pushChar d (readString opened more)
          | none => .error (.missing .escapeLetter (more.length + 2))
    else if c < 32 then .error (.missing .plainCharacter (rest.length + 1))
    else pushChar c (readString opened rest)
termination_by t => t.length
decreasing_by
  all_goals simp only [List.length_drop, List.length_cons]
  all_goals omega

/-! ## 3. Numbers -/

/-- The digits at the front and the rest. -/
def spanDigits (t : Text) : List Nat × Text :=
  ((t.takeWhile Text.isDigit).map (· - 48), t.dropWhile Text.isDigit)

/-- The digits before a fraction: a zero alone, or digits that do not start
with one. -/
def wholePart : Text → List Nat × Text
  | 48 :: rest => ([0], rest)
  | t => spanDigits t

/-- The digits of a fraction; none where no digit follows the point. -/
def fractionPart : Text → List Nat × Text
  | 46 :: rest =>
    match spanDigits rest with
    | ([], _) => ([], 46 :: rest)
    | found => found
  | t => ([], t)

/-- The exponent, if digits follow its letter and sign. -/
def exponentPart : Text → Option Int × Text
  | c :: rest =>
    if c = 101 ∨ c = 69 then
      let (negative, body) := Text.signOf rest
      match spanDigits body with
      | ([], _) => (none, c :: rest)
      | (ds, tail) =>
        let n : Int := Text.decimalValue ds
        (some (if negative then -n else n), tail)
    else (none, c :: rest)
  | [] => (none, [])

/-- The minus sign at the front. -/
def minusOf : Text → Bool × Text
  | 45 :: rest => (true, rest)
  | t => (false, t)

/-- The number of these digits: an integer where there is neither a fraction nor
an exponent. -/
def numberOf (negative : Bool) (whole fraction : List Nat) (exponent : Option Int) :
    Except ReadFault Json :=
  if exponent = none ∧ fraction = [] then
    if Text.digitLimit < whole.length then .error (.numeralTooLong whole.length)
    else
      let n : Int := Text.decimalValue whole
      .ok (.int (if negative then -n else n))
  else
    .ok (.float (Double.ofDecimal negative (Text.decimalValue (whole ++ fraction))
      (exponent.getD 0 - fraction.length)))

/-- The number at the front. -/
def readNumber (t : Text) : Except ReadFault (Json × Text) :=
  let (negative, body) := minusOf t
  match wholePart body with
  | ([], _) => .error (.missing .value t.length)
  | (whole, afterWhole) =>
    let (fraction, afterFraction) := fractionPart afterWhole
    let (exponent, rest) := exponentPart afterFraction
    (numberOf negative whole fraction exponent).map fun v => (v, rest)

/-! ## 4. Values -/

/-- The values that are written as names. -/
def names : List (Text × Json) := [
  ("null", .null), ("true", .bool true), ("false", .bool false), ("NaN", .float .nan),
  ("Infinity", .float (.infinite false)), ("-Infinity", .float (.infinite true))]

/-- The value whose name stands at the front. -/
def readName? (t : Text) : Option (Json × Text) :=
  (names.find? fun (name, _) => name.isPrefixOf t).map fun (name, v) => (v, t.drop name.length)

/-- How many values may lie within each other. -/
def depthLimit : Nat := 990

mutual

/-- The value at the front and the text after it, in which `room` more may lie
within each other. At most two calls are about the same code point, so twice
the length of the text is fuel enough. -/
def readValue : Nat → Nat → Text → Except ReadFault (Json × Text)
  | 0, _, t => .error (.missing .value t.length)
  | fuel + 1, room, t =>
    match t with
    | [] => .error (.missing .value 0)
    | c :: rest =>
      if c = 34 then (readString t.length rest).map fun (s, tail) => (.str s, tail)
      else if c = 123 then
        match room, skipSpace rest with
        | 0, _ => .error (.tooDeep .object)
        | _ + 1, 125 :: tail => .ok (.obj [], tail)
        | room + 1, inner =>
          (readEntries fuel room inner).map fun (es, tail) => (.obj (Table.ofEntries es), tail)
      else if c = 91 then
        match room, skipSpace rest with
        | 0, _ => .error (.tooDeep .array)
        | _ + 1, 93 :: tail => .ok (.arr [], tail)
        | room + 1, inner => (readItems fuel room inner).map fun (vs, tail) => (.arr vs, tail)
      else
        match readName? t with
        | some found => .ok found
        | none => readNumber t

/-- The items up to the closing bracket. -/
def readItems : Nat → Nat → Text → Except ReadFault (List Json × Text)
  | 0, _, t => .error (.missing .value t.length)
  | fuel + 1, room, t =>
    match readValue fuel room t with
    | .error e => .error e
    | .ok (v, after) =>
      match skipSpace after with
      | 93 :: tail => .ok ([v], tail)
      | 44 :: more => (readItems fuel room (skipSpace more)).map fun (vs, tail) => (v :: vs, tail)
      | other => .error (.missing .comma other.length)

/-- The entries up to the closing brace, as they stand. -/
def readEntries : Nat → Nat → Text → Except ReadFault (List (Text × Json) × Text)
  | 0, _, t => .error (.missing .propertyName t.length)
  | fuel + 1, room, t =>
    match t with
    | 34 :: rest =>
      match readString t.length rest with
      | .error e => .error e
      | .ok (k, afterName) =>
        match skipSpace afterName with
        | 58 :: beforeValue =>
          match readValue fuel room (skipSpace beforeValue) with
          | .error e => .error e
          | .ok (v, after) =>
            match skipSpace after with
            | 125 :: tail => .ok ([(k, v)], tail)
            | 44 :: more =>
              (readEntries fuel room (skipSpace more)).map fun (es, tail) => ((k, v) :: es, tail)
            | other => .error (.missing .comma other.length)
        | other => .error (.missing .colon other.length)
    | _ => .error (.missing .propertyName t.length)

end

/-- The value that a whole text spells. -/
def read (t : Text) : Except ReadFault Json :=
  if t.head? = some 0xFEFF then .error (.missing .noByteOrderMark t.length)
  else
    match readValue (2 * t.length + 2) depthLimit (skipSpace t) with
    | .error e => .error e
    | .ok (v, after) =>
      match skipSpace after with
      | [] => .ok v
      | other => .error (.missing .ending other.length)

end LineTrace.Json
