/-
LineTrace.Shell.Word — the words of a shell script and their quoting.

A word is a sequence of parts: text that quoting protects, text that it does
not, and expansions, whose own text is kept as it stands until they are
expanded. Single quotes protect everything; double quotes leave expansions;
`$'…'` knows escapes; a backslash protects the next character.

Reading is by fuel, and every round takes a character, so the length of the
text is enough.
-/
import LineTrace.Text.Basic

namespace LineTrace.Shell

/-! ## 1. Parts -/

/-- What is done with the value of a variable: taken, measured, or replaced
where the variable is missing (`-`) or there (`+`). A colon makes an empty
value count as missing. -/
inductive Form where
  | value
  | length
  | fallback (colon : Bool) (word : Text)
  | replacement (colon : Bool) (word : Text)
  deriving DecidableEq, Repr

/-- A part of a word; an expansion knows whether it stands in double
quotes. -/
inductive Part where
  | loose (t : Text)
  | fixed (t : Text)
  | variable_ (quoted : Bool) (name : Text) (form : Form)
  | output (quoted : Bool) (script : Text)
  deriving DecidableEq, Repr

/-- A word. -/
abbrev Word := List Part

/-! ## 2. Characters -/

/-- A character that ends a word unless it is quoted. -/
def endsWord (c : CodePoint) : Bool :=
  c ∈ (Text.ofString " \t\n;&|()<>")

/-- A character that can begin a name. -/
def beginsName (c : CodePoint) : Bool :=
  c == 95 || (65 ≤ c && c ≤ 90) || (97 ≤ c && c ≤ 122)

/-- A character of a name. -/
def isNameChar (c : CodePoint) : Bool := beginsName c || Text.isDigit c

/-- A parameter whose name is one special character. -/
def isSpecial (c : CodePoint) : Bool := c ∈ (Text.ofString "@*#?-$!")

/-! ## 3. Spans -/

/-- The text up to the next single quote and the text after it. -/
def untilQuote : Text → Option (Text × Text)
  | [] => none
  | c :: rest =>
    if c = 39 then some ([], rest)
    else (untilQuote rest).map fun (inside, tail) => (c :: inside, tail)

/-- The text of a single escape between `$'` and `'`, and what follows it. -/
def dollarEscape : Text → Text × Text
  | 120 :: a :: b :: rest =>
    match Text.hexValue? a, Text.hexValue? b with
    | some h, some l => ([16 * h + l], rest)
    | _, _ => ([92, 120], a :: b :: rest)
  | c :: rest =>
    if c = 110 then ([10], rest)
    else if c = 116 then ([9], rest)
    else if c = 114 then ([13], rest)
    else if c = 92 ∨ c = 39 ∨ c = 34 then ([c], rest)
    else ([92, c], rest)
  | [] => ([92], [])

/-- The text between `$'` and `'`, escapes undone, and the text after it. -/
def untilDollarQuote : Nat → Text → Option (Text × Text)
  | 0, _ => none
  | _ + 1, [] => none
  | fuel + 1, c :: rest =>
    if c = 39 then some ([], rest)
    else if c = 92 then
      let (escaped, tail) := dollarEscape rest
      (untilDollarQuote fuel tail).map fun (inside, tail) => (escaped ++ inside, tail)
    else (untilDollarQuote fuel rest).map fun (inside, tail) => (c :: inside, tail)

/-- The text up to the closing character that matches, and the text after it.
Quoted characters do not count; `quote` is the quote that is open. -/
def untilClosed (opening closing : CodePoint) : Nat → Option CodePoint → Text → Option (Text × Text)
  | _, _, [] => none
  | depth, quote, 92 :: c :: rest =>
    (untilClosed opening closing depth quote rest).map fun (inside, tail) =>
      (92 :: c :: inside, tail)
  | depth, some q, c :: rest =>
    (untilClosed opening closing depth (if c = q then none else some q) rest).map
      fun (inside, tail) => (c :: inside, tail)
  | depth, none, c :: rest =>
    if c = closing ∧ depth = 0 then some ([], rest)
    else
      let depth := if c = opening then depth + 1 else if c = closing then depth - 1 else depth
      let quote := if c = 39 ∨ c = 34 then some c else none
      (untilClosed opening closing depth quote rest).map fun (inside, tail) =>
        (c :: inside, tail)

/-! ## 4. Expansions -/

/-- The name at the front of a parameter: a name, digits, or one special
character. An index of an array belongs to it. -/
def parameterName (t : Text) : Text × Text :=
  match t with
  | [] => ([], [])
  | c :: rest =>
    if beginsName c then (t.takeWhile isNameChar, t.dropWhile isNameChar)
    else if Text.isDigit c then (t.takeWhile Text.isDigit, t.dropWhile Text.isDigit)
    else if isSpecial c then ([c], rest)
    else ([], t)

/-- The part that stands between the braces of a parameter. -/
def bracedPart (quoted : Bool) (inside : Text) : Part :=
  match inside with
  | 35 :: c :: rest =>
    let (name, _) := parameterName (c :: rest)
    .variable_ quoted name .length
  | _ =>
    let (name, rest) := parameterName inside
    let form : Form :=
      match rest with
      | 58 :: 45 :: word => .fallback true word
      | 45 :: word => .fallback false word
      | 58 :: 43 :: word => .replacement true word
      | 43 :: word => .replacement false word
      | _ => .value
    .variable_ quoted name form

/-- The expansion after a dollar sign, if there is one. -/
def expansion? (quoted : Bool) (t : Text) : Option (Part × Text) :=
  match t with
  | 123 :: rest =>
    (untilClosed 123 125 0 none rest).map fun (inside, tail) => (bracedPart quoted inside, tail)
  | 40 :: rest =>
    (untilClosed 40 41 0 none rest).map fun (inside, tail) => (.output quoted inside, tail)
  | c :: rest =>
    if beginsName c then
      some (.variable_ quoted (t.takeWhile isNameChar) .value, t.dropWhile isNameChar)
    else if Text.isDigit c ∨ isSpecial c then some (.variable_ quoted [c] .value, rest)
    else none
  | [] => none

/-- A character put in front of protected text. -/
def addFixed (c : CodePoint) : Word → Word
  | .fixed t :: rest => .fixed (c :: t) :: rest
  | parts => .fixed [c] :: parts

/-- A character put in front of unprotected text. -/
def addLoose (c : CodePoint) : Word → Word
  | .loose t :: rest => .loose (c :: t) :: rest
  | parts => .loose [c] :: parts

/-- The parts up to the closing double quote, and the text after it. Even
nothing between the quotes is a part. -/
def untilDoubleQuote : Nat → Text → Option (Word × Text)
  | 0, _ => none
  | _ + 1, [] => none
  | fuel + 1, c :: rest =>
    if c = 34 then some ([.fixed []], rest)
    else if c = 92 then
      match rest with
      | [] => none
      | d :: tail =>
        if d = 10 then untilDoubleQuote fuel tail
        else if d ∈ [34, 36, 92, 96] then
          (untilDoubleQuote fuel tail).map fun (parts, tail) => (addFixed d parts, tail)
        else
          (untilDoubleQuote fuel tail).map fun (parts, tail) =>
            (addFixed 92 (addFixed d parts), tail)
    else if c = 36 then
      match expansion? true rest with
      | some (part, tail) =>
        (untilDoubleQuote fuel tail).map fun (parts, tail) => (part :: parts, tail)
      | none => (untilDoubleQuote fuel rest).map fun (parts, tail) => (addFixed c parts, tail)
    else if c = 96 then
      match untilClosed 0 96 0 none rest with
      | some (script, tail) =>
        (untilDoubleQuote fuel tail).map fun (parts, tail) => (.output true script :: parts, tail)
      | none => none
    else (untilDoubleQuote fuel rest).map fun (parts, tail) => (addFixed c parts, tail)

/-! ## 5. Words -/

/-- The word at the front, up to an unquoted character that ends it, and the
text after it; none where a quote is not closed. -/
def readUntil (ends : CodePoint → Bool) : Nat → Text → Option (Word × Text)
  | 0, _ => none
  | _ + 1, [] => some ([], [])
  | fuel + 1, c :: rest =>
    if ends c then some ([], c :: rest)
    else if c = 39 then
      match untilQuote rest with
      | some (inside, tail) =>
        (readUntil ends fuel tail).map fun (parts, tail) => (.fixed inside :: parts, tail)
      | none => none
    else if c = 34 then
      match untilDoubleQuote (rest.length + 1) rest with
      | some (inside, tail) =>
        (readUntil ends fuel tail).map fun (parts, tail) => (inside ++ parts, tail)
      | none => none
    else if c = 92 then
      match rest with
      | [] => some ([.fixed [92]], [])
      | d :: tail =>
        if d = 10 then readUntil ends fuel tail
        else (readUntil ends fuel tail).map fun (parts, tail) => (.fixed [d] :: parts, tail)
    else if c = 36 ∧ rest.head? = some 39 then
      match untilDollarQuote rest.length (rest.drop 1) with
      | some (inside, tail) =>
        (readUntil ends fuel tail).map fun (parts, tail) => (.fixed inside :: parts, tail)
      | none => none
    else if c = 36 then
      match expansion? false rest with
      | some (part, tail) =>
        (readUntil ends fuel tail).map fun (parts, tail) => (part :: parts, tail)
      | none => (readUntil ends fuel rest).map fun (parts, tail) => (addLoose c parts, tail)
    else if c = 96 then
      match untilClosed 0 96 0 none rest with
      | some (script, tail) =>
        (readUntil ends fuel tail).map fun (parts, tail) => (.output false script :: parts, tail)
      | none => none
    else (readUntil ends fuel rest).map fun (parts, tail) => (addLoose c parts, tail)

/-- The word at the front of a script and the text after it. -/
def readWord (t : Text) : Option (Word × Text) := readUntil endsWord (t.length + 1) t

/-- A whole text as one word. -/
def asWord (t : Text) : Word :=
  match readUntil (fun _ => false) (t.length + 1) t with
  | some (w, _) => w
  | none => [.fixed t]

/-- The text of a word without expansions. -/
def plainText? : Word → Option Text
  | [] => some []
  | .loose t :: rest => (plainText? rest).map (t ++ ·)
  | .fixed t :: rest => (plainText? rest).map (t ++ ·)
  | _ => none

end LineTrace.Shell
