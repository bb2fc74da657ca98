/-
LineTrace.Log.Template — log messages with places for their arguments.

A place is a percent sign, perhaps the name of an entry in parentheses, flags,
a width, a precision and a letter that says how the argument is written. A
message without arguments is taken as it stands; otherwise every argument has
to be used, unless it is one object whose entries are meant by name. A star in
a width or a precision stands for an argument of its own.
-/
import LineTrace.Failure.Basic
import LineTrace.Json.Display

namespace LineTrace.Template

/-! ## 1. Places -/

/-- How an argument is to be written. -/
structure Place where
  left : Bool
  sign : Option CodePoint
  zeros : Bool
  alternate : Bool
  width : Nat
  precision : Option Nat
  letter : CodePoint

/-- The place of which nothing is known. -/
def Place.blank : Place := ⟨false, none, false, false, 0, none, 0⟩

/-- The flags at the front. -/
def flags (p : Place) : Text → Place × Text
  | [] => (p, [])
  | c :: rest =>
    if c = 45 then flags { p with left := true } rest
    else if c = 43 then flags { p with sign := some 43 } rest
    else if c = 32 then flags { p with sign := some (p.sign.getD 32) } rest
    else if c = 48 then flags { p with zeros := true } rest
    else if c = 35 then flags { p with alternate := true } rest
    else (p, c :: rest)

/-- The number at the front, zero where there is none. -/
def number (t : Text) : Nat × Text :=
  (Text.decimalValue ((t.takeWhile Text.isDigit).map (· - 48)), t.dropWhile Text.isDigit)

/-- The name at the front, as far as the parenthesis that closes it, and what
follows; `depth` is how many more are open. -/
def nameFrom : Nat → Text → Option (Text × Text)
  | _, [] => none
  | depth, c :: rest =>
    if c = 41 ∧ depth = 0 then some ([], rest)
    else
      let depth := if c = 40 then depth + 1 else if c = 41 then depth - 1 else depth
      (nameFrom depth rest).map fun (name, tail) => (c :: name, tail)

/-- The text after a mark of size, which says nothing. -/
def withoutSize : Text → Text
  | c :: rest => if c = 104 ∨ c = 108 ∨ c = 76 then rest else c :: rest
  | [] => []

/-! ## 2. Arguments -/

/-- The kind of a value, as a complaint names it. -/
def kindName : Json → Text
  | .null => "NoneType"
  | .bool _ => "bool"
  | .int _ => "int"
  | .float _ => "float"
  | .str _ => "str"
  | .arr _ => "list"
  | .obj _ => "dict"

/-- A written text at its width. -/
def padded (p : Place) (t : Text) : Text :=
  if p.left then t ++ List.replicate (p.width - t.length) 32
  else Text.padLeft p.width 32 t

/-- A number's magnitude at its width, the sign before any zeros. -/
def signed (p : Place) (negative : Bool) (lead magnitude : Text) : Text :=
  let sign : Text := (if negative then [45] else p.sign.toList) ++ lead
  if p.zeros ∧ ¬ p.left then sign ++ Text.padLeft (p.width - sign.length) 48 magnitude
  else padded p (sign ++ magnitude)

/-- A value that is a number, cut to an integer; `none` for what is no
number. -/
def wholeOf : Json → Option (Except Fault Int)
  | .int i => some (.ok i)
  | .bool b => some (.ok (if b then 1 else 0))
  | .float x =>
    match x, x.truncate? with
    | _, some i => some (.ok i)
    | .nan, none => some (.error (.badValue "cannot convert float NaN to integer"))
    | _, none => some (.error (.tooLarge "cannot convert float infinity to integer"))
  | _ => none

/-- A value that is an integer. -/
def integerOf : Json → Option Int
  | .int i => some i
  | .bool b => some (if b then 1 else 0)
  | _ => none

/-- A value that is a number, as a floating-point one; `none` for what is no
number. -/
def doubleOf (v : Json) : Option (Except Fault Double) :=
  match v, integerOf v with
  | .float x, _ => some (.ok x)
  | _, some i =>
    match Double.ofInt? i with
    | some x => some (.ok x)
    | none => some (.error (.tooLarge "int too large to convert to float"))
  | _, none => none

/-- An integer in a base, with the base's mark where it is asked for. -/
def based (p : Place) (base : Nat) (mark : Text) (upper : Bool) (i : Int) : Text :=
  let digits := Text.numeral base i.natAbs
  let digits := Text.padLeft (p.precision.getD 0) 48 digits
  let digits := if upper then digits.map fun c => if 97 ≤ c ∧ c ≤ 122 then c - 32 else c else digits
  signed p (i < 0) (if p.alternate then mark else []) digits

/-- No number has more digits than this before the zeros that end it. -/
def placeLimit : Nat := 1100

/-- A floating-point number by its letter. -/
def float (p : Place) (x : Double) : Text :=
  let lower := if 97 ≤ p.letter then p.letter else p.letter + 32
  let places := p.precision.getD 6
  let pointed (t : Text) : Text := if p.alternate then Double.withPoint t else t
  let (negative, magnitude) : Bool × Text :=
    match x with
    | .finite negative m e =>
      (negative, pointed <|
        if lower = 102 then Double.fixedMagnitude m e places
        else if lower = 101 then Double.exponentMagnitude m e places
        else Double.generalMagnitude m e (if p.alternate then places else min places placeLimit)
          p.alternate)
    | .infinite negative => (negative, "inf")
    | .nan => (false, "nan")
  let magnitude :=
    if lower = p.letter then magnitude
    else magnitude.map fun c => if 97 ≤ c ∧ c ≤ 122 then c - 32 else c
  signed p negative [] magnitude

/-- A text cut to its precision, at its width. -/
def plain (p : Place) (t : Text) : Text :=
  padded p (match p.precision with
    | some n => t.take n
    | none => t)

/-- The complaint about an argument of the wrong kind. -/
def wrongKind (p : Place) (what : Text) (v : Json) : Fault :=
  .badType ("%" ++ [p.letter] ++ " format: " ++ what ++ " is required, not " ++ kindName v)

/-- The precision from which on the digits of an integer are too many. -/
def digitLimit : Nat := 2147483645

/-- An integer in a base, unless its place asks for too many digits. -/
def integer (p : Place) (base : Nat) (mark : Text) (upper : Bool) (i : Int) : Except Fault Text :=
  if digitLimit ≤ p.precision.getD 0 then .error (.tooLarge "precision too large")
  else .ok (based p base mark upper i)

/-- The character that an argument means. -/
def character (v : Json) : Except Fault CodePoint :=
  match v, integerOf v with
  | .str [c], _ => .ok c
  | _, some i =>
    if 0 ≤ i ∧ i < 1114112 then .ok i.toNat
    else .error (.tooLarge "%c arg not in range(0x110000)")
  | _, none => .error (.badType "%c requires int or char")

/-- A letter that asks for nothing known, as a complaint shows it. -/
def shownLetter (c : CodePoint) : CodePoint := if 31 ≤ c ∧ c ≤ 126 then c else 63

/-- An argument as its letter asks for it; `at_` is where the letter stands. -/
def renderBy (p : Place) (at_ : Nat) (v : Json) : Except Fault Text :=
  let letter := p.letter
  if letter = 115 then .ok (plain p v.shown)
  else if letter = 114 then .ok (plain p v.display)
  else if letter = 97 then
    .ok (plain p (v.display.flatMap fun c => if c < 128 then [c] else Text.codeEscape c))
  else if letter = 100 ∨ letter = 105 ∨ letter = 117 then
    match wholeOf v with
    | some i => i.bind (integer p 10 [] false)
    | none => .error (wrongKind p "a real number" v)
  else if letter = 120 ∨ letter = 88 ∨ letter = 111 then
    match integerOf v with
    | some i =>
      if letter = 111 then integer p 8 "0o" false i
      else if letter = 120 then integer p 16 "0x" false i
      else integer p 16 "0X" true i
    | none => .error (wrongKind p "an integer" v)
  else if letter ∈ [101, 102, 103, 69, 70, 71] then
    match doubleOf v with
    | some x => x.map (float p)
    | none => .error (.badType ("must be real number, not " ++ kindName v))
  else if letter = 99 then (character v).map fun c => padded p [c]
  else
    .error (.badValue ("unsupported format character '" ++ [shownLetter letter] ++ "' (0x" ++
      Text.numeral 16 letter ++ ") at index " ++ Text.ofNat at_))

/-- An argument as its place asks for it, if there is room for it. -/
def render (room : Nat) (p : Place) (at_ : Nat) (v : Json) : Except Fault Text :=
  if p.width < room then renderBy p at_ v
  else (renderBy { p with width := 0 } at_ v).bind fun _ => .error .noRoom

/-! ## 3. Supplies -/

/-- The arguments that are still to be used, and the entries that may be meant
by name. -/
structure Supply where
  named : Option (List (Text × Json))
  waiting : List Json

/-- The next argument. -/
def Supply.next (s : Supply) : Except Fault (Json × Supply) :=
  match s.waiting with
  | v :: rest => .ok (v, { s with waiting := rest })
  | [] => .error (.badType "not enough arguments for format string")

/-- The supply in which the entry of a name is next. -/
def Supply.select (s : Supply) (name : Text) : Except Fault Supply :=
  match s.named with
  | none => .error (.badType "format requires a mapping")
  | some es =>
    match Table.get? name es with
    | some v => .ok { s with waiting := [v] }
    | none => .error (.other "KeyError" (Text.quoted name))

/-- Whether arguments are left that nothing asked for. -/
def Supply.isUnused (s : Supply) : Bool := s.named.isNone && !s.waiting.isEmpty

/-- A measure: what it is called, which machine word it has to fit into, and
the bound of that. -/
structure Measure where
  name : Text
  word : Text
  bound : Int

/-- The width of a place. -/
def widthMeasure : Measure := ⟨"width", "ssize_t", 9223372036854775808⟩

/-- The precision of a place. -/
def precisionMeasure : Measure := ⟨"precision", "int", 2147483648⟩

/-- A measure at the front: digits, or a star for an argument. The least
number that its word holds has no opposite and says nothing. -/
def measure (m : Measure) (s : Supply) : Text → Except Fault (Int × Supply × Text)
  | 42 :: rest =>
    match s.next with
    | .error e => .error e
    | .ok (v, s) =>
      match integerOf v with
      | some i =>
        if i = -m.bound then .ok (0, s, rest)
        else if -m.bound < i ∧ i < m.bound then .ok (i, s, rest)
        else .error (.tooLarge ("Python int too large to convert to C " ++ m.word))
      | none => .error (.badType "* wants int")
  | t =>
    let (n, rest) := number t
    if n < m.bound then .ok (n, s, rest) else .error (.badValue (m.name ++ " too big"))

/-- The precision at the front, if there is one. -/
def precision (s : Supply) : Text → Except Fault (Option Nat × Supply × Text)
  | 46 :: rest =>
    (measure precisionMeasure s rest).map fun (n, s, tail) => (some n.toNat, s, tail)
  | t => .ok (none, s, t)

/-- The name at the front, if there is one, looked up. -/
def named (s : Supply) : Text → Except Fault (Supply × Text)
  | 40 :: rest =>
    if s.named.isNone then .error (.badType "format requires a mapping")
    else
      match nameFrom 0 rest with
      | none => .error (.badValue "incomplete format key")
      | some (name, tail) => (s.select name).map fun s => (s, tail)
  | t => .ok (s, t)

/-- The place whose percent sign is read, and what follows it. -/
def place (s : Supply) (t : Text) : Except Fault (Place × Supply × Text) := do
  let (s, t) ← named s t
  let (p, t) := flags Place.blank t
  let (width, s, t) ← measure widthMeasure s t
  let (precision, s, t) ← precision s t
  match withoutSize t with
  | [] => .error (.badValue "incomplete format")
  | letter :: rest =>
    let left := p.left || decide (width < 0)
    return ({ p with left, width := width.natAbs, precision, letter }, s, rest)

/-! ## 4. Messages -/

/-- The message with its arguments in their places, each of which there is room for.
`length` is that of the whole message; every round takes a character, so it is fuel
enough. -/
def fillFrom (room length : Nat) : Nat → Text → Supply → Except Fault Text
  | 0, _, _ => .ok []
  | _ + 1, [], s =>
    if s.isUnused then
      .error (.badType "not all arguments converted during string formatting")
    else .ok []
  | fuel + 1, 37 :: 37 :: rest, s => (fillFrom room length fuel rest s).map (37 :: ·)
  | fuel + 1, 37 :: rest, s => do
    let (p, s, tail) ← place s rest
    let (v, s) ← s.next
    let t ← render room p (length - tail.length - 1) v
    let more ← fillFrom room length fuel tail s
    return t ++ more
  | fuel + 1, c :: rest, s => (fillFrom room length fuel rest s).map (c :: ·)

/-- The message with its arguments in their places. -/
def fill (room : Nat) (message : Text) (args : List Json) : Except Fault Text :=
  let named : Option (List (Text × Json)) :=
    match args with
    | [.obj (e :: es)] => some (e :: es)
    | _ => none
  if args.isEmpty then .ok message
  else fillFrom room message.length (message.length + 1) message ⟨named, args⟩

end LineTrace.Template
