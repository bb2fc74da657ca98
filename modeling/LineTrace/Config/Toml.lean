/-
LineTrace.Config.Toml — TOML documents as tables of settings.

Reading is done in two steps. The grammar turns the text into statements: a
key with its value, the header of a table, the header of an item of an array
of tables. `Document.apply` then carries the statements out one by one and
refuses those that would define something twice: a table is declared at most
once, a dotted key does not reach into a declared table, and the inside of an
inline table or array is never changed.

A fault has no wording here; all that is told apart is a text that is no
document, a numeral too long to convert and a value that lies too deep.
-/
import LineTrace.Config.Setting
import LineTrace.Json.Reader

namespace LineTrace.Toml

/-! ## 1. Characters -/

/-- Why a text is no document. -/
inductive Fault where
  | malformed
  | numeralTooLong (digits : Nat)
  | tooDeep
  deriving DecidableEq, Repr

/-- What a scanner gives: what it read and the text after it. -/
abbrev Scan (α : Type) := Except Fault (α × Text)

/-- A blank inside a line. -/
def isBlank (c : CodePoint) : Bool := c == 32 || c == 9

/-- A blank or a line break. -/
def isBlankOrBreak (c : CodePoint) : Bool := isBlank c || c == 10

/-- A control that may stand nowhere but for tabs. -/
def isControl (c : CodePoint) : Bool := (c < 32 && c != 9) || c == 127

/-- A character of a bare key. -/
def isBare (c : CodePoint) : Bool :=
  Text.isDigit c || (65 ≤ c && c ≤ 90) || (97 ≤ c && c ≤ 122) || c == 45 || c == 95

/-- The text after the blanks at the front. -/
def skipBlanks (t : Text) : Text := t.dropWhile isBlank

/-- The text after a comment, if one starts here. -/
def skipComment : Text → Except Fault Text
  | 35 :: rest =>
    if (rest.takeWhile (· ≠ 10)).any isControl then .error .malformed
    else .ok (rest.dropWhile (· ≠ 10))
  | t => .ok t

/-- The text after blanks, line breaks and comments; each round takes a line,
so the length of the text is fuel enough. -/
def skipLines : Nat → Text → Except Fault Text
  | 0, t => .ok t
  | fuel + 1, t =>
    match t.dropWhile isBlankOrBreak with
    | 35 :: rest =>
      match skipComment (35 :: rest) with
      | .error e => .error e
      | .ok rest => skipLines fuel rest
    | rest => .ok rest

/-! ## 2. Strings -/

/-- The code point of `count` hexadecimal digits, if it is no surrogate. -/
def hexScalar (count : Nat) (t : Text) : Except Fault CodePoint :=
  match (t.take count).mapM Text.hexValue? with
  | none => .error .malformed
  | some ds =>
    let n := ds.foldl (fun n d => 16 * n + d) 0
    if ds.length = count ∧ n ≤ 0x10FFFF ∧ ¬ (0xD800 ≤ n ∧ n ≤ 0xDFFF) then .ok n
    else .error .malformed

/-- The code point of a one-letter escape. -/
def letterEscape? (c : CodePoint) : Option CodePoint :=
  if c = 98 then some 8
  else if c = 116 then some 9
  else if c = 110 then some 10
  else if c = 102 then some 12
  else if c = 114 then some 13
  else if c = 34 ∨ c = 92 then some c
  else none

/-- How many code points after the backslash an escape takes, and the text
that it stands for. -/
def escape (multiline : Bool) : Text → Except Fault (Nat × Text)
  | [] => .error .malformed
  | c :: rest =>
    if multiline ∧ isBlankOrBreak c then
      match (c :: rest).dropWhile isBlank with
      | [] => .ok (rest.length + 1, [])
      | 10 :: more => .ok (rest.length + 1 - (more.dropWhile isBlankOrBreak).length, [])
      | _ => .error .malformed
    else if c = 117 then (hexScalar 4 rest).map fun n => (5, [n])
    else if c = 85 then (hexScalar 8 rest).map fun n => (9, [n])
    else
      match letterEscape? c with
      | some d => .ok (1, [d])
      | none => .error .malformed

/-- The string up to its closing quotes. -/
def basicString (multiline : Bool) : Text → Scan Text
  | [] => .error .malformed
  | c :: rest =>
    if c = 34 then
      if ¬ multiline then .ok ([], rest)
      else if rest.take 2 = [34, 34] then .ok ([], rest.drop 2)
      else (basicString multiline rest).map fun (s, tail) => (c :: s, tail)
    else if c = 92 then
      match escape multiline rest with
      | .error e => .error e
      | .ok (n, stands) =>
        (basicString multiline (rest.drop n)).map fun (s, tail) => (stands ++ s, tail)
    else if isControl c ∧ ¬ (multiline ∧ c = 10) then .error .malformed
    else (basicString multiline rest).map fun (s, tail) => (c :: s, tail)
termination_by t => t.length
decreasing_by all_goals simp only [List.length_drop, List.length_cons]; omega

/-- The string up to a closing mark, as it stands. -/
def literalString (multiline : Bool) (closing t : Text) : Scan Text :=
  match Text.cut? closing t with
  | none => .error .malformed
  | some (body, rest) =>
    if body.any fun c => isControl c && !(multiline && c == 10) then .error .malformed
    else .ok (body, rest)

/-- Up to two more quotes that belong to a string of several lines whose
closing quotes are read. -/
def extraQuotes (quote : CodePoint) (s : Text) : Text → Text × Text
  | a :: rest =>
    if a = quote then
      match rest with
      | b :: more => if b = quote then (s ++ [quote, quote], more) else (s ++ [quote], rest)
      | [] => (s ++ [quote], [])
    else (s, a :: rest)
  | [] => (s, [])

/-- The text without a line break at the front. -/
def dropBreak : Text → Text
  | 10 :: rest => rest
  | t => t

/-- The string that a quote opens. -/
def string (t : Text) : Scan Text :=
  match t with
  | 34 :: 34 :: 34 :: rest =>
    (basicString true (dropBreak rest)).map fun (s, tail) => extraQuotes 34 s tail
  | 34 :: rest => basicString false rest
  | 39 :: 39 :: 39 :: rest =>
    (literalString true [39, 39, 39] (dropBreak rest)).map fun (s, tail) => extraQuotes 39 s tail
  | 39 :: rest => literalString false [39] rest
  | _ => .error .malformed

/-! ## 3. Keys -/

/-- One part of a key: bare, or a string of one line. -/
def keyPart (t : Text) : Scan Text :=
  match t with
  | 34 :: rest => basicString false rest
  | 39 :: rest => literalString false [39] rest
  | _ =>
    match t.takeWhile isBare with
    | [] => .error .malformed
    | bare => .ok (bare, t.dropWhile isBare)

/-- A key of parts with points between them, and the blanks after it. -/
def key : Nat → Text → Scan (List Text)
  | 0, _ => .error .malformed
  | fuel + 1, t =>
    match keyPart t with
    | .error e => .error e
    | .ok (part, rest) =>
      match skipBlanks rest with
      | 46 :: more => (key fuel (skipBlanks more)).map fun (parts, tail) => (part :: parts, tail)
      | rest => .ok ([part], rest)

/-! ## 4. Numbers and moments -/

/-- The digits at the front with single low lines between them. -/
def digitsOf (digit? : CodePoint → Option Nat) (afterDigit : Bool) : Text → List Nat × Text
  | [] => ([], [])
  | c :: rest =>
    match digit? c with
    | some d =>
      let (ds, tail) := digitsOf digit? true rest
      (d :: ds, tail)
    | none =>
      if c = 95 ∧ afterDigit ∧ (rest.head?.bind digit?).isSome then digitsOf digit? false rest
      else ([], c :: rest)

/-- The value of a digit below `base`. -/
def digitBelow (base : Nat) (c : CodePoint) : Option Nat :=
  (Text.hexValue? c).filter fun d => d < base

/-- The decimal digits at the front. -/
def decimals (t : Text) : List Nat × Text := digitsOf (digitBelow 10) false t

/-- The base that a letter after a zero announces. -/
def baseOf? (letter : CodePoint) : Option Nat :=
  if letter = 120 then some 16
  else if letter = 111 then some 8
  else if letter = 98 then some 2
  else none

/-- The number in another base at the front. -/
def basedNumber? : Text → Option (Setting × Text)
  | 48 :: letter :: rest =>
    match baseOf? letter with
    | none => none
    | some base =>
      match digitsOf (digitBelow base) false rest with
      | ([], _) => none
      | (ds, tail) => some (.int (ds.foldl (fun n d => base * n + d) 0 : Nat), tail)
  | _ => none

/-- The fraction at the front; none where no digit follows the point. -/
def fraction : Text → List Nat × Text
  | 46 :: rest =>
    match decimals rest with
    | ([], _) => ([], 46 :: rest)
    | found => found
  | t => ([], t)

/-- The exponent at the front; none where no digit follows its letter and
sign. -/
def exponent : Text → Option Int × Text
  | c :: rest =>
    if c = 101 ∨ c = 69 then
      let (negative, body) := Text.signOf rest
      match decimals body with
      | ([], _) => (none, c :: rest)
      | (ds, tail) =>
        let n : Int := Text.decimalValue ds
        (some (if negative then -n else n), tail)
    else (none, c :: rest)
  | [] => (none, [])

/-- The digits before a fraction: a zero alone, or digits that do not start
with one. -/
def wholeDigits : Text → List Nat × Text
  | 48 :: rest => ([0], rest)
  | t => decimals t

/-- The decimal number at the front. -/
def decimalNumber? (t : Text) : Option (Except Fault Setting × Text) :=
  let (negative, body) := Text.signOf t
  match wholeDigits body with
  | ([], _) => none
  | (whole, afterWhole) =>
    let (fraction, afterFraction) := fraction afterWhole
    match exponent afterFraction with
    | (none, tail) =>
      if fraction = [] then
        let n : Int := Text.decimalValue whole
        if Text.digitLimit < whole.length then some (.error (.numeralTooLong whole.length), tail)
        else some (.ok (.int (if negative then -n else n)), tail)
      else
        some (.ok (.float (Double.ofDecimal negative (Text.decimalValue (whole ++ fraction))
          (-fraction.length))), tail)
    | (some e, tail) =>
      some (.ok (.float (Double.ofDecimal negative (Text.decimalValue (whole ++ fraction))
        (e - fraction.length))), tail)

/-- The numbers that have names. -/
def namedNumber? (t : Text) : Option (Setting × Text) :=
  let (negative, body) := Text.signOf t
  if (Text.ofString "inf").isPrefixOf body then some (.float (.infinite negative), body.drop 3)
  else if (Text.ofString "nan").isPrefixOf body then some (.float .nan, body.drop 3)
  else none

/-- Two digits of a number within bounds. -/
def twoDigitsWithin? (least most : Nat) : Text → Option (Nat × Text)
  | a :: b :: rest =>
    match digitBelow 10 a, digitBelow 10 b with
    | some a, some b =>
      if least ≤ 10 * a + b ∧ 10 * a + b ≤ most then some (10 * a + b, rest) else none
    | _, _ => none
  | _ => none

/-- The text after a given character. -/
def after? (c : CodePoint) : Text → Option Text
  | d :: rest => if d = c then some rest else none
  | [] => none

/-- The text after a time of day. -/
def afterTime? (t : Text) : Option Text := do
  let (_, t) ← twoDigitsWithin? 0 23 t
  let (_, t) ← twoDigitsWithin? 0 59 (← after? 58 t)
  let (_, t) ← twoDigitsWithin? 0 59 (← after? 58 t)
  match t with
  | 46 :: rest =>
    match rest.takeWhile Text.isDigit with
    | [] => return t
    | _ => return rest.dropWhile Text.isDigit
  | _ => return t

/-- The text after an offset from universal time, if there is one. -/
def afterOffset (t : Text) : Text :=
  let offset? : Option Text := do
    let (_, u) ← twoDigitsWithin? 0 23 (t.drop 1)
    let (_, u) ← twoDigitsWithin? 0 59 (← after? 58 u)
    return u
  match t with
  | c :: rest =>
    if c = 90 ∨ c = 122 then rest
    else if c = 43 ∨ c = 45 then offset?.getD t
    else t
  | [] => t

/-- The days of a month. -/
def daysInMonth (year month : Nat) : Nat :=
  if month = 2 then
    if year % 4 = 0 ∧ (year % 100 ≠ 0 ∨ year % 400 = 0) then 29 else 28
  else if month = 4 ∨ month = 6 ∨ month = 9 ∨ month = 11 then 30
  else 31

/-- Year, month and day at the front, of a month with up to 31 days. -/
def date? (t : Text) : Option (Nat × Nat × Nat × Text) := do
  let (high, t) ← twoDigitsWithin? 0 99 t
  let (low, t) ← twoDigitsWithin? 0 99 t
  let (month, t) ← twoDigitsWithin? 1 12 (← after? 45 t)
  let (day, t) ← twoDigitsWithin? 1 31 (← after? 45 t)
  return (100 * high + low, month, day, t)

/-- The text after a blank or a letter and a time of day. -/
def afterDayTime? : Text → Option Text
  | c :: rest => if c = 84 ∨ c = 116 ∨ c = 32 then (afterTime? rest).map afterOffset else none
  | [] => none

/-- The moment at the front, which is a fault if there is no such day. -/
def moment? (t : Text) : Option (Except Fault Setting × Text) :=
  match date? t with
  | some (year, month, day, rest) =>
    let valid := 1 ≤ year ∧ day ≤ daysInMonth year month
    let (kind, tail) : Moment × Text :=
      match afterDayTime? rest with
      | some tail => (.dateAndTime, tail)
      | none => (.date, rest)
    some (if valid then .ok (.moment kind) else .error .malformed, tail)
  | none => (afterTime? t).map fun tail => (.ok (.moment .time), tail)

/-- The moment or number at the front. -/
def scalar (t : Text) : Scan Setting :=
  match moment? t with
  | some (r, tail) => r.map fun v => (v, tail)
  | none =>
    match basedNumber? t with
    | some found => .ok found
    | none =>
      match decimalNumber? t with
      | some (r, tail) => r.map fun v => (v, tail)
      | none =>
        match namedNumber? t with
        | some found => .ok found
        | none => .error .malformed

/-! ## 5. Tables -/

/-- The entries of a table with one table inside it changed: the one that a
path of names leads to, made where there is none. A list on the way stands for
its last item if `throughLists` allows it. -/
def changeAt (throughLists : Bool) (f : List (Text × Setting) → Option (List (Text × Setting))) :
    List Text → List (Text × Setting) → Option (List (Text × Setting))
  | [], es => f es
  | k :: ks, es =>
    match Table.get? k es with
    | none => (changeAt throughLists f ks []).map fun inner => Table.put k (.table inner) es
    | some (.table inner) =>
      (changeAt throughLists f ks inner).map fun inner => Table.put k (.table inner) es
    | some (.list items) =>
      match throughLists, items.getLast? with
      | true, some (.table inner) =>
        (changeAt throughLists f ks inner).map fun inner =>
          Table.put k (.list (items.dropLast ++ [.table inner])) es
      | _, _ => none
    | some _ => none

/-- The entries with a new one; a name that is there is refused. -/
def addEntry (name : Text) (v : Setting) (es : List (Text × Setting)) :
    Option (List (Text × Setting)) :=
  match Table.get? name es with
  | some _ => none
  | none => some (Table.put name v es)

/-- A value whose inside is never changed. -/
def isClosed : Setting → Bool
  | .table _ => true
  | .list _ => true
  | _ => false

/-- Whether a key lies at or below one of the given ones. -/
def isUnder (keys : List (List Text)) (k : List Text) : Bool := keys.any fun c => c.isPrefixOf k

/-- The entries of an inline table after one more key; `closed` holds the keys
whose values are not to be changed. -/
def addInline (closed : List (List Text)) (k : List Text) (v : Setting)
    (es : List (Text × Setting)) : Option (List (Text × Setting)) :=
  if isUnder closed k then none
  else changeAt false (addEntry (k.getLast?.getD []) v) k.dropLast es

/-! ## 6. Values -/

/-- How deep values may lie within each other, in levels of reading. -/
def depthLimit : Nat := 991

/-- The levels that are needed to read anything inside a value. -/
def depthReserve : Nat := 4

mutual

/-- The value at the front, in which `room` levels may be used: a list uses
two of them and an inline table three. Every call takes a character, so the
length of the text is fuel enough. -/
def value : Nat → Nat → Text → Scan Setting
  | 0, _, _ => .error .malformed
  | fuel + 1, room, t =>
    match t with
    | [] => .error .malformed
    | c :: rest =>
      if c = 34 ∨ c = 39 then (string t).map fun (s, tail) => (.text s, tail)
      else if (Text.ofString "true").isPrefixOf t then .ok (.flag true, t.drop 4)
      else if (Text.ofString "false").isPrefixOf t then .ok (.flag false, t.drop 5)
      else if c = 91 then
        if room < depthReserve then .error .tooDeep
        else (items fuel (room - 2) rest).map fun (vs, tail) => (.list vs, tail)
      else if c = 123 then
        if room < depthReserve then .error .tooDeep
        else
          match skipBlanks rest with
          | 125 :: tail => .ok (.table [], tail)
          | inner =>
            (entries fuel (room - 3) [] [] inner).map fun (es, tail) => (.table es, tail)
      else scalar t

/-- The items up to the closing bracket; a comma may follow the last one. -/
def items : Nat → Nat → Text → Scan (List Setting)
  | 0, _, _ => .error .malformed
  | fuel + 1, room, t =>
    match skipLines t.length t with
    | .error e => .error e
    | .ok (93 :: tail) => .ok ([], tail)
    | .ok t =>
      match value fuel room t with
      | .error e => .error e
      | .ok (v, rest) =>
        match skipLines rest.length rest with
        | .error e => .error e
        | .ok (93 :: tail) => .ok ([v], tail)
        | .ok (44 :: more) => (items fuel room more).map fun (vs, tail) => (v :: vs, tail)
        | .ok _ => .error .malformed

/-- The entries of an inline table up to the closing brace, after those
already read. -/
def entries : Nat → Nat → List (List Text) → List (Text × Setting) → Text →
    Scan (List (Text × Setting))
  | 0, _, _, _, _ => .error .malformed
  | fuel + 1, room, closed, es, t =>
    match key (t.length + 1) t with
    | .error e => .error e
    | .ok (k, 61 :: rest) =>
      match value fuel room (skipBlanks rest) with
      | .error e => .error e
      | .ok (v, rest) =>
        match addInline closed k v es with
        | none => .error .malformed
        | some es =>
          match skipBlanks rest with
          | 125 :: tail => .ok (es, tail)
          | 44 :: more =>
            entries fuel room (if isClosed v then k :: closed else closed) es (skipBlanks more)
          | _ => .error .malformed
    | .ok _ => .error .malformed

end

/-! ## 7. Statements -/

/-- One statement of a document. -/
inductive Statement where
  | pair (key : List Text) (value : Setting)
  | tableHeader (key : List Text)
  | itemHeader (key : List Text)

/-- The statement at the front, which is not empty. -/
def statement (t : Text) : Scan Statement :=
  let fuel := t.length + 1
  match t with
  | 91 :: 91 :: rest =>
    match key fuel (skipBlanks rest) with
    | .error e => .error e
    | .ok (k, 93 :: 93 :: tail) => .ok (.itemHeader k, tail)
    | .ok _ => .error .malformed
  | 91 :: rest =>
    match key fuel (skipBlanks rest) with
    | .error e => .error e
    | .ok (k, 93 :: tail) => .ok (.tableHeader k, tail)
    | .ok _ => .error .malformed
  | _ =>
    match key fuel t with
    | .error e => .error e
    | .ok (k, 61 :: rest) =>
      (value fuel depthLimit (skipBlanks rest)).map fun (v, tail) => (.pair k v, tail)
    | .ok _ => .error .malformed

/-- The text after the blanks and the comment that end a line. -/
def endLine (t : Text) : Except Fault Text :=
  match skipComment (skipBlanks t) with
  | .error e => .error e
  | .ok [] => .ok []
  | .ok (10 :: rest) => .ok rest
  | .ok _ => .error .malformed

/-- The statements of a text, as far as the first fault. -/
def statements : Nat → Text → List Statement × Option Fault
  | 0, _ => ([], none)
  | fuel + 1, t =>
    match skipBlanks t with
    | [] => ([], none)
    | 10 :: rest => statements fuel rest
    | 35 :: rest =>
      match endLine (35 :: rest) with
      | .error e => ([], some e)
      | .ok rest => statements fuel rest
    | line =>
      match statement line with
      | .error e => ([], some e)
      | .ok (s, rest) =>
        match endLine rest with
        | .error e => ([s], some e)
        | .ok rest =>
          let (more, fault) := statements fuel rest
          (s :: more, fault)

/-! ## 8. Documents -/

/-- A document as far as it is read: its entries, the header in force, the
keys of declared tables, those that dotted keys have made and that the next
header closes, and those whose values are never changed. -/
structure Document where
  entries : List (Text × Setting)
  header : List Text
  declared : List (List Text)
  pending : List (List Text)
  closed : List (List Text)

namespace Document

/-- The document of no statements. -/
def empty : Document := ⟨[], [], [], [], []⟩

/-- The document after a header has closed what dotted keys had made. -/
def settle (d : Document) : Document :=
  { d with declared := d.pending ++ d.declared, pending := [] }

/-- The keys of the tables that a dotted key leads through. -/
def through (header k : List Text) : List (List Text) :=
  (List.range (k.length - 1)).map fun i => header ++ k.take (i + 1)

/-- The document after one more statement. -/
def apply (d : Document) : Statement → Option Document
  | .pair k v =>
    let tables := through d.header k
    let parent := d.header ++ k.dropLast
    if tables.any d.declared.contains then none
    else if isUnder d.closed parent then none
    else
      (changeAt true (addEntry (k.getLast?.getD []) v) parent d.entries).map fun es =>
        { d with
          entries := es
          pending := tables ++ d.pending
          closed := if isClosed v then (d.header ++ k) :: d.closed else d.closed }
  | .tableHeader k =>
    let d := d.settle
    if d.declared.contains k ∨ isUnder d.closed k then none
    else
      (changeAt true some k d.entries).map fun es =>
        { d with entries := es, header := k, declared := k :: d.declared }
  | .itemHeader k =>
    let d := d.settle
    let name := k.getLast?.getD []
    if isUnder d.closed k then none
    else
      let free (keys : List (List Text)) := keys.filter fun c => !k.isPrefixOf c
      let add (es : List (Text × Setting)) : Option (List (Text × Setting)) :=
        match Table.get? name es with
        | none => some (Table.put name (.list [.table []]) es)
        | some (.list items) => some (Table.put name (.list (items ++ [.table []])) es)
        | some _ => none
      (changeAt true add k.dropLast d.entries).map fun es =>
        { d with
          entries := es
          header := k
          declared := k :: free d.declared
          closed := free d.closed }

/-- The document after all statements. -/
def applyAll (d : Document) : List Statement → Option Document
  | [] => some d
  | s :: rest =>
    match d.apply s with
    | none => none
    | some d => applyAll d rest

end Document

/-- The table of a whole text. -/
def read (t : Text) : Except Fault (List (Text × Setting)) :=
  let (ss, fault) := statements (t.length + 1) t
  match Document.empty.applyAll ss, fault with
  | none, _ => .error .malformed
  | some _, some e => .error e
  | some d, none => .ok d.entries

end LineTrace.Toml
