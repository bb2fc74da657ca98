/-
LineTrace.Json.Writer — JSON values as text.

`compact` writes a value on one line, `prettyPieces` one item a line, two blanks
a level, object entries in the order of their names, piece by piece, so that
writing can end at an integer that has too many digits. Both leave every code
point as it is except the quote, the backslash and the controls below the
blank.
-/
import LineTrace.Json.Basic
import LineTrace.Number.Shortest

namespace LineTrace.Json

/-! ## 1. Strings and numbers -/

/-- One code point inside a string. -/
def escapeChar (c : CodePoint) : Text :=
  if c = 34 then [92, 34]
  else if c = 92 then [92, 92]
  else if c = 10 then [92, 110]
  else if c = 13 then [92, 114]
  else if c = 9 then [92, 116]
  else if c = 8 then [92, 98]
  else if c = 12 then [92, 102]
  else if c < 32 then [92, 117] ++ Text.padLeft 4 48 (Text.numeral 16 c)
  else [c]

/-- A string between its quotes. -/
def stringText (t : Text) : Text := 34 :: t.flatMap escapeChar ++ [34]

/-- A number; the three that are not finite have names. -/
def numberText : Double → Text
  | .nan => "NaN"
  | .infinite false => "Infinity"
  | .infinite true => "-Infinity"
  | x => x.floatText

/-- The name of a truth value. -/
def boolText (b : Bool) : Text := if b then "true" else "false"

/-! ## 2. On one line -/

mutual

/-- The value on one line. -/
def compact : Json → Text
  | .null => "null"
  | .bool b => boolText b
  | .int i => Text.ofInt i
  | .float x => numberText x
  | .str t => stringText t
  | .arr items => [91] ++ compactItems items ++ [93]
  | .obj entries => [123] ++ compactEntries entries ++ [125]

/-- The items with commas between them. -/
def compactItems : List Json → Text
  | [] => []
  | [v] => compact v
  | v :: rest => compact v ++ ", " ++ compactItems rest

/-- The entries with commas between them. -/
def compactEntries : List (Text × Json) → Text
  | [] => []
  | [(k, v)] => stringText k ++ ": " ++ compact v
  | (k, v) :: rest => stringText k ++ ": " ++ compact v ++ ", " ++ compactEntries rest

end

/-! ## 3. One item a line -/

/-- The entries in the order of their names. -/
def sortEntries {α : Type} (entries : List (Text × α)) : List (Text × α) :=
  entries.mergeSort fun a b => Text.le a.1 b.1

mutual

/-- The value with the entries of every object in the order of their names. -/
def ordered : Json → Json
  | .arr items => .arr (orderedItems items)
  | .obj entries => .obj (sortEntries (orderedEntries entries))
  | v => v

/-- Every item ordered. -/
def orderedItems : List Json → List Json
  | [] => []
  | v :: rest => ordered v :: orderedItems rest

/-- Every entry's value ordered. -/
def orderedEntries : List (Text × Json) → List (Text × Json)
  | [] => []
  | (k, v) :: rest => (k, ordered v) :: orderedEntries rest

end

/-- A new line and two blanks a level. -/
def lineBreak (level : Nat) : Text := 10 :: List.replicate (2 * level) 32

/-- A value that holds no others; the brackets of one that does. An integer of
too many digits has no text. -/
def leafText? : Json → Option Text
  | .null => some "null"
  | .bool b => some (boolText b)
  | .int i => if Text.hasNumeral i then some (Text.ofInt i) else none
  | .float x => some (numberText x)
  | .str t => some (stringText t)
  | .arr _ => some "[]"
  | .obj _ => some [123, 125]

mutual

/-- The value at a level of nesting, entries as they come, in the pieces in
which it is written; none is a piece that has no text. A leaf is one piece with
the text `lead` before it. -/
def indented (level : Nat) (lead : Text) : Json → List (Option Text)
  | .arr (v :: rest) =>
    [some lead] ++ indentedItems (level + 1) (91 :: lineBreak (level + 1)) (v :: rest) ++
      [some (lineBreak level), some [93]]
  | .obj (e :: rest) =>
    [some lead, some [123], some (lineBreak (level + 1))] ++
      indentedEntries (level + 1) (e :: rest) ++ [some (lineBreak level), some [125]]
  | .arr [] => [some lead, some "[]"]
  | .obj [] => [some lead, some [123, 125]]
  | v => [(leafText? v).map (lead ++ ·)]

/-- The items, each on its line; the first one follows `lead`. -/
def indentedItems (level : Nat) (lead : Text) : List Json → List (Option Text)
  | [] => []
  | v :: rest => indented level lead v ++ indentedItems level (44 :: lineBreak level) rest

/-- The entries, each on its line. -/
def indentedEntries (level : Nat) : List (Text × Json) → List (Option Text)
  | [] => []
  | [(k, v)] => [some (stringText k), some ": "] ++ indented level [] v
  | (k, v) :: rest =>
    [some (stringText k), some ": "] ++ indented level [] v ++ [some (44 :: lineBreak level)] ++
      indentedEntries level rest

end

/-- The value with ordered entries, one item a line, in the pieces in which it
is written. -/
def prettyPieces (v : Json) : List (Option Text) := indented 0 [] (ordered v)

end LineTrace.Json
