/-
LineTrace.Json.Display — JSON values as messages show them.

Not JSON: texts stand in the quotes of `Text.quoted`, and the names of truth
values and of the missing value are capitalised.
-/
import LineTrace.Json.Basic
import LineTrace.Number.Shortest
import LineTrace.Text.Quoted

namespace LineTrace.Json

mutual

/-- The value as a message shows it. -/
def display : Json → Text
  | .null => "None"
  | .bool b => if b then "True" else "False"
  | .int i => Text.ofInt i
  | .float x => x.floatText
  | .str t => Text.quoted t
  | .arr items => [91] ++ displayItems items ++ [93]
  | .obj entries => [123] ++ displayEntries entries ++ [125]

/-- The items with commas between them. -/
def displayItems : List Json → Text
  | [] => []
  | [v] => display v
  | v :: rest => display v ++ ", " ++ displayItems rest

/-- The entries with commas between them. -/
def displayEntries : List (Text × Json) → Text
  | [] => []
  | [(k, v)] => Text.quoted k ++ ": " ++ display v
  | (k, v) :: rest => Text.quoted k ++ ": " ++ display v ++ ", " ++ displayEntries rest

end

/-- The value as it stands in running text: a text without quotes. -/
def shown : Json → Text
  | .str t => t
  | v => display v

end LineTrace.Json
