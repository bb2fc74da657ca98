/-
LineTrace.Json.Basic — JSON values.

Integers are unbounded and apart from floating-point numbers, as a document
writes them apart. The entries of an object keep the order in which their
names first appeared.
-/
import LineTrace.Number.Double
import LineTrace.Table
import LineTrace.Text.Integer

namespace LineTrace

/-- A JSON value. -/
inductive Json where
  | null
  | bool (b : Bool)
  | int (i : Int)
  | float (x : Double)
  | str (t : Text)
  | arr (items : List Json)
  | obj (entries : List (Text × Json))
  deriving Repr

namespace Json

instance : Inhabited Json := ⟨.null⟩

/-- The value of a member of an object. -/
def field? (name : Text) : Json → Option Json
  | .obj entries => Table.get? name entries
  | _ => none

/-! ## Integers -/

mutual

/-- Whether every integer in the value has few enough digits to be written. -/
def hasNumerals : Json → Bool
  | .int i => Text.hasNumeral i
  | .arr items => itemsHaveNumerals items
  | .obj entries => entriesHaveNumerals entries
  | _ => true

/-- Whether every integer in the items has. -/
def itemsHaveNumerals : List Json → Bool
  | [] => true
  | v :: rest => hasNumerals v && itemsHaveNumerals rest

/-- Whether every integer in the entries has. -/
def entriesHaveNumerals : List (Text × Json) → Bool
  | [] => true
  | (_, v) :: rest => hasNumerals v && entriesHaveNumerals rest

end

/-! ## Equality -/

mutual

/-- Whether two values are the same up to the order of object entries, a
number being the same as another of equal value. -/
def same : Json → Json → Bool
  | .null, .null => true
  | .bool a, .bool b => a == b
  | .int a, .int b => a == b
  | .float a, .float b => a.eq b
  | .int a, .float b => b.eqInt a
  | .float a, .int b => a.eqInt b
  | .str a, .str b => a == b
  | .arr a, .arr b => sameItems a b
  | .obj a, .obj b => a.length == b.length && sameEntries a b
  | _, _ => false

/-- Item by item. -/
def sameItems : List Json → List Json → Bool
  | [], [] => true
  | a :: as, b :: bs => same a b && sameItems as bs
  | _, _ => false

/-- Every entry has an equal one of the same name on the other side. -/
def sameEntries : List (Text × Json) → List (Text × Json) → Bool
  | [], _ => true
  | (k, v) :: rest, other =>
    (match Table.get? k other with
     | some w => same v w
     | none => false) && sameEntries rest other

end

end Json

end LineTrace
