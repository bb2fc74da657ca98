/-
LineTrace.Number.Count — how often something happened.

A count is an integer. A document may also write one as a number with a
fraction of zero; it stays such a number, and so does every sum that it takes
part in, because that is how it is written out again.
-/
import LineTrace.Number.Double
import LineTrace.Json.Basic

namespace LineTrace

/-- A count, exact or as a floating-point number. -/
inductive Count where
  | whole (i : Int)
  | inexact (x : Double)
  deriving DecidableEq, Repr

namespace Count

instance : Inhabited Count := ⟨.whole 0⟩

/-- The sum, unless an integer is too large to become a floating-point
number. -/
def add? : Count → Count → Option Count
  | .whole a, .whole b => some (.whole (a + b))
  | .inexact a, .inexact b => some (.inexact (a.add b))
  | .whole a, .inexact b => (Double.ofInt? a).map fun x => .inexact (x.add b)
  | .inexact a, .whole b => (Double.ofInt? b).map fun x => .inexact (a.add x)

/-- The sum; where an integer is too large to take part, no number. -/
def add (a b : Count) : Count := (add? a b).getD (.inexact .nan)

/-- Whether two counts have the same value. -/
def same : Count → Count → Bool
  | .whole a, .whole b => a == b
  | .inexact a, .inexact b => a.eq b
  | .whole a, .inexact b => b.eqInt a
  | .inexact a, .whole b => a.eqInt b

/-- The count as a JSON value. -/
def toJson : Count → Json
  | .whole i => .int i
  | .inexact x => .float x

/-- The count that a JSON value writes. -/
def ofJson? : Json → Option Count
  | .int i => some (.whole i)
  | .float x => some (.inexact x)
  | _ => none

end Count

end LineTrace
