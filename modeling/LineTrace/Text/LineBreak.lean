/-
LineTrace.Text.LineBreak — line breaks of other systems.

A carriage return, a line feed and the two in this order each end one line;
`unifyBreaks` writes all of them as a line feed. A text without carriage
returns stays as it is.
-/
import LineTrace.Text.Basic

namespace LineTrace.Text

/-- The text with every line break of any system as a line feed; `returned`
says that a carriage return came just before. -/
def unifyBreaksFrom (returned : Bool) : Text → Text
  | [] => []
  | c :: rest =>
    if c = 13 then 10 :: unifyBreaksFrom true rest
    else if c = 10 ∧ returned then unifyBreaksFrom false rest
    else c :: unifyBreaksFrom false rest

/-- The text with every line break of any system as a line feed. -/
def unifyBreaks (t : Text) : Text := unifyBreaksFrom false t

end LineTrace.Text
