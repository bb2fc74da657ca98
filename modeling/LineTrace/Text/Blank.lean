/-
LineTrace.Text.Blank — blanks and decimal digits of all scripts.

Stripping a text removes every code point of Unicode 14 that is white space
or separates lines, paragraphs or (the four ASCII controls before the space)
units. A number is read more strictly: those four controls are no blanks
around it.
-/
import LineTrace.Text.Basic

namespace LineTrace.Text

/-! ## 1. Blanks -/

/-- The runs of blank code points, first and last, in order. -/
def blankRuns : List (Nat × Nat) := [
  (9, 13), (28, 32), (133, 133), (160, 160), (5760, 5760), (8192, 8202), (8232, 8233),
  (8239, 8239), (8287, 8287), (12288, 12288)]

/-- A code point that stripping removes. -/
def isBlank (c : CodePoint) : Bool :=
  blankRuns.any fun (first, last) => first ≤ c && c ≤ last

/-- The text without blanks at its two ends. -/
def strip (t : Text) : Text := stripWhere isBlank t

/-- A blank that may stand around a number. -/
def isNumberBlank (c : CodePoint) : Bool := isBlank c && !(28 ≤ c && c ≤ 31)

/-! ## 2. Decimal digits -/

/-- The zeros of the scripts of Unicode 14; the nine digits that follow each
have the values one to nine. -/
def scriptZeros : List Nat := [
  48, 1632, 1776, 1984, 2406, 2534, 2662, 2790, 2918, 3046, 3174, 3302, 3430, 3558, 3664, 3792,
  3872, 4160, 4240, 6112, 6160, 6470, 6608, 6784, 6800, 6992, 7088, 7232, 7248, 42528, 43216,
  43264, 43472, 43504, 43600, 44016, 65296, 66720, 68912, 69734, 69872, 69942, 70096, 70384,
  70736, 70864, 71248, 71360, 71472, 71904, 72016, 72784, 73040, 73120, 92768, 92864, 93008,
  120782, 120792, 120802, 120812, 120822, 123200, 123632, 125264, 130032]

/-- The value of a decimal digit of any script. -/
def digitValue? (c : CodePoint) : Option Nat :=
  (scriptZeros.find? fun z => z ≤ c && c ≤ z + 9).map fun z => c - z

end LineTrace.Text
