/-
LineTrace.Text.Quoted — a text between quotes, as messages show it.

Single quotes, unless the text holds one and no double quote. The quote, the
backslash and every unprintable code point are escaped: the three common
controls by a letter, the others by two, four or eight hexadecimal digits,
whichever is the least that can write them.
-/
import LineTrace.Text.Printable

namespace LineTrace.Text

/-- A backslash, a letter and the number in `width` hexadecimal digits. -/
def hexEscape (letter : Char) (width : Nat) (c : CodePoint) : Text :=
  [92, letter.toNat] ++ padLeft width 48 (numeral 16 c)

/-- The escape of a code point with the fewest digits. -/
def codeEscape (c : CodePoint) : Text :=
  if c ≤ 0xFF then hexEscape 'x' 2 c
  else if c ≤ 0xFFFF then hexEscape 'u' 4 c
  else hexEscape 'U' 8 c

/-- One code point inside the quotes `quote`. -/
def quotedChar (quote c : CodePoint) : Text :=
  if c = quote ∨ c = 92 then [92, c]
  else if c = 9 then [92, 116]
  else if c = 10 then [92, 110]
  else if c = 13 then [92, 114]
  else if c < 127 ∧ 32 ≤ c then [c]
  else if isPrintable c then [c]
  else codeEscape c

/-- The quote that a text is shown in. -/
def quoteFor (t : Text) : CodePoint := if 39 ∈ t ∧ 34 ∉ t then 34 else 39

/-- The text in quotes. -/
def quoted (t : Text) : Text :=
  let quote := quoteFor t
  quote :: t.flatMap (quotedChar quote) ++ [quote]

end LineTrace.Text
