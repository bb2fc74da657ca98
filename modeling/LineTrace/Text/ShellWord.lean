/-
LineTrace.Text.ShellWord — a text as one word of a shell command line.

A word of safe characters is written as it is. Any other is put between
single quotes, inside which nothing is special; a single quote leaves them,
stands between double quotes and enters them again.
-/
import LineTrace.Text.Basic

namespace LineTrace.Text

/-- A character that no shell treats specially. -/
def isShellSafe (c : CodePoint) : Bool :=
  (48 ≤ c && c ≤ 57) || (65 ≤ c && c ≤ 90) || (97 ≤ c && c ≤ 122) ||
    (Text.ofString "_@%+=:,./-").contains c

/-- The word that a shell reads back as `t`. -/
def shellWord (t : Text) : Text :=
  if t = [] then "''"
  else if t.all isShellSafe then t
  else 39 :: t.flatMap (fun c => if c = 39 then ("'\"'\"'" : Text) else [c]) ++ [39]

/-- The words of a command with blanks between them. -/
def shellCommand (words : List Text) : Text := joinWith [32] (words.map shellWord)

end LineTrace.Text
