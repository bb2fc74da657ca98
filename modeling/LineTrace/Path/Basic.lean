/-
LineTrace.Path.Basic — slash-separated paths as texts.

A path is a number of leading slashes that count (none, one, or exactly two)
and components; empty components and `.` say nothing. Two readings differ in
`..`: `normalize` lets it cancel the component before it, which is what makes
two spellings of one place equal as texts, and `tidy` keeps it, because a
directory may be a link. Neither asks a file system anything.
-/
import LineTrace.Text.Basic

namespace LineTrace.Path

/-! ## 1. Parts -/

/-- The slash. -/
def slash : CodePoint := 47

/-- A path that starts at the root. -/
def isAbsolute (p : Text) : Bool := p.head? == some slash

/-- How many leading slashes count: two are kept, three or more are one. -/
def rootSlashes (p : Text) : Nat :=
  match (p.takeWhile (· == slash)).length with
  | 0 => 0
  | 2 => 2
  | _ => 1

/-- The components that name something. -/
def components (p : Text) : List Text :=
  (Text.splitAt1 slash p).filter fun c => c ≠ [] ∧ c ≠ [46]

/-- The path of leading slashes and components; a path of nothing is the
current directory. -/
def assemble (slashes : Nat) (parts : List Text) : Text :=
  match List.replicate slashes slash ++ Text.joinWith [slash] parts with
  | [] => [46]
  | p => p

/-! ## 2. Two spellings -/

/-- The two dots. -/
def dotDot : Text := [46, 46]

/-- The next component on top of those before it (the last first): `..` takes
one away, is dropped at the root, and stays where there is nothing to take. -/
def climb (rooted : Bool) (above : List Text) (part : Text) : List Text :=
  if part = dotDot then
    match above with
    | [] => if rooted then [] else [dotDot]
    | last :: rest => if last = dotDot then dotDot :: above else rest
  else part :: above

/-- The path with `..` worked out. -/
def normalize (p : Text) : Text :=
  let slashes := rootSlashes p
  assemble slashes ((components p).foldl (climb (0 < slashes)) []).reverse

/-- The path without empty and `.` components. -/
def tidy (p : Text) : Text := assemble (rootSlashes p) (components p)

/-! ## 3. Combining and taking apart -/

/-- `p` seen from directory `d`. -/
def join (d p : Text) : Text :=
  if isAbsolute p then p
  else if d = [] ∨ d.getLast? = some slash then d ++ p
  else d ++ slash :: p

/-- The absolute normal path that `p` means in working directory `cwd`. -/
def absolute (cwd p : Text) : Text := normalize (join cwd p)

/-- The tidy path without its last component. -/
def parent (p : Text) : Text := assemble (rootSlashes p) (components p).dropLast

/-- The last component, empty where there is none. -/
def fileName (p : Text) : Text := (components p).getLast?.getD []

end LineTrace.Path
