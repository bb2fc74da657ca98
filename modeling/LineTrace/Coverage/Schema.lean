/-
LineTrace.Coverage.Schema — what is wrong with a result set.

A result set is a JSON object with the members `schema`, `command`,
`returncode`, `skipped` and `coverage`, and perhaps `unattributed` and
`count_hits`, each of its kind. `problems` lists every violation rather than
the first one: those of an object itself before those of its members, then
all of them in the order of their places, violations of one place in the
order in which they were found.
-/
import LineTrace.Json.Display

namespace LineTrace.Resultset

/-! ## 1. Places -/

/-- One step into a value. -/
inductive Step where
  | member (name : Text)
  | item (index : Nat)
  deriving DecidableEq, Repr

/-- A place in a value: the steps from the outside. -/
abbrev Place := List Step

/-- The order of steps; the members and the items of one value are never
mixed. -/
def Step.le : Step → Step → Bool
  | .member a, .member b => Text.le a b
  | .item a, .item b => a ≤ b
  | .member _, .item _ => true
  | .item _, .member _ => false

/-- The order of places, an outer one before those inside it. -/
def Place.le : Place → Place → Bool
  | [], _ => true
  | _ :: _, [] => false
  | a :: as, b :: bs => if a = b then Place.le as bs else a.le b

/-- A step as a message shows it. -/
def Step.display : Step → Text
  | .member name => Text.quoted name
  | .item i => Text.ofNat i

/-- A place as a message shows it. -/
def Place.display (p : Place) : Text :=
  [91] ++ Text.joinWith ", " (p.map Step.display) ++ [93]

/-! ## 2. Kinds of values -/

/-- The kinds that the members of a result set have. -/
inductive Kind where
  | object
  | array
  | string
  | integer
  | boolean
  deriving DecidableEq, Repr

/-- The name of a kind. -/
def Kind.name : Kind → Text
  | .object => "object"
  | .array => "array"
  | .string => "string"
  | .integer => "integer"
  | .boolean => "boolean"

/-- Whether a value is of a kind. A number without a fraction is an integer
however it is written; a truth value is none. -/
def Kind.holds : Kind → Json → Bool
  | .object, .obj _ => true
  | .array, .arr _ => true
  | .string, .str _ => true
  | .integer, .int _ => true
  | .integer, .float x => x.isIntegral
  | .boolean, .bool _ => true
  | _, _ => false

/-- The mark of this format. -/
def mark : Text := "shellcov.resultset.v1"

/-! ## 3. Problems -/

/-- What is wrong with a value: it is of another kind, a number below the least
one, not the mark, a list of nothing, an object with a name that is none of a
line, without a name that it needs, or with names that it must not have. -/
inductive Violation where
  | otherKind (kind : Kind) (v : Json)
  | belowLeast (least : Int) (v : Json)
  | noMark
  | nothing
  | noLine (name : Text)
  | missing (name : Text)
  | surplus (names : List Text)
  deriving Repr

/-- The wording of a violation. -/
def Violation.message : Violation → Text
  | .otherKind kind v => v.display ++ " is not of type '" ++ kind.name ++ "'"
  | .belowLeast least v => v.display ++ " is less than the minimum of " ++ Text.ofInt least
  | .noMark => Text.quoted mark ++ " was expected"
  | .nothing => "[] should be non-empty"
  | .noLine name => Text.quoted name ++ " does not match '^[0-9]+$'"
  | .missing name => Text.quoted name ++ " is a required property"
  | .surplus names =>
    let verb : Text := if names.length = 1 then "was" else "were"
    "Additional properties are not allowed (" ++
      Text.joinWith ", " ((Text.sorted names).map Text.quoted) ++ " " ++ verb ++ " unexpected)"

/-- Whether the value that the wording shows, if any, can be written. -/
def Violation.isShowable : Violation → Bool
  | .otherKind _ v => v.hasNumerals
  | .belowLeast _ v => v.hasNumerals
  | _ => true

/-- Something wrong at a place. -/
structure Problem where
  place : Place
  violation : Violation
  deriving Repr

/-- The problem with its place. -/
def Problem.message (p : Problem) : Text := p.violation.message ++ " @ " ++ Place.display p.place

/-- A value of another kind. -/
def ofKind (place : Place) (kind : Kind) (v : Json) : List Problem :=
  if kind.holds v then [] else [⟨place, .otherKind kind v⟩]

/-- A number below the least one. -/
def atLeast (place : Place) (least : Int) (v : Json) : List Problem :=
  let less : Bool :=
    match v with
    | .int i => i < least
    | .float x => x.ltInt least
    | _ => false
  if less then [⟨place, .belowLeast least v⟩] else []

/-- An integer that is not below the least one. -/
def integerFrom (least : Int) (place : Place) (v : Json) : List Problem :=
  ofKind place .integer v ++ atLeast place least v

/-! ## 4. Members -/

/-- The problems of every item, with its index. -/
def eachItem (check : Place → Json → List Problem) (place : Place) (items : List Json) :
    List Problem :=
  (items.zipIdx.map fun (v, i) => check (place ++ [.item i]) v).flatten

/-- The problems of every entry, with its name. -/
def eachEntry (check : Place → Json → List Problem) (place : Place)
    (entries : List (Text × Json)) : List Problem :=
  (entries.map fun (k, v) => check (place ++ [.member k]) v).flatten

/-- The mark. -/
def schemaProblems (place : Place) (v : Json) : List Problem :=
  match v with
  | .str t => if t = mark then [] else [⟨place, .noMark⟩]
  | _ => [⟨place, .noMark⟩]

/-- The command: strings, at least one. -/
def commandProblems (place : Place) (v : Json) : List Problem :=
  ofKind place .array v ++
    match v with
    | .arr items =>
      eachItem (fun p w => ofKind p .string w) place items ++
        if items.isEmpty then [⟨place, .nothing⟩] else []
    | _ => []

/-- A name of decimal digits, which a line break may follow. -/
def isLineName (name : Text) : Bool :=
  let body := if name.getLast? = some 10 then name.dropLast else name
  body ≠ [] && body.all Text.isDigit

/-- The lines of a file: names of digits, counts from one on. -/
def linesProblems (place : Place) (v : Json) : List Problem :=
  ofKind place .object v ++
    match v with
    | .obj entries =>
      (entries.filterMap fun (name, _) =>
        if isLineName name then none else some ⟨place, .noLine name⟩) ++
        eachEntry (integerFrom 1) place entries
    | _ => []

/-- The files of a map. -/
def coverageProblems (place : Place) (v : Json) : List Problem :=
  ofKind place .object v ++
    match v with
    | .obj entries => eachEntry linesProblems place entries
    | _ => []

/-- The members a result set may have and what each has to be. -/
def members : List (Text × (Place → Json → List Problem)) := [
  ("schema", schemaProblems),
  ("command", commandProblems),
  ("returncode", fun p v => ofKind p .integer v),
  ("skipped", integerFrom 0),
  ("unattributed", integerFrom 0),
  ("count_hits", fun p v => ofKind p .boolean v),
  ("coverage", coverageProblems)]

/-- The members a result set must have. -/
def required : List Text := ["schema", "command", "returncode", "skipped", "coverage"]

/-! ## 5. Result sets -/

/-- Members that must be there and are not. -/
def missingProblems (entries : List (Text × Json)) : List Problem :=
  required.filterMap fun name =>
    match Table.get? name entries with
    | some _ => none
    | none => some ⟨[], .missing name⟩

/-- Members that are there and must not be. -/
def surplusProblems (entries : List (Text × Json)) : List Problem :=
  let surplus := (Table.keys entries).filter fun name => (Table.get? name members).isNone
  if surplus = [] then [] else [⟨[], .surplus surplus⟩]

/-- What is wrong with the members that are there. -/
def memberProblems (entries : List (Text × Json)) : List Problem :=
  (members.map fun (name, check) =>
    match Table.get? name entries with
    | some v => check [.member name] v
    | none => []).flatten

/-- Everything that is wrong, as it is found. -/
def found (v : Json) : List Problem :=
  ofKind [] .object v ++
    match v with
    | .obj entries => missingProblems entries ++ surplusProblems entries ++ memberProblems entries
    | _ => []

/-- Everything that is wrong, in the order of the places. -/
def problems (v : Json) : List Problem := (found v).mergeSort fun a b => Place.le a.place b.place

/-- The messages of everything that is wrong. -/
def errors (v : Json) : List Text := (problems v).map Problem.message

end LineTrace.Resultset
