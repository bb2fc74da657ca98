/-
LineTrace.Config.Setting — values of configuration settings.

A setting comes out of a configuration file, out of the environment or from a
caller, so it may be of any kind; what kind it has to be is checked later. A
kind has the name under which a complaint mentions it.
-/
import LineTrace.Json.Basic
import LineTrace.Number.Double
import LineTrace.Table

namespace LineTrace

/-- Points in time that a configuration file can write; nothing is done with
them but to refuse them. -/
inductive Moment where
  | date
  | time
  | dateAndTime
  deriving DecidableEq, Repr

/-- The value of a setting. -/
inductive Setting where
  | absent
  | flag (b : Bool)
  | int (i : Int)
  | float (x : Double)
  | text (t : Text)
  | list (items : List Setting)
  | table (entries : List (Text × Setting))
  | moment (m : Moment)
  deriving Repr

namespace Setting

instance : Inhabited Setting := ⟨.absent⟩

/-- The name of a setting's kind. -/
def kindName : Setting → Text
  | .absent => "NoneType"
  | .flag _ => "bool"
  | .int _ => "int"
  | .float _ => "float"
  | .text _ => "str"
  | .list _ => "list"
  | .table _ => "dict"
  | .moment .date => "date"
  | .moment .time => "time"
  | .moment .dateAndTime => "datetime"

mutual

/-- The setting of a JSON value. -/
def ofJson : Json → Setting
  | .null => .absent
  | .bool b => .flag b
  | .int i => .int i
  | .float x => .float x
  | .str t => .text t
  | .arr items => .list (ofItems items)
  | .obj entries => .table (ofEntries entries)

/-- The settings of JSON values. -/
def ofItems : List Json → List Setting
  | [] => []
  | v :: rest => ofJson v :: ofItems rest

/-- The named settings of an object. -/
def ofEntries : List (Text × Json) → List (Text × Setting)
  | [] => []
  | (name, v) :: rest => (name, ofJson v) :: ofEntries rest

end

mutual

/-- The setting as a JSON value; points in time have none. -/
def toJson : Setting → Json
  | .absent => .null
  | .flag b => .bool b
  | .int i => .int i
  | .float x => .float x
  | .text t => .str t
  | .list items => .arr (toItems items)
  | .table entries => .obj (toEntries entries)
  | .moment _ => .null

/-- Settings as JSON values. -/
def toItems : List Setting → List Json
  | [] => []
  | v :: rest => toJson v :: toItems rest

/-- Named settings as the members of an object. -/
def toEntries : List (Text × Setting) → List (Text × Json)
  | [] => []
  | (name, v) :: rest => (name, toJson v) :: toEntries rest

end

end Setting

end LineTrace
