/-
LineTrace.Command.Lookup — which file a command's name means.

A name with a slash is a path and is taken as it stands; any other is looked
for in the directories of a search path, the first executable file winning. A
name that means no executable file is refused with a hint what to do about it.
-/
import LineTrace.Failure.Basic

namespace LineTrace.Command

/-- The variable that holds the search path. -/
def searchVariable : Text := "PATH"

/-- The colon between the directories of a search path. -/
def colon : CodePoint := 58

/-- The directories of a search path, each once; an empty search path has
none, an empty part of one is the working directory. -/
def directoriesOf (searchPath : Text) : List Text :=
  if searchPath = [] then [] else Text.dedup (Text.splitAt1 colon searchPath)

/-- Whether a path means a file that may be executed. -/
def isCommand (fs : FileSystem) (p : Text) : Bool := fs.isFile p && fs.isExecutable p

/-- The first executable file of a name in the directories of a search
path. -/
def lookUp? (fs : FileSystem) (searchPath name : Text) : Option Text :=
  ((directoriesOf searchPath).map fun d => Path.join d name).find? (isCommand fs)

/-- The refusal of a name. -/
def refusal (message : Text) (hint : Option Text) : Fault := .failure ⟨.spawn, message, hint⟩

/-- The refusal of a name that means nothing. -/
def missing (name : Text) (hint : Option Text) : Fault :=
  refusal ("command not found: " ++ name) hint

/-- The path of the file that a command's name means. -/
def resolve (fs : FileSystem) (searchPath name : Text) : Except Fault Text :=
  if Path.slash ∈ name then
    let candidate := Path.tidy name
    match fs.node candidate with
    | .error .nameTooLong => .error (.file ⟨.nameTooLong, [candidate]⟩)
    | .error _ => .error (missing name none)
    | .ok _ =>
      if isCommand fs candidate then .ok candidate
      else .error (refusal ("permission denied: " ++ name) (some "check the file's execute bit"))
  else
    match lookUp? fs searchPath name with
    | some p => .ok p
    | none => .error (missing name (some "is it on PATH?"))

end LineTrace.Command
