/-
LineTrace.Shell.Machine — a host that runs scripts.

`machine` starts a command as a system does: in the directory asked for, the
first word meaning a file as it stands where it has a slash, and otherwise
looked for on the search path of the command's own variables. A file that
cannot be run there is passed over for the next; if none can be run, the
refusal is the first that was not about something missing, or the last.
-/
import LineTrace.Command.Launch
import LineTrace.Command.Lookup
import LineTrace.Shell.Evaluation

namespace LineTrace.Shell

/-- How far evaluation goes. -/
def patience : Nat := 20000

/-- The search path of a command that has none among its variables. -/
def standardSearchPath : Text := "/bin:/usr/bin"

/-- The paths that a command's name may mean, in the order in which they are
tried. -/
def candidatesOf (environment : Environment) (name : Text) : List Text :=
  if Path.slash ∈ name then [name]
  else
    let path := (Table.get? Command.searchVariable environment).getD standardSearchPath
    (Text.splitAt1 Command.colon path).map fun d => Path.join d name

/-- Whether a refusal says that something is missing. -/
def saysMissing : FileCause → Bool
  | .notFound => true
  | .notDirectory => true
  | _ => false

/-- The bytes that one word or variable handed to a program may take. -/
def wordLimit : Nat := 131072

/-- The bytes that everything handed to a program may take. -/
def handoverLimit : Nat := 2097152

/-- The bytes that a text takes, with the one that ends it. -/
def room (t : Text) : Nat := (Text.encodeEscaped t).length + 1

/-- What is handed to a program, word by word: its words, and its variables
with their names. -/
def handover (environment : Environment) (words : List Text) : List Text :=
  words ++ environment.map fun (n, v) => n ++ [61] ++ v

/-- Whether a program at a path can be handed these texts; there is a pointer
of eight bytes to each, and the path is handed over with them. -/
def fits (path : Text) (texts : List Text) : Bool :=
  let rooms := texts.map room
  rooms.all (· ≤ wordLimit) &&
    rooms.foldl (fun n r => n + r + 8) (room path) ≤ handoverLimit

/-- A program at a path, run if it can be handed what it is to get. -/
def attempt (fs : FileSystem) (environment : Environment) (name : Text) (args : List Text)
    (path : Text) : Except FileCause Run :=
  if Command.isCommand fs path ∧ ¬ fits path (handover environment (name :: args)) then
    .error .tooManyArguments
  else execute patience fs environment [] path name args

/-- The first of the candidates that runs, or the refusal; `kept` is the first
refusal so far that was not about something missing. -/
def runFirst (fs : FileSystem) (environment : Environment) (name : Text) (args : List Text)
    (kept : Option FileCause) (last : FileCause) : List Text → Except FileCause Run
  | [] => .error (kept.getD last)
  | path :: rest =>
    match attempt fs environment name args path with
    | .ok run => .ok run
    | .error e =>
      let kept := if saysMissing e then kept else kept.or (some e)
      runFirst fs environment name args kept e rest

/-- The native programs. -/
def programs : List Text :=
  let others : List Text := ["env", "printenv"]
  interpreters.map Prod.fst ++ others ++ utilityNames

/-- The directories in which the native programs stand. -/
def programDirectories : List Text := ["/usr/bin", "/bin"]

/-- The file system with the native programs in their directories, and the
device that swallows everything, in which nothing is ever found. -/
def installed (fs : FileSystem) : FileSystem :=
  let fs := fs.install nullDevice (.file [] 0o666)
  programDirectories.foldl (fun fs d =>
    programs.foldl (fun fs p =>
      fs.install (Path.join d p) (.file (nativeMark ++ Text.encodeEscaped p) 0o755)) fs) fs

/-- The fault in a text that has to be given to the system. -/
def unspeakable? (t : Text) : Option Fault :=
  match Text.encode .utf8Escaped t with
  | .error fault => some (.encode fault)
  | .ok _ => if 0 ∈ t then some (.badValue FileCause.nullByte.text) else none

/-- The fault in a variable's name. -/
def unspeakableName? (t : Text) : Option Fault :=
  if 61 ∈ t then some (.badValue "illegal environment variable name") else none

/-- The file system seen from the directory in which a command starts. -/
def enter (fs : FileSystem) : Option Text → Except Fault FileSystem
  | none => .ok fs
  | some d =>
    match fs.node d with
    | .error e => .error (.file ⟨e, [d]⟩)
    | .ok (.file _ _) => .error (.file ⟨.notDirectory, [d]⟩)
    | .ok .directory => .ok { fs with cwd := Path.absolute fs.cwd d }

/-- The host on which scripts run. -/
def machine : Command.Host := fun fs launch =>
  match launch.words with
  | [] => .error Command.noWords
  | name :: args =>
    let spoken := launch.environment.flatMap (fun (n, v) => [n, v]) ++
      launch.directory.toList ++ name :: args
    match spoken.findSome? unspeakable?, (Table.keys launch.environment).findSome? unspeakableName? with
    | some e, _ => .error e
    | none, some e => .error e
    | none, none =>
      match enter fs launch.directory with
      | .error e => .error e
      | .ok fs =>
        match runFirst fs launch.environment name args none .notFound
            (candidatesOf launch.environment name) with
        | .error e => .error (.file ⟨e, [name]⟩)
        | .ok (effect, _) =>
          .ok ⟨effect.status, effect.output, effect.errors, effect.milliseconds⟩

end LineTrace.Shell
