/-
LineTrace.FileSystem.Basic — a file system as a value.

Nodes are stored under their components from the root. A path is looked up
component by component, each step asking that what it leaves is a directory,
so a missing directory and a file in a directory's place are told apart.
Operations give the next file system or the cause of the refusal; nothing
changes where one is refused, which is what statements about clean-up are
made of.

There are no links, and the only permission that matters is the execute bit:
whoever runs this may read and write everything.
-/
import LineTrace.Path.Basic
import LineTrace.Table
import LineTrace.Text.Quoted
import LineTrace.Text.Utf8

namespace LineTrace

/-! ## 1. Refusals -/

/-- Why an operation on files is refused. -/
inductive FileCause where
  | notFound
  | tooManyArguments
  | badDescriptor
  | execFormat
  | denied
  | notDirectory
  | isDirectory
  | nameTooLong
  | overflow
  | nullByte
  | unwritableName (fault : Text.EncodeFault)
  deriving DecidableEq, Repr

/-- The number of a cause. -/
def FileCause.number : FileCause → Nat
  | .notFound => 2
  | .tooManyArguments => 7
  | .execFormat => 8
  | .badDescriptor => 9
  | .denied => 13
  | .notDirectory => 20
  | .isDirectory => 21
  | .nameTooLong => 36
  | .overflow => 75
  | .nullByte => 0
  | .unwritableName _ => 0

/-- The wording of a cause. -/
def FileCause.text : FileCause → Text
  | .notFound => "No such file or directory"
  | .tooManyArguments => "Argument list too long"
  | .execFormat => "Exec format error"
  | .badDescriptor => "Bad file descriptor"
  | .denied => "Permission denied"
  | .notDirectory => "Not a directory"
  | .isDirectory => "Is a directory"
  | .nameTooLong => "File name too long"
  | .overflow => "Value too large for defined data type"
  | .nullByte => "embedded null byte"
  | .unwritableName _ => "surrogates not allowed"

/-- A refused operation: the cause and the paths it was about. -/
structure FileError where
  cause : FileCause
  paths : List Text
  deriving DecidableEq, Repr

/-- The paths of a refused operation, after a colon. -/
def FileError.pathsText (paths : List Text) : Text :=
  if paths = [] then [] else ": " ++ Text.joinWith " -> " (paths.map Text.quoted)

/-- The wording of a refused operation. -/
def FileError.message (e : FileError) : Text :=
  "[Errno " ++ Text.ofNat e.cause.number ++ "] " ++ e.cause.text ++ FileError.pathsText e.paths

/-! ## 2. Nodes and places -/

/-- What stands at a place. -/
inductive Node where
  | file (content : Bytes) (mode : Nat)
  | directory
  deriving DecidableEq, Repr

/-- A place: its components from the root, the last one first. -/
abbrev Location := List Text

/-- The nodes below the root, the working and the temporary directory, and how
many temporary files have been made. -/
structure FileSystem where
  nodes : Table Location Node
  cwd : Text
  tmp : Text
  serial : Nat

namespace FileSystem

/-- The node at a place; the root is a directory. -/
def nodeAt (fs : FileSystem) (l : Location) : Option Node :=
  if l = [] then some .directory else Table.get? l fs.nodes

/-- The most bytes a component may have. -/
def nameLimit : Nat := 255

/-- A name that can stand in a directory. -/
def checkName (name : Text) : Except FileCause Unit :=
  if nameLimit < (Text.encodeEscaped name).length then .error .nameTooLong else .ok ()

/-- The place that components lead to from `here`. -/
def walk (fs : FileSystem) (here : Location) : List Text → Except FileCause Location
  | [] => .ok here
  | c :: rest =>
    match fs.nodeAt here with
    | none => .error .notFound
    | some (.file _ _) => .error .notDirectory
    | some .directory =>
      if c = Path.dotDot then walk fs here.tail rest
      else
        match checkName c with
        | .error e => .error e
        | .ok () => walk fs (c :: here) rest

/-- A path that asks for a directory by its end. -/
def asksDirectory (p : Text) : Bool :=
  match p.reverse with
  | 47 :: _ => true
  | 46 :: 47 :: _ => true
  | _ => false

/-- The bytes that a path has to stay below. -/
def pathLimit : Nat := 4096

/-- The place that a path means. -/
def locate (fs : FileSystem) (p : Text) : Except FileCause Location :=
  if p = [] then .error .notFound
  else if 0 ∈ p then .error .nullByte
  else
    match Text.encode .utf8Escaped p with
    | .error fault => .error (.unwritableName fault)
    | .ok bytes =>
      if pathLimit ≤ bytes.length then .error .nameTooLong else
      match fs.walk [] (Path.components (Path.join fs.cwd p)) with
      | .error e => .error e
      | .ok l =>
        match fs.nodeAt l with
        | some (.file _ _) => if asksDirectory p then .error .notDirectory else .ok l
        | _ => .ok l

/-- The node that a path means. -/
def node (fs : FileSystem) (p : Text) : Except FileCause Node :=
  match fs.locate p with
  | .error e => .error e
  | .ok l =>
    match fs.nodeAt l with
    | some n => .ok n
    | none => .error .notFound

/-! ## 3. Questions -/

/-- Whether anything stands there. -/
def pathExists (fs : FileSystem) (p : Text) : Bool := (fs.node p).isOk

/-- Whether a file stands there. -/
def isFile (fs : FileSystem) (p : Text) : Bool :=
  match fs.node p with
  | .ok (.file _ _) => true
  | _ => false

/-- Whether a directory stands there. -/
def isDirectory (fs : FileSystem) (p : Text) : Bool :=
  match fs.node p with
  | .ok .directory => true
  | _ => false

/-- Whether an execute bit is set. -/
def mayExecute (mode : Nat) : Bool := mode % 2 = 1 || mode / 8 % 2 = 1 || mode / 64 % 2 = 1

/-- Whether what stands there may be executed or entered. -/
def isExecutable (fs : FileSystem) (p : Text) : Bool :=
  match fs.node p with
  | .ok (.file _ mode) => mayExecute mode
  | .ok .directory => true
  | .error _ => false

/-- The places below a directory, as components from there, with their
nodes. -/
def below (fs : FileSystem) (l : Location) : List (List Text × Node) :=
  fs.nodes.filterMap fun (m, n) =>
    let path := m.reverse
    let base := l.reverse
    if base.isPrefixOf path && base.length < path.length then some (path.drop base.length, n)
    else none

/-- The names of the files below a directory, sorted. -/
def fileNames (fs : FileSystem) (directory : Text) : List Text :=
  let names := (fs.below (Path.components (Path.join fs.cwd directory)).reverse).filterMap
    fun (path, n) =>
      match n with
      | .file _ _ => some (Text.joinWith [Path.slash] path)
      | .directory => none
  Text.sorted names

/-! ## 4. Changes -/

/-- The file system with a node at a place. -/
def setNode (fs : FileSystem) (l : Location) (n : Node) : FileSystem :=
  { fs with nodes := Table.put l n fs.nodes }

/-- The file system with nothing at a place. -/
def unsetNode (fs : FileSystem) (l : Location) : FileSystem :=
  { fs with nodes := Table.erase l fs.nodes }

/-- The file system in which a directory stands at a place and above it,
unless something else does. -/
def withDirectories (fs : FileSystem) : Location → FileSystem
  | [] => fs
  | name :: above =>
    let fs := withDirectories fs above
    if (fs.nodeAt (name :: above)).isSome then fs else fs.setNode (name :: above) .directory

/-- The place that a path means if `..` occurs in it nowhere. -/
def locationOf (fs : FileSystem) (p : Text) : Location :=
  (Path.components (Path.join fs.cwd p)).reverse

/-- The file system with a node at a path, and the directories that lead
there. -/
def install (fs : FileSystem) (p : Text) (n : Node) : FileSystem :=
  let l := fs.locationOf p
  (fs.withDirectories l.tail).setNode l n

/-- The file system with a directory at a path. -/
def installDirectory (fs : FileSystem) (p : Text) : FileSystem :=
  fs.withDirectories (fs.locationOf p)

/-- The bytes of a file. -/
def bytesOf (fs : FileSystem) (p : Text) : Except FileError Bytes :=
  match fs.node p with
  | .ok (.file content _) => .ok content
  | .ok .directory => .error ⟨.isDirectory, [p]⟩
  | .error e => .error ⟨e, [p]⟩

/-- The place where a file can be put: its directory is there, and no
directory stands in its place. -/
def filePlace (fs : FileSystem) (p : Text) : Except FileCause Location :=
  match fs.locate p with
  | .error e => .error e
  | .ok l =>
    match fs.nodeAt l with
    | some .directory => .error .isDirectory
    | some (.file _ _) => .ok l
    | none =>
      match fs.nodeAt l.tail with
      | some .directory => .ok l
      | some (.file _ _) => .error .notDirectory
      | none => .error .notFound

/-- The file system with a file's whole content, the file made if need be. -/
def writeFile (fs : FileSystem) (p : Text) (content : Bytes) : Except FileError FileSystem :=
  match fs.filePlace p with
  | .error e => .error ⟨e, [p]⟩
  | .ok l =>
    match fs.nodeAt l with
    | some (.file _ mode) => .ok (fs.setNode l (.file content mode))
    | _ => .ok (fs.setNode l (.file content 0o644))

/-- The file system with bytes added to a file that is there. -/
def appendFile (fs : FileSystem) (p : Text) (content : Bytes) : FileSystem :=
  match fs.locate p with
  | .error _ => fs
  | .ok l =>
    match fs.nodeAt l with
    | some (.file old mode) => fs.setNode l (.file (old ++ content) mode)
    | _ => fs

/-- The file system without a file. -/
def remove (fs : FileSystem) (p : Text) : Except FileError FileSystem :=
  match fs.locate p with
  | .error e => .error ⟨e, [p]⟩
  | .ok l =>
    match fs.nodeAt l with
    | some (.file _ _) => .ok (fs.unsetNode l)
    | some .directory => .error ⟨.isDirectory, [p]⟩
    | none => .error ⟨.notFound, [p]⟩

/-- The file system in which the file at `source` stands at `target`, in place
of any file there. -/
def replace (fs : FileSystem) (source target : Text) : Except FileError FileSystem :=
  let refuse (e : FileCause) : Except FileError FileSystem := .error ⟨e, [source, target]⟩
  match fs.locate source with
  | .error e => refuse e
  | .ok l =>
    match fs.nodeAt l, fs.filePlace target with
    | some n, .ok m => .ok ((fs.unsetNode l).setNode m n)
    | some _, .error e => refuse e
    | none, _ => refuse .notFound

/-- The file system in which what stands at `source`, and everything below it,
stands at `target`, where nothing has stood. -/
def rename (fs : FileSystem) (source target : Text) : Except FileError FileSystem :=
  let refuse (e : FileCause) : Except FileError FileSystem := .error ⟨e, [source, target]⟩
  match fs.locate source, fs.filePlace target with
  | .error e, _ => refuse e
  | .ok _, .error e => refuse e
  | .ok l, .ok m =>
    let renamed (n : Location) : Location :=
      if l.isSuffixOf n then n.take (n.length - l.length) ++ m else n
    match fs.nodeAt l with
    | none => refuse .notFound
    | some _ => .ok { fs with nodes := fs.nodes.map fun (n, node) => (renamed n, node) }

/-! ## 5. Temporary files -/

/-- Eight digits that make a name unique. -/
def serialText (n : Nat) : Text := Text.padLeft 8 48 (Text.ofNat n)

/-- The next serial number whose name is free in a directory; of more numbers
than there are nodes one is. -/
def freeSerial (fs : FileSystem) (name : Nat → Text) : Nat → Nat → Nat
  | 0, n => n
  | fuel + 1, n => if fs.pathExists (name n) then freeSerial fs name fuel (n + 1) else n

/-- A new empty file in a directory, of a name that is free, and its absolute
path. The directory's path is made normal first. -/
def makeTemporary (fs : FileSystem) (directory before after : Text) :
    Except FileError (FileSystem × Text) :=
  let name (n : Nat) :=
    Path.join (Path.absolute fs.cwd directory) (before ++ serialText n ++ after)
  let n := fs.freeSerial name (fs.nodes.length + 1) fs.serial
  match fs.filePlace (name n) with
  | .error e => .error ⟨e, [name n]⟩
  | .ok l => .ok ({ fs.setNode l (.file [] 0o600) with serial := n + 1 }, name n)

end FileSystem

end LineTrace
