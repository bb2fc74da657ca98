/-
LineTrace.Main — the program.

Everything that is decided is decided by `CommandLine.outcome`. Here the files
that the words and the variables name are read beforehand, and the files that
differ afterwards are written. Commands are started on the machine of
`Shell.machine`, which knows those files and its own programs.
-/
import LineTrace.CommandLine.App
import LineTrace.Shell.Machine

open LineTrace

/-- Text from the system. -/
def systemText (s : String) : Text := Text.ofString s

/-- Text for the system. -/
def systemString (t : Text) : String := String.ofList (t.map Char.ofNat)

/-- The variables that the program asks for, as far as they are set. -/
def readVariables : IO Environment := do
  let names := overrides.map Override.variable_ ++
    [Command.searchVariable, Command.startupVariable, CommandLine.configVariable]
  let found ← names.mapM fun n => do
    let v ← IO.getEnv (systemString n)
    return v.map fun v => (n, systemText v)
  return found.filterMap id

/-- The texts that may name files: the words, the values attached to them, and
the values of variables. -/
def mentioned (words : List Text) (env : Environment) : List Text :=
  let attached := words.filterMap fun w => (CommandLine.splitEquals w).2
  (words ++ attached ++ env.map Prod.snd).filter (· ≠ [])

/-- The mode of a file of some content: a script may be executed. -/
def modeOf (content : Bytes) : Nat :=
  if Shell.scriptMark.isPrefixOf content then 0o755 else 0o644

/-- The file system with what stands at a path outside: a directory, or a file
and its backups in a directory. -/
def snapshot (fs : FileSystem) (p : Text) : IO FileSystem := do
  let here ← IO.currentDir
  let full := Path.absolute fs.cwd p
  let outside := here / systemString full
  let above := here / systemString (Path.parent full)
  if ← outside.isDir then return fs.installDirectory full
  if !(← above.isDir) then return fs
  let lead := systemString (Path.fileName full)
  let entries := (← above.readDir).toList.filter fun e =>
    e.fileName = lead || (lead ++ ".").isPrefixOf e.fileName
  entries.foldlM (fun fs e => do
    if ← e.path.isDir then return fs
    let content := (← IO.FS.readBinFile e.path).toList
    return fs.install (Path.join (Path.parent full) (systemText e.fileName))
      (.file content (modeOf content))) (fs.installDirectory (Path.parent full))

/-- The files of a file system, by path. -/
def filesOf (fs : FileSystem) : List (Text × Bytes) :=
  fs.nodes.filterMap fun (l, n) =>
    match n with
    | .file content _ => some (Path.slash :: Text.joinWith [Path.slash] l.reverse, content)
    | .directory => none

/-- What differs between two file systems, made to differ outside. -/
def writeBack (before after : FileSystem) : IO Unit := do
  let old := filesOf before
  let new := filesOf after
  for (p, content) in new do
    if Table.get? p old ≠ some content then
      IO.FS.writeBinFile (systemString p) ⟨content.toArray⟩
  for (p, _) in old do
    if (Table.get? p new).isNone then
      IO.FS.removeFile (systemString p)

/-- Digits that nobody foresees. -/
def randomDigits : IO (Nat → Except Fault Text) := do
  let random ← IO.getRandomBytes 32
  let digits := random.toList.flatMap fun b => [Text.digit (b.toNat / 16), Text.digit (b.toNat % 16)]
  return fun n => .ok (digits.take n)

/-- The seconds since 1970, as the time of a new file. -/
def currentSeconds : IO Int := do
  let (_, path) ← IO.FS.createTempFile
  let seconds := (← path.metadata).modified.sec
  IO.FS.removeFile path
  return seconds

/-- The bytes that there is taken to be room for at a time. -/
def roomForBytes : Nat := 34359738368

/-- The program. -/
def main (args : List String) : IO UInt32 := do
  let words := args.map systemText
  let env ← readVariables
  let here ← IO.currentDir
  let empty : FileSystem :=
    Shell.installed ⟨[], systemText here.toString, systemText "/tmp", 0⟩
  let empty := (empty.installDirectory empty.cwd).installDirectory empty.tmp
  let fs ← (mentioned words env).foldlM snapshot empty
  let digits ← randomDigits
  let surroundings : Surroundings :=
    ⟨env, digits, roomForBytes, Shell.machine, Command.hostSpawner Shell.machine env none⟩
  let outcome := CommandLine.outcome surroundings true (timestamp (← currentSeconds)) words fs
  writeBack fs outcome.terminal.files
  IO.print (systemString outcome.terminal.output)
  IO.eprint (systemString outcome.terminal.errors)
  return outcome.status.toNat.toUInt32
