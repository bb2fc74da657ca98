/-
LineTrace.Log.Rotating — a log file that is kept short.

A line that would make the file too long goes into a new file: the old one
becomes the first backup, every backup the next one, and the last is lost.
Without backups the file just goes on growing. A limit of zero or less is
none. A line without bytes is dropped, after the file made room for it; a line
for which no room can be made is dropped too, and no room can be made while it
is not known how many backups there are.

Another file may take the place of the log file while that is open. Lines then go
into a file that has no path any more, until it is full; then the file at the path is
moved on in its stead.
-/
import LineTrace.FileSystem.Basic

namespace LineTrace

/-- A log file: its absolute path, the length it stays below, and the number of
its backups, if that is known. -/
structure RotatingLog where
  path : Text
  limit : Int
  backups : Option Int
  deriving DecidableEq, Repr

namespace RotatingLog

/-- The log file at a path, made if need be; what is in it stays. -/
def open? (fs : FileSystem) (path : Text) (limit : Int) (backups : Option Int) :
    Except FileError (FileSystem × RotatingLog) :=
  let path := Path.absolute fs.cwd path
  let old := (fs.bytesOf path).toOption.getD []
  match fs.writeFile path old with
  | .error e => .error e
  | .ok fs => .ok (fs, ⟨path, limit, backups⟩)

/-- The path of a backup. -/
def backupPath (l : RotatingLog) (n : Nat) : Text := l.path ++ [46] ++ Text.ofNat n

/-- Whether a line would make a file of some length too long. The line break
counts. -/
def exceeds (l : RotatingLog) (length : Nat) (line : Text) : Bool :=
  0 < l.limit && l.limit ≤ (length + line.length + 1 : Nat)

/-- Whether a line would make the file too long. -/
def isFull (l : RotatingLog) (fs : FileSystem) (line : Text) : Bool :=
  match fs.bytesOf l.path with
  | .ok old => l.exceeds old.length line
  | .error _ => false

/-- The file system in which what stands at a path, if anything does, has
another path, in place of any file there, and whether that went well. -/
def moved (fs : FileSystem) (source target : Text) : FileSystem × Bool :=
  if ¬ fs.pathExists source then (fs, true)
  else
    match if fs.pathExists target then fs.remove target else .ok fs with
    | .error _ => (fs, false)
    | .ok cleared =>
      match cleared.rename source target with
      | .ok fs => (fs, true)
      | .error _ => (cleared, false)

/-- The file system after the backups up to the `n`th became the next ones, the
last one first, and whether all of them did. -/
def shifted (l : RotatingLog) (fs : FileSystem) : Nat → FileSystem × Bool
  | 0 => (fs, true)
  | n + 1 =>
    match moved fs (l.backupPath (n + 1)) (l.backupPath (n + 2)) with
    | (fs, false) => (fs, false)
    | (fs, true) => shifted l fs n

/-- The file system after the log file became the first backup, if there are
any, and a new one was begun, and whether that went well. -/
def rolled (l : RotatingLog) (fs : FileSystem) : FileSystem × Bool :=
  match l.backups with
  | none => (fs, false)
  | some backups =>
    if backups ≤ 0 then (fs, true)
    else
      match l.shifted fs (backups.toNat - 1) with
      | (fs, false) => (fs, false)
      | (fs, true) =>
        match moved fs l.path (l.backupPath 1) with
        | (fs, false) => (fs, false)
        | (fs, true) =>
          match fs.writeFile l.path [] with
          | .ok fs => (fs, true)
          | .error _ => (fs, false)

/-- The file system after a line was put at the end of the log file. -/
def addLine (l : RotatingLog) (fs : FileSystem) (line : Text) : FileSystem :=
  match Text.encode .utf8 (line ++ [10]) with
  | .error _ => fs
  | .ok bytes => fs.appendFile l.path bytes

/-- The file system after a line was written to the log file, if there is room
for it or room can be made. -/
def append (l : RotatingLog) (fs : FileSystem) (line : Text) : FileSystem :=
  match if l.isFull fs line then l.rolled fs else (fs, true) with
  | (fs, false) => fs
  | (fs, true) => l.addLine fs line

/-- The length of the log file, if it stands where a file is to be replaced. -/
def lengthAt (l : RotatingLog) (fs : FileSystem) (target : Text) : Option Nat :=
  match fs.locate l.path, fs.locate target with
  | .ok place, .ok other =>
    if place = other then (fs.bytesOf l.path).toOption.map List.length else none
  | _, _ => none

/-- The file system after a line was written to a log file of some length that has
lost its place, and the length that it has then, as long as it is the one written
to. -/
def appendDetached (l : RotatingLog) (fs : FileSystem) (length : Nat) (line : Text) :
    FileSystem × Option Nat :=
  if l.exceeds length line then
    match l.rolled fs with
    | (fs, false) => (fs, none)
    | (fs, true) => (l.addLine fs line, none)
  else
    match Text.encode .utf8 (line ++ [10]) with
    | .error _ => (fs, some length)
    | .ok bytes => (fs, some (length + bytes.length))

end RotatingLog

end LineTrace
