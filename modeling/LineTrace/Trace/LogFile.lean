/-
LineTrace.Trace.LogFile — the log that a traced command and its children
write.

One file in append mode, made once: every write goes to the end of the file,
wherever the writer believes to be, so records of different writers never
overwrite each other. A log is opened at most once and never again, also after
it was closed and deleted. Writing on after the file was removed is allowed
and leads nowhere.

The log deletes its own file without minding that it is gone. Somebody else who
removes the file is told so, and before the log is opened has neither a
descriptor to write to nor a path to remove.
-/
import LineTrace.Failure.Basic

namespace LineTrace

/-- The log: the directory for its file, the file once there is one, and
whether it can be written. -/
structure TraceLog where
  directory : Option Text
  path : Option Text
  writable : Bool
  deriving DecidableEq, Repr

namespace TraceLog

/-- The log before it is opened. -/
def new (directory : Option Text) : TraceLog := ⟨directory, none, false⟩

/-- How the log's file is named. -/
def fileLead : Text := "shellcov_xtrace_"

/-- A misuse of a log. -/
def misuse (message : Text) : Fault := .failure ⟨.policy, message, none⟩

/-- The log opened on a new file. -/
def opened (log : TraceLog) (fs : FileSystem) : FileSystem × TraceLog × Except Fault Unit :=
  match log.path with
  | some _ =>
    (fs, log, .error (misuse "trace log already opened; transports are single-use"))
  | none =>
    match fs.makeTemporary (log.directory.getD fs.tmp) fileLead ".log" with
    | .error e => (fs, log, .error (.file e))
    | .ok (fs, path) => (fs, { log with path := some path, writable := true }, .ok ())

/-- The log that can no longer be written. -/
def closed (log : TraceLog) : TraceLog := { log with writable := false }

/-- The file system after bytes were written to the log. -/
def written (log : TraceLog) (fs : FileSystem) (bytes : Bytes) :
    FileSystem × Except Fault Nat :=
  match log.path, log.writable with
  | some path, true => (fs.appendFile path bytes, .ok bytes.length)
  | some _, false => (fs, .error (.file ⟨.badDescriptor, []⟩))
  | none, _ => (fs, .error (.badType "'NoneType' object cannot be interpreted as an integer"))

/-- The content of the log. -/
def content (log : TraceLog) (fs : FileSystem) : Except Fault Bytes :=
  match log.path with
  | none => .error (misuse "trace log was never opened")
  | some path =>
    match fs.bytesOf path with
    | .ok bytes => .ok bytes
    | .error e =>
      .error (.failure ⟨.traceLog ⟨none, 0, none⟩,
        "cannot read trace log " ++ path ++ ": " ++ e.message, none⟩)

/-- The file system without the log's file. -/
def deleted (log : TraceLog) (fs : FileSystem) : FileSystem :=
  match log.path with
  | none => fs
  | some path =>
    match fs.remove path with
    | .ok fs => fs
    | .error _ => fs

/-- The file system without the log's file, which has to be there. -/
def removed (log : TraceLog) (fs : FileSystem) : FileSystem × Except Fault Unit :=
  match log.path with
  | none =>
    (fs, .error (.badType "unlink: path should be string, bytes or os.PathLike, not NoneType"))
  | some path =>
    match fs.remove path with
    | .ok fs => (fs, .ok ())
    | .error e => (fs, .error (.file e))

/-- The end of a block that had the log to itself: closed, and its file
gone. -/
def released (log : TraceLog) (fs : FileSystem) : FileSystem × TraceLog :=
  (log.closed.deleted fs, log.closed)

end TraceLog

/-! ## Actions -/

/-- What may happen inside a block that has a log to itself. -/
inductive BlockBody where
  | nothing
  | opening
  | failing
  | openingAndFailing
  deriving DecidableEq, Repr

/-- Whether a body opens the log, if that can be opened. -/
def BlockBody.opens : BlockBody → Bool
  | .nothing => false
  | .opening => true
  | .failing => false
  | .openingAndFailing => true

/-- What may be done with a log and to its file. Who writes may have moved the descriptor to
an offset first. -/
inductive LogAction where
  | opening
  | writing (offset : Option Nat) (bytes : Bytes)
  | closing
  | reading
  | deleting
  | removal
  | block (body : BlockBody)
  deriving DecidableEq, Repr

/-- What an action that succeeds answers. -/
inductive LogReply where
  | nothing
  | success
  | count (n : Nat)
  | bytes (content : Bytes)
  deriving DecidableEq, Repr

/-- The fault of a block's body that fails of its own. -/
def bodyFault : Fault := .other "RuntimeError" "boom"

namespace TraceLog

/-- A block that has the log to itself, as far as its end. -/
def within (log : TraceLog) (fs : FileSystem) (body : BlockBody) :
    FileSystem × TraceLog × Except Fault LogReply :=
  let (fs, log, result) : FileSystem × TraceLog × Except Fault LogReply :=
    match body with
    | .nothing => (fs, log, .ok .success)
    | .failing => (fs, log, .error bodyFault)
    | _ =>
      match log.opened fs, body with
      | (fs, log, .error e), _ => (fs, log, .error e)
      | (fs, log, .ok ()), .openingAndFailing => (fs, log, .error bodyFault)
      | (fs, log, .ok ()), _ => (fs, log, .ok .success)
  let (fs, log) := log.released fs
  (fs, log, result)

/-- The files and the log after an action, and its answer. -/
def act (log : TraceLog) (fs : FileSystem) :
    LogAction → FileSystem × TraceLog × Except Fault LogReply
  | .opening =>
    let (fs, log, result) := log.opened fs
    (fs, log, result.map fun _ => .success)
  | .writing _ bytes =>
    let (fs, result) := log.written fs bytes
    (fs, log, result.map .count)
  | .closing => (fs, log.closed, .ok .nothing)
  | .reading => (fs, log, (log.content fs).map .bytes)
  | .deleting => (log.deleted fs, log, .ok .nothing)
  | .removal =>
    let (fs, result) := log.removed fs
    (fs, log, result.map fun _ => .nothing)
  | .block body => log.within fs body

end TraceLog

end LineTrace
