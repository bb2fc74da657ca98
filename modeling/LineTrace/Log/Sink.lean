/-
LineTrace.Log.Sink — where log records go.

Records of a level that is high enough are written to the error stream and to
a log file if there is one, as lines or as JSON.
-/
import LineTrace.Log.Record
import LineTrace.Log.Rotating

namespace LineTrace

/-- The files, what was written to the output and the error stream so far, and the
length of the log file, if another file has taken its place. -/
structure Terminal where
  files : FileSystem
  output : Text
  errors : Text
  detached : Option Nat

/-- Text added to the output. -/
def Terminal.print (t : Terminal) (text : Text) : Terminal := { t with output := t.output ++ text }

/-- Text added to the error stream. -/
def Terminal.complain (t : Terminal) (text : Text) : Terminal := { t with errors := t.errors ++ text }

/-- Where records go: those of which level, in which form, at which time, and
into which file beside the error stream. -/
structure LogSink where
  least : Level
  asJson : Bool
  time : Text
  file : Option RotatingLog

namespace LogSink

/-- A record as it is written. -/
def line (sink : LogSink) (r : LogRecord) : Text :=
  if sink.asJson then r.json sink.time none else r.plain sink.time

/-- The terminal after a record. -/
def emit (sink : LogSink) (t : Terminal) (r : LogRecord) : Terminal :=
  if r.level < sink.least then t
  else
    let line := sink.line r
    let t := t.complain (line ++ [10])
    match sink.file, t.detached with
    | none, _ => t
    | some l, none => { t with files := l.append t.files line }
    | some l, some length =>
      let (files, detached) := l.appendDetached t.files length line
      { t with files, detached }

/-- The terminal after records in order. -/
def emitAll (sink : LogSink) (t : Terminal) (records : List LogRecord) : Terminal :=
  records.foldl sink.emit t

/-- The length of the log file, if a file that is written in place of a target takes
its place. -/
def detachedBy (sink : LogSink) (t : Terminal) (target : Text) : Option Nat :=
  t.detached.or (sink.file.bind fun l => l.lengthAt t.files target)

end LogSink

end LineTrace
