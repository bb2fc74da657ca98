/-
LineTrace.Log.Record — log records and their two written forms.

A record is written on one line with time, level and logger in front, or as
one JSON object. A record about a fault carries the fault's trace, which
follows the line or stands in a member of its own.
-/
import LineTrace.Json.Writer
import LineTrace.Log.Timestamp

namespace LineTrace

/-! ## 1. Levels -/

/-- How urgent a record is. -/
abbrev Level := Int

namespace Level

/-- The levels with names. -/
def debug : Level := 10
def info : Level := 20
def warning : Level := 30
def error : Level := 40
def critical : Level := 50

/-- The name of a level. -/
def name (l : Level) : Text :=
  if l = 0 then "NOTSET"
  else if l = debug then "DEBUG"
  else if l = info then "INFO"
  else if l = warning then "WARNING"
  else if l = error then "ERROR"
  else if l = critical then "CRITICAL"
  else "Level " ++ Text.ofInt l

end Level

/-! ## 2. Records -/

/-- One log record; `trace` is the trace of a fault, if it is about one. -/
structure LogRecord where
  level : Level
  logger : Text
  message : Text
  trace : Option Text
  deriving DecidableEq, Repr

/-- A record of a module of this program. -/
def LogRecord.of (level : Level) (logger message : Text) : LogRecord :=
  ⟨level, "shellcov" ++ logger, message, none⟩

/-- The record on one line, the trace below it. -/
def LogRecord.plain (r : LogRecord) (time : Text) : Text :=
  time ++ " [" ++ r.level.name ++ "] " ++ r.logger ++ ": " ++ r.message ++
    match r.trace with
    | some t => [10] ++ t
    | none => []

/-- The record as a JSON object, with a picture of the stack if there is
one. -/
def LogRecord.json (r : LogRecord) (time : Text) (stack : Option Text) : Text :=
  let trace : List (Text × Json) :=
    match r.trace with
    | some t => [("exc_info", .str t)]
    | none => []
  let stack : List (Text × Json) :=
    match stack with
    | some (c :: cs) => [("stack", .str (c :: cs))]
    | _ => []
  (Json.obj (("ts", .str time) :: ("level", .str r.level.name) :: ("logger", .str r.logger) ::
    ("msg", .str r.message) :: (trace ++ stack))).compact

end LineTrace
