/-
LineTrace.Trace.StartupFile — the file that makes a shell write its trace.

The startup text of a format goes into a new file of a name of its own. A text
that has no bytes leaves that file behind empty: it was made before anything
was known about the text. A file that could be made can be written and closed;
a device that becomes full in between is left out.
-/
import LineTrace.Failure.Basic

namespace LineTrace.TraceFormat

/-- How a startup file is named. -/
def startupLead : Text := "shellcov_env_"

/-- The end of a startup file's name. -/
def startupTrail : Text := ".sh"

/-- A new startup file in a directory, and its path. -/
def writeStartup (f : TraceFormat) (fs : FileSystem) (directory chain : Option Text) :
    FileSystem × Except LineTrace.Fault Text :=
  match fs.makeTemporary (directory.getD fs.tmp) startupLead startupTrail with
  | .error e => (fs, .error (.file e))
  | .ok (fs, path) =>
    match Text.encode .utf8Escaped (f.preamble chain) with
    | .error e => (fs, .error (.encode e))
    | .ok bytes => (fs.appendFile path bytes, .ok path)

end LineTrace.TraceFormat
