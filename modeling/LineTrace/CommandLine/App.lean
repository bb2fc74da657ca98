/-
LineTrace.CommandLine.App — carrying out a command line.

The stages come in one order: the words are read, the log is set up, the
configuration is loaded, the request is carried out. Whatever stops the last
two ends in one line of JSON on the error stream and an exit status of its own;
a line that cannot be written is fatal, and so is a log that cannot be set up, as
one without a length to stay below cannot.
-/
import LineTrace.CommandLine.Arguments
import LineTrace.Config.Load
import LineTrace.Coverage.ResultsetFile
import LineTrace.Failure.Report
import LineTrace.Log.Sink
import LineTrace.Run.Tracer

namespace LineTrace.CommandLine

/-! ## 1. Ends -/

/-- The end of a command line: its exit status, and the terminal then. -/
structure Outcome where
  status : Int
  terminal : Terminal

/-- A fault as a record's trace shows it. -/
def traceOf (e : Fault) : Text := e.label ++ ": " ++ e.message

/-- A record about a fault. -/
def faultRecord (logger message : Text) (e : Fault) : LogRecord :=
  { LogRecord.of Level.error logger message with trace := some (traceOf e) }

/-- The end of a command line that nobody is told about in JSON. -/
def fatal (sink : LogSink) (t : Terminal) (e : Fault) : Outcome :=
  ⟨2, sink.emit t (faultRecord [] ("Fatal error: " ++ e.message) e)⟩

/-- The end of a request that was stopped. -/
def stopped (sink : LogSink) (t : Terminal) (e : Fault) : Outcome :=
  match (e.guarded : Guarded Unit) with
  | .done _ => ⟨0, t⟩
  | .failed announced line status =>
    let t :=
      if announced then
        sink.emit t (faultRecord ".contracts.error" "Unhandled CLI exception" e)
      else t
    ⟨status, t.complain line⟩
  | .escaped e => fatal sink t e

/-- The end of a request that has come to a result. -/
def ended (sink : LogSink) : Terminal × Except Fault Int → Outcome
  | (t, .error e) => stopped sink t e
  | (t, .ok status) => ⟨status, t⟩

/-! ## 2. Tracing a command -/

/-- The command among the words after the options: without one leading
`--`. -/
def commandWords : List Text → List Text
  | w :: rest => if w = terminator then rest else w :: rest
  | [] => []

/-- An optional text with something in it. -/
def filled (t : Option Text) : Option Text := t.filter (· ≠ [])

/-- The settings with what a request asks for on top. -/
def effective (cwd : Text) (s : Settings) (r : RunRequest) : Settings :=
  { s with
    mute := s.mute || r.mute
    keepLog := s.keepLog || r.keepLog
    countHits := s.countHits || r.countHits
    rootDirectory := ((filled r.root).map (Path.absolute cwd)).or s.rootDirectory }

/-- The terminal after a result set was written. -/
def exportTo (sink : LogSink) (t : Terminal) (rs : Resultset) (out : Text) :
    Terminal × Except Fault Unit :=
  match rs.document with
  | .error e => (t, .error e.fault)
  | .ok document =>
    match Resultset.write t.files document out with
    | (files, .error e) => ({ t with files }, .error e)
    | (files, .ok target) =>
      let detached := sink.detachedBy t target
      (sink.emit { t with files, detached } (LogRecord.of Level.info ".coverage.resultset"
        ("Wrote resultset to " ++ target)), .ok ())

/-- What is printed about a finished run, if its numbers can be written. -/
def runReport (json : Bool) (rs : Resultset) : Except Fault Text :=
  if Text.hasNumeral rs.returncode && Text.hasNumeral rs.skipped then
    let text : Text :=
      "exit " ++ Text.ofInt rs.returncode ++ ": " ++ Text.ofNat rs.coverage.fileCount ++
        " files, " ++ Text.ofNat rs.coverage.totalLines ++ " lines covered, " ++
        Text.ofInt rs.skipped ++ " records skipped"
    successText json "run" (some text)
      [("returncode", .int rs.returncode), ("files", .int rs.coverage.fileCount),
        ("lines", .int rs.coverage.totalLines), ("skipped", .int rs.skipped),
        ("unattributed", .int rs.unattributed)]
  else .error .unwritableInteger

/-- What a run that could not be drained leaves for its target. -/
def partialResultset (words : List Text) (p : PartialRun) (c : Coverage) : Resultset :=
  ⟨words, p.returncode.getD (-1), c, p.skipped, 0⟩

/-- The terminal after what is known of a run that failed was written to its
target, and the fault that remains. -/
def exportPartial (sink : LogSink) (t : Terminal) (words : List Text) (out : Option Text)
    (e : Fault) : Terminal × Fault :=
  match e, filled out with
  | .failure ⟨.traceLog p, _, _⟩, some out =>
    match p.coverage with
    | none => (t, e)
    | some c =>
      match exportTo sink t (partialResultset words p c) out with
      | (t, .error other) => (t, other)
      | (t, .ok ()) =>
        (sink.emit t (LogRecord.of Level.warning [] ("Wrote partial coverage to " ++ out)), e)
  | _, _ => (t, e)

/-- The terminal after a result set was written to its target, if there is
one. -/
def exportWhole (sink : LogSink) (t : Terminal) (rs : Resultset) (out : Option Text) :
    Terminal × Except Fault Unit :=
  match filled out with
  | some out => exportTo sink t rs out
  | none => (t, .ok ())

/-- The hint for a request without a command. -/
def runHint : Text := "usage: shellcov run [options] -- COMMAND..."

/-- Tracing a command. -/
def run (w : Surroundings) (verify json : Bool) (sink : LogSink) (s : Settings) (r : RunRequest)
    (t : Terminal) : Terminal × Except Fault Int :=
  match commandWords r.words with
  | [] => (t, .error (.failure ⟨.badInput, "no command given", some runHint⟩))
  | word :: rest =>
    let words := word :: rest
    let tracer := Tracer.new (effective t.files.cwd s r).plan verify
    let (_, traced) := tracer.run w t.files words []
    let t := sink.emitAll { t with files := traced.progress.files } traced.progress.records
    match traced.result with
    | .error e =>
      let (t, e) := exportPartial sink t words r.out e
      (t, .error e)
    | .ok rs =>
      match exportWhole sink t rs r.out with
      | (t, .error e) => (t, .error e)
      | (t, .ok ()) =>
        match runReport json rs with
        | .error e => (t, .error e)
        | .ok text => (t.print text, .ok (exitStatus rs.returncode))

/-! ## 3. Checking a result set -/

/-- How many files a document tells of. -/
def fileCountOf (v : Json) : Nat :=
  match v.field? "coverage" with
  | some (.obj files) => files.length
  | _ => 0

/-- Checking a result set. -/
def validate (json : Bool) (path : Text) (t : Terminal) : Terminal × Except Fault Int :=
  match Resultset.read t.files path with
  | .error e => (t, .error e)
  | .ok v =>
    let n := fileCountOf v
    let text : Text := path ++ ": valid (" ++ Text.ofNat n ++ " files)"
    match successText json "validate" (some text) [("files", .int n)] with
    | .error e => (t, .error e)
    | .ok text => (t.print text, .ok 0)

/-! ## 4. Whole command lines -/

/-- The variable that names a configuration file. -/
def configVariable : Text := "SHELLCOV_CONFIG"

/-- The configuration file of a command line. -/
def configPath (w : Surroundings) (a : Arguments) : Option Text :=
  filled ((filled a.config).or (Table.get? configVariable w.environment))

/-- The outcome of a request whose log is set up. -/
def carryOut (w : Surroundings) (verify : Bool) (sink : LogSink) (a : Arguments) (t : Terminal) :
    Outcome :=
  let path := configPath w a
  match Config.load t.files w.environment path with
  | .error e => stopped sink t e
  | .ok s =>
    let t :=
      match path with
      | some p => sink.emit t (LogRecord.of Level.info [] ("Loaded config from " ++ p))
      | none => t
    ended sink <|
      match a.request with
      | some (.run r) => run w verify a.json sink s r t
      | some (.validate p) => validate a.json p t
      | none => (t, .ok 0)

/-- The outcome of the arguments of a command line. -/
def invoke (w : Surroundings) (verify : Bool) (time : Text) (a : Arguments) (t : Terminal) :
    Outcome :=
  let sink : LogSink :=
    ⟨if a.verbose then Level.debug else Level.info, a.logJson, time, none⟩
  match filled a.logFile, a.logMaxBytes with
  | none, _ => carryOut w verify sink a t
  | some _, none => fatal sink t (unordered ">" (.list []))
  | some path, some limit =>
    match RotatingLog.open? t.files path limit a.logBackupCount with
    | .error e => fatal sink t (.file e)
    | .ok (files, l) => carryOut w verify { sink with file := some l } a { t with files }

/-- The outcome of the words of a command line. -/
def outcome (w : Surroundings) (verify : Bool) (time : Text) (words : List Text) (fs : FileSystem) :
    Outcome :=
  let t : Terminal := ⟨fs, [], [], none⟩
  match Arguments.ofWords words with
  | .error .help => ⟨0, t⟩
  | .error (.misuse program message) => ⟨2, t.complain (program ++ ": error: " ++ message ++ "\n")⟩
  | .ok a => invoke w verify time a t

end LineTrace.CommandLine
