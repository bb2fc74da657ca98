/-
LineTrace.Run.Tracer — tracing a command from start to finish.

A run opens a log, writes a startup file that makes shells trace into it,
starts the command with both, waits for it, drains the log, and cleans up
whatever happened. The log is drained only after the command has exited, so
nothing that it or its children write is missed.

One tracer makes any number of runs; it asks once whether the shell can trace
at all. A command of no words, or one text in place of words, is refused and
leaves everything as it is.
-/
import LineTrace.Command.Version
import LineTrace.Coverage.Resultset
import LineTrace.Run.Child
import LineTrace.Run.Drain
import LineTrace.Run.Progress
import LineTrace.Trace.StartupFile

namespace LineTrace

/-! ## 1. Tracers -/

/-- What a run needs of the world around it: the variables of the process,
so many digits for a delimiter of its own, the bytes that there is room for at
a time, a host for helper commands and a spawner for the traced one. -/
structure Surroundings where
  environment : Environment
  digits : Nat → Except Fault Text
  room : Nat
  host : Command.Host
  spawner : Spawner

/-- A tracer: the plan of its runs, whether the shell is to be asked about and has been
already, and the state in which its last run ended. -/
structure Tracer where
  plan : RunPlan
  verify : Bool
  checked : Bool
  state : RunState

/-- A tracer before its first run. -/
def Tracer.new (plan : RunPlan) (verify : Bool) : Tracer := ⟨plan, verify, false, .init⟩

/-- What a run came to: its result, where everything stood at its end, and the
command that the spawner was given with the files at that moment. -/
structure TracedRun where
  result : Except Fault Resultset
  progress : Progress
  launched : Option (TracedCommand × FileSystem)

/-- How many bytes of digits a setting asks for. A fraction cannot be asked
for. -/
def digitBytes (v : Setting) : Except Fault Int :=
  match v with
  | .int i => .ok i
  | .flag b => .ok (if b then 1 else 0)
  | .float x =>
    if x.ltInt 0 then .error (TraceFormat.Fault.fault .negativeLength)
    else .error (.badType "can't multiply sequence by non-int of type 'float'")
  | v => .error (unordered "<" v)

/-- The format of a run, with a delimiter of as many bytes as a setting
says. -/
def Surroundings.format (w : Surroundings) (v : Setting) : Except Fault TraceFormat := do
  let count ← digitBytes v
  let digits ← w.digits (2 * count.toNat)
  (TraceFormat.generate (fun _ => digits) count).mapError TraceFormat.Fault.fault

/-! ## 2. Draining -/

namespace Progress

/-- Whether a fault is that the log cannot be read. -/
def isUnreadable : Fault → Bool
  | .failure ⟨.traceLog _, _, _⟩ => true
  | e => e.isSystemRefusal

/-- The run that failed while its log was read, with what was found before. -/
def unreadable (p : Progress) (s : RunPlan) (returncode : Int) (d : Drained) (e : Fault) :
    Progress × Except Fault Resultset :=
  if isUnreadable e then
    let coverage := d.coverage.within s.rootDirectory
    let run : PartialRun := ⟨some coverage, d.tally.skipped, some returncode⟩
    ((p.enter .failed).tell Level.error (d.partialNotice coverage),
      .error (.failure ⟨.traceLog run, "trace log drain failed: " ++ e.message, none⟩))
  else (p, .error e)

/-- The run that is done, with what was found in its log. -/
def drained (p : Progress) (s : RunPlan) (words : List Text) (returncode : Int) (d : Drained) :
    Progress × Except Fault Resultset :=
  let coverage := d.coverage.within s.rootDirectory
  let p := p.tell Level.info (d.summary coverage)
  let p := if d.counts.resyncs = 0 then p else p.tell Level.warning d.tornNotice
  let p := if d.tally.skipped = 0 then p else p.tell Level.warning d.skippedNotice
  (p.enter .done,
    .ok ⟨words, returncode, coverage, d.tally.skipped, d.tally.unattributed⟩)

/-- The run after a moment at which the log's file may be removed. -/
def lose (p : Progress) (child : Child) (moment : LogLoss) : Progress :=
  if child.loss = moment then { p with files := p.log.deleted p.files } else p

/-- The run with its log drained, if the log is still there when it is read. -/
def drainLog (p : Progress) (room : Nat) (s : RunPlan) (f : TraceFormat) (words : List Text)
    (returncode : Int) (child : Child) : Progress × Except Fault Resultset :=
  let p := p.enter .draining
  match readSize s.chunkSize with
  | .error e => (p, .error e)
  | .ok size =>
    match (p.lose child .ended).readLog with
    | (p, .error e) => p.unreadable s returncode (Drained.nothing s.countHits) e
    | (p, .ok log) =>
      match drain f p.files.isFile p.files.cwd s.countHits
          (limited child.readLimit (readsBy room size log)) with
      | .error e => (p, .error e)
      | .ok (d, some e) => (p.recorded d.details).unreadable s returncode d e
      | .ok (d, none) => (p.recorded d.details).drained s words returncode d

/-! ## 3. Running -/

/-- What is said of a command that has ended. -/
def tellEnding (p : Progress) (returncode : Int) : Progress :=
  if returncode < 0 then
    p.tell Level.warning ("Traced command killed by signal " ++ Text.ofInt (-returncode))
  else p.tell Level.debug ("Traced command exited with " ++ Text.ofInt returncode)

/-- The run of a child that was started. Its log is written, and perhaps removed,
before anything is known of how waiting for it ends. -/
def follow (p : Progress) (room : Nat) (s : RunPlan) (f : TraceFormat) (words : List Text)
    (child : Child) : Progress × Except Fault Resultset :=
  let p := p.enter .spawned
  let p := p.tell Level.info ("Tracing " ++ Text.shellCommand words)
  let p := p.enter .running
  let p := { p with files := (p.log.written p.files child.writes).1 }
  let p := p.lose child .running
  match child.ending with
  | .error e => (p, .error e)
  | .ok returncode =>
    let p := (p.enter .exited).tellEnding returncode
    p.closeLog.drainLog room s f words returncode child

/-- The run of a command with its startup file in place. -/
def launch (p : Progress) (w : Surroundings) (s : RunPlan) (f : TraceFormat) (c : TracedCommand) :
    Progress × Except Fault Resultset :=
  match w.spawner p.files c with
  | (.ok child, records) => (p.recorded records).follow w.room s f c.words child
  | (.error e, records) =>
    let p := p.recorded records
    match e with
    | .failure ⟨.spawn, _, _⟩ => (p.enter .failed, .error e)
    | e => (p, .error e)

/-- The run cleaned up: the log closed, the startup file gone, and the log kept
only where that is asked for and the run did not fail. -/
def cleanUp (p : Progress) (s : RunPlan) (startup : Option Text) : Progress :=
  let p := p.closeLog
  let p :=
    match startup with
    | some path =>
      match p.files.remove path with
      | .ok files => { p with files }
      | .error _ => p
    | none => p
  if s.keepLog ∧ p.state ≠ .failed then
    p.tell Level.info ("Keeping trace log at " ++ p.log.path.getD [])
  else p.deleteLog

end Progress

/-- The startup file that a command has already, from its own variables or
those of the process. -/
def chainOf (process own : Environment) : Option Text :=
  let v := (Table.get? Command.startupVariable own).or (Table.get? Command.startupVariable process)
  v.filter (· ≠ [])

/-- The variables of a command that is traced. -/
def tracedVariables (own : Environment) (startup : Text) : Environment :=
  Table.put Command.descriptorVariable (Text.ofNat Progress.logDescriptor)
    (Table.put Command.startupVariable startup own)

/-- The run of a command whose log is open. -/
def Progress.runOpened (p : Progress) (w : Surroundings) (s : RunPlan) (f : TraceFormat)
    (words : List Text) (own : Environment) : TracedRun :=
  let chain := chainOf w.environment own
  let p :=
    match chain with
    | some path =>
      p.tell Level.debug
        ("Chaining existing " ++ Command.startupVariable ++ "=" ++ path ++
          " into the trace preamble")
    | none => p
  match f.writeStartup p.files s.tmpDir chain with
  | (files, .error e) =>
    let p := { p with files }.cleanUp s none
    ⟨.error e, p, none⟩
  | (files, .ok startup) =>
    let p := { p with files }.note ".xtrace.emitter" ("Wrote bash env preamble to " ++ startup)
    let c : TracedCommand := ⟨words, tracedVariables own startup, [Progress.logDescriptor], s.mute⟩
    let (p, result) := p.launch w s f c
    ⟨result, p.cleanUp s (some startup), some (c, files)⟩

/-! ## 4. Whole runs -/

namespace Tracer

/-- The refusal of a command that is no list of words. -/
def refusal : Fault := .failure (Failure.badInput "command must be a non-empty argument list")

/-- The warning about a shell that cannot trace to a descriptor. -/
def shellWarning (shell : Text) : Text :=
  shell ++ " does not support " ++ Command.descriptorVariable ++ " (needs bash >= " ++
    Text.ofNat Command.Version.least.major ++ "." ++ Text.ofNat Command.Version.least.minor ++
    "); trace output may be lost"

/-- The run with the shell asked about, if that is still to be done. -/
def checkShell (t : Tracer) (w : Surroundings) (p : Progress) : Progress × Except Fault Unit :=
  match t.verify && !t.checked, t.plan.bashPath with
  | false, _ => (p, .ok ())
  | true, .text shell =>
    match Command.versionOf w.host p.files w.environment shell with
    | (.error e, records) => (p.recorded records, .error e)
    | (.ok v, records) =>
      let p := p.recorded records
      if Command.Version.suffices v then (p, .ok ())
      else (p.tell Level.warning (shellWarning shell), .ok ())
  | true, _ => (p, .error Command.notAllWords)

/-- The run of a command of at least one word. -/
def runWords (t : Tracer) (w : Surroundings) (fs : FileSystem) (words : List Text)
    (own : Environment) : TracedRun :=
  let p : Progress := ⟨fs, TraceLog.new t.plan.tmpDir, [], [.init], []⟩
  match t.checkShell w p with
  | (p, .error e) => ⟨.error e, p, none⟩
  | (p, .ok ()) =>
    match w.format t.plan.delimiterBytes with
    | .error e => ⟨.error e, p, none⟩
    | .ok f =>
      match p.openLog with
      | (p, .error e) => ⟨.error e, p, none⟩
      | (p, .ok ()) => p.runOpened w t.plan f words own

/-- One run of a tracer, and the tracer after it. -/
def run (t : Tracer) (w : Surroundings) (fs : FileSystem) (words : List Text)
    (own : Environment) : Tracer × TracedRun :=
  match words with
  | [] => (t, ⟨.error refusal, ⟨fs, TraceLog.new t.plan.tmpDir, [], [], []⟩, none⟩)
  | _ :: _ =>
    let r := t.runWords w fs words own
    ({ t with checked := t.checked || t.verify, state := r.progress.state }, r)

end Tracer

/-! ## 5. Calls -/

/-- What a tracer may be asked to run: words, or one text, which is no list of
words. -/
inductive Asked where
  | words (words : List Text)
  | text (t : Text)
  deriving DecidableEq, Repr

/-- The words that are asked for; one text has none. -/
def Asked.toWords : Asked → List Text
  | .words ws => ws
  | .text _ => []

/-- A call of a tracer: what surrounds it, what is asked for, and the variables
of the command. -/
structure Call where
  surroundings : Surroundings
  asked : Asked
  own : Environment

/-- The run that a call asks for, and the tracer after it. -/
def Tracer.call (t : Tracer) (fs : FileSystem) (c : Call) : Tracer × TracedRun :=
  t.run c.surroundings fs c.asked.toWords c.own

end LineTrace
