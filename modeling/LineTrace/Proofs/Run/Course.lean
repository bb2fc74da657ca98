/-
LineTrace.Proofs.Run.Course — the stages of a run, one equation for each.

A run goes from stage to stage with all of its progress. What a stage leaves as it was is
said here once, so that following a run needs no look inside: asking about the shell and
the opening of the log record something (`checkShell_eq`, `openLog_states`), a run whose
log is open writes a startup file and launches its command (`runOpened_eq`), and a child
that was started has written its log, and perhaps removed it, before waiting for it ends
(`follow_eq`).

The startup file is written after the log was made. It never stands at the place of the
log, because the names of the two start differently (`startupName_ne`).
-/
import LineTrace.Proofs.FileSystem.Files
import LineTrace.Run.Tracer

namespace LineTrace

/-! ## 1. The log and the startup file -/

/-- A name of a file for a log. -/
def TraceLog.fileName (n : Nat) : Text := fileLead ++ FileSystem.serialText n ++ ".log"

/-- A name of a startup file. -/
def TraceFormat.startupName (n : Nat) : Text :=
  startupLead ++ FileSystem.serialText n ++ startupTrail

/-- No startup file has the name of a log. -/
theorem TraceFormat.startupName_ne (m n : Nat) : startupName m ≠ TraceLog.fileName n := by
  intro h
  have hlead : startupLead[9]? = TraceLog.fileLead[9]? := by
    have hnames := congrArg (fun t : Text => t[9]?) h
    simp only [startupName, TraceLog.fileName, List.append_assoc] at hnames
    rwa [List.getElem?_append_left (by decide), List.getElem?_append_left (by decide)] at hnames
  exact absurd hlead (by decide)

/-! ## 2. Stages -/

namespace Progress

variable (p : Progress)

theorem recorded_recorded (records more : List LogRecord) :
    (p.recorded records).recorded more = p.recorded (records ++ more) := by
  simp [recorded]

@[simp] theorem states_recorded (records : List LogRecord) :
    (p.recorded records).states = p.states := rfl

@[simp] theorem states_tell (level : Level) (message : Text) :
    (p.tell level message).states = p.states := rfl

/-- Cleaning up leaves the states as they are. -/
@[simp] theorem states_cleanUp (s : RunPlan) (startup : Option Text) :
    (p.cleanUp s startup).states = p.states := by
  unfold cleanUp
  extract_lets q r
  have hr : r.states = p.states := by
    simp only [r]
    split
    · split <;> rfl
    · rfl
  split
  · exact hr
  · exact hr

/-- The run of a child that was started and has written its log, and perhaps removed it. -/
def running (words : List Text) (child : Child) : Progress :=
  let p := ((p.enter .spawned).tell Level.info ("Tracing " ++ Text.shellCommand words)).enter
    .running
  { p with files := (p.log.written p.files child.writes).1 }.lose child .running

/-- The run of a child that has ended, with its log closed. -/
def exited (returncode : Int) : Progress := ((p.enter .exited).tellEnding returncode).closeLog

theorem follow_eq (room : Nat) (s : RunPlan) (f : TraceFormat) (words : List Text)
    (child : Child) :
    p.follow room s f words child =
      match child.ending with
      | .error e => (p.running words child, .error e)
      | .ok returncode =>
        ((p.running words child).exited returncode).drainLog room s f words returncode child := by
  rfl

@[simp] theorem states_lose (child : Child) (moment : LogLoss) :
    (p.lose child moment).states = p.states := by
  rw [lose]
  split <;> rfl

@[simp] theorem log_lose (child : Child) (moment : LogLoss) :
    (p.lose child moment).log = p.log := by
  rw [lose]
  split <;> rfl

theorem states_running (words : List Text) (child : Child) :
    (p.running words child).states = p.states ++ [.spawned, .running] := by
  simp [running, enter]

theorem exited_eq (returncode : Int) :
    (p.exited returncode).files = p.files ∧ (p.exited returncode).log = p.log.closed ∧
      (p.exited returncode).states = p.states ++ [.exited] := by
  rw [exited, tellEnding]
  split <;> exact ⟨rfl, rfl, rfl⟩

theorem openLog_states : p.openLog.1.states = p.states := by
  rw [openLog]
  dsimp only
  split <;> rfl

end Progress

/-! ## 3. Whole runs -/

namespace Tracer

variable {t : Tracer} {w : Surroundings}

/-- Asking about the shell records something at most. -/
theorem checkShell_eq (p : Progress) : ∃ records, (t.checkShell w p).1 = p.recorded records := by
  have hnothing : p = p.recorded [] := by simp [Progress.recorded]
  rw [checkShell]
  split
  · exact ⟨[], hnothing⟩
  · split
    · exact ⟨_, rfl⟩
    · dsimp only
      split
      · exact ⟨_, rfl⟩
      · exact ⟨_, Progress.recorded_recorded _ _ _⟩
  · exact ⟨[], hnothing⟩

/-- A run whose log is open writes a startup file and launches the command. -/
theorem runOpened_eq (p : Progress) (w : Surroundings) (s : RunPlan) (f : TraceFormat)
    (words : List Text) (own : Environment) :
    ∃ q : Progress, q.files = p.files ∧ q.log = p.log ∧ q.states = p.states ∧
      p.runOpened w s f words own =
        match f.writeStartup q.files s.tmpDir (chainOf w.environment own) with
        | (files, .error e) => ⟨.error e, { q with files }.cleanUp s none, none⟩
        | (files, .ok startup) =>
          let c : TracedCommand :=
            ⟨words, tracedVariables own startup, [Progress.logDescriptor], s.mute⟩
          let launched := ({ q with files }.note ".xtrace.emitter"
            ("Wrote bash env preamble to " ++ startup)).launch w s f c
          ⟨launched.2, launched.1.cleanUp s (some startup), some (c, files)⟩ := by
  rw [Progress.runOpened]
  cases chainOf w.environment own with
  | none => exact ⟨p, rfl, rfl, rfl, rfl⟩
  | some path => exact ⟨p.tell _ _, rfl, rfl, rfl, rfl⟩

end Tracer

end LineTrace
