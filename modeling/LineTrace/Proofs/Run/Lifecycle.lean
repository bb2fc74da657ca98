/-
LineTrace.Proofs.Run.Lifecycle — the states of a run and the life of its log.

A tracer makes one run after another, and each goes its way through the states in
one order: it is done exactly where it returns, and it fails exactly where its
command cannot be started or its log cannot be read (`InOrder`). However it ends, its
log is closed, and the log's file is kept where that is asked for, the run has not
failed, and the command has not removed it (`Tidied`). Both hold of every run that a tracer
makes, whatever runs went before (`call_orderly`).

A log that is gone when it is to be read makes its run fail. But not every run comes to
read its log: where waiting for a command fails that has removed it, the run has not failed
and there is no log to keep (`TracedRun.RemovesLog`).

Each point is read off `Outcome` and `Ending`, where the ways out of a run are listed;
only that a kept log outlives later runs is an induction over calls.
-/
import LineTrace.Proofs.Run.Ending
import LineTrace.Proofs.Run.Interruption

namespace LineTrace

/-! ## 1. The order of states -/

/-- The states that a run may go to from another. -/
inductive RunState.Next : RunState → RunState → Prop where
  | spawn : Next .init .spawned
  | run : Next .spawned .running
  | exit : Next .running .exited
  | drain : Next .exited .draining
  | finish : Next .draining .done
  | refuse : Next .init .failed
  | lose : Next .draining .failed

/-- What was written to the log of a command, from what became of it. -/
def Child.written (answer : Except Fault Child) : Bytes :=
  match answer with
  | .ok child => child.writes
  | .error _ => []

/-- What is left of the log of a command when it is waited for. -/
def Child.leftOf (answer : Except Fault Child) : Option Bytes :=
  match answer with
  | .ok child => child.left
  | .error _ => some []

/-- What is left is what was written. -/
theorem Child.written_of_leftOf {answer : Except Fault Child} {content : Bytes}
    (h : Child.leftOf answer = some content) : Child.written answer = content := by
  cases answer with
  | error e => exact Option.some.inj h
  | ok child =>
    rw [leftOf, left] at h
    split at h
    · cases h
    · exact Option.some.inj h

namespace Ending

variable {answer : Except Fault Child} {more : List RunState} {result : Except Fault Resultset}
  {content : Option Bytes} (h : Ending answer more result content)

include h

/-- A command that is launched goes on through the states in order. -/
theorem isChain : List.IsChain RunState.Next (.init :: more) := by
  cases h <;> simp [RunState.Next.spawn, RunState.Next.run, RunState.Next.exit,
    RunState.Next.drain, RunState.Next.finish, RunState.Next.refuse, RunState.Next.lose]

theorem exists_ok_iff : (∃ rs, result = .ok rs) ↔ (RunState.init :: more).getLast? = some .done := by
  cases h <;> simp

/-- A run fails where its command cannot be started and where its log cannot be
read. -/
theorem failed_iff :
    (RunState.init :: more).getLast? = some .failed ↔
      (∃ e, answer = .error e ∧ e.isSpawn = true) ∨
        RunState.draining ∈ more ∧ ∃ e, result = .error e ∧ e.isTraceLog = true := by
  cases h with
  | refused he => simp [he]
  | crashed he => simp [he]
  | unwaited he => simp
  | undrained hended he => simp [he]
  | lost hended he content => simp [he]
  | done hended rs => simp

/-- A run that has not failed leaves of its log what its child left. -/
theorem content_eq (hfinal : (RunState.init :: more).getLast? ≠ some .failed) :
    content = Child.leftOf answer := by
  cases h with
  | refused he => simp at hfinal
  | crashed he => rfl
  | unwaited he => rfl
  | undrained hended he => rfl
  | lost hended he content => simp at hfinal
  | done hended rs => rfl

end Ending

/-! ## 2. Orderly runs -/

/-- What was written to the log of a run. -/
def TracedRun.written (r : TracedRun) (spawner : Spawner) : Bytes :=
  match r.launched with
  | some (c, files) => Child.written (spawner files c).1
  | none => []

/-- The child of a run has removed its log before waiting for it ended. -/
def TracedRun.RemovesLog (r : TracedRun) (spawner : Spawner) : Prop :=
  ∃ c files child, r.launched = some (c, files) ∧ (spawner files c).1 = .ok child ∧
    child.loss = .running

section

variable {r : TracedRun} {spawner : Spawner}

/-- What was left of the log of a run when its child was waited for. -/
def TracedRun.left (r : TracedRun) (spawner : Spawner) : Option Bytes :=
  match r.launched with
  | some (c, files) => Child.leftOf (spawner files c).1
  | none => some []

theorem TracedRun.left_eq_none_iff : r.left spawner = none ↔ r.RemovesLog spawner := by
  rw [left, RemovesLog]
  split
  · rename_i c files hlaunched
    cases hspawned : (spawner files c).1 with
    | error e => simp [hlaunched, hspawned, Child.leftOf]
    | ok child => simp [hlaunched, hspawned, Child.leftOf, Child.left]
  · rename_i hlaunched
    simp [hlaunched]

theorem TracedRun.written_of_left {content : Bytes} (h : r.left spawner = some content) :
    r.written spawner = content := by
  rw [left] at h
  rw [written]
  split at h
  · exact Child.written_of_leftOf h
  · exact Option.some.inj h

end

/-- A run that has gone through the states in order. -/
structure TracedRun.InOrder (r : TracedRun) (spawner : Spawner) : Prop where
  first : r.progress.states.head? = some .init
  path : List.IsChain RunState.Next r.progress.states
  returned : (∃ rs, r.result = .ok rs) ↔ r.progress.state = .done
  failed : r.progress.state = .failed ↔
    (∃ c files e, r.launched = some (c, files) ∧ (spawner files c).1 = .error e ∧
      e.isSpawn = true) ∨
    RunState.draining ∈ r.progress.states ∧ ∃ e, r.result = .error e ∧ e.isTraceLog = true

/-- A run that has closed its log, and has kept or deleted its file, which was not there
before, as it should, unless its child has removed it; what is kept is what was written. -/
structure TracedRun.Tidied (r : TracedRun) (plan : RunPlan) (spawner : Spawner)
    (before : FileSystem) : Prop where
  closed : r.progress.log.writable = false
  unopened : r.progress.log.path = none → r.progress.files = before
  kept : ∀ path, r.progress.log.path = some path → before.isFile path = false ∧
    (r.progress.files.isFile path = true ↔
      plan.keepLog = true ∧ r.progress.state ≠ .failed ∧ ¬ r.RemovesLog spawner)
  content : ∀ path, r.progress.log.path = some path → r.progress.files.isFile path = true →
    r.progress.files.bytesOf path = .ok (r.written spawner)
  others : ∀ path l content, before.StandsAt path l content →
    r.progress.files.StandsAt path l content

namespace TracedRun.Outcome

variable {t : Tracer} {w : Surroundings} {fs : FileSystem} {words : List Text} {own : Environment}
  {r : TracedRun} (h : r.Outcome t w fs words own)

include h

/-- The states of a run that is not launched stop at the first. -/
theorem states_cases :
    (r.progress.states = [.init] ∧ r.launched = none ∧ ∃ e, r.result = .error e) ∨
    ∃ c files more content, r.progress.states = .init :: more ∧ r.launched = some (c, files) ∧
      Ending (w.spawner files c).1 more r.result content := by
  cases h with
  | unopened states files log launched result cause => exact .inl ⟨states, launched, _, result⟩
  | unmade format opened states launched result => exact .inl ⟨states, launched, _, result⟩
  | unwritten format name preamble opened states launched result =>
    exact .inl ⟨states, launched, _, result⟩
  | started format name preamble opened states launched ending answered =>
    exact .inr ⟨_, _, _, _, states, launched, ending⟩

/-- A run leaves everything as it was, or has had a log; of that, what it should
leave. -/
theorem log_cases :
    (r.progress.log = TraceLog.new t.plan.tmpDir ∧ r.progress.files = fs) ∨
    ∃ path l made content, r.Opened fs path l made ∧
      made l = some (t.plan.leaves r.progress.state content) ∧
      (r.progress.state ≠ .failed → content = r.left w.spawner) := by
  cases h with
  | unopened states files log launched result cause => exact .inl ⟨log, files⟩
  | unmade format opened states launched result =>
    have hinit : r.progress.state = .init := by rw [Progress.state, states]; rfl
    refine .inr ⟨_, _, _, some [], opened, ?_, fun _ => ?_⟩
    · rw [hinit, Function.update_self]
    · rw [TracedRun.left, launched]
  | unwritten format name preamble opened states launched result =>
    have hinit : r.progress.state = .init := by rw [Progress.state, states]; rfl
    refine .inr ⟨_, _, _, some [], opened, ?_, fun _ => ?_⟩
    · rw [hinit, Function.update_self]
    · rw [TracedRun.left, launched]
  | started format name preamble opened states launched ending answered =>
    refine .inr ⟨_, _, _, _, opened, Function.update_self .., fun hfinal => ?_⟩
    rw [TracedRun.left, launched]
    refine ending.content_eq fun hlast => hfinal ?_
    rw [Progress.state, states, hlast]
    rfl

theorem inOrder : r.InOrder w.spawner := by
  rcases h.states_cases with ⟨hstates, hlaunched, e, hresult⟩ |
    ⟨c, files, more, content, hstates, hlaunched, hending⟩
  · constructor <;> simp [Progress.state, hstates, hlaunched, hresult]
  · have hfinal : ∀ s, r.progress.state = s ↔ (RunState.init :: more).getLast? = some s := by
      intro s
      rw [Progress.state, hstates, List.getLast?_eq_some_getLast (List.cons_ne_nil _ _)]
      simp
    constructor
    · rw [hstates]
      rfl
    · rw [hstates]
      exact hending.isChain
    · rw [hfinal]
      exact hending.exists_ok_iff
    · rw [hfinal, hending.failed_iff, hstates, hlaunched]
      simp

theorem tidied : r.Tidied t.plan w.spawner fs := by
  rcases h.log_cases with ⟨hlog, hfiles⟩ | ⟨path, l, made, content, hopened, hl, hcontent⟩
  · constructor <;> simp [hlog, hfiles, TraceLog.new]
  have hbeside := hopened.logged.beside
  have hnames := hopened.logged.names
  have hpath : ∀ path', r.progress.log.path = some path' → path' = path := by
    intro path' hpath'
    rw [hopened.logged.log] at hpath'
    exact (Option.some.inj hpath').symm
  refine ⟨hopened.closed, fun hnone => ?_, fun path' hpath' => ?_, fun path' hpath' hfile => ?_,
    fun _ _ _ => hbeside.standsAt⟩
  · rw [hopened.logged.log] at hnone
    cases hnone
  · rw [hpath path' hpath']
    refine ⟨hbeside.isFile_before hnames hl, ?_⟩
    rw [hbeside.isFile_iff hnames hl, RunPlan.leaves, ← and_assoc]
    by_cases hkeeps : t.plan.keepLog = true ∧ r.progress.state ≠ .failed
    · rw [if_pos hkeeps, hcontent hkeeps.2, and_iff_right hkeeps, ← TracedRun.left_eq_none_iff]
      exact Option.isSome_iff_ne_none
    · simp [hkeeps]
  · rw [hpath path' hpath'] at hfile ⊢
    rw [hbeside.isFile_iff hnames hl, RunPlan.leaves] at hfile
    split at hfile
    · rename_i hkeeps
      obtain ⟨bytes, hbytes⟩ := Option.isSome_iff_exists.mp hfile
      refine hbeside.bytesOf hnames ?_
      rw [hl, RunPlan.leaves, if_pos hkeeps, hbytes,
        TracedRun.written_of_left ((hcontent hkeeps.2).symm.trans hbytes)]
    · cases hfile

end TracedRun.Outcome

/-! ## 3. Calls in a row -/

namespace Tracer

/-- A tracer and the files after calls one after another. -/
def after (t : Tracer) (fs : FileSystem) : List Call → Tracer × FileSystem
  | [] => (t, fs)
  | c :: calls => ((t.call fs c).1).after (t.call fs c).2.progress.files calls

theorem call_of_words {t : Tracer} {fs : FileSystem} {c : Call} (h : c.asked.toWords ≠ []) :
    (t.call fs c).2.Outcome t c.surroundings fs c.asked.toWords c.own :=
  run_outcome t c.surroundings fs h c.own

theorem call_of_no_words {t : Tracer} {fs : FileSystem} {c : Call} (h : c.asked.toWords = []) :
    t.call fs c =
      (t, ⟨.error refusal, ⟨fs, TraceLog.new t.plan.tmpDir, [], [], []⟩, none⟩) := by
  rw [call, h]
  rfl

@[simp] theorem plan_call (t : Tracer) (fs : FileSystem) (c : Call) :
    (t.call fs c).1.plan = t.plan := by
  rw [call]
  cases c.asked.toWords <;> rfl

@[simp] theorem plan_after (t : Tracer) (fs : FileSystem) (calls : List Call) :
    (t.after fs calls).1.plan = t.plan := by
  induction calls generalizing t fs with
  | nil => rfl
  | cons c calls ih => rw [after, ih, plan_call]

/-- A file stands as it did after a call. -/
theorem standsAt_call (t : Tracer) {fs : FileSystem} (c : Call) {path : Text} {l : Location}
    {content : Bytes} (h : fs.StandsAt path l content) :
    (t.call fs c).2.progress.files.StandsAt path l content := by
  by_cases hwords : c.asked.toWords = []
  · rw [call_of_no_words hwords]
    exact h
  · exact (call_of_words hwords).tidied.others path l content h

/-- A file stands as it did after any number of calls. -/
theorem standsAt_after (t : Tracer) {fs : FileSystem} (calls : List Call) {path : Text}
    {l : Location} {content : Bytes} (h : fs.StandsAt path l content) :
    (t.after fs calls).2.StandsAt path l content := by
  induction calls generalizing t fs with
  | nil => exact h
  | cons c calls ih => exact ih _ (t.standsAt_call c h)

/-- Whatever calls went before, a call for no words changes neither the tracer nor a
file, and one for a word is a run that goes through the states in order, leaves the
tracer in its last state, and closes its log and keeps or deletes it as it should. What it keeps
is kept by all later calls. -/
theorem call_orderly (t : Tracer) (fs : FileSystem) (earlier : List Call) (c : Call)
    (later : List Call) :
    let before := t.after fs earlier
    let next := before.1.call before.2 c
    let run := next.2
    (c.asked.toWords = [] → next.1 = before.1 ∧ run.progress.files = before.2 ∧
        run.progress.states = [] ∧ run.result = .error refusal) ∧
      (c.asked.toWords ≠ [] → next.1.state = run.progress.state ∧
        run.InOrder c.surroundings.spawner ∧
        run.Tidied t.plan c.surroundings.spawner before.2) ∧
      ∀ path, run.progress.log.path = some path → run.progress.files.isFile path = true →
        (next.1.after run.progress.files later).2.bytesOf path =
          .ok (run.written c.surroundings.spawner) := by
  intro before next run
  have houtcome : c.asked.toWords ≠ [] →
      run.Outcome before.1 c.surroundings before.2 c.asked.toWords c.own := call_of_words
  have hplan : before.1.plan = t.plan := plan_after t fs earlier
  refine ⟨fun hwords => ?_, fun hwords => ?_, fun path hpath hfile => ?_⟩
  · have hnext : next = _ := call_of_no_words hwords
    simp only [run, hnext]
    exact ⟨trivial, trivial, trivial, trivial⟩
  · refine ⟨state_run ?_, (houtcome hwords).inOrder, hplan ▸ (houtcome hwords).tidied⟩
    exact List.ne_nil_of_mem (List.mem_of_mem_head? (houtcome hwords).inOrder.first)
  · have hwords : c.asked.toWords ≠ [] := by
      intro hnone
      have hnext : next = _ := call_of_no_words hnone
      simp only [run, hnext] at hpath
      cases hpath
    obtain ⟨l, content, hstands⟩ := FileSystem.isFile_iff.mp hfile
    have hwritten := (houtcome hwords).tidied.content path hpath hfile
    rw [hstands.bytesOf] at hwritten
    rw [(next.1.standsAt_after later hstands).bytesOf, hwritten]

/-- Surroundings in which every child writes the same and returns. -/
def writing (log : Bytes) : Surroundings where
  environment := []
  digits n := .ok (List.replicate n 97)
  room := 65537
  host _ _ := .error .noRoom
  spawner _ _ := (.ok ⟨log, .ok 0, .never, none⟩, [])

/-- After one text was refused two runs keep a log each, and the first of the logs is
still there after the second run. -/
theorem call_orderly_two_logs :
    let log : Bytes := [43, 97, 97, 49, 31, 47, 112, 47, 98, 31, 47, 31, 97, 97]
    let t := Tracer.new ⟨.text "bash", .int 1, .int 20, false, true, none, true, none⟩ false
    let fs : FileSystem := ⟨[(["tmp"], .directory)], "/", "/tmp", 0⟩
    let refused : Call := ⟨writing log, .text "true", []⟩
    let c : Call := ⟨writing log, .words ["true"], []⟩
    let before := t.after fs [refused]
    let next := before.1.call before.2 c
    next.1.state = .done ∧ ∃ path, next.2.progress.log.path = some path ∧
      (next.1.after next.2.progress.files [c]).2.bytesOf path = .ok log := by
  have hkept : ∀ (t : Tracer) (fs : FileSystem) (refused c : Call) (log : Bytes) (path : Text),
      let before := t.after fs [refused]
      let next := before.1.call before.2 c
      c.asked.toWords ≠ [] → next.2.progress.state = .done →
        next.2.progress.log.path = some path → next.2.progress.files.isFile path = true →
        next.2.written c.surroundings.spawner = log →
        next.1.state = .done ∧ ∃ path, next.2.progress.log.path = some path ∧
          (next.1.after next.2.progress.files [c]).2.bytesOf path = .ok log := by
    intro t fs refused c log path before next hwords hstate hpath hfile hwritten
    obtain ⟨-, hrun, hlater⟩ := call_orderly t fs [refused] c [c]
    exact ⟨(hrun hwords).1.trans hstate, path, hpath, hwritten ▸ hlater path hpath hfile⟩
  intro log t fs refused c
  exact hkept t fs refused c log "/tmp/shellcov_xtrace_00000000.log" (List.cons_ne_nil _ _)
    (by decide +kernel) (by decide +kernel) (by decide +kernel) (by decide +kernel)

/-- A log that is to be kept is gone where its command has removed it, also where the run
stops in waiting for the command. -/
example :
    let removing : Surroundings := { writing [] with
      spawner := fun _ _ => (.ok ⟨[97], .error (.other "OSError" "wait failed"), .running, none⟩, []) }
    let t := Tracer.new ⟨.text "bash", .int 1, .int 20, false, true, none, true, none⟩ false
    let r := (t.run removing ⟨[(["tmp"], .directory)], "/", "/tmp", 0⟩ ["true"] []).2
    r.progress.state = .running ∧
      r.progress.files.isFile "/tmp/shellcov_xtrace_00000000.log" = false := by
  decide +kernel

end Tracer

end LineTrace
