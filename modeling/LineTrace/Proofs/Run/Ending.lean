/-
LineTrace.Proofs.Run.Ending — the ways in which a run can end, and what it leaves.

A run has many exits: the startup file cannot be made or written, the command cannot
be started, waiting for it fails, its log cannot be asked for, opened or read on, or
it is drained. `Ending` lists what can become of a command that is to be launched: for
each way out the states that the run goes through, its result, and what its log holds.
Which result it is says `RunPlan.launchedResult`, which knows no files and no log any more.
`launch_ending` is proved by following the run once, and nothing after it opens a stage
again.

The files are followed beside it. `Logged` says that all files are as they were before
the run but for those it has made itself, of which its log is one; so cleaning up is a
matter of the places of two files, and `run_outcome` tells for every run what is at
these places in the end.
-/
import LineTrace.Proofs.Run.Course
import LineTrace.Proofs.Run.Draining
import LineTrace.Proofs.Trace.LogFile
import LineTrace.Proofs.Trace.Prefixes

namespace LineTrace

open FileSystem

/-! ## 1. Faults -/

/-- Whether a fault is that a command cannot be started. -/
def Fault.isSpawn : Fault → Bool
  | .failure ⟨.spawn, _, _⟩ => true
  | _ => false

/-- Whether a fault is that a log cannot be read. -/
def Fault.isTraceLog : Fault → Bool
  | .failure ⟨.traceLog _, _, _⟩ => true
  | _ => false

theorem Fault.isSpawn_iff {e : Fault} :
    e.isSpawn = true ↔ ∃ message hint, e = .failure ⟨.spawn, message, hint⟩ := by
  constructor
  · intro h
    unfold isSpawn at h
    split at h
    · exact ⟨_, _, rfl⟩
    · cases h
  · rintro ⟨message, hint, rfl⟩
    rfl

theorem Fault.isTraceLog_iff {e : Fault} :
    e.isTraceLog = true ↔ ∃ run message hint, e = .failure ⟨.traceLog run, message, hint⟩ := by
  constructor
  · intro h
    unfold isTraceLog at h
    split at h
    · exact ⟨_, _, _, rfl⟩
    · cases h
  · rintro ⟨run, message, hint, rfl⟩
    rfl

theorem not_isTraceLog_of_isUnreadable {e : Fault} (h : Progress.isUnreadable e = false) :
    e.isTraceLog = false := by
  by_contra htrace
  obtain ⟨run, message, hint, rfl⟩ := Fault.isTraceLog_iff.mp (Bool.not_eq_false _ ▸ htrace)
  cases h

theorem not_isTraceLog_of_readSize {v : Setting} {e : Fault} (h : readSize v = .error e) :
    e.isTraceLog = false := by
  unfold readSize at h
  dsimp only at h
  split at h
  · split at h <;> cases h
    rfl
  · split at h <;> cases h
    rfl
  · split at h <;> cases h
    rfl
  · cases h
    rfl

theorem not_isTraceLog_of_drain {f : TraceFormat} {isFile : Text → Bool} {cwd : Text}
    {countHits : Bool} {reads : List (Except Fault Bytes)} {e : Fault}
    (h : drain f isFile cwd countHits reads = .error e) : e.isTraceLog = false := by
  rcases drain_eq_error h with ⟨fault, rfl⟩ | ⟨line, rfl⟩ <;> rfl

/-! ## 2. Launched commands -/

/-- What a child leaves of its log when it is waited for: what it wrote, unless it has
removed the file. -/
def Child.left (child : Child) : Option Bytes :=
  if child.loss = .running then none else some child.writes

theorem Child.left_of_kept {child : Child} (h : child.removesLog = false) :
    child.left = some child.writes := by
  rw [left, removesLog_eq_false_iff.mp h, if_neg (by decide)]

/-- What is there of the log of a child when it is read. -/
theorem Child.left_lose (child : Child) :
    (if child.loss = .ended then none else child.left) =
      if child.removesLog then none else some child.writes := by
  rw [left, removesLog]
  cases child.loss <;> rfl

/-- What becomes of a command that is to be launched: from what the spawner answers,
the states that the run goes through, its result, and what its log then holds, if it
is still there. -/
inductive Ending : Except Fault Child → List RunState → Except Fault Resultset →
    Option Bytes → Prop where
  | refused {e : Fault} (h : e.isSpawn = true) : Ending (.error e) [.failed] (.error e) (some [])
  | crashed {e : Fault} (h : e.isSpawn = false) : Ending (.error e) [] (.error e) (some [])
  | unwaited {child : Child} {e : Fault} (h : child.ending = .error e) :
      Ending (.ok child) [.spawned, .running] (.error e) child.left
  | undrained {child : Child} {returncode : Int} (hended : child.ending = .ok returncode)
      {e : Fault} (h : e.isTraceLog = false) :
      Ending (.ok child) [.spawned, .running, .exited, .draining] (.error e) child.left
  | lost {child : Child} {returncode : Int} (hended : child.ending = .ok returncode) {e : Fault}
      (h : e.isTraceLog = true) (content : Option Bytes) :
      Ending (.ok child) [.spawned, .running, .exited, .draining, .failed] (.error e) content
  | done {child : Child} {returncode : Int} (hended : child.ending = .ok returncode)
      (rs : Resultset) :
      Ending (.ok child) [.spawned, .running, .exited, .draining, .done] (.ok rs) child.left

/-- A child whose log is drained was started and waited for. The run fails where that ends
with the log. -/
theorem Ending.exists_ended {answer : Except Fault Child} {more : List RunState}
    {result : Except Fault Resultset} {content : Option Bytes}
    (h : Ending answer more result content) (hdraining : RunState.draining ∈ more) :
    ∃ child returncode, answer = .ok child ∧ child.ending = .ok returncode ∧
      ∀ e, result = .error e → e.isTraceLog = true →
        (RunState.init :: more).getLast? = some .failed := by
  cases h with
  | refused | crashed | unwaited => exact absurd hdraining (by decide)
  | undrained hended hother =>
    refine ⟨_, _, rfl, hended, ?_⟩
    rintro e ⟨⟩ htrace
    rw [hother] at htrace
    cases htrace
  | lost hended => exact ⟨_, _, rfl, hended, fun _ _ _ => rfl⟩
  | done hended => exact ⟨_, _, rfl, hended, nofun⟩

/-- What a run comes to whose log was drained as far as it could be read. -/
def RunPlan.drainedResult (s : RunPlan) (words : List Text) (returncode : Int) :
    Except Fault (Drained × Option Fault) → Except Fault Resultset
  | .error e => .error e
  | .ok (d, some e) =>
    if Progress.isUnreadable e then
      .error (.failure ⟨.traceLog
          ⟨some (d.coverage.within s.rootDirectory), d.tally.skipped, some returncode⟩,
        "trace log drain failed: " ++ e.message, none⟩)
    else .error e
  | .ok (d, none) =>
    .ok ⟨words, returncode, d.coverage.within s.rootDirectory, d.tally.skipped,
      d.tally.unattributed⟩

/-- What a run comes to whose child has ended, from what is left of its log. -/
def RunPlan.endedResult (s : RunPlan) (room : Nat) (f : TraceFormat) (isFile : Text → Bool)
    (cwd : Text) (words : List Text) (lost : Fault) (child : Child) (returncode : Int) :
    Except Fault Resultset :=
  match readSize s.chunkSize with
  | .error e => .error e
  | .ok size =>
    s.drainedResult words returncode
      (if child.removesLog then .ok (Drained.nothing s.countHits, some lost)
      else
        drain f isFile cwd s.countHits (limited child.readLimit (readsBy room size child.writes)))

/-- What a run comes to whose command is to be launched, from what the spawner answers. -/
def RunPlan.launchedResult (s : RunPlan) (room : Nat) (f : TraceFormat) (isFile : Text → Bool)
    (cwd : Text) (words : List Text) (lost : Fault) (answer : Except Fault Child) :
    Except Fault Resultset :=
  match answer with
  | .error e => .error e
  | .ok child =>
    match child.ending with
    | .error e => .error e
    | .ok returncode => s.endedResult room f isFile cwd words lost child returncode

/-- What is left of what a log holds, when the run has come to its last state. -/
def RunPlan.leaves (s : RunPlan) (final : RunState) (content : Option Bytes) : Option Bytes :=
  if s.keepLog = true ∧ final ≠ .failed then content else none

namespace Progress

/-- A run whose log was made at a place: the files are those from before and those
that were made since. -/
structure Logged (before : FileSystem) (path : Text) (l : Location) (made : Made)
    (p : Progress) : Prop where
  log : p.log.path = some path
  names : before.Names path l
  beside : Beside before p.files made

section

variable {before : FileSystem} {path : Text} {l : Location} {made : Made} {p : Progress}

theorem Logged.congr (h : Logged before path l made p) {q : Progress} (hlog : q.log = p.log)
    (hfiles : q.files = p.files) : Logged before path l made q :=
  ⟨hlog ▸ h.log, h.names, hfiles ▸ h.beside⟩

theorem Logged.content (h : Logged before path l made p) {content : Bytes}
    (hl : made l = some (some content)) : p.log.content p.files = .ok content :=
  TraceLog.content_of_there h.log h.names h.beside hl

theorem Logged.content_gone (h : Logged before path l made p) (hl : made l = some none) :
    p.log.content p.files = .error (TraceLog.lost path) :=
  TraceLog.content_of_gone h.log h.names h.beside hl

/-- A log that is deleted is gone, whether it was there or not. -/
theorem Logged.deleted (h : Logged before path l made p) {content : Option Bytes}
    (hl : made l = some content) :
    Beside before (p.log.deleted p.files) (Function.update made l (some none)) := by
  cases content with
  | some bytes => exact TraceLog.deleted_of_there h.log h.names h.beside hl
  | none =>
    rw [TraceLog.deleted_of_gone h.log h.names h.beside hl, ← hl, Function.update_eq_self]
    exact h.beside

/-- What is left of a log after a moment at which its child may remove it. -/
theorem Logged.lose (h : Logged before path l made p) {content : Option Bytes}
    (hl : made l = some content) (child : Child) (moment : LogLoss) :
    Logged before path l
      (Function.update made l (some (if child.loss = moment then none else content)))
      (p.lose child moment) := by
  by_cases hloss : child.loss = moment
  · rw [if_pos hloss, lose_self hloss]
    exact ⟨h.log, h.names, h.deleted hl⟩
  · rw [if_neg hloss, lose_of_ne hloss, ← hl, Function.update_eq_self]
    exact h

/-! ### Draining -/

/-- A drained run is done, with a result. -/
theorem drained_eq (p : Progress) (s : RunPlan) (words : List Text) (returncode : Int)
    (d : Drained) :
    ∃ records rs, p.drained s words returncode d = ((p.recorded records).enter .done, .ok rs) := by
  rw [drained]
  by_cases hresyncs : d.counts.resyncs = 0 <;> by_cases hskipped : d.tally.skipped = 0
  · rw [if_pos hresyncs, if_pos hskipped]
    exact ⟨_, _, rfl⟩
  · rw [if_pos hresyncs, if_neg hskipped, tell, tell, recorded_recorded]
    exact ⟨_, _, rfl⟩
  · rw [if_neg hresyncs, if_pos hskipped, tell, tell, recorded_recorded]
    exact ⟨_, _, rfl⟩
  · rw [if_neg hresyncs, if_neg hskipped, tell, tell, tell, recorded_recorded, recorded_recorded]
    exact ⟨_, _, rfl⟩

/-- A run whose log cannot be read on has failed, and one that was stopped by anything
else is left as it is. -/
theorem unreadable_eq (p : Progress) (s : RunPlan) (returncode : Int) (d : Drained) (e : Fault) :
    (∃ message e', e'.isTraceLog = true ∧
      p.unreadable s returncode d e = ((p.enter .failed).tell Level.error message, .error e')) ∨
    e.isTraceLog = false ∧ p.unreadable s returncode d e = (p, .error e) := by
  cases he : isUnreadable e with
  | true =>
    rw [unreadable, if_pos he]
    exact .inl ⟨_, _, rfl, rfl⟩
  | false =>
    exact .inr ⟨not_isTraceLog_of_isUnreadable he, unreadable_of_not p s returncode d he⟩

/-- What becomes of a child that has ended and left its log where it was. -/
theorem drainLog_ending_of_kept (room : Nat) (s : RunPlan) (f : TraceFormat) (words : List Text)
    {child : Child} {returncode : Int} (hended : child.ending = .ok returncode)
    {reads : Option Int} (hreads : readSize s.chunkSize = .ok reads)
    (hkept : child.removesLog = false) (hcontent : p.log.content p.files = .ok child.writes) :
    ∃ more, (p.drainLog room s f words returncode child).1.states = p.states ++ .draining :: more ∧
      (p.drainLog room s f words returncode child).1.log = p.log ∧
      (p.drainLog room s f words returncode child).1.files = p.files ∧
      Ending (.ok child) ([.spawned, .running, .exited, .draining] ++ more)
        (p.drainLog room s f words returncode child).2 child.left := by
  have hthere : child.loss ≠ .ended := by
    rw [Child.removesLog_eq_false_iff.mp hkept]
    decide
  rw [drainLog_of_content f words returncode hreads hthere hcontent]
  cases hdrain : drain f p.files.isFile p.files.cwd s.countHits
      (limited child.readLimit (readsBy room reads child.writes)) with
  | error e => exact ⟨[], rfl, rfl, rfl, .undrained hended (not_isTraceLog_of_drain hdrain)⟩
  | ok found =>
    obtain ⟨d, _ | e⟩ := found
    · obtain ⟨records, rs, hdrained⟩ :=
        drained_eq (p.reading.recorded d.details) s words returncode d
      simp only [hdrained]
      exact ⟨[.done], by simp [reading, enter], rfl, rfl, .done hended rs⟩
    · rcases unreadable_eq (p.reading.recorded d.details) s returncode d e with
        ⟨message, e', htrace, hunreadable⟩ | ⟨htrace, hunreadable⟩
      · simp only [hunreadable]
        exact ⟨[.failed], by simp [reading, enter], rfl, rfl, .lost hended htrace _⟩
      · simp only [hunreadable]
        exact ⟨[], rfl, rfl, rfl, .undrained hended htrace⟩

/-- What becomes of a child that has ended, once its log is drained. -/
theorem drainLog_ending (room : Nat) (s : RunPlan) (f : TraceFormat) (words : List Text)
    {child : Child} {returncode : Int} (hended : child.ending = .ok returncode)
    (h : Logged before path l made p) (hl : made l = some child.left) :
    let r := p.drainLog room s f words returncode child
    ∃ more content, r.1.states = p.states ++ more ∧
      Ending (.ok child) ([.spawned, .running, .exited] ++ more) r.2 content ∧
      Logged before path l (Function.update made l (some content)) r.1 := by
  have hsame : Function.update made l (some child.left) = made := by
    rw [← hl, Function.update_eq_self]
  intro r
  cases hsize : readSize s.chunkSize with
  | error e =>
    have hr : r = (p.enter .draining, .error e) := by
      simp only [r, drainLog, hsize]
    rw [hr]
    refine ⟨[.draining], child.left, rfl, .undrained hended (not_isTraceLog_of_readSize hsize), ?_⟩
    rw [hsame]
    exact h.congr rfl rfl
  | ok size =>
    cases hremoves : child.removesLog with
    | true =>
      have hgone := h.lose hl child .ended
      rw [Child.left_lose, if_pos hremoves] at hgone
      have hr : r = _ := drainLog_of_gone f words returncode hsize
        (log_lose p child .ended ▸ hgone.content_gone (Function.update_self ..))
      rcases unreadable_eq (p.lose child .ended).reading s returncode
          (Drained.nothing s.countHits) (TraceLog.lost path) with
        ⟨message, e', htrace, hunreadable⟩ | ⟨hnot, -⟩
      · rw [hr.trans hunreadable]
        refine ⟨[.draining, .failed], none, ?_, .lost hended htrace none, hgone.congr rfl rfl⟩
        simp [reading, enter, tell, recorded]
      · cases hnot
    | false =>
      rw [Child.left_of_kept hremoves] at hl
      obtain ⟨more, hstates, hlog, hfiles, hending⟩ :=
        drainLog_ending_of_kept room s f words hended hsize hremoves (h.content hl)
      refine ⟨.draining :: more, child.left, hstates, hending, ?_⟩
      rw [hsame]
      exact h.congr hlog hfiles

theorem unreadable_snd (p : Progress) (s : RunPlan) (words : List Text) (returncode : Int)
    (d : Drained) (e : Fault) :
    (p.unreadable s returncode d e).2 = s.drainedResult words returncode (.ok (d, some e)) := by
  rw [unreadable, RunPlan.drainedResult]
  split <;> rfl

/-- What comes of draining a log, as far as the result goes. The files are asked about only
where the log is still there. -/
theorem drainLog_snd (room : Nat) (s : RunPlan) (f : TraceFormat) (words : List Text)
    (returncode : Int) {child : Child} (h : Logged before path l made p)
    (hl : made l = some child.left) {isFile : Text → Bool} {cwd : Text}
    (hfiles : child.removesLog = false → p.files.isFile = isFile ∧ p.files.cwd = cwd) :
    (p.drainLog room s f words returncode child).2 =
      s.endedResult room f isFile cwd words (TraceLog.lost path) child returncode := by
  rw [RunPlan.endedResult]
  cases hsize : readSize s.chunkSize with
  | error e => simp only [drainLog, hsize]
  | ok size =>
    dsimp only
    cases hremoves : child.removesLog with
    | true =>
      have hgone := h.lose hl child .ended
      rw [Child.left_lose, if_pos hremoves] at hgone
      rw [drainLog_of_gone f words returncode hsize
        (log_lose p child .ended ▸ hgone.content_gone (Function.update_self ..)),
        unreadable_snd _ s words, if_pos rfl]
    | false =>
      obtain ⟨hisFile, hcwd⟩ := hfiles hremoves
      have hthere : child.loss ≠ .ended := by
        rw [Child.removesLog_eq_false_iff.mp hremoves]
        decide
      rw [Child.left_of_kept hremoves] at hl
      rw [drainLog_of_content f words returncode hsize hthere (h.content hl),
        if_neg Bool.false_ne_true, hisFile, hcwd]
      cases drain f isFile cwd s.countHits
          (limited child.readLimit (readsBy room size child.writes)) with
      | error e => rfl
      | ok found =>
        obtain ⟨d, _ | e⟩ := found
        · rfl
        · exact unreadable_snd _ s words returncode d e

/-! ### Launching -/

/-- A child that was started has written to its log, and left of that what it leaves. -/
theorem Logged.running (h : Logged before path l made p) (hwritable : p.log.writable = true)
    (hl : made l = some (some [])) (words : List Text) (child : Child) :
    Logged before path l (Function.update made l (some child.left)) (p.running words child) := by
  have hwritten : (p.log.written p.files child.writes).1 =
      p.files.appendFile path child.writes := by
    rw [TraceLog.written, h.log, hwritable]
  have hbeside := h.beside.appendFile h.names hl child.writes
  rw [List.nil_append, ← hwritten] at hbeside
  have hlose := Logged.lose (p := { ((p.enter .spawned).tell Level.info
    ("Tracing " ++ Text.shellCommand words)).enter .running with
      files := (p.log.written p.files child.writes).1 })
    ⟨h.log, h.names, hbeside⟩ (Function.update_self ..) child .running
  rwa [Function.update_idem] at hlose

/-- A child that leaves its log where it is changes nothing but the contents of files. -/
theorem sameTree_running (words : List Text) {child : Child} (hkept : child.removesLog = false)
    (hlog : p.log.path = some path) (hwritable : p.log.writable = true) :
    SameTree p.files (p.running words child).files := by
  have hwritten : (p.log.written p.files child.writes).1 =
      p.files.appendFile path child.writes := by
    rw [TraceLog.written, hlog, hwritable]
  have hthere : child.loss ≠ .running := by
    rw [Child.removesLog_eq_false_iff.mp hkept]
    decide
  rw [Progress.running, lose_of_ne hthere]
  exact hwritten ▸ sameTree_appendFile p.files path child.writes

/-- What becomes of a command that is launched with an empty log. -/
theorem launch_ending (w : Surroundings) (s : RunPlan) (f : TraceFormat) (c : TracedCommand)
    (h : Logged before path l made p) (hwritable : p.log.writable = true)
    (hl : made l = some (some [])) :
    let r := p.launch w s f c
    (∃ more content, r.1.states = p.states ++ more ∧
      Ending (w.spawner p.files c).1 more r.2 content ∧
      Logged before path l (Function.update made l (some content)) r.1) ∧
      r.2 = s.launchedResult w.room f p.files.isFile p.files.cwd c.words (TraceLog.lost path)
        (w.spawner p.files c).1 := by
  have hempty : Function.update made l (some (some [])) = made := by
    rw [← hl, Function.update_eq_self]
  intro r
  obtain ⟨answer, records, hspawned⟩ : ∃ answer records,
      w.spawner p.files c = (answer, records) := ⟨_, _, rfl⟩
  simp only [hspawned]
  cases answer with
  | error e =>
    cases he : e.isSpawn with
    | true =>
      obtain ⟨message, hint, rfl⟩ := Fault.isSpawn_iff.mp he
      have hr : r = ((p.recorded records).enter .failed,
          .error (.failure ⟨.spawn, message, hint⟩)) := by
        simp only [r, launch, hspawned]
      rw [hr]
      refine ⟨⟨[.failed], some [], rfl, .refused he, ?_⟩, rfl⟩
      rw [hempty]
      exact h.congr rfl rfl
    | false =>
      have hr : r = (p.recorded records, .error e) := by
        simp only [r, launch, hspawned]
        split
        · cases he
        · rfl
      rw [hr]
      refine ⟨⟨[], some [], (List.append_nil _).symm, .crashed he, ?_⟩, rfl⟩
      rw [hempty]
      exact h.congr rfl rfl
  | ok child =>
    have hrecorded : Logged before path l made (p.recorded records) := h.congr rfl rfl
    have hrunning := hrecorded.running hwritable hl c.words child
    have hr : r = (p.recorded records).follow w.room s f c.words child := by
      simp only [r, launch, hspawned]
    rw [follow_eq] at hr
    cases hending : child.ending with
    | error e =>
      simp only [hending] at hr
      rw [hr]
      refine ⟨⟨[.spawned, .running], child.left, ?_, .unwaited hending, hrunning⟩, ?_⟩
      · rw [states_running, states_recorded]
      · simp only [RunPlan.launchedResult, hending]
    | ok returncode =>
      simp only [hending] at hr
      obtain ⟨hfiles, hlog, hstates⟩ :=
        ((p.recorded records).running c.words child).exited_eq returncode
      have hexited : Logged before path l (Function.update made l (some child.left))
          (((p.recorded records).running c.words child).exited returncode) := by
        refine ⟨?_, h.names, ?_⟩
        · rw [hlog]
          exact hrunning.log
        · rw [hfiles]
          exact hrunning.beside
      obtain ⟨more, content, hmore, hend, hleft⟩ := drainLog_ending w.room s f c.words hending
        hexited (Function.update_self ..)
      have hasked : child.removesLog = false →
          (((p.recorded records).running c.words child).exited returncode).files.isFile =
              p.files.isFile ∧
            (((p.recorded records).running c.words child).exited returncode).files.cwd =
              p.files.cwd := by
        intro hkept
        have hsame := sameTree_running c.words hkept hrecorded.log hwritable
        rw [hfiles]
        exact ⟨hsame.isFile, hsame.cwd⟩
      have hresult := drainLog_snd w.room s f c.words returncode hexited (Function.update_self ..)
        hasked
      rw [← hr] at hmore hend hleft hresult
      refine ⟨⟨[.spawned, .running, .exited] ++ more, content, ?_, hend, ?_⟩, ?_⟩
      · rw [hmore, hstates, states_running, states_recorded, List.append_assoc, List.append_assoc]
        rfl
      · rwa [Function.update_idem] at hleft
      · simp only [RunPlan.launchedResult, hending]
        exact hresult

/-! ### Cleaning up -/

@[simp] theorem log_cleanUp (p : Progress) (s : RunPlan) (startup : Option Text) :
    (p.cleanUp s startup).log = p.log.closed := by
  unfold cleanUp
  extract_lets q r
  have hr : r.log = p.log.closed := by
    simp only [r]
    split
    · split <;> rfl
    · rfl
  split
  · exact hr
  · exact hr

/-- With its startup file taken away a run is cleaned up like one that has none. -/
theorem cleanUp_of_remove {startup : Text} {gone : FileSystem}
    (h : p.files.remove startup = .ok gone) (s : RunPlan) :
    p.cleanUp s (some startup) = { p with files := gone }.cleanUp s none := by
  have hclosed : p.closeLog.files.remove startup = .ok gone := h
  rw [cleanUp, cleanUp]
  simp only [hclosed]
  rfl

/-- What is left of a log. -/
theorem Logged.cleanUp (h : Logged before path l made p) (s : RunPlan) {content : Option Bytes}
    (hl : made l = some content) :
    Logged before path l (Function.update made l (some (s.leaves p.state content)))
      (p.cleanUp s none) := by
  have hlog : (p.cleanUp s none).log.path = some path := by
    rw [log_cleanUp]
    exact h.log
  refine ⟨hlog, h.names, ?_⟩
  have hsame : Function.update made l (some content) = made := by
    rw [← hl, Function.update_eq_self]
  by_cases hkeeps : s.keepLog = true ∧ p.state ≠ .failed
  · have hfiles : (p.cleanUp s none).files = p.files := by
      have hclosed : s.keepLog = true ∧ p.closeLog.state ≠ .failed := hkeeps
      rw [Progress.cleanUp]
      simp only [if_pos hclosed]
      rfl
    rw [RunPlan.leaves, if_pos hkeeps, hsame, hfiles]
    exact h.beside
  · have hfiles : (p.cleanUp s none).files = p.log.deleted p.files := by
      have hclosed : ¬ (s.keepLog = true ∧ p.closeLog.state ≠ .failed) := hkeeps
      rw [Progress.cleanUp]
      simp only [if_neg hclosed]
      rfl
    rw [RunPlan.leaves, if_neg hkeeps, hfiles]
    exact h.deleted hl

end

end Progress

/-! ## 3. The two files -/

/-- A log is opened on a new file, or nothing happens. -/
theorem Progress.openLog_cases (p : Progress) (hpath : p.log.path = none) :
    (∃ q e, p.openLog = (q, .error (.file e)) ∧ q.files = p.files ∧ q.log = p.log) ∨
    ∃ q path l n, p.openLog = (q, .ok ()) ∧ l.head? = some (TraceLog.fileName n) ∧
      q.log.writable = true ∧
      q.Logged p.files path l (Function.update Made.nothing l (some (some []))) := by
  rcases p.log.opened_cases p.files hpath with
    ⟨e, hopened⟩ | ⟨files, path, l, n, hopened, hname, hnames, hbeside⟩
  · rw [openLog, hopened]
    exact .inl ⟨_, _, rfl, rfl, rfl⟩
  · rw [openLog, hopened]
    exact .inr ⟨_, path, l, n, rfl, hname, rfl, rfl, hnames, hbeside⟩

/-- What comes of making a startup file beside others: it cannot be made, or is made
and stays empty, because its text has no bytes, or holds the bytes of its text. -/
theorem TraceFormat.writeStartup_cases {before fs : FileSystem} {made : FileSystem.Made}
    (h : FileSystem.Beside before fs made) (f : TraceFormat) (directory chain : Option Text) :
    (∃ e, f.writeStartup fs directory chain = (fs, .error (.file e))) ∨
    ∃ files startup n l, l.head? = some (startupName n) ∧ before.Names startup l ∧
      fs.nodeAt l = none ∧
      ((∃ e, Text.encode .utf8Escaped (f.preamble chain) = .error e ∧
          f.writeStartup fs directory chain = (files, .error (.encode e)) ∧
          FileSystem.Beside before files (Function.update made l (some (some [])))) ∨
        ∃ bytes, Text.encode .utf8Escaped (f.preamble chain) = .ok bytes ∧
          f.writeStartup fs directory chain = (files, .ok startup) ∧
          FileSystem.Beside before files (Function.update made l (some (some bytes)))) := by
  rw [writeStartup]
  cases htemporary : fs.makeTemporary (directory.getD fs.tmp) startupLead startupTrail with
  | error e => exact .inl ⟨e, rfl⟩
  | ok result =>
    obtain ⟨empty, startup⟩ := result
    obtain ⟨n, l, hname, hnew⟩ := FileSystem.makeTemporary_new (by decide) (by decide)
      ⟨104, by decide⟩ htemporary
    have hbeside := h.make hnew
    have hnames : before.Names startup l :=
      ⟨(hbeside.locate_iff hnew.isFile).mp hnew.locate, hnew.isFile⟩
    refine .inr ?_
    cases hbytes : Text.encode .utf8Escaped (f.preamble chain) with
    | error e =>
      exact ⟨empty, startup, n, l, hname, hnames, hnew.nothing, .inl ⟨e, rfl, rfl, hbeside⟩⟩
    | ok bytes =>
      exact ⟨empty.appendFile startup bytes, startup, n, l, hname, hnames, hnew.nothing,
        .inr ⟨bytes, rfl, rfl, h.make (hnew.appendFile bytes)⟩⟩

/-! ## 4. Whole runs -/

/-- A run that opened a log, with a name of its own, and has closed it; and the files
that it has made. -/
structure TracedRun.Opened (r : TracedRun) (before : FileSystem) (path : Text) (l : Location)
    (made : FileSystem.Made) : Prop where
  name : ∃ n, l.head? = some (TraceLog.fileName n)
  logged : r.progress.Logged before path l made
  closed : r.progress.log.writable = false

/-- What a run of at least one word can come to. Where it ends early it has no log, no
startup file, or one without its text; else its command is launched. -/
inductive TracedRun.Outcome (t : Tracer) (w : Surroundings) (fs : FileSystem) (words : List Text)
    (own : Environment) (r : TracedRun) : Prop where
  | unopened {e : Fault} (states : r.progress.states = [.init]) (files : r.progress.files = fs)
      (log : r.progress.log = TraceLog.new t.plan.tmpDir) (launched : r.launched = none)
      (result : r.result = .error e)
      (cause : t.verify = true ∨ w.format t.plan.delimiterBytes = .error e ∨
        ∃ f e', w.format t.plan.delimiterBytes = .ok f ∧ e = .file e')
  | unmade {f : TraceFormat} {path : Text} {l : Location} {e : FileError}
      (format : w.format t.plan.delimiterBytes = .ok f)
      (opened : r.Opened fs path l
        (Function.update Made.nothing l (some (t.plan.leaves .init (some [])))))
      (states : r.progress.states = [.init]) (launched : r.launched = none)
      (result : r.result = .error (.file e))
  | unwritten {f : TraceFormat} {path : Text} {l l' : Location} {n : Nat} {e : Text.EncodeFault}
      (format : w.format t.plan.delimiterBytes = .ok f)
      (name : l'.head? = some (TraceFormat.startupName n))
      (preamble : Text.encode .utf8Escaped (f.preamble (chainOf w.environment own)) = .error e)
      (opened : r.Opened fs path l
        (Function.update (Function.update Made.nothing l' (some (some [])))
          l (some (t.plan.leaves .init (some [])))))
      (states : r.progress.states = [.init]) (launched : r.launched = none)
      (result : r.result = .error (.encode e))
  | started {f : TraceFormat} {path : Text} {l l' : Location} {n : Nat} {bytes : Bytes}
      {c : TracedCommand} {files : FileSystem} {more : List RunState} {content : Option Bytes}
      (format : w.format t.plan.delimiterBytes = .ok f)
      (name : l'.head? = some (TraceFormat.startupName n))
      (preamble : Text.encode .utf8Escaped (f.preamble (chainOf w.environment own)) = .ok bytes)
      (opened : r.Opened fs path l
        (Function.update (Function.update Made.nothing l' (some none))
          l (some (t.plan.leaves r.progress.state content))))
      (states : r.progress.states = .init :: more) (launched : r.launched = some (c, files))
      (ending : Ending (w.spawner files c).1 more r.result content)
      (answered : r.result = t.plan.launchedResult w.room f files.isFile files.cwd words
        (TraceLog.lost path) (w.spawner files c).1)

namespace Tracer

variable {t : Tracer} {w : Surroundings}

/-- What a run comes to whose log is open. -/
theorem runOpened_outcome {p : Progress} {fs : FileSystem} {path : Text} {l : Location} {n : Nat}
    (hname : l.head? = some (TraceLog.fileName n))
    (h : p.Logged fs path l (Function.update Made.nothing l (some (some []))))
    (hwritable : p.log.writable = true) (hstates : p.states = [.init]) {f : TraceFormat}
    (hformat : w.format t.plan.delimiterBytes = .ok f) (words : List Text) (own : Environment) :
    (p.runOpened w t.plan f words own).Outcome t w fs words own := by
  obtain ⟨q, hfiles, hlog, hq, hrun⟩ := runOpened_eq p w t.plan f words own
  have hqlogged := h.congr hlog hfiles
  have hqstate : q.state = .init := by rw [Progress.state, hq, hstates]; rfl
  rw [hstates] at hq
  rcases TraceFormat.writeStartup_cases hqlogged.beside f t.plan.tmpDir
      (chainOf w.environment own) with
    ⟨e, hstartup⟩ | ⟨files, startup, m, l', hname', hnames, hnothing, hcases⟩
  · simp only [hstartup] at hrun
    have hleft := hqlogged.cleanUp t.plan (Function.update_self ..)
    rw [Function.update_idem, hqstate] at hleft
    rw [hrun]
    exact .unmade hformat ⟨⟨n, hname⟩, hleft, by simp [TraceLog.closed]⟩
      (by rw [Progress.states_cleanUp]; exact hq) rfl rfl
  have hne : l' ≠ l := by
    rintro rfl
    rw [hname, Option.some.injEq] at hname'
    exact TraceFormat.startupName_ne m n hname'.symm
  rcases hcases with ⟨e, hbytes, hstartup, hbeside⟩ | ⟨bytes, hbytes, hstartup, hbeside⟩
  · simp only [hstartup] at hrun
    have hmade : Progress.Logged fs path l _ { q with files } :=
      ⟨hqlogged.log, hqlogged.names, hbeside⟩
    have hl : Function.update (Function.update Made.nothing l (some (some []))) l'
        (some (some [])) l = some (some []) := by
      rw [Function.update_of_ne hne.symm, Function.update_self]
    have hleft := hmade.cleanUp t.plan hl
    rw [Function.update_comm hne.symm, Function.update_idem,
      show Progress.state { q with files } = .init from hqstate] at hleft
    rw [hrun]
    exact .unwritten hformat hname' hbytes ⟨⟨n, hname⟩, hleft, by simp [TraceLog.closed]⟩
      (by rw [Progress.states_cleanUp]; exact hq) rfl rfl
  · simp only [hstartup] at hrun
    obtain ⟨c, hcommand⟩ : ∃ c : TracedCommand,
      c = ⟨words, tracedVariables own startup, [Progress.logDescriptor], t.plan.mute⟩ := ⟨_, rfl⟩
    have hwords : c.words = words := by rw [hcommand]
    rw [← hcommand] at hrun
    generalize hnoted : Progress.note { q with files } ".xtrace.emitter"
      ("Wrote bash env preamble to " ++ startup) = p₁ at hrun
    have hlogged₁ : p₁.Logged fs path l (Function.update
        (Function.update Made.nothing l (some (some []))) l' (some (some bytes))) := by
      rw [← hnoted]
      exact ⟨hqlogged.log, hqlogged.names, hbeside⟩
    have hstates₁ : p₁.states = [.init] := by rw [← hnoted]; exact hq
    have hfiles₁ : p₁.files = files := by rw [← hnoted]; rfl
    have hwritable₁ : p₁.log.writable = true := by
      rw [← hnoted]
      exact (congrArg TraceLog.writable hlog).trans hwritable
    rw [Function.update_comm hne.symm] at hlogged₁
    obtain ⟨⟨more, content, hmore, hending, hleft⟩, hanswered⟩ :=
      Progress.launch_ending w t.plan f c hlogged₁ hwritable₁ (Function.update_self ..)
    rw [Function.update_idem] at hleft
    -- the startup file is still there, so it can be taken away
    have hl' : Function.update (Function.update Made.nothing l' (some (some bytes))) l
        (some content) l' = some (some bytes) := by
      rw [Function.update_of_ne hne, Function.update_self]
    obtain ⟨gone, hgone, hwithout⟩ := hleft.beside.remove hnames hl'
    rw [Function.update_comm hne.symm, Function.update_idem] at hwithout
    have hclean := Progress.Logged.cleanUp (p := { (p₁.launch w t.plan f c).1 with files := gone })
      ⟨hleft.log, hleft.names, hwithout⟩ t.plan (Function.update_self ..)
    rw [Function.update_idem, ← Progress.cleanUp_of_remove hgone] at hclean
    have hfinal : ((p₁.launch w t.plan f c).1.cleanUp t.plan (some startup)).state =
        (p₁.launch w t.plan f c).1.state := by
      rw [Progress.state, Progress.states_cleanUp, Progress.state]
    rw [show Progress.state { (p₁.launch w t.plan f c).1 with files := gone } = _ from
      hfinal.symm] at hclean
    rw [hfiles₁] at hending hanswered
    rw [hwords] at hanswered
    rw [hrun]
    exact .started hformat hname' hbytes ⟨⟨n, hname⟩, hclean, by simp [TraceLog.closed]⟩
      (by rw [Progress.states_cleanUp, hmore, hstates₁]; rfl) rfl hending hanswered

/-- Only a tracer that is to ask about the shell can fail over it. -/
theorem verify_of_checkShell {p q : Progress} {e : Fault}
    (h : t.checkShell w p = (q, .error e)) : t.verify = true := by
  by_contra hverify
  rw [checkShell, Bool.eq_false_iff.mpr hverify, Bool.false_and] at h
  cases h

/-- What a run of at least one word comes to. -/
theorem run_outcome (t : Tracer) (w : Surroundings) (fs : FileSystem) {words : List Text}
    (hwords : words ≠ []) (own : Environment) :
    (t.run w fs words own).2.Outcome t w fs words own := by
  obtain ⟨word, rest, rfl⟩ := List.exists_cons_of_ne_nil hwords
  simp only [run, runWords]
  generalize hstart : (⟨fs, TraceLog.new t.plan.tmpDir, [], [.init], []⟩ : Progress) = p
  obtain ⟨records, hrecords⟩ := checkShell_eq (t := t) (w := w) p
  obtain ⟨p₁, checked, hcheck⟩ : ∃ p₁ checked, t.checkShell w p = (p₁, checked) := ⟨_, _, rfl⟩
  rw [hcheck] at hrecords
  change p₁ = _ at hrecords
  have hfiles : p₁.files = fs := by rw [hrecords, ← hstart]; rfl
  have hlog : p₁.log = TraceLog.new t.plan.tmpDir := by rw [hrecords, ← hstart]; rfl
  have hstates : p₁.states = [.init] := by rw [hrecords, ← hstart]; rfl
  simp only [hcheck]
  cases checked with
  | error e => exact .unopened hstates hfiles hlog rfl rfl (.inl (verify_of_checkShell hcheck))
  | ok u =>
    cases hformat : w.format t.plan.delimiterBytes with
    | error e => exact .unopened hstates hfiles hlog rfl rfl (.inr (.inl hformat))
    | ok f =>
      have hopenStates := p₁.openLog_states
      rcases p₁.openLog_cases (by rw [hlog]; rfl) with
        ⟨q, e, hopen, hqfiles, hqlog⟩ | ⟨q, path, l, n, hopen, hname, hwritable, hlogged⟩
      · rw [hopen] at hopenStates
        simp only [hopen]
        exact .unopened (hopenStates.trans hstates) (hqfiles.trans hfiles) (hqlog.trans hlog) rfl
          rfl (.inr (.inr ⟨f, e, hformat, rfl⟩))
      · rw [hopen] at hopenStates
        rw [hfiles] at hlogged
        simp only [hopen]
        exact runOpened_outcome hname hlogged hwritable (hopenStates.trans hstates) hformat _ own

/-- A run that drains its log has come one way: there was a format, and a child that was
started and waited for. What it comes to is what comes of the end of that child, and it has
failed if it is stopped by its log. -/
theorem exists_ended {fs : FileSystem} {words : List Text} {own : Environment}
    (h : RunState.draining ∈ (t.run w fs words own).2.progress.states) :
    ∃ f c files child returncode lost,
      w.format t.plan.delimiterBytes = .ok f ∧
      (t.run w fs words own).2.launched = some (c, files) ∧
      (w.spawner files c).1 = .ok child ∧ child.ending = .ok returncode ∧
      (t.run w fs words own).2.result =
        t.plan.endedResult w.room f files.isFile files.cwd words lost child returncode ∧
      ∀ e, (t.run w fs words own).2.result = .error e → e.isTraceLog = true →
        (t.run w fs words own).2.progress.state = .failed := by
  have hwords : words ≠ [] := by
    rintro rfl
    cases h
  cases run_outcome t w fs hwords own with
  | unopened states | unmade format opened states | unwritten format name preamble opened states =>
    rw [states] at h
    exact absurd h (by decide)
  | @started f path l l' n bytes c files more content format name preamble opened states launched
      ending answered =>
    rw [states, List.mem_cons, or_iff_right (by decide)] at h
    obtain ⟨child, returncode, hspawned, hended, hfailed⟩ := ending.exists_ended h
    refine ⟨f, c, files, child, returncode, TraceLog.lost path, format, launched, hspawned,
      hended, ?_, ?_⟩
    · rw [answered, hspawned]
      simp only [RunPlan.launchedResult, hended]
    · intro e hresult htrace
      rw [Progress.state, states, hfailed e hresult htrace]
      rfl

end Tracer

end LineTrace
