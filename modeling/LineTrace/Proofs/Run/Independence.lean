/-
LineTrace.Proofs.Run.Independence — runs that do not influence each other.

A tracer makes one run after another, among files that the runs before have changed: logs
that were kept, and the number that the next temporary file is named by. `call_independent`
says that nothing of this is seen in what a run comes to: not in its result, nor in the
coverage and the counts that come with a failure. A run after any others, some of which may
have failed, comes to what a new tracer's first run comes to, among whatever files.

What a run does depend on is said by `Meets`: that its temporary files can be made, what the
spawner answers, and which of the paths are files that the log mentions. `Outcome.result_eq`
reads the result off these; the way there is that of `Ending`, and nothing of it is gone
again. One trace of the run itself is left: where the log is gone when it is to be read, the
complaint names it (`Fault.unnamed` leaves that out).

How much is read at a time, whether output is discarded, and where logs are made and whether
they are kept, can be seen only in a log that cannot be read to its end.
-/
import LineTrace.Proofs.Run.Lifecycle
import LineTrace.Proofs.Trace.Mentions

namespace LineTrace

/-! ## 1. Plans -/

/-- Plans that differ in nothing that a result may show. -/
structure RunPlan.Alike (s s' : RunPlan) : Prop where
  delimiterBytes : s'.delimiterBytes = s.delimiterBytes
  countHits : s'.countHits = s.countHits
  rootDirectory : s'.rootDirectory = s.rootDirectory

/-- The log of a child is there when it is to be read, and is read to its end, where there is
so much room: no read of it fails. -/
def RunPlan.ReadsAll (s : RunPlan) (room : Nat) (child : Child) : Prop :=
  child.removesLog = false ∧ ∃ size, readSize s.chunkSize = .ok size ∧
    readFailure? (limited child.readLimit (readsBy room size child.writes)) = none

/-- A fault without the name of the log that it is about. -/
def Fault.unnamed : Fault → Fault
  | .failure ⟨.traceLog run, _, hint⟩ => .failure ⟨.traceLog run, [], hint⟩
  | e => e

/-! ## 2. Results -/

namespace RunPlan

variable {s s' : RunPlan} {room : Nat} {f : TraceFormat} {isFile isFile' : Text → Bool} {words : List Text}
  {lost : Fault} {child : Child} {returncode : Int}

/-- What a run comes to depends on no other files than those that its log mentions. -/
theorem endedResult_congr (h : ∀ p ∈ f.mentioned child.writes, isFile p = isFile' p)
    (cwd cwd' : Text) :
    s.endedResult room f isFile cwd words lost child returncode =
      s.endedResult room f isFile' cwd' words lost child returncode := by
  rw [endedResult, endedResult]
  cases readSize s.chunkSize with
  | error e => rfl
  | ok size =>
    have hreads :=
      (bytesRead_limited_beginning child.readLimit (readsBy room size child.writes)).trans
        (bytesRead_readsBy_beginning room size child.writes)
    dsimp only
    rw [drain_congr h hreads cwd cwd']

/-- What the lost log was called can only be seen in a complaint about it. -/
theorem endedResult_unnamed (path path' : Text) (cwd : Text) :
    (s.endedResult room f isFile cwd words (TraceLog.lost path) child returncode).mapError
        Fault.unnamed =
      (s.endedResult room f isFile cwd words (TraceLog.lost path') child returncode).mapError
        Fault.unnamed := by
  rw [endedResult, endedResult]
  cases readSize s.chunkSize with
  | error e => rfl
  | ok size =>
    cases child.removesLog with
    | true => rfl
    | false => rfl

theorem endedResult_of_kept (h : child.removesLog = false) (lost' : Fault) (cwd : Text) :
    s.endedResult room f isFile cwd words lost child returncode =
      s.endedResult room f isFile cwd words lost' child returncode := by
  rw [endedResult, endedResult, h]
  rfl

theorem Alike.drainedResult (h : s.Alike s') : s'.drainedResult = s.drainedResult := by
  funext words returncode found
  rcases found with e | ⟨d, _ | e⟩ <;>
    simp only [RunPlan.drainedResult, h.rootDirectory]

/-- A log that is read to its end leads to the same result, whatever is asked for at a
time. -/
theorem Alike.endedResult (h : s.Alike s') (hs : s.ReadsAll room child)
    (hs' : s'.ReadsAll room child) (lost' : Fault) (cwd : Text) :
    s'.endedResult room f isFile cwd words lost' child returncode =
      s.endedResult room f isFile cwd words lost child returncode := by
  obtain ⟨hkept, size, hsize, hfailure⟩ := hs
  obtain ⟨-, size', hsize', hfailure'⟩ := hs'
  have hbytes := bytesRead_of_not_failing hsize hfailure
  have hbytes' := bytesRead_of_not_failing hsize' hfailure'
  rw [RunPlan.endedResult, RunPlan.endedResult, hsize, hsize', hkept, h.drainedResult, h.countHits]
  dsimp only
  rw [if_neg Bool.false_ne_true, if_neg Bool.false_ne_true,
    drain_of_same_bytes (hbytes'.trans hbytes.symm) (hfailure'.trans hfailure.symm)]

/-- What a run comes to, from its surroundings, from which paths are files, and from what
the spawner answers. -/
def result (s : RunPlan) (w : Surroundings) (words : List Text) (own : Environment)
    (isFile : Text → Bool) (lost : Fault) (answer : Except Fault Child) : Except Fault Resultset :=
  match w.format s.delimiterBytes with
  | .error e => .error e
  | .ok f =>
    match Text.encode .utf8Escaped (f.preamble (chainOf w.environment own)) with
    | .error e => .error (.encode e)
    | .ok _ => s.launchedResult w.room f isFile [] words lost answer

variable {w : Surroundings} {own : Environment} {answer : Except Fault Child}

theorem launchedResult_congr
    (h : ∀ child, answer = .ok child → ∀ p ∈ f.mentioned child.writes, isFile p = isFile' p)
    (cwd cwd' : Text) :
    s.launchedResult room f isFile cwd words lost answer =
      s.launchedResult room f isFile' cwd' words lost answer := by
  cases answer with
  | error e => rfl
  | ok child =>
    rw [launchedResult, launchedResult]
    cases child.ending with
    | error e => rfl
    | ok returncode => exact endedResult_congr (h child rfl) cwd cwd'

/-- Results agree where those of every child that has ended do. -/
theorem result_congr {g : Except Fault Resultset → Except Fault Resultset} {lost' : Fault}
    (hformat : s'.delimiterBytes = s.delimiterBytes)
    (h : ∀ f child returncode, answer = .ok child →
      g (s.endedResult w.room f isFile [] words lost child returncode) =
        g (s'.endedResult w.room f isFile [] words lost' child returncode)) :
    g (s.result w words own isFile lost answer) =
      g (s'.result w words own isFile lost' answer) := by
  rw [result, result, hformat]
  split
  · rfl
  · split
    · rfl
    · cases answer with
      | error e => rfl
      | ok child =>
        rw [launchedResult, launchedResult]
        cases child.ending with
        | error e => rfl
        | ok returncode => exact h _ child returncode rfl

end RunPlan

/-! ## 3. Runs -/

/-- What a run meets with: its temporary files can be made, the spawner answers so, and of
the paths that the log mentions these are files. -/
structure TracedRun.Meets (r : TracedRun) (s : RunPlan) (w : Surroundings)
    (answer : Except Fault Child) (isFile : Text → Bool) : Prop where
  made : r.launched = none → ∀ f e, w.format s.delimiterBytes = .ok f →
    r.result ≠ .error (.file e)
  answered : ∀ c files, r.launched = some (c, files) → (w.spawner files c).1 = answer
  files : ∀ c files f child, r.launched = some (c, files) →
    w.format s.delimiterBytes = .ok f → answer = .ok child →
    ∀ p ∈ f.mentioned child.writes, files.isFile p = isFile p

/-- What a run comes to is told by what it meets with. -/
theorem TracedRun.Outcome.result_eq {t : Tracer} {w : Surroundings} {fs : FileSystem}
    {words : List Text} {own : Environment} {r : TracedRun} (h : r.Outcome t w fs words own)
    (hverify : t.verify = false) {answer : Except Fault Child} {isFile : Text → Bool}
    (hmeets : r.Meets t.plan w answer isFile) :
    ∃ path, r.result = t.plan.result w words own isFile (TraceLog.lost path) answer := by
  cases h with
  | @unopened e states files log launched result cause =>
    rcases cause with hchecks | hformat | ⟨f, e', hformat, rfl⟩
    · rw [hverify] at hchecks
      cases hchecks
    · exact ⟨[], by rw [result, RunPlan.result, hformat]⟩
    · exact absurd result (hmeets.made launched f e' hformat)
  | unmade format opened states launched result =>
    exact absurd result (hmeets.made launched _ _ format)
  | unwritten format name preamble opened states launched result =>
    exact ⟨[], by rw [result, RunPlan.result, format]; simp only [preamble]⟩
  | @started f path l l' n bytes c files more content format name preamble opened states launched
      ending answered =>
    refine ⟨path, ?_⟩
    -- Files are only asked about here, and only as the child has left them.
    have hfiles : ∀ child, answer = .ok child → ∀ p ∈ f.mentioned child.writes,
        files.isFile p = isFile p := fun child => hmeets.files c files f child launched format
    rw [answered, hmeets.answered c files launched, RunPlan.result, format]
    simp only [preamble]
    exact RunPlan.launchedResult_congr hfiles _ _

/-! ## 4. Calls -/

namespace Tracer

@[simp] theorem verify_call (t : Tracer) (fs : FileSystem) (c : Call) :
    (t.call fs c).1.verify = t.verify := by
  rw [call]
  cases c.asked.toWords <;> rfl

@[simp] theorem verify_after (t : Tracer) (fs : FileSystem) (calls : List Call) :
    (t.after fs calls).1.verify = t.verify := by
  induction calls generalizing t fs with
  | nil => rfl
  | cons c calls ih => rw [after, ih, verify_call]

/-- What a call comes to is told by what its run meets with. -/
theorem call_result {t : Tracer} (hverify : t.verify = false) {fs : FileSystem} {c : Call}
    {answer : Except Fault Child} {isFile : Text → Bool}
    (hmeets : (t.call fs c).2.Meets t.plan c.surroundings answer isFile) :
    (c.asked.toWords = [] ∧ (t.call fs c).2.result = .error refusal) ∨
    c.asked.toWords ≠ [] ∧ ∃ path, (t.call fs c).2.result =
      t.plan.result c.surroundings c.asked.toWords c.own isFile (TraceLog.lost path) answer := by
  by_cases hwords : c.asked.toWords = []
  · rw [call_of_no_words hwords]
    exact .inl ⟨hwords, rfl⟩
  · exact .inr ⟨hwords, (call_of_words hwords).result_eq hverify hmeets⟩

/-- What a run comes to after any others, failed ones among them, is what a new tracer's first
run comes to, if both meet with the same; where their logs are gone, each complains about its
own. If the log is read to its end, a tracer of any plan that differs in nothing a result may
show comes to the same too. -/
theorem call_independent (plan : RunPlan) (fs fs' : FileSystem) (earlier : List Call) (c : Call)
    (answer : Except Fault Child) (isFile : Text → Bool) :
    let before := (new plan false).after fs earlier
    let run := (before.1.call before.2 c).2
    let alone := ((new plan false).call fs' c).2
    run.Meets plan c.surroundings answer isFile → alone.Meets plan c.surroundings answer isFile →
      run.result.mapError Fault.unnamed = alone.result.mapError Fault.unnamed ∧
      ((∀ child, answer = .ok child → child.removesLog = false) → run.result = alone.result) ∧
      ∀ (plan' : RunPlan) (fs'' : FileSystem), plan.Alike plan' →
        let other := ((new plan' false).call fs'' c).2
        other.Meets plan' c.surroundings answer isFile →
        (∀ child, answer = .ok child →
          plan.ReadsAll c.surroundings.room child ∧ plan'.ReadsAll c.surroundings.room child) →
        run.result = other.result := by
  intro before run alone hrun halone
  have hplan : before.1.plan = plan := plan_after (new plan false) fs earlier
  have hverify : before.1.verify = false := verify_after (new plan false) fs earlier
  rcases call_result hverify (hplan.symm ▸ hrun) with ⟨hwords, hresult⟩ | ⟨hwords, path, hresult⟩
  · have hnone : ∀ (t : Tracer) (fs : FileSystem), (t.call fs c).2.result = .error refusal := by
      intro t fs
      rw [call_of_no_words hwords]
    simp only [run, alone, hnone]
    exact ⟨trivial, fun _ => trivial, fun _ _ _ _ _ => trivial⟩
  · rw [hplan] at hresult
    -- Every first run is the same function of what it meets with, but for the name of its log.
    have hothers : ∀ (plan' : RunPlan) (fs' : FileSystem),
        ((new plan' false).call fs' c).2.Meets plan' c.surroundings answer isFile →
        ∃ path', ((new plan' false).call fs' c).2.result =
          plan'.result c.surroundings c.asked.toWords c.own isFile (TraceLog.lost path') answer :=
      fun plan' fs' hmeets => ((call_result (t := new plan' false) rfl hmeets).resolve_left
        fun hnone => hwords hnone.1).2
    obtain ⟨path', halone⟩ := hothers plan fs' halone
    refine ⟨?_, fun hkept => ?_, ?_⟩
    · rw [show run.result = _ from hresult, show alone.result = _ from halone]
      exact RunPlan.result_congr rfl fun f child returncode _ =>
        RunPlan.endedResult_unnamed path path' []
    · rw [show run.result = _ from hresult, show alone.result = _ from halone]
      exact RunPlan.result_congr (g := id) rfl fun f child returncode hchild =>
        RunPlan.endedResult_of_kept (hkept child hchild) _ []
    · intro plan' fs'' halike other hother hreads
      obtain ⟨path'', hresult'⟩ := hothers plan' fs'' hother
      rw [show run.result = _ from hresult, show other.result = _ from hresult']
      exact RunPlan.result_congr (g := id) halike.delimiterBytes fun f child returncode hchild =>
        (halike.endedResult (hreads child hchild).1 (hreads child hchild).2 _ []).symm

/-- Before the run one command could not be started, one log could not be read on, and one
was kept. The new tracers find another working directory and make their logs elsewhere. -/
theorem call_independent_mixed :
    let log : Bytes := [43, 97, 97, 97, 97, 49, 31, 98, 31, 47, 112, 31, 97, 97, 97, 97]
    let w := writing log
    let digits : Nat → Except Fault Text := fun n => .ok (List.replicate n 98)
    let child : Child := ⟨log, .ok 0, .never, none⟩
    let unstarted : Surroundings :=
      { w with digits, spawner := fun _ _ => (.error (.failure ⟨.spawn, "no", none⟩), []) }
    let unreadable : Surroundings :=
      { w with
        spawner := fun _ _ => (.ok { child with readLimit := some (1, .file ⟨.denied, []⟩) }, []) }
    let earlier : List Call := [⟨unstarted, .words ["no"], []⟩, ⟨unreadable, .words ["true"], []⟩,
      ⟨{ w with digits }, .words ["true"], []⟩]
    let c : Call := ⟨w, .words ["true"], []⟩
    let nodes : Table Location Node :=
      [(["tmp"], .directory), (["p"], .directory), (["b", "p"], .file [] 0o644)]
    let plan : RunPlan := ⟨.text "bash", .int 2, .int 5, false, true, none, true, none⟩
    let plan' : RunPlan := ⟨.text "sh", .int 2, .int 64, true, false, some "/p", true, none⟩
    let before := (new plan false).after ⟨nodes, "/", "/tmp", 0⟩ earlier
    let run := (before.1.call before.2 c).2
    let alone := ((new plan false).call ⟨nodes, "/p", "/tmp", 7⟩ c).2
    let other := ((new plan' false).call ⟨nodes, "/", "/", 0⟩ c).2
    run.result.isOk = true ∧ run.result = alone.result ∧ run.result = other.result := by
  -- The files can be made where a command was launched; of the mentioned paths all are tried.
  have hmeets : ∀ (r : TracedRun) (s : RunPlan) (w : Surroundings) (child : Child)
      (isFile : Text → Bool), (∀ files c, (w.spawner files c).1 = .ok child) →
      ((w.format s.delimiterBytes).toOption.any fun f => r.launched.any fun launched =>
        (f.mentioned child.writes).all fun p => launched.2.isFile p == isFile p) = true →
      r.Meets s w (.ok child) isFile := by
    intro r s w child isFile hspawner hfiles
    refine ⟨fun hnone => ?_, fun c files _ => hspawner files c, ?_⟩
    · simp [hnone] at hfiles
    · intro c files f child' hsome hformat hchild p hp
      cases hchild
      rw [hsome, hformat] at hfiles
      simpa using List.all_eq_true.mp hfiles p hp
  intro log w digits child unstarted unreadable earlier c nodes plan plan' before run alone other
  have hspawner : ∀ files c, (w.spawner files c).1 = .ok child := fun _ _ => rfl
  obtain ⟨-, hsame, hother⟩ := call_independent plan ⟨nodes, "/", "/tmp", 0⟩
    ⟨nodes, "/p", "/tmp", 7⟩ earlier c (.ok child) (fun p => p == [47, 112, 47, 98])
    (hmeets _ plan w child _ hspawner (by decide +kernel))
    (hmeets _ plan w child _ hspawner (by decide +kernel))
  refine ⟨by decide +kernel, hsame ?_, hother plan' ⟨nodes, "/", "/", 0⟩ ⟨rfl, rfl, rfl⟩
    (hmeets _ plan' w child _ hspawner (by decide +kernel)) ?_⟩
  · rintro child' ⟨⟩
    rfl
  · rintro child' ⟨⟩
    exact ⟨⟨rfl, some 5, rfl, by decide +kernel⟩, rfl, some 64, rfl, by decide +kernel⟩

end Tracer

end LineTrace
