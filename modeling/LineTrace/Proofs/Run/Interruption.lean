/-
LineTrace.Proofs.Run.Interruption — a run whose log cannot be read to its end.

Such a run fails, and its failure carries what the part of the log that was read
says: the coverage of the files that are asked for, the number of groups that were
skipped, and what the child returned. `run_traceLog` says that this is exactly what
draining a log would give that ends where the reading failed, and that it is never
more than what the whole log gives.

The log may also be gone when it is opened. Then nothing was read, and draining
nothing gives nothing.

What a run comes to is what comes of the end of its child (`exists_ended`), and
`endedResult` knows of the log only what the child wrote and how much of it could be read.
So nothing is said here of files or of the stages of a run.
-/
import LineTrace.Proofs.Run.Ending

namespace LineTrace

/-! ## 1. Reads that fail -/

/-- Where the log cannot be read, so many reads were had before. -/
theorem bytesRead_of_unreadable {child : Child} {room : Nat} {size : Int} (hpos : 0 < size)
    {log : Bytes} {e : Fault}
    (hfailure : readFailure? (limited child.readLimit (readsBy room (some size) log)) = some e)
    (he : Progress.isUnreadable e = true) :
    ∃ k, child.readLimit = some (k, e) ∧
      bytesRead (limited child.readLimit (readsBy room (some size) log)) =
        log.take (k * size.toNat) := by
  rw [readsBy] at hfailure ⊢
  cases hrefusal : readRefusal? room size with
  | none =>
    simp only [hrefusal] at hfailure ⊢
    rcases bytesRead_limited (Int.pos_iff_toNat_pos.mp hpos) child.readLimit log with
      ⟨hnone, -⟩ | ⟨k, e', hlimit, hfails, hbytes⟩
    · rw [hnone] at hfailure
      cases hfailure
    · rw [hfails] at hfailure
      cases hfailure
      exact ⟨k, hlimit, hbytes⟩
  | some refusal =>
    -- the first read is refused, so the failure is of that read
    simp only [hrefusal] at hfailure ⊢
    cases hlimit : child.readLimit with
    | none =>
      rw [hlimit] at hfailure
      cases hfailure
      rw [not_isUnreadable_of_readRefusal hrefusal] at he
      cases he
    | some limit =>
      obtain ⟨k, e'⟩ := limit
      rw [hlimit, limited] at hfailure
      rw [limited]
      split at hfailure
      · rename_i hk
        have hzero : k = 0 := by simpa using hk
        subst hzero
        cases hfailure
        exact ⟨0, rfl, by simp [bytesRead]⟩
      · cases hfailure
        rw [not_isUnreadable_of_readRefusal hrefusal] at he
        cases he

/-- How much of a child's log was read before reading failed: nothing where the log
was gone, else what so many reads gave. -/
def Child.HasRead (child : Child) (size : Int) (read : Bytes) : Prop :=
  child.removesLog = true ∧ read = [] ∨
    child.removesLog = false ∧ ∃ k e, child.readLimit = some (k, e) ∧
      Progress.isUnreadable e = true ∧ read = child.writes.take (k * size.toNat)

theorem Child.HasRead.isPrefix {child : Child} {size : Int} {read : Bytes}
    (h : child.HasRead size read) : read <+: child.writes := by
  rcases h with ⟨-, rfl⟩ | ⟨-, k, e, -, -, rfl⟩
  · exact List.nil_prefix
  · exact List.take_prefix _ _

/-! ## 2. Results -/

namespace RunPlan

variable {s : RunPlan} {words : List Text} {returncode : Int} {run : PartialRun} {message : Text}
  {hint : Option Text}

/-- What a run that failed carries is what was drained. -/
theorem drainedResult_traceLog {d : Drained} {e : Fault}
    (h : s.drainedResult words returncode (.ok (d, some e)) =
      .error (.failure ⟨.traceLog run, message, hint⟩)) :
    Progress.isUnreadable e = true ∧
      run = ⟨some (d.coverage.within s.rootDirectory), d.tally.skipped, some returncode⟩ := by
  rw [drainedResult] at h
  split at h
  · rename_i he
    cases h
    exact ⟨he, rfl⟩
  · rename_i he
    cases h
    exact absurd rfl he

section Ended

variable {f : TraceFormat} (hf : f.IsAscii) {size : Int} (hsize : s.chunkSize = .int size)
  {room : Nat} {isFile : Text → Bool} {cwd : Text} {lost : Fault} {child : Child}
  (hresult : s.endedResult room f isFile cwd words lost child returncode =
    .error (.failure ⟨.traceLog run, message, hint⟩))

include hsize hresult

theorem size_pos_of_traceLog : 0 < size := by
  by_contra hneg
  rw [endedResult, hsize, readSize, if_neg hneg] at hresult
  cases hresult

include hf

/-- A run whose log cannot be read to its end carries what draining a log gives that
ends there. -/
theorem endedResult_traceLog :
    ∃ read d, child.HasRead size read ∧
      drain f isFile cwd s.countHits (readsOf size.toNat read) = .ok (d, none) ∧
      run = ⟨some (d.coverage.within s.rootDirectory), d.tally.skipped, some returncode⟩ := by
  have hpos := size_pos_of_traceLog hsize hresult
  have hnat := Int.pos_iff_toNat_pos.mp hpos
  rw [endedResult, hsize, readSize_int hpos] at hresult
  dsimp only at hresult
  cases hremoves : child.removesLog with
  | true =>
    rw [hremoves, if_pos rfl] at hresult
    obtain ⟨-, hrun⟩ := drainedResult_traceLog hresult
    have hnone : (f.wire hf).groups [] = [] := Wire.groupsFrom_free Wire.free_nil false
    have hscan := TraceFormat.scan_readsOf hf hnat []
    rw [hnone] at hscan
    exact ⟨[], _, .inl ⟨hremoves, rfl⟩, drain_of_follows none s.countHits hscan (.nil _), hrun⟩
  | false =>
    rw [hremoves, if_neg Bool.false_ne_true, drain_eq hf hnat] at hresult
    cases hwhole : drain f isFile cwd s.countHits (readsOf size.toNat
        (bytesRead (limited child.readLimit (readsBy room (some size) child.writes)))) with
    | error e =>
      rw [hwhole] at hresult
      rcases drain_eq_error hwhole with ⟨fault, rfl⟩ | ⟨line, rfl⟩ <;> cases hresult
    | ok found =>
      obtain ⟨d, stop⟩ := found
      obtain ⟨rfl, -⟩ := exists_follows_of_drain hf hnat hwhole
      rw [hwhole] at hresult
      cases hfailure : readFailure?
          (limited child.readLimit (readsBy room (some size) child.writes)) with
      | none =>
        rw [hfailure] at hresult
        cases hresult
      | some e =>
        rw [hfailure] at hresult
        obtain ⟨he, hrun⟩ := drainedResult_traceLog hresult
        obtain ⟨k, hlimit, hbytes⟩ := bytesRead_of_unreadable hpos hfailure he
        exact ⟨_, d, .inr ⟨hremoves, k, e, hlimit, he, hbytes⟩, hwhole, hrun⟩

end Ended

end RunPlan

/-! ## 3. Whole runs -/

/-- Counts of a file that is asked for are those of the file. -/
theorem Coverage.line?_within (c : Coverage) (root : Option Text) (path : Text) (line : Int) :
    (c.within root).line? path line =
      if root.all fun r => (below r).isPrefixOf path then c.line? path line else none := by
  cases root with
  | none => rfl
  | some r => exact line?_restrictTo c r path line

theorem Surroundings.isAscii_of_format {w : Surroundings}
    (hdigits : ∀ n text, w.digits n = .ok text → ∀ c ∈ text, (Text.hexValue? c).isSome)
    {v : Setting} {f : TraceFormat} (h : w.format v = .ok f) : f.IsAscii := by
  rw [format] at h
  cases hcount : digitBytes v with
  | error e =>
    rw [hcount] at h
    cases h
  | ok count =>
    cases htext : w.digits (2 * count.toNat) with
    | error e =>
      rw [hcount] at h
      simp [htext, bind, Except.bind] at h
    | ok text =>
      cases hgenerate : TraceFormat.generate (fun _ => text) count with
      | error e => simp [hcount, htext, hgenerate, bind, Except.bind, Except.mapError] at h
      | ok g =>
        have hfg : g = f := by
          simpa [hcount, htext, hgenerate, bind, Except.bind, Except.mapError] using h
        rw [← hfg]
        exact TraceFormat.isAscii_of_generate hgenerate fun _ => hdigits _ text htext

namespace Tracer

/-- The state of a tracer after a run that got somewhere is the state of the run. -/
theorem state_run {t : Tracer} {w : Surroundings} {fs : FileSystem} {words : List Text}
    {own : Environment} (h : (t.run w fs words own).2.progress.states ≠ []) :
    (t.run w fs words own).1.state = (t.run w fs words own).2.progress.state := by
  cases words with
  | nil => exact absurd rfl h
  | cons word words => rfl

/-- A run that drains its log and then fails because the log cannot be read carries
exactly what the part of the log says that was read: the coverage below the root,
the number of skipped groups and what the child returned. The tracer stands failed.
The groups of that part are the first groups of the log, so that where the whole log
can be drained, no line has more hits in the part. -/
theorem run_traceLog (t : Tracer) (w : Surroundings)
    (hdigits : ∀ n text, w.digits n = .ok text → ∀ c ∈ text, (Text.hexValue? c).isSome)
    (fs : FileSystem) (words : List Text) (own : Environment) {size : Int}
    (hsize : t.plan.chunkSize = .int size) {run : PartialRun} {message : Text} {hint : Option Text}
    (hresult : (t.run w fs words own).2.result =
      .error (.failure ⟨.traceLog run, message, hint⟩))
    (hdraining : RunState.draining ∈ (t.run w fs words own).2.progress.states) :
    (t.run w fs words own).1.state = .failed ∧
      ∃ f c files child returncode read d,
        w.format t.plan.delimiterBytes = .ok f ∧
        (t.run w fs words own).2.launched = some (c, files) ∧
        (w.spawner files c).1 = .ok child ∧ child.ending = .ok returncode ∧
        child.HasRead size read ∧
        let pipeline := fun log =>
          drain f files.isFile files.cwd t.plan.countHits (readsOf size.toNat log)
        let groups := fun log => (f.scan (readsOf size.toNat log)).groups
        let scope := fun c : Coverage => c.within t.plan.rootDirectory
        pipeline read = .ok (d, none) ∧
        run = ⟨some (scope d.coverage), d.tally.skipped, some returncode⟩ ∧
        (∀ log whole : Bytes, log <+: whole → groups log <+: groups whole) ∧
        ∀ d', pipeline child.writes = .ok (d', none) →
          ∀ path line n, (scope d.coverage).line? path line = some n →
            ∃ i j : Int, n = .whole i ∧ (scope d'.coverage).line? path line = some (.whole j) ∧
              i ≤ j := by
  obtain ⟨f, c, files, child, returncode, lost, hformat, hlaunched, hspawned, hended, hanswered,
    hfailed⟩ := exists_ended hdraining
  have hf := Surroundings.isAscii_of_format hdigits hformat
  have hdrained := hanswered.symm.trans hresult
  have hnat := Int.pos_iff_toNat_pos.mp (RunPlan.size_pos_of_traceLog hsize hdrained)
  obtain ⟨read, d, hread, hdrain, hrun⟩ := RunPlan.endedResult_traceLog hf hsize hdrained
  refine ⟨?_, f, c, files, child, returncode, read, d, hformat, hlaunched, hspawned, hended, hread,
    hdrain, hrun, ?_, ?_⟩
  · rw [state_run (List.ne_nil_of_mem hdraining)]
    exact hfailed _ hresult rfl
  · intro log whole hlog
    simp only [TraceFormat.scan_readsOf hf hnat]
    exact Wire.groups_prefix hlog
  · intro d' hd' path line n hn
    rw [Coverage.line?_within] at hn ⊢
    split at hn
    · rename_i hroot
      rw [if_pos hroot]
      exact line?_drain_prefix hf hnat hread.isPrefix hdrain hd' hn
    · cases hn

/-- Surroundings in which every child leaves a log that can be read once. -/
def vanishing (log : Bytes) : Surroundings where
  environment := []
  digits n := .ok (List.replicate n 97)
  room := 65537
  host _ _ := .error .noRoom
  spawner _ _ := (.ok ⟨log, .ok 3, .never, some (1, .other "OSError" "device vanished")⟩, [])

/-- Whether a run ended because its log could not be read. -/
def lostLog (r : TracedRun) : Bool :=
  match r.result with
  | .error (.failure ⟨.traceLog _, _, _⟩) => true
  | _ => false

theorem exists_of_lostLog {r : TracedRun} (h : lostLog r = true) :
    ∃ run message hint, r.result = .error (.failure ⟨.traceLog run, message, hint⟩) := by
  unfold lostLog at h
  split at h
  · rename_i run message hint hresult
    exact ⟨run, message, hint, hresult⟩
  · cases h

/-- The one read ends within the second of two records. -/
theorem run_traceLog_vanishing :
    let log : Bytes := [43, 97, 97, 49, 31, 47, 112, 47, 98, 31, 47, 31, 97, 97,
      43, 97, 97, 50, 31, 47, 112, 47, 98, 31, 47, 31, 97, 97]
    let t := Tracer.new ⟨.text "bash", .int 1, .int 20, false, false, none, true, some "/p"⟩ false
    let fs : FileSystem := ⟨[(["tmp"], .directory)], "/", "/tmp", 0⟩
    RunState.draining ∈ (t.run (vanishing log) fs ["true"] []).2.progress.states ∧
      (t.run (vanishing log) fs ["true"] []).1.state = .failed ∧
      ∃ run message hint, (t.run (vanishing log) fs ["true"] []).2.result =
          .error (.failure ⟨.traceLog run, message, hint⟩) ∧
        run.returncode = some 3 := by
  intro log t fs
  have hdigits : ∀ n text, (vanishing log).digits n = .ok text →
      ∀ c ∈ text, (Text.hexValue? c).isSome := by
    intro n text htext c hc
    cases htext
    rw [List.eq_of_mem_replicate hc]
    decide
  have hdraining :
      RunState.draining ∈ (t.run (vanishing log) fs ["true"] []).2.progress.states := by
    decide +kernel
  have hlost : lostLog (t.run (vanishing log) fs ["true"] []).2 = true := by decide +kernel
  obtain ⟨run, message, hint, hresult⟩ := exists_of_lostLog hlost
  obtain ⟨hstate, _, _, _, _, _, _, _, -, -, hchild, hreturncode, -, -, hrun, -⟩ :=
    run_traceLog t (vanishing log) hdigits fs ["true"] [] rfl hresult hdraining
  cases hchild
  cases hreturncode
  exact ⟨hdraining, hstate, run, message, hint, hresult, by rw [hrun]⟩

end Tracer

end LineTrace
