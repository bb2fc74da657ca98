/-
LineTrace.Proofs.Run.Findings — what a run finds in its log can be written out.

A line number comes into a map from a record, and a record with too many digits is none
(`Record.isLine`). So whatever a log holds, the map that is made of it is sound
(`sound_of_drain`), and so is what comes with the failure to read the log on.

`run_reported` says of every run that drains its log that its result is one of two
reports of such a map, or a fault that has nothing to do with the log. Both reports have
what the child returned, and they have it from the child.
-/
import LineTrace.Proofs.Run.Ending

namespace LineTrace

open Coverage

/-! ## 1. Lines -/

/-- The line number of a record can be written out. -/
theorem Record.isLine {fields : List Text} {r : Record}
    (h : Record.ofFields fields = .ok (.ok r)) : IsLine r.line := by
  obtain ⟨line, -, ⟨hne, hdigits⟩, -, hfits, hline⟩ := Record.ofFields_eq_ok h
  have hten : ∀ d ∈ line.map (· - 48), d < 10 := by
    rw [List.forall_mem_map]
    intro c hc
    have hdigit := Text.isDigit_iff.mp (List.all_eq_true.mp hdigits c hc)
    exact (Nat.sub_lt_iff_lt_add hdigit.1).mpr (Nat.lt_succ_of_le hdigit.2)
  have hlength := Text.length_ofNat_decimalValue_le (by simpa using hne) hten
  rw [List.length_map, ← hline] at hlength
  exact ⟨Int.natCast_nonneg _, Nat.le_trans hlength hfits⟩

namespace Follower

variable {judge : Judge} {isFile : Text → Bool} {cwd : Text}

theorem isLine_of_stepWith {f f' : Follower} {fields : List Text} {h : Hit}
    (hstep : f.stepWith judge isFile cwd fields = .ok (f', .hit h)) : IsLine h.line := by
  rw [stepWith] at hstep
  split at hstep
  · cases hstep
  · cases hstep
  · rename_i r hrecord
    dsimp only at hstep
    split at hstep
    · cases hstep
    · split at hstep
      · cases hstep
      · cases hstep
        exact Record.isLine hrecord

/-- The hits that following groups adds to a tally have lines that can be written out. -/
theorem isLine_of_runWith (f : Follower) (groups : List (List Text)) {t : Tally}
    (ht : ∀ h ∈ t.hits, IsLine h.line) :
    ∀ h ∈ (f.runWith judge isFile cwd t groups).2.1.hits, IsLine h.line := by
  have hinOrder : ∀ {t : Tally}, (∀ h ∈ t.hits, IsLine h.line) →
      ∀ h ∈ t.inOrder.hits, IsLine h.line := fun ht h hh => ht h (List.mem_reverse.mp hh)
  induction groups generalizing f t with
  | nil => exact hinOrder ht
  | cons fields groups ih =>
    rw [runWith]
    cases hstep : f.stepWith judge isFile cwd fields with
    | error e => exact hinOrder ht
    | ok next =>
      obtain ⟨f', o⟩ := next
      refine ih f' ?_
      cases o with
      | hit x => exact List.forall_mem_cons.mpr ⟨isLine_of_stepWith hstep, ht⟩
      | malformed reason fields => exact ht
      | unattributed line => exact ht

end Follower

/-! ## 2. Maps -/

namespace Coverage

/-- Hits on lines that can be written out leave a map sound. -/
theorem Sound.addHits {c : Coverage} (h : c.Sound) {hits : List Hit}
    (hlines : ∀ x ∈ hits, IsLine x.line) : (c.addHits hits).Sound := by
  induction hits generalizing c with
  | nil => exact h
  | cons x hits ih =>
    obtain ⟨hline, hmore⟩ := List.forall_mem_cons.mp hlines
    exact ih (h.record x.path hline ⟨1, by decide, rfl⟩) hmore

theorem Sound.within {c : Coverage} (h : c.Sound) (root : Option Text) : (c.within root).Sound := by
  cases root with
  | none => exact h
  | some r => exact h.restrictTo r

end Coverage

/-- Whatever is drained, and however far, the map of it is sound. -/
theorem sound_of_drain {f : TraceFormat} {isFile : Text → Bool} {cwd : Text} {countHits : Bool}
    {reads : List (Except Fault Bytes)} {d : Drained} {stop : Option Fault}
    (h : drain f isFile cwd countHits reads = .ok (d, stop)) : d.coverage.Sound := by
  rw [drain] at h
  dsimp only at h
  split at h
  · cases h
  · split at h
    · cases h
    · cases h
      refine (Sound.empty countHits).addHits (Follower.isLine_of_runWith _ _ ?_)
      simp [Tally.empty]

/-! ## 3. Reports -/

/-- What a run reports of what was drained: all of it as its result, or with the failure
to read the log on. -/
inductive Drained.Reported (s : RunPlan) (words : List Text) (returncode : Int) (d : Drained) :
    Except Fault Resultset → Prop where
  | whole : Reported s words returncode d
      (.ok ⟨words, returncode, d.coverage.within s.rootDirectory, d.tally.skipped,
        d.tally.unattributed⟩)
  | interrupted {message : Text} {hint : Option Text} : Reported s words returncode d
      (.error (.failure ⟨.traceLog ⟨some (d.coverage.within s.rootDirectory), d.tally.skipped,
        some returncode⟩, message, hint⟩))

namespace RunPlan

variable (s : RunPlan) (words : List Text) (returncode : Int)

/-- What was drained is reported, or something else than the log has stopped the run. -/
theorem drainedResult_reported (d : Drained) (stop : Option Fault) :
    d.Reported s words returncode (s.drainedResult words returncode (.ok (d, stop))) ∨
      ∃ e, e.isTraceLog = false ∧
        s.drainedResult words returncode (.ok (d, stop)) = .error e := by
  cases stop with
  | none => exact .inl .whole
  | some e =>
    cases he : Progress.isUnreadable e with
    | true =>
      rw [drainedResult, if_pos he]
      exact .inl .interrupted
    | false =>
      rw [drainedResult, if_neg (by simp [he])]
      exact .inr ⟨e, not_isTraceLog_of_isUnreadable he, rfl⟩

/-- A run whose child has ended reports a sound map, or is stopped by something else. -/
theorem endedResult_reported (room : Nat) (f : TraceFormat) (isFile : Text → Bool) (cwd : Text)
    (lost : Fault) (child : Child) :
    (∃ d : Drained, d.coverage.Sound ∧ d.Reported s words returncode
      (s.endedResult room f isFile cwd words lost child returncode)) ∨
    ∃ e, e.isTraceLog = false ∧
      s.endedResult room f isFile cwd words lost child returncode = .error e := by
  rw [endedResult]
  cases hreads : readSize s.chunkSize with
  | error e => exact .inr ⟨e, not_isTraceLog_of_readSize hreads, rfl⟩
  | ok reads =>
    dsimp only
    split
    · exact (s.drainedResult_reported words returncode _ (some lost)).imp_left fun h =>
        ⟨_, .empty s.countHits, h⟩
    · cases hdrain : drain f isFile cwd s.countHits
          (limited child.readLimit (readsBy room reads child.writes)) with
      | error e => exact .inr ⟨e, not_isTraceLog_of_drain hdrain, rfl⟩
      | ok found =>
        exact (s.drainedResult_reported words returncode found.1 found.2).imp_left fun h =>
          ⟨found.1, sound_of_drain hdrain, h⟩

end RunPlan

/-! ## 4. Whole runs -/

namespace Tracer

variable {t : Tracer} {w : Surroundings} {fs : FileSystem} {words : List Text} {own : Environment}

/-- A run that drains its log reports a sound map and what its child returned, or it is
stopped by a fault that is not of the log. -/
theorem run_reported
    (hdraining : RunState.draining ∈ (t.run w fs words own).2.progress.states) :
    ∃ c files child returncode, (t.run w fs words own).2.launched = some (c, files) ∧
      (w.spawner files c).1 = .ok child ∧ child.ending = .ok returncode ∧
      ((∃ d : Drained, d.coverage.Sound ∧
          d.Reported t.plan words returncode (t.run w fs words own).2.result) ∨
        ∃ e, e.isTraceLog = false ∧ (t.run w fs words own).2.result = .error e) := by
  obtain ⟨f, c, files, child, returncode, lost, -, hlaunched, hspawned, hended, hresult, -⟩ :=
    exists_ended hdraining
  refine ⟨c, files, child, returncode, hlaunched, hspawned, hended, ?_⟩
  rw [hresult]
  exact t.plan.endedResult_reported words returncode w.room f files.isFile files.cwd lost child

end Tracer

end LineTrace
