/-
LineTrace.Proofs.CommandLine.Export — which runs come out of the file that they are
written to.

A run that drains its log has something for its target: its result set, or what is known
of it when the log could not be read on. The map of either is sound, so its document
passes the check, and what is read from the target is a document of the same map. What may
go wrong is the writing alone. It does not begin where no temporary file can be made beside
the target, and it breaks off at a text that has no bytes, such as the name of a file that
is no UTF-8.

`run_exported_iff` says that there is nothing else. Where the document can be written in
full and the writing can begin, and only there, the run comes out of its target and the
process ends as the run does: with the status of the child, or with the one that means a
log that could not be read.

The log file of the process may have been given the same path, and then the target holds
more than a run. `LogSink.Spares` excludes that.
-/
import LineTrace.CommandLine.App
import LineTrace.Proofs.Coverage.Reload
import LineTrace.Proofs.Failure.Telling
import LineTrace.Proofs.Run.Findings

namespace LineTrace

/-! ## 1. The log of the process -/

namespace RotatingLog

/-- No file is too long without a limit. -/
theorem exceeds_of_unlimited {log : RotatingLog} (h : log.limit ≤ 0) (length : Nat)
    (line : Text) : log.exceeds length line = false := by
  simp [exceeds, Int.not_lt.mpr h]

theorem isFull_of_unlimited {log : RotatingLog} (h : log.limit ≤ 0) (fs : FileSystem)
    (line : Text) : log.isFull fs line = false := by
  rw [isFull]
  split
  · exact exceeds_of_unlimited h _ _
  · rfl

/-- A log file that has another place and no limit leaves a file as it is. -/
theorem standsAt_append {log : RotatingLog} (hlimit : log.limit ≤ 0) {fs : FileSystem}
    {path : Text} {l : Location} {content : Bytes} (h : fs.StandsAt path l content)
    (hplace : fs.locate log.path ≠ .ok l) (line : Text) :
    (log.append fs line).StandsAt path l content := by
  simp only [append, isFull_of_unlimited hlimit, Bool.false_eq_true, if_false, addLine]
  split
  · exact h
  · refine h.appendFile_other fun m hm => ?_
    rintro rfl
    exact hplace hm

/-- So does one that has lost its place. -/
theorem standsAt_appendDetached {log : RotatingLog} (hlimit : log.limit ≤ 0) {fs : FileSystem}
    {path : Text} {l : Location} {content : Bytes} (h : fs.StandsAt path l content)
    (length : Nat) (line : Text) :
    (log.appendDetached fs length line).1.StandsAt path l content := by
  rw [appendDetached, exceeds_of_unlimited hlimit, if_neg Bool.false_ne_true]
  split <;> exact h

end RotatingLog

namespace LogSink

/-- No record that goes into this log changes a file at a path. -/
def Spares (sink : LogSink) (path : Text) : Prop :=
  ∀ (t : Terminal) (r : LogRecord) (l : Location) (content : Bytes),
    t.files.StandsAt path l content → (sink.emit t r).files.StandsAt path l content

/-- A log without a file changes no other, nor does one whose file has another place and
no limit. -/
theorem spares_of_unlimited {sink : LogSink} {path : Text}
    (h : ∀ log ∈ sink.file, log.limit ≤ 0 ∧
      ∀ (fs : FileSystem) (l : Location), fs.locate log.path = .ok l → fs.locate path ≠ .ok l) :
    sink.Spares path := by
  intro t r l content hstands
  rw [emit]
  split
  · exact hstands
  · dsimp only
    split
    · exact hstands
    · rename_i log hlog _
      obtain ⟨hlimit, hplace⟩ := h log hlog
      exact RotatingLog.standsAt_append hlimit hstands
        (fun hl => hplace _ _ hl hstands.locate) _
    · rename_i log length hlog _
      exact RotatingLog.standsAt_appendDetached (h log hlog).1 hstands length _

end LogSink

namespace CommandLine

open Resultset Coverage

/-! ## 2. Writing a run -/

section Writing

variable {sink : LogSink} {t : Terminal} {rs : Resultset} {out : Text}
  (hsound : rs.coverage.Sound) (hformat : IsResultset rs.toJson)

include hsound

theorem document_of_sound : rs.document = .ok rs.toJson :=
  document_eq_ok_iff.mpr ⟨hsound.hasNumeral, rfl⟩

include hformat

/-- A document that can be written in full, to a file that can be put where it belongs, is
then in that file. -/
theorem exportTo_of_writable (hspares : sink.Spares (Path.tidy out))
    (hencodable : rs.toJson.IsEncodable) (hbegin : CanBegin t.files (Path.tidy out))
    {l : Location} (hplace : t.files.filePlace (Path.tidy out) = .ok l) :
    ∃ t' m content, exportTo sink t rs out = (t', .ok ()) ∧
      Text.encode .utf8 rs.toJson.documentText = .ok content ∧
      t'.files.StandsAt (Path.tidy out) m content := by
  have hcheck := check_eq_ok_iff.mpr hformat
  obtain ⟨files, hwrite⟩ := write_of_filePlace hcheck hencodable hbegin hplace
  obtain ⟨-, -, -, m, content, hencode, hwritten⟩ := write_eq_ok hwrite
  rw [exportTo, document_of_sound hsound]
  simp only [hwrite]
  exact ⟨_, m, content, rfl, hencode, hspares _ _ _ _ hwritten.stands⟩

variable (sink) in
/-- The fault of a writing is not of a log. Where the writing has begun it is one that
nobody expects. -/
theorem exportTo_of_not_writable
    (h : ¬ (rs.toJson.IsEncodable ∧ CanBegin t.files (Path.tidy out))) :
    ∃ t' e, exportTo sink t rs out = (t', .error e) ∧ e.isTraceLog = false ∧
      (CanBegin t.files (Path.tidy out) → ∀ t'', (stopped sink t'' e).status = 4) := by
  have hcheck := check_eq_ok_iff.mpr hformat
  rw [exportTo, document_of_sound hsound]
  dsimp only
  by_cases hbegin : CanBegin t.files (Path.tidy out)
  · have hencodable : ¬ rs.toJson.IsEncodable := fun hencodable => h ⟨hencodable, hbegin⟩
    obtain ⟨files, e, hwrite, hfault⟩ := write_of_not_isEncodable hcheck hencodable hbegin
    rw [hwrite]
    rcases hfault with ⟨fault, rfl⟩ | rfl <;> exact ⟨_, _, rfl, rfl, fun _ _ => rfl⟩
  · obtain ⟨e, hrefused⟩ := writeChecked_refused (v := rs.toJson) hbegin
    rw [write, hcheck]
    dsimp only
    rw [hrefused]
    exact ⟨_, _, rfl, rfl, fun hbegin' => absurd hbegin' hbegin⟩

end Writing

/-! ## 3. What is told of a run -/

/-- What is printed of a command that succeeded can be written if its data can. -/
theorem exists_successText (asJson : Bool) (command : Text) (text : Option Text)
    {data : List (Text × Json)} (h : ∀ e ∈ data, e.2.hasNumerals = true) :
    ∃ printed, successText asJson command text data = .ok printed := by
  have hline : ∀ entries : Table Text Json, (∀ e ∈ entries, e.2.hasNumerals = true) →
      ∃ printed, (Json.obj entries).line.map (· ++ [10]) = .ok printed := fun entries hentries =>
    ⟨_, congrArg (Except.map (· ++ [10])) (if_pos (Json.hasNumerals_obj.mpr hentries))⟩
  have hentries : ∀ e ∈ Table.ofEntries
      ((("ok" : Text), Json.bool true) :: ("command", .str command) :: data),
      e.2.hasNumerals = true := by
    intro e he
    rcases List.mem_cons.mp (Table.mem_ofEntries he) with rfl | he
    · rfl
    · rcases List.mem_cons.mp he with rfl | he
      · rfl
      · exact h e he
  cases asJson with
  | false => cases text <;> exact ⟨_, rfl⟩
  | true =>
    unfold successText
    rw [if_pos rfl]
    dsimp only
    split
    · refine hline _ fun e he => ?_
      rcases Table.mem_put he with rfl | he
      · rfl
      · exact hentries e he
    · exact hline _ hentries

/-- A run is reported whose document can be written in full. -/
theorem exists_runReport (json : Bool) {rs : Resultset} (h : rs.toJson.IsEncodable) :
    ∃ printed, runReport json rs = .ok printed := by
  obtain ⟨-, hreturncode, hskipped, hunattributed, -⟩ := isEncodable_toJson_iff.mp h
  rw [runReport, hreturncode, hskipped, Bool.and_self, if_pos rfl]
  refine exists_successText _ _ _ ?_
  simp only [List.forall_mem_cons, Json.hasNumerals]
  exact ⟨hreturncode, hasNumeral_of_le (Nat.min_le_right _ _),
    hasNumeral_of_le (Nat.min_le_right _ _), hskipped, hunattributed, by simp⟩

/-- A log that could not be read is told in one line and ends the process with five, if what
was found before can be written. -/
theorem stopped_of_traceLog {words : List Text} {p : PartialRun} {c : Coverage}
    (h : (partialResultset words p c).toJson.IsEncodable) (sink : LogSink) (t : Terminal)
    (message : Text) (hint : Option Text) :
    ∃ line, stopped sink t (.failure ⟨.traceLog p, message, hint⟩) = ⟨5, t.complain line⟩ := by
  obtain ⟨-, hreturncode, hskipped, -⟩ := isEncodable_toJson_iff.mp h
  have hcounts : p.HasNumerals := by
    refine ⟨fun n hn => ?_, hskipped⟩
    rwa [partialResultset, Option.mem_def.mp hn] at hreturncode
  obtain ⟨line, hline⟩ : ∃ line,
      ((Fault.failure ⟨.traceLog p, message, hint⟩).guarded : Guarded Unit) =
        .failed false line 5 := by
    refine ⟨_, Envelope.guarded_of_hasNumerals ?_⟩
    rintro facts ⟨⟩
    exact PartialRun.hasNumerals_context.mpr hcounts
  rw [stopped, hline]
  exact ⟨line, rfl⟩

/-! ## 4. Runs with a target -/

/-- What a run has for its target, the result that it comes to with that, and the exit
status that it ends with: the result set, and the status of the child; or what was found
in the log that could not be read on, and five. -/
inductive Exports (words : List Text) (r : TracedRun) :
    Resultset → Except Fault Int → Int → Prop where
  | whole {rs : Resultset} (h : r.result = .ok rs) :
      Exports words r rs (.ok (exitStatus rs.returncode)) (exitStatus rs.returncode)
  | interrupted {p : PartialRun} {c : Coverage} {message : Text} {hint : Option Text}
      (h : r.result = .error (.failure ⟨.traceLog p, message, hint⟩))
      (hcoverage : p.coverage = some c) :
      Exports words r (partialResultset words p c)
        (.error (.failure ⟨.traceLog p, message, hint⟩)) 5

theorem Exports.ne_error {words : List Text} {r : TracedRun} {rs : Resultset}
    {result : Except Fault Int} {status : Int} (h : Exports words r rs result status) {e : Fault}
    (he : e.isTraceLog = false) : result ≠ .error e := by
  cases h with
  | whole => exact nofun
  | interrupted =>
    rintro ⟨⟩
    cases he

/-- What a run that drains its log has for its target is a document of a sound map, with
what its child returned. -/
theorem Exports.sound {t : Tracer} {w : Surroundings} {fs : FileSystem} {words : List Text}
    (hwords : words ≠ []) {own : Environment}
    (hdraining : RunState.draining ∈ (t.run w fs words own).2.progress.states) {rs : Resultset}
    {result : Except Fault Int} {status : Int}
    (h : Exports words (t.run w fs words own).2 rs result status) :
    (∃ c files child, (t.run w fs words own).2.launched = some (c, files) ∧
      (w.spawner files c).1 = .ok child ∧ child.ending = .ok rs.returncode) ∧
      rs.coverage.Sound ∧ IsResultset rs.toJson := by
  obtain ⟨c, files, child, returncode, hlaunched, hspawned, hended, hreported⟩ :=
    Tracer.run_reported hdraining
  rcases hreported with ⟨d, hd, hreported⟩ | ⟨e, he, hresult⟩
  · have hsound := hd.within t.plan.rootDirectory
    cases h with
    | whole hresult =>
      rw [hresult] at hreported
      cases hreported
      exact ⟨⟨c, files, child, hlaunched, hspawned, hended⟩, hsound,
        isResultset_of_sound hsound hwords (Int.natCast_nonneg _) (Int.natCast_nonneg _)⟩
    | interrupted hresult hcoverage =>
      rw [hresult] at hreported
      cases hreported
      cases hcoverage
      exact ⟨⟨c, files, child, hlaunched, hspawned, hended⟩, hsound,
        isResultset_of_sound hsound hwords (Int.natCast_nonneg _) (le_refl 0)⟩
  · cases h with
    | whole h =>
      rw [h] at hresult
      cases hresult
    | interrupted h =>
      rw [h] at hresult
      cases hresult
      cases he

section Request

variable (w : Surroundings) (verify json : Bool) (sink : LogSink) (s : Settings) (r : RunRequest)
  (t : Terminal) {word : Text} {rest : List Text} {out : Text}

/-- The run that a request asks for. -/
def tracedBy (words : List Text) : TracedRun :=
  ((Tracer.new (effective t.files.cwd s r).plan verify).run w t.files words []).2

/-- The terminal after a run, before anything is written to its target. -/
def beforeExport (traced : TracedRun) : Terminal :=
  sink.emitAll { t with files := traced.progress.files } traced.progress.records

variable (hwords : commandWords r.words = word :: rest) (hout : filled r.out = some out)
  {rs : Resultset} {result : Except Fault Int} {status : Int}
  (h : Exports (word :: rest) (tracedBy w verify s r t (word :: rest)) rs result status)

include hwords hout h

/-- A request with a target ends with the fault of its writing, if there is one. -/
theorem run_of_exportTo_error {t' : Terminal} {e : Fault}
    (hexport : exportTo sink (beforeExport sink t (tracedBy w verify s r t (word :: rest))) rs out =
      (t', .error e)) :
    run w verify json sink s r t = (t', .error e) := by
  rw [beforeExport] at hexport
  rw [run, hwords]
  cases h with
  | whole hresult =>
    simp only [tracedBy] at hresult hexport
    simp only [hresult, exportWhole, hout, hexport]
  | interrupted hresult hcoverage =>
    simp only [tracedBy] at hresult hexport
    simp only [hresult, exportPartial, hout, hcoverage, hexport]

/-- A request whose target was written ends as its run does. -/
theorem run_of_exportTo_ok (hencodable : rs.toJson.IsEncodable)
    (hspares : sink.Spares (Path.tidy out)) {t' : Terminal}
    (hexport : exportTo sink (beforeExport sink t (tracedBy w verify s r t (word :: rest))) rs out =
      (t', .ok ())) :
    (run w verify json sink s r t).2 = result ∧
      (ended sink (run w verify json sink s r t)).status = status ∧
      ∀ l content, t'.files.StandsAt (Path.tidy out) l content →
        (ended sink (run w verify json sink s r t)).terminal.files.StandsAt (Path.tidy out) l
          content := by
  rw [beforeExport] at hexport
  rw [run, hwords]
  cases h with
  | whole hresult =>
    simp only [tracedBy] at hresult hexport
    obtain ⟨printed, hprinted⟩ := exists_runReport json hencodable
    simp only [hresult, exportWhole, hout, hexport, hprinted]
    exact ⟨trivial, rfl, fun l content hstands => hstands⟩
  | interrupted hresult hcoverage =>
    simp only [tracedBy] at hresult hexport
    simp only [hresult, exportPartial, hout, hcoverage, hexport, ended]
    refine ⟨trivial, ?_⟩
    obtain ⟨line, hline⟩ := stopped_of_traceLog hencodable sink
      (sink.emit t' (LogRecord.of Level.warning [] ("Wrote partial coverage to " ++ out))) _ _
    rw [hline]
    exact ⟨rfl, fun l content hstands => hspares _ _ l content hstands⟩

end Request

/-- A run that drains its log and has a target, where a file can be put, comes out of the
target and lets the process end as the run does, exactly where its document can be written
in full and a temporary file can be made beside the target. What is read from the target
then is the run's map, with the number that the child returned and that of the groups that
were skipped. A document that cannot be written in full ends the process with the status of
a fault that nobody expects, whatever the child returned. -/
theorem run_exported_iff (w : Surroundings) (verify json : Bool) (sink : LogSink) (s : Settings)
    (r : RunRequest) (t : Terminal) {word : Text} {rest : List Text}
    (hwords : commandWords r.words = word :: rest) {out : Text} (hout : filled r.out = some out)
    (hspares : sink.Spares (Path.tidy out)) :
    let traced := tracedBy w verify s r t (word :: rest)
    let before := (beforeExport sink t traced).files
    let done := run w verify json sink s r t
    let outcome := ended sink done
    RunState.draining ∈ traced.progress.states →
    (∃ l, before.filePlace (Path.tidy out) = .ok l) →
    ∀ {rs result status}, Exports (word :: rest) traced rs result status →
      (∃ c files child, traced.launched = some (c, files) ∧ (w.spawner files c).1 = .ok child ∧
        child.ending = .ok rs.returncode) ∧
      (InFile outcome.terminal.files out rs ∧ done.2 = result ∧ outcome.status = status ↔
        rs.toJson.IsEncodable ∧ CanBegin before (Path.tidy out)) ∧
      (CanBegin before (Path.tidy out) → ¬ rs.toJson.IsEncodable → outcome.status = 4) := by
  intro traced before done outcome hdraining hplace rs result status hexports
  obtain ⟨hchild, hsound, hformat⟩ := hexports.sound (List.cons_ne_nil word rest) hdraining
  obtain ⟨l, hplace⟩ := hplace
  refine ⟨hchild, ?_⟩
  by_cases hwritable : rs.toJson.IsEncodable ∧ CanBegin before (Path.tidy out)
  · obtain ⟨t', m, content, hexport, hencode, hstands⟩ :=
      exportTo_of_writable hsound hformat hspares hwritable.1 hwritable.2 hplace
    obtain ⟨hresult, hstatus, hkept⟩ :=
      run_of_exportTo_ok w verify json sink s r t hwords hout hexports hwritable.1 hspares hexport
    have hfile : InFile outcome.terminal.files out rs :=
      inFile_of_text hsound hformat hwritable.1 hencode (hkept m content hstands).bytesOf
    exact ⟨iff_of_true ⟨hfile, hresult, hstatus⟩ hwritable, fun _ hnot =>
      absurd hwritable.1 hnot⟩
  · obtain ⟨t', e, hexport, htrace, hunexpected⟩ :=
      exportTo_of_not_writable sink hsound hformat hwritable
    have hdone : done = (t', .error e) :=
      run_of_exportTo_error w verify json sink s r t hwords hout hexports hexport
    refine ⟨iff_of_false (fun hexported => ?_) hwritable, fun hbegin _ => ?_⟩
    · have hresult := hexported.2.1
      rw [hdone] at hresult
      exact hexports.ne_error htrace hresult.symm
    · change (ended sink done).status = 4
      rw [hdone]
      exact hunexpected hbegin t'

theorem exists_of_isOk {ε α : Type} {x : Except ε α} (h : x.isOk = true) : ∃ a, x = .ok a := by
  cases x with
  | error e => cases h
  | ok a => exact ⟨a, rfl⟩

/-- A file is traced whose name is no UTF-8, by a child that returns zero. -/
theorem run_exported_iff_foreign_name :
    let log : Bytes := [43, 97, 97, 49, 31, 47, 112, 47, 255, 31, 47, 31, 97, 97]
    let w : Surroundings := ⟨[], fun n => .ok (List.replicate n 97), 65537,
      fun _ _ => .error .noRoom, fun _ _ => (.ok ⟨log, .ok 0, .never, none⟩, [])⟩
    let s : Settings := ⟨"bash", 1, 65536, false, false, none, false, none⟩
    let r : RunRequest := ⟨false, false, none, false, some "rs.json", ["bash", "a.sh"]⟩
    let sink : LogSink := ⟨Level.info, false, [], none⟩
    let t : Terminal := ⟨⟨[(["tmp"], .directory)], "/", "/tmp", 0⟩, [], [], none⟩
    ∃ rs, (tracedBy w false s r t ["bash", "a.sh"]).result = .ok rs ∧ rs.returncode = 0 ∧
      (ended sink (run w false false sink s r t)).status = 4 := by
  have hlost : ∀ (w : Surroundings) (s : Settings) (r : RunRequest) (sink : LogSink)
      (t : Terminal), commandWords r.words = ["bash", "a.sh"] → filled r.out = some "rs.json" →
      sink.file = none →
      let traced := tracedBy w false s r t ["bash", "a.sh"]
      let before := (beforeExport sink t traced).files
      RunState.draining ∈ traced.progress.states →
      (before.filePlace (Path.tidy "rs.json")).isOk = true →
      (before.makeTemporary (Path.parent (Path.tidy "rs.json"))
        (temporaryFront (Path.tidy "rs.json")) ".tmp").isOk = true →
      (match traced.result with
        | .ok rs => rs.returncode == 0 && rs.coverage.files.keys == [[47, 112, 47, 0xDCFF]]
        | .error _ => false) = true →
      ∃ rs, traced.result = .ok rs ∧ rs.returncode = 0 ∧
        (ended sink (run w false false sink s r t)).status = 4 := by
    intro w s r sink t hwords hout hfile traced before hdraining hplace hbegin hfound
    cases hresult : traced.result with
    | error e =>
      rw [hresult] at hfound
      cases hfound
    | ok rs =>
      rw [hresult, Bool.and_eq_true, beq_iff_eq, beq_iff_eq] at hfound
      have hspares : sink.Spares (Path.tidy "rs.json") :=
        LogSink.spares_of_unlimited (by simp [hfile])
      obtain ⟨l, hl⟩ := exists_of_isOk hplace
      obtain ⟨made, hmade⟩ := exists_of_isOk hbegin
      obtain ⟨-, -, hunexpected⟩ := run_exported_iff w false false sink s r t hwords hout hspares
        hdraining ⟨l, hl⟩ (.whole hresult)
      refine ⟨rs, rfl, hfound.1, hunexpected ⟨made, hmade⟩ fun hencodable => ?_⟩
      have hpath : ([47, 112, 47, 0xDCFF] : Text) ∈ rs.coverage.paths :=
        mem_paths.mpr (by simp [hfound.2])
      exact absurd ((isEncodable_toJson_iff.mp hencodable).2.2.2.2 _ hpath).1 (by decide)
  intro log w s r sink t
  exact hlost w s r sink t (by decide) (by decide) rfl (by decide +kernel) (by decide +kernel)
    (by decide +kernel) (by decide +kernel)

end CommandLine

end LineTrace
