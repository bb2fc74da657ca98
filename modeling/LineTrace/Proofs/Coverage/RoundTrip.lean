/-
LineTrace.Proofs.Coverage.RoundTrip — a map that was written into a document is
read out of it again.

Three definitions have to agree: the one that writes the document, the list of
what a document has to be, and the one that reads it. They meet in what is true
of every map that recording leads to (`Coverage.Sound`): its lines are written as
names of digits, its counts as numbers from one on, so nothing is wrong with the
document (`problems_toJson`); and both are read back as they were, so that reading
records the lines of the map once more, into a map of nothing (`coverageOf_eq`).

Where hits are not counted every count is one and stays one, and where they are
counted each line is recorded once, so the map read back answers like the map
that was written (`coverageOf_toJson`). Its files may stand in another order.
-/
import LineTrace.Proofs.Coverage.Document

namespace LineTrace.Resultset

open Coverage

/-! ## 1. What is written is a document -/

/-- Nothing is wrong with the document of a sound map. -/
theorem problems_toJson {c : Coverage} (h : c.Sound) {command : List Text}
    (hcommand : command ≠ []) (returncode : Int) {skipped unattributed : Int}
    (hskipped : 0 ≤ skipped) (hunattributed : 0 ≤ unattributed) :
    problems (toJson ⟨command, returncode, c, skipped, unattributed⟩) = [] := by
  have hformat : IsResultset (toJson ⟨command, returncode, c, skipped, unattributed⟩) := by
    refine isResultset_toJson_iff.mpr ⟨hcommand, hskipped, hunattributed, fun path line n hn => ?_⟩
    obtain ⟨hline, ⟨i, hi, rfl⟩, -⟩ := h.of_line? hn
    exact ⟨hline.1, i, hi, .inl rfl⟩
  exact List.map_eq_nil_iff.mp (errors_eq_nil_iff.mpr hformat)

theorem check_of_problems_eq_nil {v : Json} (h : problems v = []) : check v = .ok () := by
  simp [check, report, errors, h]

/-! ## 2. What is written is read -/

/-- Entries that were written are recorded as they were. -/
theorem recordEntries_linesJson {c : Coverage} (hc : c.Sound) (path : Text) {countHits : Bool}
    {lines : Table Int Count} (h : SoundLines countHits lines) :
    recordEntries c path (lines.map fun (line, hits) => (Text.ofInt line, hits.toJson)) =
      .ok (c.recordLines path lines) := by
  have hall : ∀ e ∈ lines, IsLine e.1 ∧ IsCount e.2 := fun e he => ⟨h.isLine e he, h.isCount e he⟩
  clear h
  induction lines generalizing c with
  | nil => rfl
  | cons entry lines ih =>
    obtain ⟨line, hits⟩ := entry
    obtain ⟨hline, hhits⟩ := hall (line, hits) (by simp)
    have hentry : recordEntry c path (Text.ofInt line) hits.toJson =
        .ok (c.record path line hits) := by
      obtain ⟨i, -, rfl⟩ := hhits
      obtain ⟨n, hn⟩ : ∃ n, c.hits path line = .whole n := by
        rw [hits_eq]
        cases hold : c.line? path line with
        | none => exact ⟨0, rfl⟩
        | some old =>
          obtain ⟨-, ⟨n, -, rfl⟩, -⟩ := hc.of_line? hold
          exact ⟨n, rfl⟩
      rw [recordEntry, Text.readInteger_ofInt hline.1 hline.2]
      simp only [hn, Count.toJson, Count.ofJson?, Option.getD_some, Count.add?]
      simp
    rw [List.map_cons, recordEntries, hentry]
    exact ih (hc.record path hline hhits) fun e he => hall e (by simp [he])

/-- Files that were written are recorded as they were. -/
theorem recordFiles_eq {c : Coverage} (hc : c.Sound) {countHits : Bool}
    {files : Table Text (Table Int Count)} (h : ∀ e ∈ files, SoundLines countHits e.2) :
    recordFiles c (files.map fun (path, lines) => (path, linesJson lines)) =
      .ok (c.recordAll files) := by
  induction files generalizing c with
  | nil => rfl
  | cons entry files ih =>
    obtain ⟨path, lines⟩ := entry
    have hlines : SoundLines countHits lines := h (path, lines) (by simp)
    have hread := recordEntries_linesJson hc path hlines
    simp only [List.map_cons, recordFiles, linesJson, hread]
    exact ih (hc.recordLines path hlines) fun e he => h e (by simp [he])

/-- Reading the document of a sound map records its lines into a map of
nothing. -/
theorem coverageOf_eq {c : Coverage} (h : c.Sound) {command : List Text} (hcommand : command ≠ [])
    (returncode : Int) {skipped unattributed : Int} (hskipped : 0 ≤ skipped)
    (hunattributed : 0 ≤ unattributed) :
    coverageOf (toJson ⟨command, returncode, c, skipped, unattributed⟩) =
      .ok ((Coverage.empty c.countHits).recordAll (c.linesOf c.paths)) := by
  rw [coverageOf, check_of_problems_eq_nil
    (problems_toJson h hcommand returncode hskipped hunattributed)]
  exact recordFiles_eq (.empty c.countHits) h.linesOf

/-! ## 3. The map that is read -/

theorem recounted_empty {c : Coverage} (h : c.Sound) (path : Text) (line : Int) :
    recounted c.countHits (c.line? path line) none = c.line? path line := by
  cases hn : c.line? path line with
  | none => rfl
  | some n =>
    obtain ⟨-, ⟨i, -, rfl⟩, hone⟩ := h.of_line? hn
    cases hmode : c.countHits with
    | true => simp [recounted, counted, Count.add, Count.add?]
    | false =>
      rw [hone hmode]
      rfl

/-- Whatever recording, merging and leaving out files have made of a map, nothing
is wrong with the document of a run that has it, and the map that is read out of
the document is the same: it counts alike, has the same files, and answers alike
at every line. -/
theorem coverageOf_toJson {c : Coverage} (h : c.Reachable) {command : List Text}
    (hcommand : command ≠ []) (returncode : Int) {skipped unattributed : Int}
    (hskipped : 0 ≤ skipped) (hunattributed : 0 ≤ unattributed) :
    let document := toJson ⟨command, returncode, c, skipped, unattributed⟩
    errors document = [] ∧
      ∃ c', coverageOf document = .ok c' ∧ c'.same c = true ∧ c'.countHits = c.countHits ∧
        (∀ path, path ∈ c'.files.keys ↔ path ∈ c.files.keys) ∧
        ∀ path line, c'.line? path line = c.line? path line := by
  intro document
  have hsound := h.sound
  have hpaths : ∀ path, path ∈ c.paths ↔ path ∈ c.files.keys := fun path =>
    (List.mergeSort_perm _ _).mem_iff
  have hnodup : c.paths.Nodup := (List.mergeSort_perm _ _).nodup_iff.mpr hsound.nodup
  let c' := (Coverage.empty c.countHits).recordAll (c.linesOf c.paths)
  have hsound' : c'.Sound := (Sound.empty c.countHits).recordAll hsound.linesOf
  have hmode : c'.countHits = c.countHits := countHits_recordAll _ _
  have hlines : ∀ path line, c'.line? path line = c.line? path line := by
    intro path line
    exact (hsound.line?_recordAll hnodup hpaths path line).trans
      (recounted_empty hsound path line)
  have hfiles : ∀ path, path ∈ c'.files.keys ↔ path ∈ c.files.keys := by
    intro path
    rw [hsound'.mem_files_iff, hsound.mem_files_iff]
    simp only [hlines]
  have hproblems := problems_toJson hsound hcommand returncode hskipped hunattributed
  refine ⟨by rw [errors, hproblems, List.map_nil], c',
    coverageOf_eq hsound hcommand returncode hskipped hunattributed, ?_, hmode, hfiles, hlines⟩
  refine same_of_line?_eq hmode hsound'.nodup hsound.nodup hfiles hlines fun path line n hn => ?_
  obtain ⟨-, ⟨i, -, rfl⟩, -⟩ := hsound'.of_line? hn
  exact beq_self_eq_true i

/-- Counted and uncounted hits merged, and a file left out. -/
theorem coverageOf_toJson_merged :
    let counted := (Coverage.empty true).record "/p/a.sh" 12 (.whole 2)
    let uncounted := (Coverage.empty false).record "/q/b.sh" 9 (.whole 3)
    let c := (counted.merge uncounted).restrictTo "/p"
    let command : List Text := ["bash", "a.sh"]
    c.Reachable ∧ command ≠ [] ∧
      ∃ c', coverageOf (toJson ⟨command, -9, c, 1, 0⟩) = .ok c' ∧ c'.same c = true := by
  intro counted uncounted c command
  have hc : c.Reachable := by
    have h12 : IsLine 12 :=
      ⟨by decide, by simp [Text.ofInt, Text.ofNat, Text.numeral, Text.digits, Text.digitLimit]⟩
    have h9 : IsLine 9 :=
      ⟨by decide, by simp [Text.ofInt, Text.ofNat, Text.numeral, Text.digits, Text.digitLimit]⟩
    have hcounted : counted.Reachable := .record (.empty true) _ h12 ⟨2, by decide, rfl⟩
    have huncounted : uncounted.Reachable := .record (.empty false) _ h9 ⟨3, by decide, rfl⟩
    exact .restrictTo (.merge hcounted huncounted) _
  have hcommand : command ≠ [] := by simp [command]
  have hskipped : (0 : Int) ≤ 1 := by decide
  obtain ⟨c', hread, hsame, -⟩ := (coverageOf_toJson hc hcommand (-9) hskipped (Int.le_refl 0)).2
  exact ⟨hc, hcommand, c', hread, hsame⟩

end LineTrace.Resultset
