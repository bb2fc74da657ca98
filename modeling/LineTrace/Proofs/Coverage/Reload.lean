/-
LineTrace.Proofs.Coverage.Reload — the map of a run, read out of the file that the run
was written to.

A document is written with its entries in the order of their names, and the name of a
line is a numeral: line 10 is written before line 9. So what is read is not the document
that the run has, but one with the same files and lines in another order, and reading
records them in that order. A line is recorded once, so the order is nothing to what the
map answers (`coverageOf_ordered`).

With that the way of a run through a file is closed: `inFile_of_text` says of every file
with the text of the run's document that the run is in it.
-/
import LineTrace.Proofs.Coverage.Canonical

namespace LineTrace

namespace Coverage

/-! ## 1. Maps that answer alike -/

/-- A map that is the same as another, with the same files, and answers alike. -/
structure Agrees (c d : Coverage) : Prop where
  same : c.same d = true
  countHits : c.countHits = d.countHits
  files : ∀ path, path ∈ c.files.keys ↔ path ∈ d.files.keys
  lines : ∀ path line, c.line? path line = d.line? path line

namespace Sound

variable {c : Coverage} (h : c.Sound)

include h

theorem isProper : c.IsProper := by
  refine ⟨h.nodup, fun e he => (h.lines e he).nodup, fun e he x hx => ?_⟩
  obtain ⟨i, -, hi⟩ := (h.lines e he).isCount x hx
  rw [hi]
  trivial

/-- Sound maps that count alike and have the same lines agree. -/
theorem agrees {d : Coverage} (hd : d.Sound) (hmode : c.countHits = d.countHits)
    (hlines : ∀ path line, c.line? path line = d.line? path line) : c.Agrees d := by
  have hfiles : ∀ path, path ∈ c.files.keys ↔ path ∈ d.files.keys := by
    intro path
    rw [h.mem_files_iff, hd.mem_files_iff]
    simp only [hlines]
  refine ⟨?_, hmode, hfiles, hlines⟩
  refine same_of_line?_eq hmode h.nodup hd.nodup hfiles hlines fun path line n hn => ?_
  obtain ⟨-, ⟨i, -, rfl⟩, -⟩ := h.of_line? hn
  exact beq_self_eq_true i

end Sound

/-- The order of lines is nothing to what recording needs of them. -/
theorem SoundLines.perm {countHits : Bool} {lines others : Table Int Count}
    (h : SoundLines countHits lines) (hperm : others.Perm lines) : SoundLines countHits others :=
  ⟨(hperm.map Prod.fst).nodup_iff.mpr h.nodup, fun e he => h.isLine e (hperm.mem_iff.mp he),
    fun e he => h.isCount e (hperm.mem_iff.mp he), fun hmode e he =>
    h.one hmode e (hperm.mem_iff.mp he)⟩

end Coverage

namespace Resultset

open Coverage Json

/-! ## 2. Documents in order -/

/-- Lines in the order of their names. -/
def byName (lines : Table Int Count) : Table Int Count :=
  lines.mergeSort fun a b => Text.le (Text.ofInt a.1) (Text.ofInt b.1)

theorem byName_perm (lines : Table Int Count) : (byName lines).Perm lines :=
  List.mergeSort_perm _ _

/-- The files of a map in order, with their lines in the order of their names. -/
def filesByName (c : Coverage) : Table Text (Table Int Count) :=
  c.paths.map fun path => (path, byName (c.lineHits path))

/-- Entries made of other things are sorted as these are, by the names that they get. -/
theorem sortEntries_map {α β : Type} (f : α → Text × β) (xs : List α) :
    sortEntries (xs.map f) = (xs.mergeSort fun a b => Text.le (f a).1 (f b).1).map f :=
  (List.map_mergeSort (f := f) (s := fun a b : Text × β => Text.le a.1 b.1)
    fun _ _ _ _ => rfl).symm

theorem ordered_toJson (n : Count) : ordered n.toJson = n.toJson := by
  cases n <;> rfl

theorem ordered_linesJson (lines : Table Int Count) :
    ordered (linesJson lines) = linesJson (byName lines) := by
  have hentries : orderedEntries (lines.map fun x => (Text.ofInt x.1, x.2.toJson)) =
      lines.map fun x => (Text.ofInt x.1, x.2.toJson) := by
    rw [orderedEntries_eq, List.map_map]
    exact List.map_congr_left fun x _ => congrArg (Prod.mk _) (ordered_toJson x.2)
  exact congrArg Json.obj ((congrArg sortEntries hentries).trans (sortEntries_map _ lines))

/-- The files of a map are written in order already. -/
theorem ordered_coverageJson (c : Coverage) :
    ordered (coverageJson c) =
      .obj ((filesByName c).map fun (path, lines) => (path, linesJson lines)) := by
  have hsorted : c.paths.Pairwise fun a b => Text.le a b :=
    List.pairwise_mergeSort Text.le_trans Text.le_total _
  have hentries : orderedEntries (c.sortedHits.map fun x => (x.1, linesJson x.2)) =
      (filesByName c).map fun x => (x.1, linesJson x.2) := by
    rw [orderedEntries_eq, sortedHits, filesByName, List.map_map, List.map_map, List.map_map]
    exact List.map_congr_left fun path _ => congrArg (Prod.mk path) (ordered_linesJson _)
  refine congrArg Json.obj (Eq.trans ?_ hentries)
  refine List.mergeSort_of_pairwise ?_
  rw [hentries, filesByName, List.map_map, List.pairwise_map]
  exact hsorted

theorem soundLines_filesByName {c : Coverage} (h : c.Sound) :
    ∀ e ∈ filesByName c, SoundLines c.countHits e.2 := by
  intro e he
  obtain ⟨path, -, rfl⟩ := List.mem_map.mp he
  exact (h.lineHits path).perm (byName_perm _)

/-- What reading the lines of a sound map in that order records. -/
theorem agrees_recordAll_filesByName {c : Coverage} (h : c.Sound) :
    ((Coverage.empty c.countHits).recordAll (filesByName c)).Agrees c := by
  have hnodup : c.paths.Nodup := (List.mergeSort_perm _ _).nodup_iff.mpr h.nodup
  have hsound := soundLines_filesByName h
  refine ((Sound.empty c.countHits).recordAll hsound).agrees h (countHits_recordAll _ _)
    fun path line => ?_
  have hfound : (Table.get? path (filesByName c)).bind (Table.get? line) = c.line? path line := by
    rw [filesByName, Table.get?_map fun path => byName (c.lineHits path)]
    split
    · rw [Option.bind_some, Table.get?_of_perm _ (byName_perm _), get?_lineHits]
      exact ((h.lineHits path).perm (byName_perm _)).nodup
    · rename_i hpath
      cases hline : c.line? path line with
      | none => rfl
      | some n => exact absurd (mem_paths_of_line? hline) hpath
  rw [Coverage.line?_recordAll _ (by rwa [filesByName, Table.keys_map])
    (fun e he => (hsound e he).nodup), hfound]
  exact recounted_empty h path line

/-- The ordered document of a sound map that can be written is one of the same map. -/
theorem coverageOf_ordered {r : Resultset} (h : r.coverage.Sound) (hformat : IsResultset r.toJson)
    (hencodable : r.toJson.IsEncodable) :
    ∃ c, coverageOf r.toJson.ordered = .ok c ∧ c.Agrees r.coverage := by
  have hback := readsBack_toJson h.isProper hformat hencodable
  have hmode : r.toJson.ordered.field? "count_hits" = some (.bool r.coverage.countHits) := by
    rw [field?_ordered_of_readsBack hback]
    rfl
  have hfiles : r.toJson.ordered.field? "coverage" = some (ordered (coverageJson r.coverage)) := by
    rw [field?_ordered_of_readsBack hback]
    rfl
  refine ⟨_, ?_, agrees_recordAll_filesByName h⟩
  rw [coverageOf, check_eq_ok_iff.mpr (hformat.ordered hback), hmode, hfiles,
    ordered_coverageJson]
  exact recordFiles_eq (.empty _) (soundLines_filesByName h)

/-! ## 3. Runs in files -/

/-- Nothing is wrong with the document of a run that has a command and a sound map. -/
theorem isResultset_of_sound {r : Resultset} (h : r.coverage.Sound) (hcommand : r.command ≠ [])
    (hskipped : 0 ≤ r.skipped) (hunattributed : 0 ≤ r.unattributed) : IsResultset r.toJson :=
  check_eq_ok_iff.mp (check_of_problems_eq_nil
    (problems_toJson h hcommand r.returncode hskipped hunattributed))

/-- A run is in a file: what is read from the file is a document of the same map, with
what the child returned and the number of groups that were skipped. -/
def InFile (fs : FileSystem) (path : Text) (r : Resultset) : Prop :=
  ∃ v c, read fs path = .ok v ∧ coverageOf v = .ok c ∧ c.Agrees r.coverage ∧
    v.field? "returncode" = some (.int r.returncode) ∧ v.field? "skipped" = some (.int r.skipped)

/-- A run of a sound map is in a file that has the text of its document. -/
theorem inFile_of_text {fs : FileSystem} {path : Text} {r : Resultset} {content : Bytes}
    (h : r.coverage.Sound) (hformat : IsResultset r.toJson) (hencodable : r.toJson.IsEncodable)
    (hencode : Text.encode .utf8 r.toJson.documentText = .ok content)
    (hbytes : fs.bytesOf (Path.tidy path) = .ok content) : InFile fs path r := by
  have hback := readsBack_toJson h.isProper hformat hencodable
  obtain ⟨c, hread, hagrees⟩ := coverageOf_ordered h hformat hencodable
  refine ⟨_, c, read_of_document hback hformat hencode hbytes, hread, hagrees, ?_, ?_⟩
  · rw [field?_ordered_of_readsBack hback]
    rfl
  · rw [field?_ordered_of_readsBack hback]
    rfl

end Resultset

end LineTrace
