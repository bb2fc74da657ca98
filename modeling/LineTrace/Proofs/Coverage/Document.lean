/-
LineTrace.Proofs.Coverage.Document — what the document of a run has to be.

A document is made of a run member by member, so what has to hold of it is what has
to hold of the run. `isResultset_toJson_iff` says when nothing is wrong with it: there
is a command, no number is below zero, and every count is a positive integer, however
it is written. `isEncodable_toJson_iff` says when it can be written in full: its words
and paths are texts with bytes, and its integers are short enough.

Both speak of what the map answers (`Coverage.line?`) and not of the order in which
its files and lines stand, since the document has them sorted.
-/
import LineTrace.Proofs.Coverage.Format
import LineTrace.Proofs.Coverage.Recording
import LineTrace.Proofs.Json.Writing

namespace LineTrace

/-! ## 1. What is written out of a map -/

namespace Coverage

/-- The lines of a file with their counts are what the map answers. -/
theorem mem_lineHits {c : Coverage} {path : Text} {e : Int × Count} :
    e ∈ c.lineHits path ↔ c.line? path e.1 = some e.2 := by
  obtain ⟨line, n⟩ := e
  rw [lineHits, List.mem_map]
  constructor
  · rintro ⟨l, hl, h⟩
    cases h
    obtain ⟨m, hm⟩ := Option.isSome_iff_exists.mp (mem_lines.mp hl)
    rw [hits_eq, hm, Option.getD_some]
  · intro h
    refine ⟨line, mem_lines.mpr (by rw [h]; rfl), ?_⟩
    rw [hits_eq, h, Option.getD_some]

theorem mem_paths {c : Coverage} {path : Text} : path ∈ c.paths ↔ path ∈ c.files.keys :=
  (List.mergeSort_perm _ _).mem_iff

theorem mem_paths_of_line? {c : Coverage} {path : Text} {line : Int} {n : Count}
    (h : c.line? path line = some n) : path ∈ c.paths := by
  obtain ⟨lines, hlines, -⟩ := Option.bind_eq_some_iff.mp h
  refine mem_paths.mpr (Table.isSome_get?_iff.mp ?_)
  rw [hlines]
  rfl

end Coverage

namespace Resultset

open Coverage Json

/-! ## 2. Documents that pass the check -/

/-- A name of a line is the numeral of one that is not below zero. -/
theorem isLineName_ofInt_iff {line : Int} : IsLineName (Text.ofInt line) ↔ 0 ≤ line := by
  cases line with
  | ofNat n =>
    refine iff_of_true ⟨Text.ofNat n, Text.ofNat_ne_nil n, fun c => Text.isDigit_of_mem_ofNat,
      .inl rfl⟩ (Int.natCast_nonneg n)
  | negSucc n =>
    refine iff_of_false ?_ (Int.not_le.mpr (Int.negSucc_lt_zero n))
    rintro ⟨digits, hne, hall, hname⟩
    obtain ⟨d, rest, rfl⟩ := List.exists_cons_of_ne_nil hne
    have hminus : 45 = d := by
      rcases hname with hname | hname <;> exact (List.cons.inj hname).1
    have hdigit := hall d (by simp)
    rw [← hminus] at hdigit
    exact absurd hdigit (by decide)

theorem isLines_linesJson_iff {lines : List (Int × Count)} :
    IsLines (linesJson lines) ↔
      ∀ e ∈ lines, 0 ≤ e.1 ∧ ∃ i, 1 ≤ i ∧ e.2.toJson.IsNumber i := by
  have hentries : IsLines (linesJson lines) ↔
      ∀ e ∈ lines.map fun x => (Text.ofInt x.1, x.2.toJson),
        IsLineName e.1 ∧ ∃ i, 1 ≤ i ∧ e.2.IsNumber i := by
    constructor
    · rintro ⟨entries, ⟨⟩, h⟩
      exact h
    · exact fun h => ⟨_, rfl, h⟩
  rw [hentries, List.forall_mem_map]
  exact forall₂_congr fun e _ => and_congr_left' isLineName_ofInt_iff

/-- The files of a document have the lines of the map. -/
theorem isLines_sortedHits_iff {c : Coverage} :
    (∀ e ∈ c.sortedHits.map fun (path, lines) => (path, linesJson lines), IsLines e.2) ↔
      ∀ path line, ∀ n ∈ c.line? path line, 0 ≤ line ∧ ∃ i, 1 ≤ i ∧ n.toJson.IsNumber i := by
  rw [List.forall_mem_map, sortedHits, List.forall_mem_map]
  simp only [isLines_linesJson_iff, mem_lineHits]
  constructor
  · intro h path line n hn
    exact h path (mem_paths_of_line? hn) (line, n) hn
  · intro h path _ e he
    exact h path e.1 e.2 he

/-- What a run has to be for its document to pass the check. -/
theorem isResultset_toJson_iff {r : Resultset} :
    IsResultset r.toJson ↔ r.command ≠ [] ∧ 0 ≤ r.skipped ∧ 0 ≤ r.unattributed ∧
      ∀ path line, ∀ n ∈ r.coverage.line? path line,
        0 ≤ line ∧ ∃ i, 1 ≤ i ∧ n.toJson.IsNumber i := by
  have hint : ∀ {i n}, (Json.int i).IsNumber n → n = i := by
    rintro i n (⟨⟨⟩⟩ | ⟨x, ⟨⟩, -⟩)
    rfl
  rw [← isLines_sortedHits_iff]
  constructor
  · intro h
    obtain ⟨words, hne, hwords⟩ := h.command
    obtain ⟨w, n, ⟨⟩, hskipped, hskippedPos⟩ := h.skipped
    obtain ⟨m, hunattributed, hunattributedPos⟩ := h.unattributed (.int r.unattributed) rfl
    obtain ⟨files, ⟨⟩, hlines⟩ := h.coverage
    refine ⟨?_, hint hskipped ▸ hskippedPos, hint hunattributed ▸ hunattributedPos, hlines⟩
    intro hnil
    have hitems : r.command.map Json.str = words.map .str := Json.arr.inj (Option.some.inj hwords)
    rw [hnil, List.map_nil, eq_comm, List.map_eq_nil_iff] at hitems
    exact hne hitems
  · rintro ⟨hcommand, hskipped, hunattributed, hlines⟩
    refine ⟨rfl, ⟨r.command, hcommand, rfl⟩, ⟨_, _, rfl, .inl rfl⟩, ⟨_, _, rfl, .inl rfl, hskipped⟩,
      ?_, ?_, ⟨_, rfl, hlines⟩, ?_⟩
    · rintro w ⟨⟩
      exact ⟨_, .inl rfl, hunattributed⟩
    · rintro w ⟨⟩
      exact ⟨_, rfl⟩
    · intro name w hw
      exact List.mem_map_of_mem (f := Prod.fst) (Table.mem_of_get? hw)

/-! ## 3. Documents that can be written -/

theorem isEncodable_int {i : Int} : (Json.int i).IsEncodable ↔ Text.hasNumeral i = true :=
  ⟨fun h => by cases h with | int hnumeral => exact hnumeral, .int⟩

theorem isEncodable_str {t : Text} : (Json.str t).IsEncodable ↔ Text.IsScalars t :=
  ⟨fun h => by cases h with | str hscalars => exact hscalars, .str⟩

theorem isEncodable_linesJson_iff {lines : List (Int × Count)} :
    (linesJson lines).IsEncodable ↔ ∀ e ∈ lines, e.2.toJson.IsEncodable := by
  rw [linesJson, isEncodable_obj, List.forall_mem_map]
  exact forall₂_congr fun e _ => and_iff_right (Text.isPlain_ofInt e.1).isScalars

/-- What a run has to be for its document to be written in full. -/
theorem isEncodable_toJson_iff {r : Resultset} :
    r.toJson.IsEncodable ↔ (∀ word ∈ r.command, Text.IsScalars word) ∧
      Text.hasNumeral r.returncode = true ∧ Text.hasNumeral r.skipped = true ∧
      Text.hasNumeral r.unattributed = true ∧
      ∀ path ∈ r.coverage.paths, Text.IsScalars path ∧
        ∀ line, ∀ n ∈ r.coverage.line? path line, n.toJson.IsEncodable := by
  have hcommand : (Json.arr (r.command.map .str)).IsEncodable ↔
      ∀ word ∈ r.command, Text.IsScalars word := by
    rw [isEncodable_arr, List.forall_mem_map]
    exact forall₂_congr fun word _ => isEncodable_str
  have hcoverage : (coverageJson r.coverage).IsEncodable ↔
      ∀ path ∈ r.coverage.paths, Text.IsScalars path ∧
        ∀ line, ∀ n ∈ r.coverage.line? path line, n.toJson.IsEncodable := by
    rw [coverageJson, isEncodable_obj, List.forall_mem_map, sortedHits, List.forall_mem_map]
    refine forall₂_congr fun path _ => and_congr_right' ?_
    simp only [isEncodable_linesJson_iff, mem_lineHits, Prod.forall, Option.mem_def]
  have hnames : ∀ name ∈ memberNames, Text.IsScalars name := fun name hname =>
    Text.IsPlain.isScalars (by revert hname; revert name; decide)
  have hmark : Text.IsScalars mark := Text.IsPlain.isScalars (by decide)
  rw [toJson, isEncodable_obj]
  refine (forall₂_congr fun (e : Text × Json) he =>
    and_iff_right (hnames e.1 (List.mem_map_of_mem (f := Prod.fst) he))).trans ?_
  simp only [List.forall_mem_cons, isEncodable_int, isEncodable_str, hmark, hcommand, hcoverage,
    IsEncodable.bool, true_and, List.not_mem_nil, false_implies, implies_true, and_true]

/-- There is a document as long as no line is too long to be written. -/
theorem document_eq_ok_iff {r : Resultset} {v : Json} :
    r.document = .ok v ↔
      (∀ e ∈ r.coverage.files, ∀ line ∈ e.2.keys, Text.hasNumeral line = true) ∧
        v = r.toJson := by
  have hall : (r.coverage.files.all fun e => e.2.keys.all Text.hasNumeral) = true ↔
      ∀ e ∈ r.coverage.files, ∀ line ∈ e.2.keys, Text.hasNumeral line = true := by
    simp only [List.all_eq_true]
  have hdocument : r.document =
      if r.coverage.files.all fun e => e.2.keys.all Text.hasNumeral then .ok r.toJson
      else .error .unwritable := rfl
  rw [hdocument, ← hall]
  split
  · rename_i h
    rw [Except.ok.injEq, eq_comm]
    exact (and_iff_right h).symm
  · rename_i h
    exact iff_of_false (fun hv => nomatch hv) fun hv => h hv.1

end Resultset

end LineTrace
