/-
LineTrace.Proofs.Coverage.Decoding — what a document decodes to, however it was
spelled.

A document may come from another producer: several names of one line (`7`, `007`, and
`7` with a line feed), files without lines, counts above one where hits are not counted.
`coverageOf_integers` says what is made of it as long as the counts are integers. The
files are those with lines; a line has the sum of the integers under all names that spell
it, or one where hits are not counted; and only names with too many digits leave a document
without a map. The order of names is nothing to that, since a sum does not have one.

Reading is then a fold of records over the lines of all files (`recorded`), and what it
answers is an induction from its last line. The records make a map that can be written out
(`reachable_recorded`), so the way from a map to its document and back, known of every
such map, ends the rounds at the second: what is written of the decoded map decodes to
it and is written once more as it was.
-/
import LineTrace.Proofs.Coverage.Reload

namespace LineTrace.Resultset

open Coverage

/-! ## 1. Records of all lines -/

/-- The map after the lines of all files, none of which fails. -/
def recorded (countHits : Bool) (entries : List (Text × Text × Json)) : Coverage :=
  entries.foldl (fun c e => c.record e.1 (lineNumber e.2.1) (countOf e.2.2)) (.empty countHits)

theorem recorded_concat (countHits : Bool) (entries : List (Text × Text × Json))
    (e : Text × Text × Json) :
    recorded countHits (entries ++ [e]) =
      (recorded countHits entries).record e.1 (lineNumber e.2.1) (countOf e.2.2) := by
  rw [recorded, List.foldl_append]
  rfl

theorem countHits_recorded (countHits : Bool) (entries : List (Text × Text × Json)) :
    (recorded countHits entries).countHits = countHits := by
  induction entries using List.reverseRecOn with
  | nil => rfl
  | append_singleton entries e ih =>
    rw [recorded_concat]
    exact ih

/-- A line that is recorded is recorded under the number that its name spells. -/
theorem eq_record_of_recordOne {c c' : Coverage} {e : Text × Text × Json} (h : IsLineName e.2.1)
    (hone : recordOne c e = .ok c') : c' = c.record e.1 (lineNumber e.2.1) (countOf e.2.2) := by
  by_cases hfits : Fits c e
  · rw [recordOne_of_fits h hfits] at hone
    exact (Except.ok.inj hone).symm
  · obtain ⟨fault, hfault, -⟩ := recordOne_of_not_fits h hfits
    rw [hfault] at hone
    cases hone

theorem eq_recorded_of_foldlM {countHits : Bool} {entries : List (Text × Text × Json)}
    (h : ∀ e ∈ entries, IsLineName e.2.1) {c : Coverage}
    (hc : entries.foldlM recordOne (.empty countHits) = .ok c) :
    c = recorded countHits entries := by
  unfold recorded
  generalize Coverage.empty countHits = start at hc ⊢
  induction entries generalizing start with
  | nil =>
    cases hc
    rfl
  | cons e entries ih =>
    obtain ⟨he, hentries⟩ := List.forall_mem_cons.mp h
    rw [List.foldlM_cons] at hc
    cases hone : recordOne start e with
    | error fault =>
      rw [hone] at hc
      cases hc
    | ok next =>
      rw [hone] at hc
      rw [List.foldl_cons, ← eq_record_of_recordOne he hone]
      exact ih hentries next hc

/-! ## 2. What the records answer -/

/-- The files of the map are those that have a line. -/
theorem mem_files_recorded {countHits : Bool} {entries : List (Text × Text × Json)} {p : Text} :
    p ∈ (recorded countHits entries).files.keys ↔ ∃ e ∈ entries, e.1 = p := by
  induction entries using List.reverseRecOn with
  | nil => simp [recorded, Coverage.empty, Table.keys]
  | append_singleton entries e ih =>
    rw [recorded_concat, mem_files_record, ih]
    simp only [List.mem_append, List.mem_singleton]
    constructor
    · rintro (rfl | ⟨x, hx, rfl⟩)
      · exact ⟨e, .inr rfl, rfl⟩
      · exact ⟨x, .inl hx, rfl⟩
    · rintro ⟨x, hx | rfl, rfl⟩
      · exact .inr ⟨x, hx, rfl⟩
      · exact .inl rfl

/-- The integers of one line, one for each name that spells it. -/
def valuesAt (path : Text) (line : Int) (entries : List (Text × Text × Json)) : List Int :=
  entries.filterMap fun e =>
    match e.2.2 with
    | .int i => if e.1 = path ∧ lineNumber e.2.1 = line then some i else none
    | _ => none

theorem valuesAt_concat (path : Text) (line : Int) (entries : List (Text × Text × Json))
    {e : Text × Text × Json} {i : Int} (h : e.2.2 = .int i) :
    valuesAt path line (entries ++ [e]) =
      if e.1 = path ∧ lineNumber e.2.1 = line then valuesAt path line entries ++ [i]
      else valuesAt path line entries := by
  rw [valuesAt, List.filterMap_append]
  simp only [List.filterMap_cons, List.filterMap_nil, h]
  split <;> simp_all [valuesAt]

/-- The count of a line of which the values are known. -/
def countOfValues (countHits : Bool) : List Int → Option Count
  | [] => none
  | values => some (.whole (if countHits then values.sum else 1))

/-- One more value is one more record. -/
theorem countOfValues_concat (countHits : Bool) (values : List Int) (i : Int) :
    countOfValues countHits (values ++ [i]) =
      some (counted countHits (.whole i) (countOfValues countHits values)) := by
  cases countHits with
  | false => cases values <;> rfl
  | true =>
    cases values with
    | nil =>
      change some (Count.whole (i + 0)) = some (Count.whole (0 + i))
      rw [Int.add_comm]
    | cons x xs =>
      change some (Count.whole (x :: xs ++ [i]).sum) = some (Count.whole ((x :: xs).sum + i))
      rw [List.sum_append, List.sum_singleton]

/-- The records leave at a line what its values make together. -/
theorem line?_recorded {countHits : Bool} {entries : List (Text × Text × Json)}
    (h : ∀ e ∈ entries, ∃ i, e.2.2 = .int i) (path : Text) (line : Int) :
    (recorded countHits entries).line? path line =
      countOfValues countHits (valuesAt path line entries) := by
  induction entries using List.reverseRecOn with
  | nil => rfl
  | append_singleton entries e ih =>
    obtain ⟨i, hi⟩ := h e (by simp)
    have hcount : countOf e.2.2 = .whole i := by
      rw [hi]
      rfl
    rw [recorded_concat, line?_record, countHits_recorded, hcount, valuesAt_concat _ _ _ hi,
      ih fun x hx => h x (List.mem_append_left _ hx)]
    split
    · rw [countOfValues_concat]
    · rfl

/-- Lines that can be written and counts from one on make a map that can be written. -/
theorem reachable_recorded {countHits : Bool} {entries : List (Text × Text × Json)}
    (h : ∀ e ∈ entries, IsLine (lineNumber e.2.1) ∧ IsCount (countOf e.2.2)) :
    (recorded countHits entries).Reachable := by
  induction entries using List.reverseRecOn with
  | nil => exact .empty countHits
  | append_singleton entries e ih =>
    obtain ⟨hline, hcount⟩ := h e (by simp)
    rw [recorded_concat]
    exact .record (ih fun x hx => h x (List.mem_append_left _ hx)) e.1 hline hcount

/-! ## 3. Lines of documents -/

theorem exists_mem_lineEntries_iff {files : List (Text × Json)} {p : Text} :
    (∃ e ∈ lineEntries files, e.1 = p) ↔ ∃ lines, (p, .obj lines) ∈ files ∧ lines ≠ [] := by
  constructor
  · rintro ⟨e, he, rfl⟩
    obtain ⟨⟨path, v⟩, hfile, he⟩ := List.mem_flatMap.mp he
    cases v with
    | obj lines =>
      obtain ⟨line, hline, rfl⟩ := List.mem_map.mp he
      exact ⟨lines, hfile, List.ne_nil_of_mem hline⟩
    | _ => cases he
  · rintro ⟨lines, hfile, hne⟩
    obtain ⟨line, hline⟩ := List.exists_mem_of_ne_nil _ hne
    exact ⟨(p, line.1, line.2), List.mem_flatMap.mpr ⟨_, hfile, List.mem_map_of_mem hline⟩, rfl⟩

theorem isNumber_of_mem_lineEntries {files : List (Text × Json)} (h : ∀ e ∈ files, IsLines e.2) :
    ∀ e ∈ lineEntries files, ∃ n, 1 ≤ n ∧ e.2.2.IsNumber n := by
  intro e he
  obtain ⟨⟨path, v⟩, hfile, he⟩ := List.mem_flatMap.mp he
  obtain ⟨lines, hv, hlines⟩ := h _ hfile
  dsimp only at hv
  subst hv
  obtain ⟨line, hline, rfl⟩ := List.mem_map.mp he
  exact (hlines line hline).2

/-- A name that is read is the name of a line that can be written. -/
theorem isLine_lineNumber {name : Text} (h : IsLineName name)
    (hlen : (lineDigits name).length ≤ Text.digitLimit) : IsLine (lineNumber name) := by
  have hten : ∀ d ∈ lineDigits name, d < 10 := by
    intro d hd
    obtain ⟨c, hc, rfl⟩ := List.mem_map.mp hd
    exact sub_lt_ten (List.mem_filter.mp hc).2
  have hne : lineDigits name ≠ [] := by
    obtain ⟨digits, hne, hall, rfl | rfl⟩ := h
    · have hdigits := lineDigits_eq hall (.inl rfl)
      rw [List.append_nil] at hdigits
      rw [hdigits]
      simpa using hne
    · rw [lineDigits_eq hall (.inr rfl)]
      simpa using hne
  exact ⟨Int.natCast_nonneg _, (Text.length_ofNat_decimalValue_le hne hten).trans hlen⟩

/-- An integer from one on is a count. -/
theorem isCount_countOf {v : Json} {i n : Int} (hv : v = .int i) (h : v.IsNumber n) (hn : 1 ≤ n) :
    IsCount (countOf v) := by
  subst hv
  rcases h with heq | ⟨x, heq, -⟩
  · cases heq
    exact ⟨i, hn, rfl⟩
  · cases heq

theorem getD_countsHits {v : Json} (h : IsResultset v) :
    (v.field? "count_hits").getD (.bool false) = .bool (countsHits v) := by
  rw [countsHits]
  cases hfield : v.field? "count_hits" with
  | none => rfl
  | some w =>
    obtain ⟨b, rfl⟩ := h.countHits w hfield
    rfl

/-- Integers can always be added, so only a name with too many digits is in the way. -/
theorem recordable_iff_of_integers {v : Json} {files : List (Text × Json)}
    (hfiles : v.field? "coverage" = some (.obj files))
    (hvalues : ∀ e ∈ lineEntries files, ∃ i, e.2.2 = .int i) :
    Recordable v ↔ ∀ e ∈ lineEntries files, (lineDigits e.2.1).length ≤ Text.digitLimit := by
  have hadd : ∀ (counts : List Count) (i : Int), (∀ n ∈ counts, ∃ j, n = .whole j) →
      (counts.foldlM Count.add? (.whole i)).isSome = true := by
    intro counts
    induction counts with
    | nil => exact fun _ _ => rfl
    | cons n counts ih =>
      intro i hall
      obtain ⟨⟨j, rfl⟩, hrest⟩ := List.forall_mem_cons.mp hall
      exact ih (i + j) hrest
  refine ⟨fun h => h.lines files hfiles, fun h => ⟨fun files' hfiles' => ?_, ?_⟩⟩
  · rw [hfiles] at hfiles'
    cases hfiles'
    exact h
  · intro _ files' hfiles' path line
    rw [hfiles] at hfiles'
    cases hfiles'
    refine hadd _ 0 fun n hn => ?_
    obtain ⟨e, he, rfl⟩ := List.mem_map.mp hn
    obtain ⟨i, hi⟩ := hvalues e (List.mem_filter.mp he).1
    exact ⟨i, by rw [hi]; rfl⟩

/-! ## 4. Documents of integers -/

/-- The document of a map that can be written out decodes to the map, and what it decodes
to is written with the same lines. -/
theorem document_coverageOf {r : Resultset} (h : r.coverage.Reachable) (hcommand : r.command ≠ [])
    (hskipped : 0 ≤ r.skipped) (hunattributed : 0 ≤ r.unattributed) :
    r.document = .ok r.toJson ∧ ∃ c, coverageOf r.toJson = .ok c ∧ c.Agrees r.coverage ∧
      coverageJson c = coverageJson r.coverage := by
  have hsound := h.sound
  obtain ⟨-, c, hc, hsame, hmode, hfiles, hlines⟩ :=
    coverageOf_toJson h hcommand r.returncode hskipped hunattributed
  refine ⟨document_eq_ok_iff.mpr ⟨hsound.hasNumeral, rfl⟩, c, hc,
    ⟨hsame, hmode, hfiles, hlines⟩, ?_⟩
  rw [coverageJson, coverageJson,
    sortedHits_congr (isProper_of_coverageOf hc) hsound.isProper hfiles hlines]

/-- A document that passes the check and has integers for counts decodes unless a name
of a line has too many digits. The map counts hits if the document says so; it has the files with
lines; each line has the sum of the integers under the names that spell it, or one where
hits are not counted; and the documents of the map decode to it and write the same lines. -/
theorem coverageOf_integers {v : Json} (h : check v = .ok ()) {files : List (Text × Json)}
    (hfiles : v.field? "coverage" = some (.obj files))
    (hvalues : ∀ e ∈ lineEntries files, ∃ i, e.2.2 = .int i) :
    ((∃ c, coverageOf v = .ok c) ↔
      ∀ e ∈ lineEntries files, (lineDigits e.2.1).length ≤ Text.digitLimit) ∧
    ∀ c, coverageOf v = .ok c →
      (v.field? "count_hits").getD (.bool false) = .bool c.countHits ∧
      (∀ p, p ∈ c.files.keys ↔ ∃ lines, (p, .obj lines) ∈ files ∧ lines ≠ []) ∧
      (∀ p n, c.hits p n = .whole
        (if c.countHits then (valuesAt p n (lineEntries files)).sum
        else if valuesAt p n (lineEntries files) = [] then 0 else 1)) ∧
      ∀ r : Resultset, r.coverage = c → r.command ≠ [] → 0 ≤ r.skipped → 0 ≤ r.unattributed →
        r.document = .ok r.toJson ∧ ∃ c', coverageOf r.toJson = .ok c' ∧ c'.Agrees c ∧
          coverageJson c' = coverageJson c := by
  have hformat := check_eq_ok_iff.mp h
  have hlines : ∀ e ∈ files, IsLines e.2 := by
    obtain ⟨files', hfiles', hlines⟩ := hformat.coverage
    rw [hfiles] at hfiles'
    cases hfiles'
    exact hlines
  have hnames := isLineName_of_mem_lineEntries hlines
  have hreturns : (∃ c, coverageOf v = .ok c) ↔
      ∀ e ∈ lineEntries files, (lineDigits e.2.1).length ≤ Text.digitLimit :=
    (exists_coverageOf_iff hformat).trans (recordable_iff_of_integers hfiles hvalues)
  refine ⟨hreturns, fun c hc => ?_⟩
  have hlengths := hreturns.mp ⟨c, hc⟩
  rw [coverageOf_eq_foldlM hformat hfiles] at hc
  obtain rfl := eq_recorded_of_foldlM hnames hc
  have hreachable : (recorded (countsHits v) (lineEntries files)).Reachable := by
    refine reachable_recorded fun e he => ⟨isLine_lineNumber (hnames e he) (hlengths e he), ?_⟩
    obtain ⟨n, hn, hnumber⟩ := isNumber_of_mem_lineEntries hlines e he
    obtain ⟨i, hi⟩ := hvalues e he
    exact isCount_countOf hi hnumber hn
  refine ⟨?_, fun p => mem_files_recorded.trans exists_mem_lineEntries_iff, fun p n => ?_, ?_⟩
  · rw [countHits_recorded]
    exact getD_countsHits hformat
  · rw [hits_eq, line?_recorded hvalues, countHits_recorded]
    cases valuesAt p n (lineEntries files) with
    | nil => cases countsHits v <;> rfl
    | cons x xs => rfl
  · rintro r hr hcommand hskipped hunattributed
    rw [← hr] at hreachable ⊢
    exact document_coverageOf hreachable hcommand hskipped hunattributed

/-- Two spellings of line 7, a file without lines, and a document that does not say
whether hits are counted beside one that says it. -/
theorem coverageOf_integers_spellings :
    let files : List (Text × Json) :=
      [("/p/a.sh", .obj [("007", .int 2), ("7\n", .int 3), ("9", .int 4)]), ("/p/b.sh", .obj [])]
    let members : List (Text × Json) := [("schema", .str mark), ("command", .arr [.str "bash"]),
      ("returncode", .int 0), ("skipped", .int 0), ("coverage", .obj files)]
    let silent : Json := .obj members
    let counted : Json := .obj (("count_hits", .bool true) :: members)
    check silent = .ok () ∧ check counted = .ok () ∧
      (∀ e ∈ lineEntries files, ∃ i, e.2.2 = .int i) ∧
      (∃ c, coverageOf silent = .ok c ∧ c.hits "/p/a.sh" 7 = .whole 1 ∧
        ("/p/b.sh" : Text) ∉ c.files.keys) ∧
      ∃ c, coverageOf counted = .ok c ∧ c.hits "/p/a.sh" 7 = .whole 5 ∧
        ("/p/b.sh" : Text) ∉ c.files.keys := by
  intro files members silent counted
  have hvalues : ∀ e ∈ lineEntries files, ∃ i, e.2.2 = .int i := by
    simp [files, lineEntries]
  have hsilent : check silent = .ok () := by decide +kernel
  have hcounted : check counted = .ok () := by decide +kernel
  have hlengths : ∀ e ∈ lineEntries files, (lineDigits e.2.1).length ≤ Text.digitLimit := by
    decide
  have hseven : valuesAt "/p/a.sh" 7 (lineEntries files) = [2, 3] := by decide
  have hempty : ¬ ∃ lines, (("/p/b.sh" : Text), Json.obj lines) ∈ files ∧ lines ≠ [] := by
    simp [files, Text.ofString]
  refine ⟨hsilent, hcounted, hvalues, ?_, ?_⟩
  · obtain ⟨hreturns, hdecodes⟩ := coverageOf_integers hsilent rfl hvalues
    obtain ⟨c, hc⟩ := hreturns.mpr hlengths
    obtain ⟨hmode, hfiles, hhits, -⟩ := hdecodes c hc
    have hcounts : c.countHits = false := (Json.bool.inj hmode).symm
    refine ⟨c, hc, ?_, fun hmem => hempty ((hfiles _).mp hmem)⟩
    rw [hhits, hcounts, hseven]
    rfl
  · obtain ⟨hreturns, hdecodes⟩ := coverageOf_integers hcounted rfl hvalues
    obtain ⟨c, hc⟩ := hreturns.mpr hlengths
    obtain ⟨hmode, hfiles, hhits, -⟩ := hdecodes c hc
    have hcounts : c.countHits = true := (Json.bool.inj hmode).symm
    refine ⟨c, hc, ?_, fun hmem => hempty ((hfiles _).mp hmem)⟩
    rw [hhits, hcounts, hseven]
    rfl

end LineTrace.Resultset
