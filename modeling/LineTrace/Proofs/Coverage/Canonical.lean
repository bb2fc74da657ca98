/-
LineTrace.Proofs.Coverage.Canonical — result sets in files: read as they were
written, and written alike for the same map.

That a file is read back as the document that was written is put together from its
parts: the bytes are those of the text (`write_eq_ok`), the text has no carriage
return that reading would rewrite, it is read as the value with its entries in order
(`read_documentText`), and their order is nothing to the check (`IsResultset.ordered`).
Only numbers with a fraction need a word more. A document that was checked has none
but positive integers, and these are read back as long as they are in range.

That two maps are written alike is a matter of order alone. Files and lines are
sorted before they are written, so a map is written by what it answers
(`sortedHits_congr`), and equal maps answer alike (`line?_eq_of_same`) unless a line
has an integer for a count in one and a number with a fraction in the other: `2` and
`2.0` are equal and are two texts.
-/
import LineTrace.Proofs.Coverage.AtomicWrite
import LineTrace.Proofs.Coverage.Proper
import LineTrace.Proofs.Coverage.RoundTrip
import LineTrace.Proofs.Coverage.Untrusted
import LineTrace.Proofs.Json.RoundTrip

namespace LineTrace.Resultset

open Coverage Json

/-! ## 1. Maps of documents -/

theorem exists_record_of_recordOne {c c' : Coverage} {e : Text × Text × Json}
    (h : recordOne c e = .ok c') : ∃ line hits, c' = c.record e.1 line hits := by
  rw [recordOne, recordEntry] at h
  split at h
  · cases h
  · dsimp only at h
    split at h
    · cases h
    · cases h
      exact ⟨_, _, rfl⟩

/-- The map of a document is proper, whatever the document is. -/
theorem isProper_of_coverageOf {v : Json} {c : Coverage} (h : coverageOf v = .ok c) :
    c.IsProper := by
  have hfold : ∀ (entries : List (Text × Text × Json)) (c' : Coverage), c'.IsProper →
      entries.foldlM recordOne c' = .ok c → c.IsProper := by
    intro entries
    induction entries with
    | nil =>
      rintro c' hc' ⟨⟩
      exact hc'
    | cons e entries ih =>
      intro c' hc' hrecorded
      rw [List.foldlM_cons] at hrecorded
      cases hone : recordOne c' e with
      | error fault =>
        rw [hone] at hrecorded
        cases hrecorded
      | ok next =>
        rw [hone] at hrecorded
        obtain ⟨line, hits, rfl⟩ := exists_record_of_recordOne hone
        exact ih _ (hc'.record e.1 line hits) hrecorded
  have hformat : IsResultset v := by
    rw [← check_eq_ok_iff]
    cases hcheck : check v with
    | error e =>
      rw [coverageOf, hcheck] at h
      cases h
    | ok _ => rfl
  obtain ⟨files, hfiles, -⟩ := hformat.coverage
  rw [coverageOf_eq_foldlM hformat hfiles] at h
  exact hfold _ _ (.empty _) h

/-! ## 2. Documents that are read back -/

theorem hasNoZero_of_isResultset {r : Resultset} (h : IsResultset r.toJson) :
    r.coverage.HasNoZero := by
  intro path line n hn
  obtain ⟨-, i, hpos, hnumber⟩ := (isResultset_toJson_iff.mp h).2.2.2 path line n hn
  exact Count.same_zero_of_isNumber hnumber hpos

/-- A positive integer is read back however it is written. -/
theorem readsBack_of_isNumber {room : Nat} {n : Count} {i : Int} (h : n.toJson.IsNumber i)
    (hpos : 1 ≤ i) (hrange : n.InRange) (hencodable : n.toJson.IsEncodable) :
    ReadsBack room n.toJson := by
  cases n with
  | whole j => exact .int (isEncodable_int.mp hencodable)
  | inexact x =>
    rcases h with ⟨⟨⟩⟩ | ⟨y, ⟨⟩, hx⟩
    obtain ⟨m, e, rfl, hnormal⟩ := Double.isNormal_of_eqInt hrange hx hpos
    exact .float hnormal

theorem readsBack_linesJson {room : Nat} {lines : Table Int Count} (hnodup : lines.keys.Nodup)
    (h : ∀ e ∈ lines, ReadsBack room e.2.toJson) : ReadsBack (room + 1) (linesJson lines) := by
  refine .obj ?_ (List.forall_mem_map.mpr h)
  have hnames := hnodup.map Text.ofInt_injective
  rw [Table.keys, List.map_map] at hnames ⊢
  exact hnames

theorem readsBack_coverageJson {room : Nat} {c : Coverage} (hc : c.IsProper)
    (h : ∀ path line, ∀ n ∈ c.line? path line, ReadsBack room n.toJson) :
    ReadsBack (room + 2) (coverageJson c) := by
  rw [coverageJson, sortedHits, List.map_map]
  refine .obj ?_ (List.forall_mem_map.mpr fun path _ => readsBack_linesJson ?_ fun e he => ?_)
  · have hpaths : c.paths.Nodup := (List.mergeSort_perm _ _).nodup_iff.mpr hc.files
    simpa [Table.keys, Function.comp_def] using hpaths
  · rw [keys_lineHits]
    exact hc.nodup_lines path
  · exact h path e.1 e.2 (mem_lineHits.mp he)

/-- The document of a proper map is read back if it passes the check and can be
written in full. -/
theorem readsBack_toJson {r : Resultset} (h : r.coverage.IsProper) (hformat : IsResultset r.toJson)
    (hencodable : r.toJson.IsEncodable) : ReadsBack depthLimit r.toJson := by
  obtain ⟨-, -, -, hlines⟩ := isResultset_toJson_iff.mp hformat
  obtain ⟨-, hreturncode, hskipped, hunattributed, htexts⟩ := isEncodable_toJson_iff.mp hencodable
  have hcoverage : ReadsBack (depthLimit - 1) (coverageJson r.coverage) := by
    refine readsBack_coverageJson h fun path line n hn => ?_
    obtain ⟨-, i, hpos, hnumber⟩ := hlines path line n hn
    exact readsBack_of_isNumber hnumber hpos (h.inRange_of_line? hn)
      ((htexts path (mem_paths_of_line? hn)).2 line n hn)
  refine .obj (by change memberNames.Nodup; decide) ?_
  simp only [List.forall_mem_cons]
  exact ⟨.str _, .arr (List.forall_mem_map.mpr fun word _ => .str word), .int hreturncode,
    .int hskipped, .int hunattributed, .bool _, hcoverage, by simp⟩

/-! ## 3. The order of entries -/

theorem ordered_of_isNumber {v : Json} {i : Int} (h : v.IsNumber i) : ordered v = v := by
  rcases h with rfl | ⟨x, rfl, -⟩ <;> rfl

theorem IsLines.ordered {v : Json} (h : IsLines v) : IsLines (ordered v) := by
  obtain ⟨lines, rfl, hlines⟩ := h
  refine ⟨_, rfl, fun e he => ?_⟩
  rw [mem_sortEntries, orderedEntries_eq] at he
  obtain ⟨entry, hentry, rfl⟩ := List.mem_map.mp he
  obtain ⟨hname, i, hpos, hnumber⟩ := hlines entry hentry
  refine ⟨hname, i, hpos, ?_⟩
  rwa [ordered_of_isNumber hnumber]

/-- The order of its entries is nothing to the format of a value. -/
theorem IsResultset.ordered {room : Nat} {v : Json} (h : IsResultset v) (hback : ReadsBack room v) :
    IsResultset (ordered v) := by
  have hfield := field?_ordered_of_readsBack hback
  refine ⟨?_, ?_, ?_, ?_, ?_, ?_, ?_, ?_⟩
  · rw [hfield, h.schema]
    rfl
  · obtain ⟨words, hne, hwords⟩ := h.command
    refine ⟨words, hne, ?_⟩
    rw [hfield, hwords, Option.map_some, Json.ordered, orderedItems_eq, List.map_map]
    rfl
  · obtain ⟨w, n, hw, hn⟩ := h.returncode
    refine ⟨w, n, ?_, hn⟩
    rw [hfield, hw, Option.map_some, ordered_of_isNumber hn]
  · obtain ⟨w, n, hw, hn, hpos⟩ := h.skipped
    refine ⟨w, n, ?_, hn, hpos⟩
    rw [hfield, hw, Option.map_some, ordered_of_isNumber hn]
  · intro w hw
    rw [hfield] at hw
    obtain ⟨w', hw', rfl⟩ := Option.map_eq_some_iff.mp hw
    obtain ⟨n, hn, hpos⟩ := h.unattributed w' hw'
    refine ⟨n, ?_, hpos⟩
    rwa [ordered_of_isNumber hn]
  · intro w hw
    rw [hfield] at hw
    obtain ⟨w', hw', rfl⟩ := Option.map_eq_some_iff.mp hw
    obtain ⟨b, rfl⟩ := h.countHits w' hw'
    exact ⟨b, rfl⟩
  · obtain ⟨files, hfiles, hlines⟩ := h.coverage
    refine ⟨_, by rw [hfield, hfiles, Option.map_some, Json.ordered], fun e he => ?_⟩
    rw [mem_sortEntries, orderedEntries_eq] at he
    obtain ⟨entry, hentry, rfl⟩ := List.mem_map.mp he
    exact (hlines entry hentry).ordered
  · intro name w hw
    rw [hfield] at hw
    obtain ⟨w', hw', -⟩ := Option.map_eq_some_iff.mp hw
    exact h.only name w' hw'

/-! ## 4. Files -/

/-- A file with the text of a document is read as the document with its entries in
order. -/
theorem read_of_document {fs : FileSystem} {path : Text} {content : Bytes} {v : Json}
    (hback : ReadsBack depthLimit v) (hformat : IsResultset v)
    (hencode : Text.encode .utf8 v.documentText = .ok content)
    (hbytes : fs.bytesOf (Path.tidy path) = .ok content) : read fs path = .ok (ordered v) := by
  have htext := readText_of_text hbytes hencode
  rw [Text.unifyBreaks_eq_self (notMem_documentText v)] at htext
  have hparse := parse_eq_ok_iff.mpr (read_documentText hback)
  have hcheck := check_eq_ok_iff.mpr (hformat.ordered hback)
  rw [read, htext]
  simp [bind, Except.bind, hparse, hcheck]

/-! ## 5. Equal maps -/

/-- The lines of a proper map are those that it answers. -/
theorem forall_line_iff {c : Coverage} (h : c.IsProper) {p : Int → Prop} :
    (∀ e ∈ c.files, ∀ line ∈ e.2.keys, p line) ↔
      ∀ path line, (c.line? path line).isSome → p line := by
  constructor
  · intro hall path line hline
    obtain ⟨n, hn⟩ := Option.isSome_iff_exists.mp hline
    obtain ⟨lines, hlines, hget⟩ := Option.bind_eq_some_iff.mp hn
    exact hall _ (Table.mem_of_get? hlines) line (Table.isSome_get?_iff.mp (by rw [hget]; rfl))
  · rintro hall ⟨path, lines⟩ he line hline
    refine hall path line ?_
    rw [line?, Table.get?_of_mem h.files he, Option.bind_some]
    exact Table.isSome_get?_iff.mpr hline

/-- The documents of maps that answer alike are the same value. -/
theorem document_congr {r : Resultset} (hr : r.coverage.IsProper) {v : Json}
    (hv : r.document = .ok v) {c : Coverage} (hc : c.IsProper)
    (hmode : r.coverage.countHits = c.countHits)
    (hfiles : ∀ path, path ∈ r.coverage.files.keys ↔ path ∈ c.files.keys)
    (hlines : ∀ path line, r.coverage.line? path line = c.line? path line) :
    document { r with coverage := c } = .ok v := by
  obtain ⟨hnumerals, rfl⟩ := document_eq_ok_iff.mp hv
  have hhits := sortedHits_congr hr hc hfiles hlines
  rw [forall_line_iff hr] at hnumerals
  refine document_eq_ok_iff.mpr ⟨(forall_line_iff hc).mpr fun path line hline => ?_, ?_⟩
  · exact hnumerals path line (by rwa [hlines])
  · simp only [toJson, coverageJson, hmode, hhits]

/-- A document that was written is read back as a value that is equal to it, and a
map that is equal to the one in it, with counts other than zero and of the same
kinds, has the same document and so the same bytes in its file, wherever either is
written. -/
theorem write_canonical {r : Resultset} (hr : r.coverage.IsProper) {v : Json}
    (hv : r.document = .ok v) {fs fs' : FileSystem} {path target : Text}
    (hwrite : write fs v path = (fs', .ok target)) :
    (read fs' path = .ok v.ordered ∧ v.ordered.same v = true) ∧
    ∀ c : Coverage, c.IsProper → r.coverage.same c = true → c.HasNoZero →
      r.coverage.SameKinds c → document { r with coverage := c } = .ok v ∧
        ∀ fs₂ path₂ fs₂' target₂, write fs₂ v path₂ = (fs₂', .ok target₂) →
          ∃ content, fs'.bytesOf target = .ok content ∧ fs₂'.bytesOf target₂ = .ok content := by
  obtain ⟨hcheck, hencodable, rfl, l, content, hencode, hwritten⟩ := write_eq_ok hwrite
  obtain ⟨-, rfl⟩ := document_eq_ok_iff.mp hv
  have hformat := check_eq_ok_iff.mp hcheck
  have hback := readsBack_toJson hr hformat hencodable
  have hbytes := hwritten.stands.bytesOf
  refine ⟨⟨read_of_document hback hformat hencode hbytes, same_ordered hback⟩, ?_⟩
  intro c hc hsame hzero hkinds
  obtain ⟨hmode, hfiles, -⟩ := same_cases hr hsame
  have hlines := line?_eq_of_same hr hsame (hasNoZero_of_isResultset hformat) hzero hkinds
  refine ⟨document_congr hr hv hc hmode hfiles hlines, ?_⟩
  intro fs₂ path₂ fs₂' target₂ hwrite₂
  obtain ⟨-, -, rfl, m, content₂, hencode₂, hwritten₂⟩ := write_eq_ok hwrite₂
  have hcontent : content₂ = content := Except.ok.inj (hencode₂.symm.trans hencode)
  exact ⟨content, hbytes, hcontent ▸ hwritten₂.stands.bytesOf⟩

/-- What holds of every line that is in the map holds of every line that it answers. -/
theorem forall_line?_of_files {c : Coverage} {p : Text → Int → Count → Prop}
    (h : ∀ e ∈ c.files, ∀ x ∈ e.2, p e.1 x.1 x.2) :
    ∀ path line, ∀ n ∈ c.line? path line, p path line n := by
  intro path line n hn
  obtain ⟨lines, hlines, hline⟩ := Option.bind_eq_some_iff.mp hn
  exact h _ (Table.mem_of_get? hlines) _ (Table.mem_of_get? hline)

/-- A file system with nothing in it. -/
def emptyFiles : FileSystem := ⟨[], "/", "/tmp", 0⟩

theorem write_emptyFiles {v : Json} (hcheck : check v = .ok ()) (hencodable : v.IsEncodable) :
    ∃ fs', write emptyFiles v "rs.json" = (fs', .ok "rs.json") := by
  obtain ⟨content, hbytes, -⟩ := documentBytes_eq hencodable
  rw [write, hcheck]
  unfold writeChecked
  rw [hbytes]
  exact ⟨_, rfl⟩

/-- Two files recorded in one order and in the other, and a command with a carriage
return. -/
theorem write_canonical_reordered :
    let c := ((Coverage.empty true).record "/p/b.sh" 3 (.whole 1)).record "/p/a.sh" 2 (.whole 1)
    let d := ((Coverage.empty true).record "/p/a.sh" 2 (.whole 1)).record "/p/b.sh" 3 (.whole 1)
    let r : Resultset := ⟨["printf", "a\r\n"], 0, c, 0, 0⟩
    c.IsProper ∧ r.document = .ok r.toJson ∧ d.IsProper ∧ c.same d = true ∧ d.HasNoZero ∧
      c.SameKinds d ∧ ∃ fs', write emptyFiles r.toJson "rs.json" = (fs', .ok "rs.json") ∧
        read fs' "rs.json" = .ok r.toJson.ordered ∧
        document { r with coverage := d } = .ok r.toJson := by
  intro c d r
  have hc : c.IsProper := ((IsProper.empty true).record _ _ _).record _ _ _
  have hd : d.IsProper := ((IsProper.empty true).record _ _ _).record _ _ _
  have hsame : c.same d = true := by decide
  have hcLines : ∀ path line, ∀ n ∈ c.line? path line, (line = 2 ∨ line = 3) ∧ n = .whole 1 :=
    forall_line?_of_files (p := fun _ line n => (line = 2 ∨ line = 3) ∧ n = .whole 1) (by decide)
  have hdLines : ∀ path line, ∀ n ∈ d.line? path line, n = .whole 1 :=
    forall_line?_of_files (p := fun _ _ n => n = .whole 1) (by decide)
  have hdoc : r.document = .ok r.toJson := by
    refine document_eq_ok_iff.mpr ⟨(forall_line_iff hc).mpr fun path line hline => ?_, rfl⟩
    obtain ⟨n, hn⟩ := Option.isSome_iff_exists.mp hline
    have hline := (hcLines path line n hn).1
    exact Text.hasNumeral_of_lt_ten (by omega)
  have hcheck : check r.toJson = .ok () := by
    refine check_eq_ok_iff.mpr (isResultset_toJson_iff.mpr ⟨?_, ?_, ?_, fun path line n hn => ?_⟩)
    · simp [r]
    · simp [r]
    · simp [r]
    · obtain ⟨hline, rfl⟩ := hcLines path line n hn
      exact ⟨by omega, 1, by decide, .inl rfl⟩
  have hencodable : r.toJson.IsEncodable := by
    have hzero : Text.hasNumeral 0 = true := Text.hasNumeral_of_lt_ten (by decide)
    refine isEncodable_toJson_iff.mpr ⟨by decide, hzero, hzero, hzero, fun path hpath =>
      ⟨?_, fun line n hn => ?_⟩⟩
    · have hpaths : ∀ path ∈ c.files.keys, Text.IsScalars path := by decide
      exact hpaths path (mem_paths.mp hpath)
    · rw [(hcLines path line n hn).2]
      exact .int (Text.hasNumeral_of_lt_ten (by decide))
  have hzero : d.HasNoZero := fun path line n hn => by rw [hdLines path line n hn]; rfl
  have hkinds : c.SameKinds d := fun path line n hn m hm => by
    rw [(hcLines path line n hn).2, hdLines path line m hm]
  obtain ⟨fs', hwrite⟩ := write_emptyFiles hcheck hencodable
  obtain ⟨⟨hread, -⟩, hcanonical⟩ := write_canonical hc hdoc hwrite
  exact ⟨hc, hdoc, hd, hsame, hzero, hkinds, fs', hwrite, hread,
    (hcanonical d hd hsame hzero hkinds).1⟩

/-! ## 6. Counts of two kinds -/

/-- A run of one line. -/
def oneLine (n : Count) : Resultset := ⟨["bash"], 0, ⟨true, [("/p/a.sh", [(2, n)])]⟩, 0, 0⟩

/-- The file that a run of one line is written to, if its count is a positive
integer. -/
theorem write_oneLine {n : Count} {i : Int} (hnumber : n.toJson.IsNumber i) (hpos : 1 ≤ i)
    (hrange : n.InRange) (hcount : n.toJson.IsEncodable) :
    ReadsBack depthLimit (oneLine n).toJson ∧ (oneLine n).document = .ok (oneLine n).toJson ∧
      ∃ fs' content, write emptyFiles (oneLine n).toJson "rs.json" = (fs', .ok "rs.json") ∧
        fs'.bytesOf "rs.json" = .ok content ∧
        Text.encode .utf8 (oneLine n).toJson.documentText = .ok content := by
  have hlines : ∀ path line, ∀ m ∈ (oneLine n).coverage.line? path line, line = 2 ∧ m = n :=
    forall_line?_of_files (p := fun _ line m => line = 2 ∧ m = n) (by simp [oneLine])
  have hproper : (oneLine n).coverage.IsProper :=
    ⟨by simp [oneLine], by simp [oneLine], by simpa [oneLine] using hrange⟩
  have hdocument : (oneLine n).document = .ok (oneLine n).toJson := by
    refine document_eq_ok_iff.mpr ⟨(forall_line_iff hproper).mpr fun path line hline => ?_, rfl⟩
    obtain ⟨m, hm⟩ := Option.isSome_iff_exists.mp hline
    rw [(hlines path line m hm).1]
    exact Text.hasNumeral_of_lt_ten (by decide)
  have hformat : IsResultset (oneLine n).toJson := by
    refine isResultset_toJson_iff.mpr ⟨by simp [oneLine], le_refl 0, le_refl 0,
      fun path line m hm => ?_⟩
    obtain ⟨rfl, rfl⟩ := hlines path line m hm
    exact ⟨by decide, i, hpos, hnumber⟩
  have hencodable : (oneLine n).toJson.IsEncodable := by
    have hzero : Text.hasNumeral 0 = true := Text.hasNumeral_of_lt_ten (by decide)
    refine isEncodable_toJson_iff.mpr ⟨?_, hzero, hzero, hzero, fun path hpath =>
      ⟨?_, fun line m hm => ?_⟩⟩
    · change ∀ word ∈ [Text.ofString "bash"], Text.IsScalars word
      decide
    · have hscalars : ∀ path ∈ [Text.ofString "/p/a.sh"], Text.IsScalars path := by decide
      exact hscalars path (mem_paths.mp hpath)
    · rwa [(hlines path line m hm).2]
  obtain ⟨fs', hwrite⟩ := write_emptyFiles (check_eq_ok_iff.mpr hformat) hencodable
  obtain ⟨-, -, -, l, content, hencode, hwritten⟩ := write_eq_ok hwrite
  exact ⟨readsBack_toJson hproper hformat hencodable, hdocument, fs', content, hwrite,
    hwritten.stands.bytesOf, hencode⟩

/-- The document of one line says what its count is. -/
theorem field?_ordered_oneLine {n : Count}
    (h : ReadsBack depthLimit (oneLine n).toJson) :
    (oneLine n).toJson.ordered.field? "coverage" =
      some (.obj [("/p/a.sh", .obj [(Text.ofInt 2, n.toJson)])]) := by
  have hcoverage : (oneLine n).toJson.field? "coverage" =
      some (.obj [("/p/a.sh", .obj [(Text.ofInt 2, n.toJson)])]) := by
    have hfield : (oneLine n).toJson.field? "coverage" =
      some (coverageJson (oneLine n).coverage) := rfl
    rw [hfield]
    simp [oneLine, coverageJson, sortedHits, paths, Text.sorted, lineHits, lines, hits, Table.keys,
      Table.get?, linesJson]
  rw [field?_ordered_of_readsBack h, hcoverage]
  cases n <;> simp [Json.ordered, orderedEntries, sortEntries, Count.toJson]

/-- An integer and a number with a fraction of zero: equal maps, and two files. -/
theorem write_kinds_differ :
    let two : Count := .inexact (.finite false (2 ^ 52) (-51))
    let c := (Coverage.empty true).record "/p/a.sh" 2 (.whole 2)
    let d := (Coverage.empty true).record "/p/a.sh" 2 two
    let run (c : Coverage) : Resultset := ⟨["bash"], 0, c, 0, 0⟩
    c.same d = true ∧ c.HasNoZero ∧ d.HasNoZero ∧ ∃ v v' fs fs' content content',
      (run c).document = .ok v ∧ write emptyFiles v "rs.json" = (fs, .ok "rs.json") ∧
      (run d).document = .ok v' ∧
      write emptyFiles v' "rs.json" = (fs', .ok "rs.json") ∧
      fs.bytesOf "rs.json" = .ok content ∧ fs'.bytesOf "rs.json" = .ok content' ∧
      content ≠ content' := by
  intro two c d run
  have hc : c = (oneLine (.whole 2)).coverage := congrArg (Coverage.mk true) (by decide)
  have hd : d = (oneLine two).coverage := congrArg (Coverage.mk true) (by decide +kernel)
  have hwhole : (Count.whole 2).toJson.IsNumber 2 := .inl rfl
  have htwo : two.toJson.IsNumber 2 := .inr ⟨_, rfl, by decide +kernel⟩
  obtain ⟨hback, hdocument, fs, content, hwrite, hbytes, hencode⟩ :=
    write_oneLine hwhole (by decide) trivial (.int (Text.hasNumeral_of_lt_ten (by decide)))
  obtain ⟨hback', hdocument', fs', content', hwrite', hbytes', hencode'⟩ :=
    write_oneLine htwo (by decide) ⟨by decide, by decide, by decide, .inl (le_refl _)⟩ (.float _)
  have hzero : ∀ {n : Count}, n.toJson.IsNumber 2 → (oneLine n).coverage.HasNoZero := by
    intro n hn
    refine forall_line?_of_files (p := fun _ _ m => m.same (.whole 0) = false) ?_
    simpa [oneLine] using Count.same_zero_of_isNumber hn (by decide)
  have hsame : c.same d = true := by decide +kernel
  have hcdocument : (run c).document = .ok (oneLine (.whole 2)).toJson := by
    rw [hc]
    exact hdocument
  have hddocument : (run d).document = .ok (oneLine two).toJson := by
    rw [hd]
    exact hdocument'
  refine ⟨hsame, by rw [hc]; exact hzero hwhole, by rw [hd]; exact hzero htwo, _, _, fs, fs',
    content, content', hcdocument, hwrite, hddocument, hwrite', hbytes, hbytes', ?_⟩
  rintro rfl
  rw [← Text.decodeStrict_eq_ok_iff] at hencode hencode'
  have htext := Except.ok.inj (hencode.symm.trans hencode')
  have hordered := ordered_eq_of_documentText_eq hback hback' htext
  have hfields := congrArg (Json.field? "coverage") hordered
  rw [field?_ordered_oneLine hback, field?_ordered_oneLine hback'] at hfields
  cases hfields

end LineTrace.Resultset
