/-
LineTrace.Proofs.Coverage.Untrusted — what the bytes of a file can lead to.

The bytes of a result set come from anywhere. They pass four readers: UTF-8, JSON,
the check of the format and the recording of lines, and only the faults of the
second and the third are told as bad input. `load_escapes_iff` says exactly which
bytes lead to any other fault (`Escapes`): those that are no UTF-8, those with an
integer too long to be converted or a value that lies too deep, and result sets
whose lines cannot be recorded (`Recordable`), because the number of a line has too
many digits or an integer is too large to be added to a number with a fraction.

Recording is a fold over all lines of all files, so `exists_recorded_iff` is an
induction over them with the map so far; what it needs of the map is the count of
each line. That the check itself never fails for want of a message comes from
`Json.hasNumerals_of_read`.
-/
import LineTrace.Proofs.Coverage.Accumulation
import LineTrace.Proofs.Coverage.Format
import LineTrace.Proofs.Json.Reading

namespace LineTrace.Resultset

/-! ## 1. The names of lines -/

/-- The digits of a line's name. -/
def lineDigits (name : Text) : List Nat := (name.filter Text.isDigit).map (· - 48)

/-- The number that a line's name spells. -/
def lineNumber (name : Text) : Int := Text.decimalValue (lineDigits name)

theorem sub_lt_ten {c : Nat} (h : Text.isDigit c = true) : c - 48 < 10 := by
  have hc := Text.isDigit_iff.mp h
  omega

theorem digit_sub {c : Nat} (h : Text.isDigit c = true) : Text.digit (c - 48) = c := by
  rw [Text.digit, if_pos (sub_lt_ten h)]
  exact Nat.add_sub_of_le (Text.isDigit_iff.mp h).1

theorem lineDigits_eq {digits tail : Text} (h : ∀ c ∈ digits, Text.isDigit c = true)
    (htail : tail = [] ∨ tail = [10]) : lineDigits (digits ++ tail) = digits.map (· - 48) := by
  have hfilter : tail.filter Text.isDigit = [] := by
    rcases htail with rfl | rfl <;> rfl
  rw [lineDigits, List.filter_append, List.filter_eq_self.mpr h, hfilter, List.append_nil]

/-- The name of a line is read as its number unless it has too many digits. -/
theorem readInteger_of_isLineName {name : Text} (h : IsLineName name) :
    Text.readInteger name =
      if Text.digitLimit < (lineDigits name).length then
        .error (.tooLong (lineDigits name).length)
      else .ok (lineNumber name) := by
  obtain ⟨digits, hne, hall, hname⟩ := h
  obtain ⟨tail, htail, rfl⟩ : ∃ tail : Text, (tail = [] ∨ tail = [10]) ∧ name = digits ++ tail := by
    rcases hname with rfl | rfl
    · exact ⟨[], .inl rfl, (List.append_nil name).symm⟩
    · exact ⟨[10], .inr rfl, rfl⟩
  have hdigits : (digits.map (· - 48)).map Text.digit = digits := by
    rw [List.map_map]
    exact (List.map_congr_left fun c hc => digit_sub (hall c hc)).trans (List.map_id digits)
  have hlt : ∀ d ∈ digits.map (· - 48), d < 10 := by
    intro d hd
    obtain ⟨c, hc, rfl⟩ := List.mem_map.mp hd
    exact sub_lt_ten (hall c hc)
  rw [lineNumber, lineDigits_eq hall htail,
    ← Text.readInteger_digits (by simpa using hne) hlt htail, hdigits]

/-! ## 2. Recording the lines of a document -/

/-- The lines of all files with their paths, as they stand in a document. -/
def lineEntries (files : List (Text × Json)) : List (Text × Text × Json) :=
  files.flatMap fun (path, v) =>
    match v with
    | .obj lines => lines.map fun (name, w) => (path, name, w)
    | _ => []

/-- The count that a value gives. -/
def countOf (v : Json) : Count := (Count.ofJson? v).getD (.whole 0)

/-- The counts of one line, in the order in which they stand in a document. -/
def lineCounts (path : Text) (line : Int) (entries : List (Text × Text × Json)) : List Count :=
  (entries.filter fun e => e.1 = path ∧ lineNumber e.2.1 = line).map fun e => countOf e.2.2

/-- The map after one line of one file. -/
def recordOne (c : Coverage) (e : Text × Text × Json) : Except Fault Coverage :=
  recordEntry c e.1 e.2.1 e.2.2

theorem recordEntries_eq_foldlM (c : Coverage) (path : Text) (lines : List (Text × Json)) :
    recordEntries c path lines =
      (lines.map fun (name, w) => (path, name, w)).foldlM recordOne c := by
  induction lines generalizing c with
  | nil => rfl
  | cons e lines ih =>
    obtain ⟨name, w⟩ := e
    rw [recordEntries, List.map_cons, List.foldlM_cons]
    simp only [recordOne]
    cases recordEntry c path name w with
    | error e => rfl
    | ok c' => exact ih c'

theorem recordFiles_eq_foldlM (c : Coverage) (files : List (Text × Json)) :
    recordFiles c files = (lineEntries files).foldlM recordOne c := by
  induction files generalizing c with
  | nil => rfl
  | cons e files ih =>
    obtain ⟨path, v⟩ := e
    rw [lineEntries, List.flatMap_cons, List.foldlM_append]
    cases v with
    | obj lines =>
      rw [recordFiles, recordEntries_eq_foldlM]
      cases (lines.map fun (name, w) => (path, name, w)).foldlM recordOne c with
      | error e => rfl
      | ok c' => exact ih c'
    | _ => exact ih c

/-- A record adds to the count of the line that it names. -/
theorem hits_record {c : Coverage} (hmode : c.countHits = true) (path p : Text) (line l : Int)
    (hits : Count) :
    (c.record path line hits).hits p l =
      if path = p ∧ line = l then (c.hits p l).add hits else c.hits p l := by
  have hline := Coverage.line?_record c path p line l hits
  rw [Coverage.line?] at hline
  rw [Coverage.hits, hline, Coverage.counted, if_pos hmode]
  split <;> rfl

/-- Whether a line can be recorded: its number is short enough and, where hits
are counted, its count can be added. -/
def Fits (c : Coverage) (e : Text × Text × Json) : Prop :=
  (lineDigits e.2.1).length ≤ Text.digitLimit ∧
    (c.countHits = true → ((c.hits e.1 (lineNumber e.2.1)).add? (countOf e.2.2)).isSome = true)

theorem recordOne_of_fits {c : Coverage} {e : Text × Text × Json} (h : IsLineName e.2.1)
    (hfits : Fits c e) :
    recordOne c e = .ok (c.record e.1 (lineNumber e.2.1) (countOf e.2.2)) := by
  obtain ⟨hlen, hsum⟩ := hfits
  rw [recordOne, recordEntry, readInteger_of_isLineName h, if_neg (Nat.not_lt.mpr hlen)]
  refine if_neg fun hfail => ?_
  have hsome := hsum hfail.1
  rw [Option.isSome_iff_ne_none] at hsome
  exact hsome (Option.isNone_iff_eq_none.mp hfail.2)

/-- A line that cannot be recorded is refused, and not as bad input. -/
theorem recordOne_of_not_fits {c : Coverage} {e : Text × Text × Json} (h : IsLineName e.2.1)
    (hfits : ¬ Fits c e) : ∃ fault, recordOne c e = .error fault ∧ ¬ fault.fault.IsBadInput := by
  rw [recordOne, recordEntry, readInteger_of_isLineName h]
  by_cases hlong : Text.digitLimit < (lineDigits e.2.1).length
  · rw [if_pos hlong]
    refine ⟨_, rfl, fun hbad => ?_⟩
    obtain ⟨messages, hmessages⟩ := Fault.isBadInput_iff.mp hbad
    cases hmessages
  · rw [if_neg hlong]
    have hfail : c.countHits = true ∧
        ((c.hits e.1 (lineNumber e.2.1)).add? (countOf e.2.2)).isNone = true := by
      by_contra hnot
      refine hfits ⟨Nat.not_lt.mp hlong, fun hmode => ?_⟩
      rw [← Option.not_isNone, Bool.not_eq_true', ← Bool.not_eq_true]
      exact fun hnone => hnot ⟨hmode, hnone⟩
    refine ⟨.countTooLarge, if_pos hfail, fun hbad => ?_⟩
    obtain ⟨messages, hmessages⟩ := Fault.isBadInput_iff.mp hbad
    cases hmessages

theorem lineCounts_cons (path : Text) (line : Int) (e : Text × Text × Json)
    (entries : List (Text × Text × Json)) :
    lineCounts path line (e :: entries) =
      if e.1 = path ∧ lineNumber e.2.1 = line then countOf e.2.2 :: lineCounts path line entries
      else lineCounts path line entries := by
  simp only [lineCounts, List.filter_cons, decide_eq_true_eq]
  split <;> rfl

/-- Counts are added to what the map has as the lines are recorded. -/
theorem foldlM_lineCounts_cons {c : Coverage} (hmode : c.countHits = true)
    {e : Text × Text × Json} (hfits : Fits c e) (entries : List (Text × Text × Json)) (path : Text)
    (line : Int) :
    (lineCounts path line (e :: entries)).foldlM Count.add? (c.hits path line) =
      (lineCounts path line entries).foldlM Count.add?
        ((c.record e.1 (lineNumber e.2.1) (countOf e.2.2)).hits path line) := by
  rw [lineCounts_cons, hits_record hmode]
  by_cases hline : e.1 = path ∧ lineNumber e.2.1 = line
  · obtain ⟨rfl, rfl⟩ := hline
    obtain ⟨total, htotal⟩ := Option.isSome_iff_exists.mp (hfits.2 hmode)
    simp only [and_self, if_true, List.foldlM_cons, htotal, Count.add, Option.getD_some]
    rfl
  · rw [if_neg hline, if_neg hline]

/-- All lines of all files can be recorded exactly when the number of every line
is short enough and the counts of every line, one after the other, can be added
to what the map has. -/
theorem exists_recorded_iff {entries : List (Text × Text × Json)}
    (h : ∀ e ∈ entries, IsLineName e.2.1) (c : Coverage) :
    (∃ c', entries.foldlM recordOne c = .ok c') ↔
      (∀ e ∈ entries, (lineDigits e.2.1).length ≤ Text.digitLimit) ∧
      (c.countHits = true → ∀ path line,
        ((lineCounts path line entries).foldlM Count.add? (c.hits path line)).isSome = true) := by
  induction entries generalizing c with
  | nil =>
    constructor
    · intro _
      exact ⟨by simp, fun _ _ _ => rfl⟩
    · intro _
      exact ⟨c, rfl⟩
  | cons e entries ih =>
    obtain ⟨he, hentries⟩ := List.forall_mem_cons.mp h
    rw [List.foldlM_cons, List.forall_mem_cons]
    by_cases hfits : Fits c e
    · rw [recordOne_of_fits he hfits]
      refine (ih hentries _).trans ?_
      constructor
      · rintro ⟨hlen, hsums⟩
        refine ⟨⟨hfits.1, hlen⟩, fun hmode path line => ?_⟩
        rw [foldlM_lineCounts_cons hmode hfits]
        exact hsums hmode path line
      · rintro ⟨⟨-, hlen⟩, hsums⟩
        refine ⟨hlen, fun hmode path line => ?_⟩
        have hcounts : c.countHits = true := hmode
        rw [← foldlM_lineCounts_cons hcounts hfits]
        exact hsums hcounts path line
    · obtain ⟨fault, hfault, -⟩ := recordOne_of_not_fits he hfits
      rw [hfault]
      constructor
      · rintro ⟨c', hc'⟩
        cases hc'
      · rintro ⟨⟨hlen, -⟩, hsums⟩
        refine absurd ⟨hlen, fun hmode => ?_⟩ hfits
        have hsum := hsums hmode e.1 (lineNumber e.2.1)
        rw [lineCounts_cons, if_pos ⟨rfl, rfl⟩, List.foldlM_cons] at hsum
        exact Option.isSome_of_isSome_bind hsum

/-- What stops the recording of lines is no bad input. -/
theorem not_isBadInput_of_recorded {entries : List (Text × Text × Json)}
    (h : ∀ e ∈ entries, IsLineName e.2.1) {c : Coverage} {fault : Fault}
    (hfault : entries.foldlM recordOne c = .error fault) : ¬ fault.fault.IsBadInput := by
  induction entries generalizing c with
  | nil => cases hfault
  | cons e entries ih =>
    obtain ⟨he, hentries⟩ := List.forall_mem_cons.mp h
    rw [List.foldlM_cons] at hfault
    by_cases hfits : Fits c e
    · rw [recordOne_of_fits he hfits] at hfault
      exact ih hentries hfault
    · obtain ⟨fault', hfault', hbad⟩ := recordOne_of_not_fits he hfits
      rw [hfault'] at hfault
      cases hfault
      exact hbad

/-! ## 3. Documents -/

/-- A document whose lines can all be recorded: the number of each is short
enough, and where hits are counted, the counts of each can be added in the order in
which they stand. -/
structure Recordable (v : Json) : Prop where
  lines : ∀ files, v.field? "coverage" = some (.obj files) →
    ∀ e ∈ lineEntries files, (lineDigits e.2.1).length ≤ Text.digitLimit
  counts : v.field? "count_hits" = some (.bool true) →
    ∀ files, v.field? "coverage" = some (.obj files) → ∀ path line,
      ((lineCounts path line (lineEntries files)).foldlM Count.add? (.whole 0)).isSome = true

/-- Whether a document says that hits are counted. -/
def countsHits (v : Json) : Bool :=
  match v.field? "count_hits" with
  | some (.bool b) => b
  | _ => false

theorem countsHits_iff {v : Json} :
    countsHits v = true ↔ v.field? "count_hits" = some (.bool true) := by
  unfold countsHits
  split
  · rename_i b hfield
    rw [hfield]
    simp
  · rename_i hfield
    constructor
    · intro h
      cases h
    · intro h
      exact absurd h (hfield true)

theorem isLineName_of_mem_lineEntries {files : List (Text × Json)} (h : ∀ e ∈ files, IsLines e.2) :
    ∀ e ∈ lineEntries files, IsLineName e.2.1 := by
  intro e he
  obtain ⟨⟨path, v⟩, hfile, he⟩ := List.mem_flatMap.mp he
  obtain ⟨lines, hv, hlines⟩ := h _ hfile
  dsimp only at hv
  subst hv
  obtain ⟨line, hline, rfl⟩ := List.mem_map.mp he
  exact (hlines line hline).1

theorem coverageOf_eq_foldlM {v : Json} (h : IsResultset v) {files : List (Text × Json)}
    (hfiles : v.field? "coverage" = some (.obj files)) :
    coverageOf v = (lineEntries files).foldlM recordOne (Coverage.empty (countsHits v)) := by
  rw [← recordFiles_eq_foldlM, coverageOf, check_eq_ok_iff.mpr h, hfiles]
  rfl

/-- A result set gives a map exactly when its lines can be recorded. -/
theorem exists_coverageOf_iff {v : Json} (h : IsResultset v) :
    (∃ c, coverageOf v = .ok c) ↔ Recordable v := by
  obtain ⟨files, hfiles, hlines⟩ := h.coverage
  have hsame : ∀ files', v.field? "coverage" = some (.obj files') → files' = files := by
    intro files' hfiles'
    rw [hfiles] at hfiles'
    cases hfiles'
    rfl
  rw [coverageOf_eq_foldlM h hfiles, exists_recorded_iff (isLineName_of_mem_lineEntries hlines)]
  constructor
  · rintro ⟨hlen, hsums⟩
    refine ⟨fun files' hfiles' => ?_, fun hmode files' hfiles' => ?_⟩
    · rw [hsame files' hfiles']
      exact hlen
    · rw [hsame files' hfiles']
      exact hsums (countsHits_iff.mpr hmode)
  · rintro ⟨hlen, hsums⟩
    exact ⟨hlen files hfiles, fun hmode => hsums (countsHits_iff.mp hmode) files hfiles⟩

/-- What else it gives is no bad input. -/
theorem not_isBadInput_of_coverageOf {v : Json} (h : IsResultset v) {fault : Fault}
    (hfault : coverageOf v = .error fault) : ¬ fault.fault.IsBadInput := by
  obtain ⟨files, hfiles, hlines⟩ := h.coverage
  rw [coverageOf_eq_foldlM h hfiles] at hfault
  exact not_isBadInput_of_recorded (isLineName_of_mem_lineEntries hlines) hfault

/-! ## 4. Files -/

/-- The map in a file. -/
def load (fs : FileSystem) (path : Text) : Except LineTrace.Fault Coverage :=
  match read fs path with
  | .error e => .error e
  | .ok v => (coverageOf v).mapError Fault.fault

/-- A text that spells no value for a reason that is not told as bad input: an
integer too long to be converted, or a value that lies too deep. -/
inductive Unreadable (t : Text) : Prop where
  | tooLong {digits : Nat} (h : Json.read t = .error (.numeralTooLong digits))
  | tooDeep {container : Json.Container} (h : Json.read t = .error (.tooDeep container))

/-- Bytes that lead to a fault other than bad input. -/
inductive Escapes (content : Bytes) : Prop where
  | noText (h : ∀ t, Text.encode .utf8 t ≠ .ok content)
  | unreadable {t : Text} (ht : Text.encode .utf8 t = .ok content)
      (h : Unreadable (Text.unifyBreaks t))
  | unrecordable {t : Text} (ht : Text.encode .utf8 t = .ok content) {v : Json}
      (hv : Json.read (Text.unifyBreaks t) = .ok v) (hformat : IsResultset v)
      (h : ¬ Recordable v)

/-- The faults of a text that spells no value. -/
theorem parse_eq_error_iff {t : Text} :
    (∃ e, parse t = .error e ∧ ¬ e.IsBadInput) ↔ Unreadable t := by
  constructor
  · rintro ⟨e, he, hbad⟩
    unfold parse at he
    split at he
    · cases he
    · rename_i h
      exact .tooLong h
    · rename_i h
      exact .tooDeep h
    · cases he
      exact absurd ⟨_, rfl⟩ hbad
  · rintro (⟨h⟩ | ⟨h⟩)
    · refine ⟨_, by rw [parse, h], ?_⟩
      rintro ⟨message, hmessage⟩
      cases hmessage
    · refine ⟨_, by rw [parse, h], ?_⟩
      rintro ⟨message, hmessage⟩
      cases hmessage

theorem parse_eq_ok_iff {t : Text} {v : Json} : parse t = .ok v ↔ Json.read t = .ok v := by
  unfold parse
  split <;> simp_all

theorem readText_of_text {fs : FileSystem} {path : Text} {content : Bytes} {t : Text}
    (h : fs.bytesOf (Path.tidy path) = .ok content) (ht : Text.encode .utf8 t = .ok content) :
    readText fs path = .ok (Text.unifyBreaks t) := by
  simp only [readText, h, Text.decodeStrict_eq_ok_iff.mpr ht]

/-- A value that was read and is no result set is refused with messages. -/
theorem check_of_read {t : Text} {v : Json} (h : Json.read t = .ok v) (hformat : ¬ IsResultset v) :
    check v = .error (.invalid (errors v)) := by
  refine check_eq_invalid_iff.mpr ⟨?_, fun hnone => hformat (errors_eq_nil_iff.mp hnone)⟩
  rcases report_cases v with ⟨-, hreport⟩ | ⟨⟨p, hp, hshow⟩, -⟩
  · exact hreport
  · rw [isShowable_of_mem_found (Json.hasNumerals_of_read h) hp] at hshow
    cases hshow

/-- What reading a file comes to once its text is known: a fault of the parser, a
refusal of the check, or a result set. -/
theorem read_cases {fs : FileSystem} {path t : Text} (h : readText fs path = .ok t) :
    (∃ e, parse t = .error e ∧ read fs path = .error e) ∨
    ∃ v, Json.read t = .ok v ∧
      (read fs path = .ok v ∧ IsResultset v ∨
        (∃ e, read fs path = .error e ∧ e.IsBadInput) ∧ ¬ IsResultset v) := by
  rw [read, h]
  cases hparse : parse t with
  | error e => exact .inl ⟨e, rfl, by simp [bind, Except.bind, hparse]⟩
  | ok v =>
    have hv := parse_eq_ok_iff.mp hparse
    refine .inr ⟨v, hv, ?_⟩
    by_cases hformat : IsResultset v
    · refine .inl ⟨?_, hformat⟩
      simp [bind, Except.bind, hparse, check_eq_ok_iff.mpr hformat]
    · refine .inr ⟨⟨(Fault.invalid (errors v)).fault, ?_, _, rfl⟩, hformat⟩
      simp [bind, Except.bind, hparse, check_of_read hv hformat]

theorem load_of_error {fs : FileSystem} {path : Text} {e : LineTrace.Fault}
    (h : read fs path = .error e) : load fs path = .error e := by
  rw [load, h]

theorem load_of_value {fs : FileSystem} {path : Text} {v : Json} (h : read fs path = .ok v)
    (hformat : IsResultset v) :
    (∃ e, load fs path = .error e ∧ ¬ e.IsBadInput) ↔ ¬ Recordable v := by
  have hload : load fs path = (coverageOf v).mapError Fault.fault := by
    rw [load, h]
  rw [hload, ← exists_coverageOf_iff hformat]
  cases hcoverage : coverageOf v with
  | ok c => simp [Except.mapError]
  | error fault => simpa [Except.mapError] using not_isBadInput_of_coverageOf hformat hcoverage

theorem escapes_iff_of_text {t : Text} {content : Bytes} (ht : Text.encode .utf8 t = .ok content) :
    Escapes content ↔ Unreadable (Text.unifyBreaks t) ∨
      ∃ v, Json.read (Text.unifyBreaks t) = .ok v ∧ IsResultset v ∧ ¬ Recordable v := by
  -- the text is the only one that has these bytes
  have hunique : ∀ t', Text.encode .utf8 t' = .ok content → t' = t := by
    intro t' ht'
    rw [← Text.decodeStrict_eq_ok_iff] at ht ht'
    exact Except.ok.inj (ht'.symm.trans ht)
  constructor
  · rintro (h | ⟨ht', h⟩ | ⟨ht', hv, hformat, h⟩)
    · exact absurd ht (h t)
    · rw [hunique _ ht'] at h
      exact .inl h
    · rw [hunique _ ht'] at hv
      exact .inr ⟨_, hv, hformat, h⟩
  · rintro (h | ⟨v, hv, hformat, h⟩)
    · exact .unreadable ht h
    · exact .unrecordable ht hv hformat h

/-- A file that can be read leads to a map or to bad input, unless its bytes are
no text, or the text has an integer too long or a value too deep, or spells a
result set whose lines cannot be recorded; then, and only then, it leads to
another fault. -/
theorem load_escapes_iff {fs : FileSystem} {path : Text} {content : Bytes}
    (h : fs.bytesOf (Path.tidy path) = .ok content) :
    (∃ e, load fs path = .error e ∧ ¬ e.IsBadInput) ↔ Escapes content := by
  cases hdecode : Text.decodeStrict content with
  | error fault =>
    have hno : ∀ t, Text.encode .utf8 t ≠ .ok content := by
      intro t ht
      rw [Text.decodeStrict_eq_ok_iff.mpr ht] at hdecode
      cases hdecode
    have hread : read fs path = .error (.decode fault) := by
      simp [read, readText, h, hdecode, bind, Except.bind]
    rw [load_of_error hread]
    constructor
    · intro _
      exact .noText hno
    · intro _
      exact ⟨_, rfl, fun ⟨message, hmessage⟩ => nomatch hmessage⟩
  | ok t =>
    have ht := Text.decodeStrict_eq_ok_iff.mp hdecode
    rw [escapes_iff_of_text ht, ← parse_eq_error_iff]
    rcases read_cases (readText_of_text h ht) with
      ⟨e, hparse, hread⟩ | ⟨v, hv, ⟨hread, hformat⟩ | ⟨⟨e, hread, hbad⟩, hformat⟩⟩
    · have hnone : ∀ v, Json.read (Text.unifyBreaks t) ≠ .ok v := by
        intro v hv
        rw [parse_eq_ok_iff.mpr hv] at hparse
        cases hparse
      simp [load_of_error hread, hparse, hnone]
    · rw [load_of_value hread hformat]
      simp [parse_eq_ok_iff.mpr hv, hv, hformat]
    · simp [load_of_error hread, parse_eq_ok_iff.mpr hv, hv, hformat, hbad]

/-- A file of one byte that begins no sequence. -/
theorem load_escapes_iff_start_byte :
    let fs : FileSystem := ⟨[(["rs.json"], .file [0xFF] 0o644)], "/", "/tmp", 0⟩
    fs.bytesOf (Path.tidy "rs.json") = .ok [0xFF] ∧
      ∃ e, load fs "rs.json" = .error e ∧ ¬ e.IsBadInput := by
  intro fs
  have hbytes : fs.bytesOf (Path.tidy "rs.json") = .ok [0xFF] := rfl
  have hno : ∀ t, Text.encode .utf8 t ≠ .ok [0xFF] := by
    intro t ht
    rw [← Text.decodeStrict_eq_ok_iff, Text.decodeStrict, Text.decodeFrom] at ht
    cases ht
  exact ⟨hbytes, (load_escapes_iff hbytes).mpr (.noText hno)⟩

end LineTrace.Resultset
