/-
LineTrace.Proofs.Coverage.Recording — maps made by recording.

A map is made by recording lines, one by one, and a merge or a document read
back is no more than recording all lines of another map. `line?_recordAll` says
what recording many lines does to one line, and `Sound.line?_recordAll` that it is
the lines of the other map that matter, not the order in which its files are
taken. Everything about merging goes through it.

`Reachable` are the maps that recording, merging and leaving out files lead to,
and `Sound` is what is true of all of them: no file and no line stands in the
map twice, no file is without lines, every line can be written out, and every
count is at least one. It is proved along the ways of making a map
(`Reachable.sound`).
-/
import LineTrace.Proofs.Coverage.Accumulation
import LineTrace.Text.Integer

namespace LineTrace

namespace Coverage

/-! ## 1. Recording many lines -/

/-- The map after lines of one file with their counts. -/
def recordLines (c : Coverage) (path : Text) (lines : Table Int Count) : Coverage :=
  lines.foldl (fun c (line, hits) => c.record path line hits) c

/-- The map after the lines of files. -/
def recordAll (c : Coverage) (files : Table Text (Table Int Count)) : Coverage :=
  files.foldl (fun c (path, lines) => c.recordLines path lines) c

/-- The lines of files of a map, in ascending order. -/
def linesOf (c : Coverage) (paths : List Text) : Table Text (Table Int Count) :=
  paths.map fun path => (path, c.lineHits path)

/-- The count of a line where `new` is recorded, if it is, on top of `old`. -/
def recounted (countHits : Bool) (new old : Option Count) : Option Count :=
  match new with
  | some hits => some (counted countHits hits old)
  | none => old

theorem merge_eq (c other : Coverage) :
    c.merge other = c.recordAll (other.linesOf other.files.keys) := by
  rw [merge, recordAll, linesOf, Table.keys, List.map_map, List.foldl_map]
  rfl

theorem recordLines_cons (c : Coverage) (path : Text) (line : Int) (hits : Count)
    (lines : Table Int Count) :
    c.recordLines path ((line, hits) :: lines) = (c.record path line hits).recordLines path lines :=
  rfl

theorem recordAll_cons (c : Coverage) (path : Text) (lines : Table Int Count)
    (files : Table Text (Table Int Count)) :
    c.recordAll ((path, lines) :: files) = (c.recordLines path lines).recordAll files := rfl

@[simp] theorem countHits_recordLines (c : Coverage) (path : Text) (lines : Table Int Count) :
    (c.recordLines path lines).countHits = c.countHits := by
  induction lines generalizing c with
  | nil => rfl
  | cons entry lines ih =>
    rw [recordLines_cons, ih]
    rfl

@[simp] theorem countHits_recordAll (c : Coverage) (files : Table Text (Table Int Count)) :
    (c.recordAll files).countHits = c.countHits := by
  induction files generalizing c with
  | nil => rfl
  | cons entry files ih => rw [recordAll_cons, ih, countHits_recordLines]

/-- What recording the lines of a file does to one line. -/
theorem line?_recordLines (c : Coverage) (path p : Text) {lines : Table Int Count}
    (h : lines.keys.Nodup) (l : Int) :
    (c.recordLines path lines).line? p l =
      if path = p then recounted c.countHits (Table.get? l lines) (c.line? p l)
      else c.line? p l := by
  induction lines generalizing c with
  | nil => simp [recordLines, recounted]
  | cons entry lines ih =>
    obtain ⟨line, hits⟩ := entry
    rw [Table.keys_cons, List.nodup_cons] at h
    rw [recordLines_cons, ih _ h.2, line?_record, Table.get?_cons]
    by_cases hp : path = p
    · by_cases hl : line = l
      · subst hl
        have hnone : Table.get? line lines = none := by
          rw [← Option.not_isSome_iff_eq_none, Table.isSome_get?_iff]
          exact h.1
        simp [hp, hnone, recounted]
      · simp [hp, hl, record]
    · simp [hp]

/-- What recording the lines of files does to one line. -/
theorem line?_recordAll (c : Coverage) {files : Table Text (Table Int Count)}
    (h : files.keys.Nodup) (hlines : ∀ e ∈ files, e.2.keys.Nodup) (p : Text) (l : Int) :
    (c.recordAll files).line? p l =
      recounted c.countHits ((Table.get? p files).bind (Table.get? l)) (c.line? p l) := by
  induction files generalizing c with
  | nil => rfl
  | cons entry files ih =>
    obtain ⟨path, lines⟩ := entry
    rw [Table.keys_cons, List.nodup_cons] at h
    rw [recordAll_cons, ih _ h.2 (fun e he => hlines e (by simp [he])),
      line?_recordLines _ _ _ (hlines (path, lines) (by simp)), Table.get?_cons]
    by_cases hp : path = p
    · subst hp
      have hnone : Table.get? path files = none := by
        rw [← Option.not_isSome_iff_eq_none, Table.isSome_get?_iff]
        exact h.1
      simp [hnone, recounted]
    · simp [hp]

/-! ## 2. The lines of another map -/

theorem mem_lines {c : Coverage} {path : Text} {line : Int} :
    line ∈ c.lines path ↔ (c.line? path line).isSome := by
  rw [lines, (List.mergeSort_perm _ _).mem_iff, line?]
  cases Table.get? path c.files with
  | none => simp
  | some lines => exact Table.isSome_get?_iff.symm

theorem hits_eq (c : Coverage) (path : Text) (line : Int) :
    c.hits path line = (c.line? path line).getD (.whole 0) := rfl

theorem get?_lineHits (c : Coverage) (path : Text) (line : Int) :
    Table.get? line (c.lineHits path) = c.line? path line := by
  rw [lineHits, Table.get?_map (c.hits path)]
  simp only [mem_lines, hits_eq]
  cases c.line? path line <;> rfl

theorem keys_lineHits (c : Coverage) (path : Text) :
    Table.keys (c.lineHits path) = c.lines path :=
  Table.keys_map (c.hits path) _

theorem keys_linesOf (c : Coverage) (paths : List Text) : (c.linesOf paths).keys = paths :=
  Table.keys_map c.lineHits _

/-- However its files are taken, it is the lines of the map that are found. -/
theorem line?_linesOf {c : Coverage} {paths : List Text}
    (h : ∀ path, path ∈ paths ↔ path ∈ c.files.keys) (p : Text) (l : Int) :
    (Table.get? p (c.linesOf paths)).bind (Table.get? l) = c.line? p l := by
  rw [linesOf, Table.get?_map c.lineHits]
  by_cases hp : p ∈ c.files.keys
  · rw [if_pos ((h p).mpr hp), Option.bind_some, get?_lineHits]
  · rw [if_neg (fun hmem => hp ((h p).mp hmem)), line?]
    rw [← Table.isSome_get?_iff, Option.not_isSome_iff_eq_none] at hp
    rw [hp]

/-- Leaving out files keeps every line of the files that stay. -/
theorem line?_restrictTo (c : Coverage) (root path : Text) (line : Int) :
    (c.restrictTo root).line? path line =
      if (below root).isPrefixOf path then c.line? path line else none := by
  rw [line?, restrictTo, Table.get?_filter fun p => (below root).isPrefixOf p, line?]
  split <;> rfl

/-! ## 3. Maps that recording leads to -/

/-- A line that can be written out and read back. -/
def IsLine (line : Int) : Prop := 0 ≤ line ∧ (Text.ofInt line).length ≤ Text.digitLimit

/-- A count of at least one. -/
def IsCount (n : Count) : Prop := ∃ i : Int, 1 ≤ i ∧ n = .whole i

/-- The maps made by recording, merging and leaving out files. -/
inductive Reachable : Coverage → Prop where
  | empty (countHits : Bool) : Reachable (empty countHits)
  | record {c : Coverage} (h : Reachable c) (path : Text) {line : Int} (hline : IsLine line)
      {hits : Count} (hhits : IsCount hits) : Reachable (c.record path line hits)
  | merge {c other : Coverage} (h : Reachable c) (hother : Reachable other) :
      Reachable (c.merge other)
  | restrictTo {c : Coverage} (h : Reachable c) (root : Text) : Reachable (c.restrictTo root)

/-- The lines of a file as recording leaves them. -/
structure SoundLines (countHits : Bool) (lines : Table Int Count) : Prop where
  nodup : lines.keys.Nodup
  isLine : ∀ e ∈ lines, IsLine e.1
  isCount : ∀ e ∈ lines, IsCount e.2
  one : countHits = false → ∀ e ∈ lines, e.2 = .whole 1

/-- A map as recording leaves it. -/
structure Sound (c : Coverage) : Prop where
  nodup : c.files.keys.Nodup
  ne_nil : ∀ e ∈ c.files, e.2 ≠ []
  lines : ∀ e ∈ c.files, SoundLines c.countHits e.2

theorem IsCount.counted {countHits : Bool} {hits : Count} (h : IsCount hits) {old : Option Count}
    (hold : ∀ n ∈ old, IsCount n) : IsCount (counted countHits hits old) := by
  obtain ⟨i, hi, rfl⟩ := h
  cases countHits with
  | false => exact ⟨1, by decide, rfl⟩
  | true =>
    cases old with
    | none => exact ⟨0 + i, by omega, rfl⟩
    | some n =>
      obtain ⟨j, hj, rfl⟩ := hold n rfl
      exact ⟨j + i, by omega, rfl⟩

theorem recordLine_eq_put (countHits : Bool) (line : Int) (hits : Count)
    (lines : Table Int Count) :
    recordLine countHits line hits lines =
      Table.put line (counted countHits hits (Table.get? line lines)) lines := by
  cases countHits <;> rfl

theorem soundLines_nil (countHits : Bool) : SoundLines countHits [] :=
  ⟨List.nodup_nil, by simp, by simp, by simp⟩

/-- One more line leaves the lines of a file sound. -/
theorem SoundLines.recordLine {countHits : Bool} {lines : Table Int Count}
    (h : SoundLines countHits lines) {line : Int} (hline : IsLine line) {hits : Count}
    (hhits : IsCount hits) : SoundLines countHits (recordLine countHits line hits lines) := by
  have hold : ∀ n ∈ Table.get? line lines, IsCount n := fun n hn =>
    h.isCount _ (Table.mem_of_get? hn)
  rw [recordLine_eq_put]
  refine ⟨Table.nodup_keys_put _ _ h.nodup, ?_, ?_, ?_⟩
  · intro e he
    rcases Table.mem_put he with rfl | he
    · exact hline
    · exact h.isLine e he
  · intro e he
    rcases Table.mem_put he with rfl | he
    · exact hhits.counted hold
    · exact h.isCount e he
  · intro hmode e he
    rcases Table.mem_put he with rfl | he
    · simp [Coverage.counted, hmode]
    · exact h.one hmode e he

namespace Sound

theorem empty (countHits : Bool) : Sound (empty countHits) :=
  ⟨List.nodup_nil, by simp [Coverage.empty], by simp [Coverage.empty]⟩

variable {c : Coverage} (h : Sound c)

include h

/-- The lines of a file of the map, or of a file that it does not have. -/
theorem getD_lines (path : Text) : SoundLines c.countHits ((Table.get? path c.files).getD []) := by
  cases hlines : Table.get? path c.files with
  | none => exact soundLines_nil _
  | some lines => exact h.lines _ (Table.mem_of_get? hlines)

theorem record (path : Text) {line : Int} (hline : IsLine line) {hits : Count}
    (hhits : IsCount hits) : Sound (c.record path line hits) := by
  refine ⟨nodup_record h.nodup path line hits, ?_, ?_⟩
  · intro e he
    rcases Table.mem_put he with rfl | he
    · simp only [recordLine_eq_put]
      exact Table.put_ne_nil _ _ _
    · exact h.ne_nil e he
  · intro e he
    rcases Table.mem_put he with rfl | he
    · exact (h.getD_lines path).recordLine hline hhits
    · exact h.lines e he

theorem of_line? {path : Text} {line : Int} {n : Count} (hn : c.line? path line = some n) :
    IsLine line ∧ IsCount n ∧ (c.countHits = false → n = .whole 1) := by
  obtain ⟨lines, hlines, hline⟩ := Option.bind_eq_some_iff.mp hn
  have hsound := h.lines _ (Table.mem_of_get? hlines)
  have hmem := Table.mem_of_get? hline
  exact ⟨hsound.isLine _ hmem, hsound.isCount _ hmem, fun hmode => hsound.one hmode _ hmem⟩

/-- Every line of a sound map has a numeral. -/
theorem hasNumeral : ∀ e ∈ c.files, ∀ line ∈ e.2.keys, Text.hasNumeral line = true := by
  intro e he line hline
  obtain ⟨x, hx, rfl⟩ := List.mem_map.mp hline
  obtain ⟨hpos, hlength⟩ := (h.lines e he).isLine x hx
  obtain ⟨n, hn⟩ := Int.eq_ofNat_of_zero_le hpos
  rw [hn] at hlength ⊢
  exact decide_eq_true hlength

/-- The files of the map are those with a line. -/
theorem mem_files_iff {path : Text} :
    path ∈ c.files.keys ↔ ∃ line, (c.line? path line).isSome := by
  constructor
  · intro hpath
    obtain ⟨lines, hlines⟩ := Option.isSome_iff_exists.mp (Table.isSome_get?_iff.mpr hpath)
    obtain ⟨⟨line, n⟩, rest, rfl⟩ :=
      List.exists_cons_of_ne_nil (h.ne_nil _ (Table.mem_of_get? hlines))
    refine ⟨line, ?_⟩
    rw [line?, hlines, Option.bind_some, Table.get?_cons, if_pos rfl]
    rfl
  · rintro ⟨line, hline⟩
    obtain ⟨n, hn⟩ := Option.isSome_iff_exists.mp hline
    obtain ⟨lines, hlines, -⟩ := Option.bind_eq_some_iff.mp hn
    exact Table.isSome_get?_iff.mp (by rw [hlines]; rfl)

/-- The lines of a file are sound in whatever order they are taken. -/
theorem lineHits (path : Text) : SoundLines c.countHits (c.lineHits path) := by
  have hentry : ∀ e ∈ c.lineHits path,
      IsLine e.1 ∧ IsCount e.2 ∧ (c.countHits = false → e.2 = .whole 1) := by
    intro e he
    obtain ⟨line, hline, rfl⟩ := List.mem_map.mp he
    obtain ⟨n, hn⟩ := Option.isSome_iff_exists.mp (mem_lines.mp hline)
    rw [hits_eq, hn]
    exact h.of_line? hn
  have hnodup : (c.lines path).Nodup :=
    (List.mergeSort_perm _ _).nodup_iff.mpr (h.getD_lines path).nodup
  refine ⟨by rwa [keys_lineHits], fun e he => (hentry e he).1, fun e he => (hentry e he).2.1,
    fun hmode e he => (hentry e he).2.2 hmode⟩

theorem linesOf {paths : List Text} : ∀ e ∈ c.linesOf paths, SoundLines c.countHits e.2 := by
  intro e he
  obtain ⟨path, -, rfl⟩ := List.mem_map.mp he
  exact h.lineHits path

theorem recordLines (path : Text) {countHits : Bool} {lines : Table Int Count}
    (hlines : SoundLines countHits lines) : Sound (c.recordLines path lines) := by
  have hall : ∀ e ∈ lines, IsLine e.1 ∧ IsCount e.2 := fun e he =>
    ⟨hlines.isLine e he, hlines.isCount e he⟩
  clear hlines
  induction lines generalizing c with
  | nil => exact h
  | cons e lines ih =>
    obtain ⟨hline, hcount⟩ := hall e (by simp)
    exact ih (h.record path hline hcount) fun x hx => hall x (by simp [hx])

theorem recordAll {countHits : Bool} {files : Table Text (Table Int Count)}
    (hfiles : ∀ e ∈ files, SoundLines countHits e.2) : Sound (c.recordAll files) := by
  induction files generalizing c with
  | nil => exact h
  | cons e files ih =>
    exact ih (h.recordLines e.1 (hfiles e (by simp))) fun x hx => hfiles x (by simp [hx])

theorem merge {other : Coverage} (hother : Sound other) : Sound (c.merge other) := by
  rw [merge_eq]
  exact h.recordAll hother.linesOf

theorem restrictTo (root : Text) : Sound (c.restrictTo root) := by
  refine ⟨h.nodup.sublist (List.filter_sublist.map Prod.fst), ?_, ?_⟩
  · exact fun e he => h.ne_nil e (List.mem_filter.mp he).1
  · exact fun e he => h.lines e (List.mem_filter.mp he).1

end Sound

theorem Reachable.sound {c : Coverage} (h : Reachable c) : Sound c := by
  induction h with
  | empty countHits => exact .empty countHits
  | record _ path hline hhits ih => exact ih.record path hline hhits
  | merge _ _ ih ihother => exact ih.merge ihother
  | restrictTo _ root ih => exact ih.restrictTo root

/-! ## 4. Recording another map -/

/-- Recording the lines of a sound map, in any order of its files, records what
the map has at each line. -/
theorem Sound.line?_recordAll {c other : Coverage} (hother : Sound other) {paths : List Text}
    (hnodup : paths.Nodup) (hpaths : ∀ path, path ∈ paths ↔ path ∈ other.files.keys) (p : Text)
    (l : Int) :
    (c.recordAll (other.linesOf paths)).line? p l =
      recounted c.countHits (other.line? p l) (c.line? p l) := by
  rw [Coverage.line?_recordAll c (by rwa [keys_linesOf]) (fun e he => (hother.linesOf e he).nodup),
    line?_linesOf hpaths]

end Coverage

end LineTrace
