/-
LineTrace.Proofs.Coverage.Merging — what a merge holds, line by line.

A merge goes through the other map by files and sorted lines and records each line with
its count there. What comes of it is said of one line at a time: `recounted` combines the
count in the other map with the one that was there (`IsProper.line?_merge`). So the laws of
merging are laws of `recounted`, which has nothing to do with files or with the order of
lines (`recounted_comm`, `recounted_assoc`).

They need that counts are integers of at least one, and one where hits are not counted.
`WellCounted` maps have such counts and no file without lines, and all maps that recording
such counts, merging and leaving out files lead to are well counted (`Recorded.wellCounted`).
Two of them are equal as soon as they answer alike (`WellCounted.same`).
-/
import LineTrace.Proofs.Coverage.Proper

namespace LineTrace.Coverage

/-! ## 1. Files -/

theorem mem_files_recordLines {c : Coverage} {path p : Text} {lines : Table Int Count} :
    p ∈ (c.recordLines path lines).files.keys ↔
      p ∈ c.files.keys ∨ (p = path ∧ lines ≠ []) := by
  induction lines generalizing c with
  | nil => simp [recordLines]
  | cons entry lines ih =>
    rw [recordLines_cons, ih, mem_files_record]
    constructor
    · rintro ((rfl | hp) | ⟨rfl, -⟩)
      · exact .inr ⟨rfl, List.cons_ne_nil _ _⟩
      · exact .inl hp
      · exact .inr ⟨rfl, List.cons_ne_nil _ _⟩
    · rintro (hp | ⟨rfl, -⟩)
      · exact .inl (.inr hp)
      · exact .inl (.inl rfl)

theorem mem_files_recordAll {c : Coverage} {files : Table Text (Table Int Count)} {p : Text} :
    p ∈ (c.recordAll files).files.keys ↔
      p ∈ c.files.keys ∨ ∃ lines, (p, lines) ∈ files ∧ lines ≠ [] := by
  induction files generalizing c with
  | nil => simp [recordAll]
  | cons entry files ih =>
    obtain ⟨path, lines⟩ := entry
    rw [recordAll_cons, ih, mem_files_recordLines]
    constructor
    · rintro ((hp | ⟨rfl, hlines⟩) | ⟨ls, hmem, hls⟩)
      · exact .inl hp
      · exact .inr ⟨lines, List.mem_cons_self .., hlines⟩
      · exact .inr ⟨ls, List.mem_cons_of_mem _ hmem, hls⟩
    · rintro (hp | ⟨ls, hmem, hls⟩)
      · exact .inl (.inl hp)
      · rcases List.mem_cons.mp hmem with heq | hmem
        · cases heq
          exact .inl (.inr ⟨rfl, hls⟩)
        · exact .inr ⟨ls, hmem, hls⟩

/-- A merge has the files of both maps, but for those without lines in the other. -/
theorem mem_files_merge {c other : Coverage} {p : Text} :
    p ∈ (c.merge other).files.keys ↔
      p ∈ c.files.keys ∨ (p ∈ other.files.keys ∧ other.lines p ≠ []) := by
  have hlines : ∀ path, other.lineHits path ≠ [] ↔ other.lines path ≠ [] := fun path => by
    rw [lineHits, Ne, List.map_eq_nil_iff]
  rw [merge_eq, mem_files_recordAll, linesOf]
  constructor
  · rintro (hp | ⟨lines, hmem, hne⟩)
    · exact .inl hp
    · obtain ⟨path, hpath, heq⟩ := List.mem_map.mp hmem
      cases heq
      exact .inr ⟨hpath, (hlines p).mp hne⟩
  · rintro (hp | ⟨hp, hne⟩)
    · exact .inl hp
    · exact .inr ⟨other.lineHits p, List.mem_map.mpr ⟨p, hp, rfl⟩, (hlines p).mpr hne⟩

theorem keys_recordLines_of_mem {c : Coverage} {path : Text} (h : path ∈ c.files.keys)
    (lines : Table Int Count) : (c.recordLines path lines).files.keys = c.files.keys := by
  induction lines generalizing c with
  | nil => rfl
  | cons entry lines ih =>
    have hrecord : (c.record path entry.1 entry.2).files.keys = c.files.keys :=
      Table.keys_put_of_mem _ h
    rw [recordLines_cons, ih (hrecord.symm ▸ h), hrecord]

/-- Recording in files that are there makes no new one. -/
theorem keys_recordAll_of_subset {c : Coverage} {files : Table Text (Table Int Count)}
    (h : ∀ e ∈ files, e.1 ∈ c.files.keys) : (c.recordAll files).files.keys = c.files.keys := by
  induction files generalizing c with
  | nil => rfl
  | cons entry files ih =>
    have hkeys := keys_recordLines_of_mem (h entry (List.mem_cons_self ..)) entry.2
    rw [recordAll_cons, ih fun e he => hkeys.symm ▸ h e (List.mem_cons_of_mem _ he), hkeys]

/-- No file is new while a map is merged into itself. -/
theorem keys_merge_self (c : Coverage) : (c.merge c).files.keys = c.files.keys := by
  rw [merge_eq]
  refine keys_recordAll_of_subset fun e he => ?_
  obtain ⟨path, hpath, rfl⟩ := List.mem_map.mp he
  exact hpath

theorem keys_restrictTo (c : Coverage) (root : Text) :
    (c.restrictTo root).files.keys = c.files.keys.filter fun p => (below root).isPrefixOf p := by
  rw [restrictTo, Table.keys, Table.keys, List.filter_map]
  rfl

theorem mem_files_restrictTo {c : Coverage} {root p : Text} :
    p ∈ (c.restrictTo root).files.keys ↔ p ∈ c.files.keys ∧ (below root).isPrefixOf p = true := by
  rw [keys_restrictTo, List.mem_filter]

/-! ## 2. Lines -/

@[simp] theorem countHits_merge (c other : Coverage) : (c.merge other).countHits = c.countHits := by
  rw [merge_eq, countHits_recordAll]

/-- A merge records every line of the other map on top of what there was. -/
theorem IsProper.line?_merge {other : Coverage} (h : other.IsProper) (c : Coverage) (p : Text)
    (l : Int) :
    (c.merge other).line? p l = recounted c.countHits (other.line? p l) (c.line? p l) := by
  have hlines : ∀ e ∈ other.linesOf other.files.keys, e.2.keys.Nodup := by
    intro e he
    obtain ⟨path, -, rfl⟩ := List.mem_map.mp he
    rw [keys_lineHits]
    exact h.nodup_lines path
  rw [merge_eq, line?_recordAll c (by rw [keys_linesOf]; exact h.files) hlines,
    line?_linesOf fun _ => Iff.rfl]

/-! ## 3. Counts -/

/-- A count that recording leaves at a line, or none. -/
def IsTallied (countHits : Bool) (o : Option Count) : Prop :=
  ∀ n ∈ o, IsCount n ∧ (countHits = false → n = .whole 1)

theorem isTallied_none (countHits : Bool) : IsTallied countHits none := fun _ h => by cases h

theorem IsTallied.cases {countHits : Bool} {o : Option Count} (h : IsTallied countHits o) :
    o = none ∨ ∃ i : Int, 1 ≤ i ∧ (countHits = false → i = 1) ∧ o = some (.whole i) := by
  cases o with
  | none => exact .inl rfl
  | some n =>
    obtain ⟨⟨i, hi, rfl⟩, hone⟩ := h n rfl
    exact .inr ⟨i, hi, fun hmode => Count.whole.inj (hone hmode), rfl⟩

theorem IsTallied.recounted {countHits mode : Bool} {new old : Option Count}
    (hnew : IsTallied mode new) (hold : IsTallied countHits old) :
    IsTallied countHits (recounted countHits new old) := by
  cases new with
  | none => exact hold
  | some n =>
    rintro m ⟨⟩
    refine ⟨(hnew n rfl).1.counted fun x hx => (hold x hx).1, fun hmode => ?_⟩
    rw [hmode]
    rfl

/-- The count that hits make of a line which was not there. -/
theorem recounted_none_right {countHits : Bool} {new : Option Count}
    (h : IsTallied countHits new) : recounted countHits new none = new := by
  rcases h.cases with rfl | ⟨i, -, hone, rfl⟩
  · rfl
  · cases countHits with
    | false => rw [hone rfl]; rfl
    | true =>
      show some (Count.whole (0 + i)) = _
      rw [Int.zero_add]

theorem recounted_comm {countHits : Bool} {x y : Option Count} (hx : IsTallied countHits x)
    (hy : IsTallied countHits y) : recounted countHits x y = recounted countHits y x := by
  rcases hx.cases with rfl | ⟨i, -, -, rfl⟩
  · exact (recounted_none_right hy).symm
  rcases hy.cases with rfl | ⟨j, -, -, rfl⟩
  · exact recounted_none_right hx
  cases countHits with
  | false => rfl
  | true =>
    show some (Count.whole (j + i)) = some (Count.whole (i + j))
    rw [Int.add_comm]

theorem recounted_assoc {countHits : Bool} {x y z : Option Count} (hx : IsTallied countHits x)
    (hy : IsTallied countHits y) (hz : IsTallied countHits z) :
    recounted countHits z (recounted countHits y x) =
      recounted countHits (recounted countHits z y) x := by
  rcases hz.cases with rfl | ⟨k, -, -, rfl⟩
  · rfl
  rcases hy.cases with rfl | ⟨j, -, -, rfl⟩
  · rw [recounted_none_right hz]
    rfl
  rcases hx.cases with rfl | ⟨i, -, -, rfl⟩
  · rw [recounted_none_right hy, recounted_none_right (hz.recounted hy)]
  cases countHits with
  | false => rfl
  | true =>
    show some (Count.whole (i + j + k)) = some (Count.whole (i + (j + k)))
    rw [Int.add_assoc]

/-- Where hits are not counted, a line that is there does not change. -/
theorem recounted_self {x : Option Count} (h : IsTallied false x) :
    recounted false x x = x := by
  rcases h.cases with rfl | ⟨i, -, hone, rfl⟩
  · rfl
  · rw [hone rfl]
    rfl

/-- Where hits are counted, the counts are added. -/
theorem getD_recounted {mode : Bool} {x y : Option Count} (hx : IsTallied mode x)
    (hy : IsTallied true y) :
    (recounted true x y).getD (.whole 0) = (y.getD (.whole 0)).add (x.getD (.whole 0)) := by
  rcases hx.cases with rfl | ⟨i, -, -, rfl⟩
  · rcases hy.cases with rfl | ⟨j, -, -, rfl⟩
    · rfl
    · show Count.whole j = .whole (j + 0)
      rw [Int.add_zero]
  · rfl

theorem isSome_recounted (countHits : Bool) (x y : Option Count) :
    (recounted countHits x y).isSome ↔ y.isSome ∨ x.isSome := by
  cases x with
  | none => simp [recounted]
  | some n => simp [recounted]

/-- A merge has the lines of both maps. -/
theorem IsProper.mem_lines_merge {other : Coverage} (h : other.IsProper) {c : Coverage} {p : Text}
    {l : Int} : l ∈ (c.merge other).lines p ↔ l ∈ c.lines p ∨ l ∈ other.lines p := by
  rw [mem_lines, mem_lines, mem_lines, h.line?_merge, isSome_recounted]

/-! ## 4. Well counted maps -/

/-- A proper map in which every file has a line and every line a count of at least one,
and of just one where hits are not counted. -/
structure WellCounted (c : Coverage) : Prop where
  proper : c.IsProper
  exists_line : ∀ path ∈ c.files.keys, ∃ line, (c.line? path line).isSome
  tallied : ∀ path line, IsTallied c.countHits (c.line? path line)

/-- The maps made by recording counts of at least one, merging and leaving out files. -/
inductive Recorded : Coverage → Prop where
  | empty (countHits : Bool) : Recorded (empty countHits)
  | record {c : Coverage} (h : Recorded c) (path : Text) (line : Int) {hits : Count}
      (hhits : IsCount hits) : Recorded (c.record path line hits)
  | merge {c other : Coverage} (h : Recorded c) (hother : Recorded other) :
      Recorded (c.merge other)
  | restrictTo {c : Coverage} (h : Recorded c) (root : Text) : Recorded (c.restrictTo root)

namespace WellCounted

theorem empty (countHits : Bool) : WellCounted (empty countHits) :=
  ⟨.empty countHits, by simp [Coverage.empty, Table.keys], fun _ _ => isTallied_none _⟩

variable {c other : Coverage} (h : WellCounted c)

include h

theorem mem_files_iff {path : Text} :
    path ∈ c.files.keys ↔ ∃ line, (c.line? path line).isSome := by
  refine ⟨h.exists_line path, ?_⟩
  rintro ⟨line, hline⟩
  obtain ⟨n, hn⟩ := Option.isSome_iff_exists.mp hline
  obtain ⟨lines, hlines, -⟩ := Option.bind_eq_some_iff.mp hn
  exact Table.isSome_get?_iff.mp (by rw [hlines]; rfl)

theorem lines_ne_nil {path : Text} (hpath : path ∈ c.files.keys) : c.lines path ≠ [] := by
  obtain ⟨line, hline⟩ := h.exists_line path hpath
  exact List.ne_nil_of_mem (mem_lines.mpr hline)

theorem record (path : Text) (line : Int) {hits : Count} (hhits : IsCount hits) :
    WellCounted (c.record path line hits) := by
  refine ⟨h.proper.record path line hits, ?_, ?_⟩
  · intro p hp
    by_cases hpath : path = p
    · exact ⟨line, by rw [line?_record, if_pos ⟨hpath, rfl⟩]; rfl⟩
    · obtain ⟨l, hl⟩ := h.exists_line p
        ((mem_files_record.mp hp).resolve_left fun heq => hpath heq.symm)
      exact ⟨l, by rwa [line?_record, if_neg fun heq => hpath heq.1]⟩
  · intro p l
    rw [line?_record]
    split
    · have hnew : IsTallied true (some hits) := by
        rintro n ⟨⟩
        exact ⟨hhits, fun hmode => nomatch hmode⟩
      exact hnew.recounted (h.tallied p l)
    · exact h.tallied p l

theorem merge (hother : WellCounted other) : WellCounted (c.merge other) := by
  have hline := hother.proper.line?_merge c
  refine ⟨h.proper.merge other, fun path hpath => ?_, fun path line => ?_⟩
  · simp only [hline, isSome_recounted, exists_or, ← h.mem_files_iff, ← hother.mem_files_iff]
    exact (mem_files_merge.mp hpath).imp_right And.left
  · rw [hline, countHits_merge]
    exact (hother.tallied path line).recounted (h.tallied path line)

theorem restrictTo (root : Text) : WellCounted (c.restrictTo root) := by
  refine ⟨h.proper.restrictTo root, fun path hpath => ?_, fun path line => ?_⟩
  · obtain ⟨hmem, hkept⟩ := mem_files_restrictTo.mp hpath
    simp only [line?_restrictTo, hkept, if_true]
    exact h.exists_line path hmem
  · rw [line?_restrictTo]
    split
    · exact h.tallied path line
    · exact isTallied_none _

theorem addHits (hits : List Hit) : WellCounted (c.addHits hits) := by
  induction hits generalizing c with
  | nil => exact h
  | cons x hits ih => exact ih (h.record x.path x.line ⟨1, Int.le_refl 1, rfl⟩)

/-- How often a line was hit is an integer. -/
theorem exists_hits (path : Text) (line : Int) : ∃ i : Int, c.hits path line = .whole i := by
  rw [hits_eq]
  rcases (h.tallied path line).cases with hnone | ⟨i, -, -, hsome⟩
  · exact ⟨0, by rw [hnone]; rfl⟩
  · exact ⟨i, by rw [hsome]; rfl⟩

/-- Well counted maps that count and answer alike are equal. -/
theorem same (hother : WellCounted other) (hmode : c.countHits = other.countHits)
    (hlines : ∀ path line, c.line? path line = other.line? path line) :
    c.same other = true := by
  refine same_of_line?_eq hmode h.proper.files hother.proper.files (fun path => ?_) hlines
    fun path line n hn => ?_
  · simp only [h.mem_files_iff, hother.mem_files_iff, hlines]
  · obtain ⟨⟨i, -, rfl⟩, -⟩ := h.tallied path line n hn
    exact beq_self_eq_true i

end WellCounted

theorem Recorded.wellCounted {c : Coverage} (h : Recorded c) : WellCounted c := by
  induction h with
  | empty countHits => exact .empty countHits
  | record _ path line hhits ih => exact ih.record path line hhits
  | merge _ _ ih ihother => exact ih.merge ihother
  | restrictTo _ root ih => exact ih.restrictTo root

/-! ## 5. Laws -/

section

variable {a b c : Coverage} (ha : WellCounted a) (hb : WellCounted b)

include ha hb

theorem same_merge_comm (hmode : a.countHits = b.countHits) :
    (a.merge b).same (b.merge a) = true := by
  refine (ha.merge hb).same (hb.merge ha) (by simpa using hmode) fun path line => ?_
  rw [hb.proper.line?_merge, ha.proper.line?_merge, ← hmode]
  exact recounted_comm (hmode ▸ hb.tallied path line) (ha.tallied path line)

theorem same_merge_assoc (hc : WellCounted c) (hab : a.countHits = b.countHits)
    (hbc : b.countHits = c.countHits) :
    ((a.merge b).merge c).same (a.merge (b.merge c)) = true := by
  refine ((ha.merge hb).merge hc).same (ha.merge (hb.merge hc)) (by simp) fun path line => ?_
  rw [hc.proper.line?_merge, hb.proper.line?_merge, (hb.merge hc).proper.line?_merge,
    hc.proper.line?_merge, countHits_merge, ← hab]
  exact recounted_assoc (ha.tallied path line) (hab ▸ hb.tallied path line)
    (hab ▸ hbc ▸ hc.tallied path line)

/-- Where hits are counted, a merge adds what the other map has. -/
theorem hits_merge_of_counted (hmode : a.countHits = true) (path : Text) (line : Int) :
    (a.merge b).hits path line = (a.hits path line).add (b.hits path line) := by
  rw [hits_eq, hb.proper.line?_merge, hmode]
  exact getD_recounted (hb.tallied path line) (hmode ▸ ha.tallied path line)

end

theorem same_merge_self {a : Coverage} (h : WellCounted a) (hmode : a.countHits = false) :
    (a.merge a).same a = true := by
  refine (h.merge h).same h (countHits_merge a a) fun path line => ?_
  rw [h.proper.line?_merge, hmode]
  exact recounted_self (hmode ▸ h.tallied path line)

theorem merge_empty (a : Coverage) (countHits : Bool) : a.merge (empty countHits) = a := rfl

theorem same_empty_merge {a : Coverage} (h : WellCounted a) :
    ((empty a.countHits).merge a).same a = true := by
  refine ((WellCounted.empty _).merge h).same h (countHits_merge _ a) fun path line => ?_
  rw [h.proper.line?_merge]
  exact recounted_none_right (h.tallied path line)

/-- How often a line of a well counted map was hit where hits are not counted. -/
theorem hits_of_known {a : Coverage} (h : WellCounted a) (hmode : a.countHits = false)
    (path : Text) (line : Int) :
    a.hits path line = .whole (if line ∈ a.lines path then 1 else 0) := by
  simp only [hits_eq, mem_lines]
  rcases (h.tallied path line).cases with hnone | ⟨i, -, hone, hsome⟩
  · simp [hnone]
  · simp [hsome, hone hmode]

/-! ## 6. Hits -/

theorem occurrences_append (path : Text) (line : Int) (xs ys : List Hit) :
    occurrences path line (xs ++ ys) = occurrences path line xs + occurrences path line ys :=
  List.countP_append

/-- How often a line is hit in a map of hits. -/
theorem hits_addHits (countHits : Bool) (hits : List Hit) (path : Text) (line : Int) :
    ((empty countHits).addHits hits).hits path line =
      .whole (if countHits then occurrences path line hits
        else if occurrences path line hits = 0 then 0 else 1) := by
  rw [hits_eq, line?_addHits]
  by_cases hzero : occurrences path line hits = 0 <;> cases countHits <;> simp [hzero]

/-- The files of a map of hits are those of the hits. -/
theorem mem_paths_addHits {countHits : Bool} {hits : List Hit} {path : Text} :
    path ∈ ((empty countHits).addHits hits).paths ↔ ∃ h ∈ hits, h.path = path := by
  rw [mem_paths, mem_files_addHits]
  simp only [occurrences, Ne, List.countP_eq_zero]
  constructor
  · rintro ⟨line, hline⟩
    push Not at hline
    obtain ⟨h, hmem, hh⟩ := hline
    exact ⟨h, hmem, (of_decide_eq_true hh).1⟩
  · rintro ⟨h, hmem, rfl⟩
    exact ⟨h.line, fun hnone => hnone h hmem (by simp)⟩

/-- Hits are recorded as they are, or apart and then merged. -/
theorem same_addHits_append (countHits : Bool) (xs ys : List Hit) :
    ((empty countHits).addHits (xs ++ ys)).same
      (((empty countHits).addHits xs).merge ((empty countHits).addHits ys)) = true := by
  have hwell : ∀ hits, WellCounted ((empty countHits).addHits hits) :=
    (WellCounted.empty countHits).addHits
  refine (hwell _).same ((hwell xs).merge (hwell ys)) ?_ fun path line => ?_
  · rw [countHits_merge, countHits_addHits, countHits_addHits]
  rw [(hwell ys).proper.line?_merge, countHits_addHits, line?_addHits, line?_addHits,
    line?_addHits, occurrences_append]
  by_cases hys : occurrences path line ys = 0
  · simp [hys, recounted]
  · have hsum : occurrences path line xs + occurrences path line ys ≠ 0 := by omega
    rw [if_neg hsum, if_neg hys]
    cases countHits with
    | false => rfl
    | true =>
      by_cases hxs : occurrences path line xs = 0 <;>
        simp [hxs, recounted, counted, Count.add, Count.add?, empty]

end LineTrace.Coverage
