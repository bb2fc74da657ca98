/-
LineTrace.Proofs.Coverage.Accumulation — what a map of hits holds.

`line?_addHits` says it for every line of every file: the map of hits counts how
often the line occurs among them (`occurrences`), or only that it does. The
events of the hits and their order do not enter into it.

So two lists of hits in which every line occurs equally often give maps that are
the same (`same_addHits`), although the maps may hold their files and lines in
different orders. `same` walks over the entries of one map and looks them up in
the other, which is why it has to be known that no file is entered twice
(`nodup_addHits`).
-/
import Mathlib.Data.List.Induction
import LineTrace.Coverage.Map
import LineTrace.Proofs.Table

namespace LineTrace.Coverage

/-! ## 1. One record -/

/-- The count of a line, if the map has it. -/
def line? (c : Coverage) (path : Text) (line : Int) : Option Count :=
  (Table.get? path c.files).bind (Table.get? line)

/-- The count that a record leaves where there was `old`. -/
def counted (countHits : Bool) (hits : Count) (old : Option Count) : Count :=
  if countHits then (old.getD (.whole 0)).add hits else .whole 1

theorem get?_recordLine (countHits : Bool) (key line : Int) (hits : Count)
    (lines : Table Int Count) :
    Table.get? key (recordLine countHits line hits lines) =
      if line = key then some (counted countHits hits (Table.get? key lines))
      else Table.get? key lines := by
  cases countHits with
  | true =>
    rw [recordLine, if_pos rfl, Table.get?_modify]
    rfl
  | false =>
    rw [recordLine, if_neg (by simp), Table.get?_put]
    rfl

/-- A record changes the one line that it names. -/
theorem line?_record (c : Coverage) (path p : Text) (line l : Int) (hits : Count) :
    (c.record path line hits).line? p l =
      if path = p ∧ line = l then some (counted c.countHits hits (c.line? p l))
      else c.line? p l := by
  rw [line?, record, Table.get?_modify]
  by_cases hp : path = p
  · have hold : Table.get? l ((Table.get? p c.files).getD []) = c.line? p l := by
      rw [line?]
      cases Table.get? p c.files <;> rfl
    simp only [hp, if_true, true_and, Option.bind_some, get?_recordLine, hold]
  · simp only [hp, if_false, false_and, line?]

theorem mem_files_record {c : Coverage} {path p : Text} {line : Int} {hits : Count} :
    p ∈ (c.record path line hits).files.keys ↔ p = path ∨ p ∈ c.files.keys :=
  Table.mem_keys_put

theorem nodup_record {c : Coverage} (h : c.files.keys.Nodup) (path : Text) (line : Int)
    (hits : Count) : (c.record path line hits).files.keys.Nodup :=
  Table.nodup_keys_put path _ h

/-! ## 2. Hits -/

/-- How often a line occurs among hits. -/
def occurrences (path : Text) (line : Int) (hits : List Hit) : Nat :=
  hits.countP fun h => h.path = path ∧ (h.line : Int) = line

theorem occurrences_concat (path : Text) (line : Int) (hits : List Hit) (h : Hit) :
    occurrences path line (hits ++ [h]) =
      occurrences path line hits + if h.path = path ∧ (h.line : Int) = line then 1 else 0 := by
  simp [occurrences, List.countP_append, List.countP_cons]

theorem addHits_concat (c : Coverage) (hits : List Hit) (h : Hit) :
    c.addHits (hits ++ [h]) = (c.addHits hits).addHit h := by
  rw [addHits, List.foldl_append]
  rfl

theorem countHits_addHits (c : Coverage) (hits : List Hit) :
    (c.addHits hits).countHits = c.countHits := by
  induction hits using List.reverseRecOn with
  | nil => rfl
  | append_singleton hits h ih =>
    rw [addHits_concat, addHit, record]
    exact ih

/-- The files of hits are the files that occur. -/
theorem mem_files_addHits {countHits : Bool} {hits : List Hit} {path : Text} :
    path ∈ ((empty countHits).addHits hits).files.keys ↔
      ∃ line, occurrences path line hits ≠ 0 := by
  induction hits using List.reverseRecOn with
  | nil => simp [addHits, empty, occurrences]
  | append_singleton hits h ih =>
    rw [addHits_concat, addHit, mem_files_record, ih]
    simp only [occurrences_concat]
    constructor
    · rintro (rfl | ⟨line, hline⟩)
      · exact ⟨h.line, by simp⟩
      · exact ⟨line, by omega⟩
    · rintro ⟨line, hline⟩
      by_cases hpath : path = h.path
      · exact .inl hpath
      · rw [if_neg (fun hc => hpath hc.1.symm)] at hline
        exact .inr ⟨line, hline⟩

theorem nodup_addHits (countHits : Bool) (hits : List Hit) :
    ((empty countHits).addHits hits).files.keys.Nodup := by
  induction hits using List.reverseRecOn with
  | nil => exact List.nodup_nil
  | append_singleton hits h ih =>
    rw [addHits_concat]
    exact nodup_record ih _ _ _

theorem counted_occurrences (countHits : Bool) (n : Nat) :
    counted countHits (.whole 1)
        (if n = 0 then none else some (.whole (if countHits then n else 1))) =
      .whole (if countHits then (n + 1 : Nat) else 1) := by
  cases countHits with
  | false => rfl
  | true =>
    by_cases hn : n = 0
    · subst hn
      rfl
    · rw [if_neg hn]
      rfl

/-- The map of hits counts how often each line occurs, or that it does. -/
theorem line?_addHits (countHits : Bool) (hits : List Hit) (path : Text) (line : Int) :
    ((empty countHits).addHits hits).line? path line =
      if occurrences path line hits = 0 then none
      else some (.whole (if countHits then occurrences path line hits else 1)) := by
  induction hits using List.reverseRecOn with
  | nil => rfl
  | append_singleton hits h ih =>
    rw [addHits_concat, addHit, line?_record, countHits_addHits, occurrences_concat, ih]
    by_cases hh : h.path = path ∧ (h.line : Int) = line
    · rw [if_pos hh, if_pos hh, if_neg (Nat.succ_ne_zero _), ← counted_occurrences]
      rfl
    · rw [if_neg hh, if_neg hh, Nat.add_zero]

/-! ## 3. The same map -/

/-- Maps that answer alike are the same, provided that every count is the same
as itself. -/
theorem same_of_line?_eq {a b : Coverage} (hmode : a.countHits = b.countHits)
    (ha : a.files.keys.Nodup) (hb : b.files.keys.Nodup)
    (hfiles : ∀ path, path ∈ a.files.keys ↔ path ∈ b.files.keys)
    (hlines : ∀ path line, a.line? path line = b.line? path line)
    (hself : ∀ path line, ∀ n ∈ a.line? path line, n.same n = true) : a.same b = true := by
  have hlength : a.files.length = b.files.length := by
    have hperm : a.files.keys.Perm b.files.keys := (List.perm_ext_iff_of_nodup ha hb).mpr hfiles
    simpa [Table.keys] using hperm.length_eq
  rw [same, hmode, hlength, beq_self_eq_true, beq_self_eq_true, Bool.true_and, Bool.true_and,
    List.all_eq_true]
  rintro ⟨path, lines⟩ hmem
  have hfound : Table.get? path a.files = some lines := Table.get?_of_mem ha hmem
  have hother : path ∈ b.files.keys := (hfiles path).mp (List.mem_map_of_mem hmem)
  obtain ⟨other, hother⟩ := Option.isSome_iff_exists.mp (Table.isSome_get?_iff.mpr hother)
  simp only [hother, sameLines, List.all_eq_true]
  intro line _
  have hline := hlines path line
  have hline' := hself path line
  simp only [line?, hfound, hother, Option.bind_some] at hline hline'
  rw [← hline]
  cases hn : Table.get? line lines with
  | none => rfl
  | some n => exact hline' n hn

/-- Hits among which every line occurs equally often give the same map. -/
theorem same_addHits {countHits : Bool} {xs ys : List Hit}
    (h : ∀ path line, occurrences path line xs = occurrences path line ys) :
    ((empty countHits).addHits xs).same ((empty countHits).addHits ys) = true := by
  refine same_of_line?_eq ?_ (nodup_addHits _ _) (nodup_addHits _ _) (fun path => ?_)
    (fun path line => ?_) (fun path line n hn => ?_)
  · rw [countHits_addHits, countHits_addHits]
  · simp only [mem_files_addHits, h]
  · rw [line?_addHits, line?_addHits, h]
  · rw [line?_addHits] at hn
    split at hn
    · cases hn
    · cases hn
      exact beq_self_eq_true _

end LineTrace.Coverage
