/-
LineTrace.Proofs.Coverage.Proper — maps that compare equal answer alike.

`IsProper` is what every map has that the program can make, whatever is recorded in
it: no file and no line stands in it twice, and the numbers in it are numbers in
range. It says less than `Sound`, which is about lines that can be written out and
counts that are integers. A map may have counts with a fraction of zero, if it was
read from a document.

Equality takes a line that a map does not have as one that was never hit, and an
integer as equal to a number with a fraction of zero. So maps that compare equal
answer alike if no count in them is zero and the counts of one line are of one kind
(`line?_eq_of_same`). What is written out is sorted, and so it depends on the answers
only (`sortedHits_congr`).
-/
import LineTrace.Proofs.Coverage.Document
import LineTrace.Proofs.Number.Rounding
import LineTrace.Proofs.Text.Order
import Mathlib.Data.List.Perm.Subperm

namespace LineTrace

/-! ## 1. Numbers -/

namespace Double

/-- A multiple of a power of two, rounded; a zero has a sign of its own. -/
theorem rounded_inRange (s e : Int) (negative : Bool) :
    (if s = 0 then finite negative 0 (-1074)
      else nearest (s < 0) (ratio s.natAbs e).1 (ratio s.natAbs e).2).InRange := by
  split
  · exact ⟨by decide, by decide, by decide, .inr rfl⟩
  · exact nearest_inRange _ _ (ratio_snd_pos _ _)

/-- A sum is in range. -/
theorem add_inRange (x y : Double) : (x.add y).InRange := by
  cases x with
  | nan => cases y <;> trivial
  | infinite a =>
    cases y with
    | infinite b =>
      simp only [add]
      split <;> trivial
    | _ => trivial
  | finite na ma ea =>
    cases y with
    | finite nb mb eb => exact rounded_inRange _ _ _
    | _ => trivial

/-- No number is two integers. -/
theorem eqInt_unique {x : Double} {i j : Int} (hi : x.eqInt i = true) (hj : x.eqInt j = true) :
    i = j := by
  cases x with
  | nan => cases hi
  | infinite negative => cases hi
  | finite negative m e =>
    rw [eqInt_finite] at hi hj
    have hpos : ((ratio m e).2 : Int) ≠ 0 := Int.natCast_ne_zero.mpr (ratio_snd_pos m e).ne'
    exact Int.eq_of_mul_eq_mul_right hpos (hi.symm.trans hj)

/-- Below a small enough exponent a number is less than one. -/
theorem ratio_lt_one {m : Nat} {e : Int} (hm : m < 2 ^ 53) (he : e ≤ -53) :
    (ratio m e).1 < (ratio m e).2 := by
  have hzero : e.toNat = 0 := by omega
  have hpow : 2 ^ 53 ≤ 2 ^ (-e).toNat := Nat.pow_le_pow_right (by decide) (by omega)
  simp only [ratio, hzero, Nat.pow_eq, Nat.pow_zero, Nat.mul_one]
  exact Nat.lt_of_lt_of_le hm hpow

/-- A number in range that is an integer above zero. -/
theorem isNormal_of_eqInt {x : Double} (hx : x.InRange) {i : Int} (hi : x.eqInt i = true)
    (hpos : 1 ≤ i) : ∃ m e, x = .finite false m e ∧ IsNormal m e := by
  cases x with
  | nan => cases hi
  | infinite negative => cases hi
  | finite negative m e =>
    obtain ⟨hhigh, hleast, hgreatest, hlow⟩ := hx
    rw [eqInt_finite] at hi
    have hden : (1 : Int) ≤ (ratio m e).2 := Int.natCast_pos.mpr (ratio_snd_pos m e)
    have hproduct : ((ratio m e).2 : Int) ≤ i * (ratio m e).2 := by
      nlinarith
    cases negative with
    | true =>
      rw [if_pos rfl] at hi
      omega
    | false =>
      rw [if_neg (by simp)] at hi
      have hle : (ratio m e).2 ≤ (ratio m e).1 := by omega
      have hexponent : e ≠ -1074 := by
        rintro rfl
        exact absurd hle (Nat.not_le.mpr (ratio_lt_one hhigh (by decide)))
      exact ⟨m, e, rfl, hlow.resolve_right hexponent, hhigh, by omega, hgreatest⟩

/-- Equal numbers other than zero are one number. -/
theorem eq_of_eq_of_ne_zero {x y : Double} (h : x.eq y = true) (hzero : x.eqInt 0 = false) :
    x = y := by
  unfold eq at h
  split at h
  · cases h
  · simp [eqInt, ratio] at hzero
  · exact eq_of_beq h

end Double

/-! ## 2. Counts -/

namespace Count

/-- A count that is an integer, or a number in range. -/
def InRange : Count → Prop
  | .whole _ => True
  | .inexact x => x.InRange

/-- Whether a count is an integer. -/
def isWhole : Count → Bool
  | .whole _ => true
  | .inexact _ => false

theorem add_inRange (a b : Count) : (a.add b).InRange := by
  cases a with
  | whole i =>
    cases b with
    | whole j => trivial
    | inexact y =>
      simp only [add, add?]
      cases Double.ofInt? i with
      | none => trivial
      | some x => exact Double.add_inRange x y
  | inexact x =>
    cases b with
    | whole j =>
      simp only [add, add?]
      cases Double.ofInt? j with
      | none => trivial
      | some y => exact Double.add_inRange x y
    | inexact y => exact Double.add_inRange x y

/-- A positive integer is not zero, however it is written. -/
theorem same_zero_of_isNumber {n : Count} {i : Int} (h : n.toJson.IsNumber i) (hpos : 1 ≤ i) :
    n.same (.whole 0) = false := by
  cases n with
  | whole j =>
    rcases h with ⟨⟨⟩⟩ | ⟨x, ⟨⟩, -⟩
    exact beq_eq_false_iff_ne.mpr (by omega)
  | inexact x =>
    rcases h with ⟨⟨⟩⟩ | ⟨y, ⟨⟩, hy⟩
    refine Bool.eq_false_iff.mpr fun hzero => ?_
    have hi := Double.eqInt_unique hy hzero
    omega

theorem same_whole_comm (i : Int) (n : Count) : (whole i).same n = n.same (.whole i) := by
  cases n with
  | whole j => exact Bool.beq_comm
  | inexact x => rfl

/-- Equal counts of one kind other than zero are one count. -/
theorem eq_of_same {n m : Count} (h : n.same m = true) (hkind : n.isWhole = m.isWhole)
    (hzero : n.same (.whole 0) = false) : n = m := by
  cases n with
  | whole i =>
    cases m with
    | whole j => exact congrArg whole (eq_of_beq h)
    | inexact y => cases hkind
  | inexact x =>
    cases m with
    | whole j => cases hkind
    | inexact y => exact congrArg inexact (Double.eq_of_eq_of_ne_zero h hzero)

end Count

namespace Coverage

/-! ## 3. Proper maps -/

/-- A map with no file and no line in it twice, and with numbers in range. -/
structure IsProper (c : Coverage) : Prop where
  files : c.files.keys.Nodup
  lines : ∀ e ∈ c.files, e.2.keys.Nodup
  counts : ∀ e ∈ c.files, ∀ x ∈ e.2, x.2.InRange

theorem counted_inRange (countHits : Bool) (hits : Count) (old : Option Count) :
    (counted countHits hits old).InRange := by
  cases countHits with
  | false => trivial
  | true => exact Count.add_inRange _ _

namespace IsProper

theorem empty (countHits : Bool) : IsProper (Coverage.empty countHits) :=
  ⟨List.nodup_nil, by simp [Coverage.empty], by simp [Coverage.empty]⟩

variable {c : Coverage} (h : c.IsProper)

include h

theorem nodup_keys (path : Text) : (Table.keys ((Table.get? path c.files).getD [])).Nodup := by
  cases hlines : Table.get? path c.files with
  | none => exact List.nodup_nil
  | some lines => exact h.lines _ (Table.mem_of_get? hlines)

/-- Whatever is recorded, the map stays proper. -/
theorem record (path : Text) (line : Int) (hits : Count) : IsProper (c.record path line hits) := by
  have hcounts : ∀ x ∈ (Table.get? path c.files).getD [], x.2.InRange := by
    cases hlines : Table.get? path c.files with
    | none => simp
    | some lines => exact h.counts _ (Table.mem_of_get? hlines)
  refine ⟨nodup_record h.files path line hits, ?_, ?_⟩
  · intro e he
    rcases Table.mem_put he with rfl | he
    · simp only [recordLine_eq_put]
      exact Table.nodup_keys_put _ _ (h.nodup_keys path)
    · exact h.lines e he
  · intro e he x hx
    rcases Table.mem_put he with rfl | he
    · simp only [recordLine_eq_put] at hx
      rcases Table.mem_put hx with rfl | hx
      · exact counted_inRange _ _ _
      · exact hcounts x hx
    · exact h.counts e he x hx

theorem addHits (hits : List Hit) : IsProper (c.addHits hits) := by
  induction hits generalizing c with
  | nil => exact h
  | cons x hits ih => exact ih (h.record x.path x.line (.whole 1))

theorem recordLines (path : Text) (lines : Table Int Count) :
    IsProper (c.recordLines path lines) := by
  induction lines generalizing c with
  | nil => exact h
  | cons e lines ih => exact ih (h.record path e.1 e.2)

theorem recordAll (files : Table Text (Table Int Count)) : IsProper (c.recordAll files) := by
  induction files generalizing c with
  | nil => exact h
  | cons e files ih => exact ih (h.recordLines e.1 e.2)

theorem merge (other : Coverage) : IsProper (c.merge other) := by
  rw [merge_eq]
  exact h.recordAll _

theorem restrictTo (root : Text) : IsProper (c.restrictTo root) := by
  refine ⟨h.files.sublist (List.filter_sublist.map Prod.fst), ?_, ?_⟩
  · exact fun e he => h.lines e (List.mem_filter.mp he).1
  · exact fun e he => h.counts e (List.mem_filter.mp he).1

theorem inRange_of_line? {path : Text} {line : Int} {n : Count} (hn : c.line? path line = some n) :
    n.InRange := by
  obtain ⟨lines, hlines, hline⟩ := Option.bind_eq_some_iff.mp hn
  exact h.counts _ (Table.mem_of_get? hlines) _ (Table.mem_of_get? hline)

theorem nodup_lines (path : Text) : (c.lines path).Nodup :=
  (List.mergeSort_perm _ _).nodup_iff.mpr (h.nodup_keys path)

end IsProper

/-! ## 4. Equal maps -/

/-- A map in which no line has a count of zero. -/
def HasNoZero (c : Coverage) : Prop :=
  ∀ path line, ∀ n ∈ c.line? path line, n.same (.whole 0) = false

/-- Maps whose counts of one line are both integers or both numbers with a fraction. -/
def SameKinds (c d : Coverage) : Prop :=
  ∀ path line, ∀ n ∈ c.line? path line, ∀ m ∈ d.line? path line, n.isWhole = m.isWhole

/-- Equal maps count alike and have the same files, with equal lines. -/
theorem same_cases {c d : Coverage} (hc : c.IsProper) (h : c.same d = true) :
    c.countHits = d.countHits ∧ (∀ path, path ∈ c.files.keys ↔ path ∈ d.files.keys) ∧
      ∀ path lines, Table.get? path c.files = some lines →
        ∃ other, Table.get? path d.files = some other ∧ sameLines lines other = true := by
  rw [same, Bool.and_eq_true, Bool.and_eq_true, List.all_eq_true] at h
  obtain ⟨⟨hmode, hlength⟩, hall⟩ := h
  have hlines : ∀ path lines, Table.get? path c.files = some lines →
      ∃ other, Table.get? path d.files = some other ∧ sameLines lines other = true := by
    intro path lines hget
    have hentry := hall _ (Table.mem_of_get? hget)
    dsimp only at hentry
    split at hentry
    · exact ⟨_, ‹_›, hentry⟩
    · cases hentry
  have hsubset : c.files.keys ⊆ d.files.keys := by
    intro path hpath
    obtain ⟨lines, hget⟩ := Option.isSome_iff_exists.mp (Table.isSome_get?_iff.mpr hpath)
    obtain ⟨other, hother, -⟩ := hlines path lines hget
    exact Table.isSome_get?_iff.mp (by rw [hother]; rfl)
  have hperm : c.files.keys.Perm d.files.keys := by
    refine (hc.files.subperm hsubset).perm_of_length_le ?_
    simp only [Table.keys, List.length_map]
    exact (eq_of_beq hlength).ge
  exact ⟨eq_of_beq hmode, fun path => hperm.mem_iff, hlines⟩

/-- Equal lines are the same lines if no count is zero and kinds agree. -/
theorem get?_eq_of_sameLines {a b : Table Int Count} {line : Int} (h : sameLines a b = true)
    (ha : ∀ n ∈ Table.get? line a, n.same (.whole 0) = false)
    (hb : ∀ n ∈ Table.get? line b, n.same (.whole 0) = false)
    (hkinds : ∀ n ∈ Table.get? line a, ∀ m ∈ Table.get? line b, n.isWhole = m.isWhole) :
    Table.get? line a = Table.get? line b := by
  rw [sameLines, List.all_eq_true] at h
  have hline : (Table.get? line a).isSome ∨ (Table.get? line b).isSome →
      ((Table.get? line a).getD (.whole 0)).same ((Table.get? line b).getD (.whole 0)) = true := by
    intro hsome
    refine h line (List.mem_append.mpr ?_)
    rwa [← Table.isSome_get?_iff, ← Table.isSome_get?_iff]
  cases hn : Table.get? line a with
  | none =>
    cases hm : Table.get? line b with
    | none => rfl
    | some m =>
      rw [hn, hm] at hline
      have hzero := hline (.inr rfl)
      rw [Option.getD_none, Option.getD_some, Count.same_whole_comm, hb m hm] at hzero
      cases hzero
  | some n =>
    cases hm : Table.get? line b with
    | none =>
      rw [hn, hm] at hline
      have hzero := hline (.inl rfl)
      rw [Option.getD_none, Option.getD_some, ha n hn] at hzero
      cases hzero
    | some m =>
      rw [hn, hm] at hline
      exact congrArg some (Count.eq_of_same (hline (.inl rfl)) (hkinds n hn m hm) (ha n hn))

/-- Equal maps answer alike if no count is zero and kinds agree. -/
theorem line?_eq_of_same {c d : Coverage} (hc : c.IsProper) (h : c.same d = true)
    (hczero : c.HasNoZero) (hdzero : d.HasNoZero) (hkinds : c.SameKinds d) (path : Text)
    (line : Int) : c.line? path line = d.line? path line := by
  obtain ⟨-, hfiles, hlines⟩ := same_cases hc h
  have hczero := hczero path line
  have hdzero := hdzero path line
  have hkinds := hkinds path line
  simp only [line?] at hczero hdzero hkinds ⊢
  cases hget : Table.get? path c.files with
  | none =>
    have hnone : Table.get? path d.files = none := by
      rw [← Option.not_isSome_iff_eq_none, Table.isSome_get?_iff, ← hfiles,
        ← Table.isSome_get?_iff, hget]
      simp
    rw [hnone]
  | some lines =>
    obtain ⟨other, hother, hsame⟩ := hlines path lines hget
    rw [hget, Option.bind_some] at hczero hkinds
    rw [hother, Option.bind_some] at hdzero hkinds
    rw [hother, Option.bind_some, Option.bind_some]
    exact get?_eq_of_sameLines hsame hczero hdzero hkinds

theorem paths_congr {c d : Coverage} (hc : c.files.keys.Nodup) (hd : d.files.keys.Nodup)
    (hfiles : ∀ path, path ∈ c.files.keys ↔ path ∈ d.files.keys) : c.paths = d.paths :=
  mergeSort_eq_of_perm Text.le_trans Text.le_total (fun _ _ => Text.le_antisymm)
    ((List.perm_ext_iff_of_nodup hc hd).mpr hfiles)

/-- The lines of a file in order are those that the map answers. -/
theorem lines_congr {c d : Coverage} (hc : c.IsProper) (hd : d.IsProper) {path : Text}
    (hlines : ∀ line, (c.line? path line).isSome ↔ (d.line? path line).isSome) :
    c.lines path = d.lines path := by
  have hmem : ∀ line, line ∈ c.lines path ↔ line ∈ d.lines path := fun line => by
    rw [mem_lines, mem_lines, hlines]
  refine mergeSort_eq_of_perm (by simpa using fun a b c => Int.le_trans)
    (by simpa using Int.le_total) (by simpa using fun a b => Int.le_antisymm)
    ((List.perm_ext_iff_of_nodup (hc.nodup_keys path) (hd.nodup_keys path)).mpr fun line => ?_)
  exact (List.mergeSort_perm _ _).mem_iff.symm.trans
    ((hmem line).trans (List.mergeSort_perm _ _).mem_iff)

/-- What is written out of a map depends on its files and its answers alone. -/
theorem sortedHits_congr {c d : Coverage} (hc : c.IsProper) (hd : d.IsProper)
    (hfiles : ∀ path, path ∈ c.files.keys ↔ path ∈ d.files.keys)
    (hlines : ∀ path line, c.line? path line = d.line? path line) :
    c.sortedHits = d.sortedHits := by
  have hpaths : c.paths = d.paths := paths_congr hc.files hd.files hfiles
  have hkeys : ∀ path, c.lines path = d.lines path := fun path =>
    lines_congr hc hd fun line => by rw [hlines]
  have hlineHits : ∀ path, c.lineHits path = d.lineHits path := by
    intro path
    rw [lineHits, lineHits, hkeys]
    refine List.map_congr_left fun line _ => ?_
    rw [hits_eq, hits_eq, hlines]
  rw [sortedHits, sortedHits, hpaths]
  exact List.map_congr_left fun path _ => congrArg (Prod.mk path) (hlineHits path)

end Coverage

end LineTrace
