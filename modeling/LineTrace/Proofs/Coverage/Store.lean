/-
LineTrace.Proofs.Coverage.Store — maps that are changed in place change alone.

What is to be shown of maps that are changed in place is that each operation does to the
map that it writes on what `Coverage` says, and nothing to any other (`Changed`). The
reason is that no sheet is pointed to twice, neither by two maps nor by two files of one
(`Separate`), and this is so because every sheet that a map gets is a new one.

A merge reads the other map while it writes. Where that is another map, it stays what it
was. Where it is the same, every line is read before it is written, and no file is new, so
the result is as if it had been copied before (`absorb_self`).

`Made` are the stores that programs lead to. In each of them all sheets are separate, and
every map is one that `Recorded` speaks of (`Made.separate`, `Made.recorded`).
-/
import LineTrace.Coverage.Store
import LineTrace.Proofs.Coverage.Merging

namespace LineTrace

/-! ## 1. Tables with other values -/

namespace Table

variable {κ α β : Type}

theorem keys_mapValues (f : α → β) (t : Table κ α) :
    keys (t.map fun e => (e.1, f e.2)) = t.keys := by
  rw [keys, List.map_map]
  rfl

variable [DecidableEq κ]

theorem get?_mapValues (f : α → β) (t : Table κ α) (key : κ) :
    get? key (t.map fun e => (e.1, f e.2)) = (get? key t).map f := by
  induction t with
  | nil => rfl
  | cons entry t ih =>
    rw [List.map_cons, get?_cons, get?_cons, ih]
    split <;> rfl

theorem map_put (f : α → β) (key : κ) (v : α) (t : Table κ α) :
    (put key v t).map (fun e => (e.1, f e.2)) = put key (f v) (t.map fun e => (e.1, f e.2)) := by
  induction t with
  | nil => rfl
  | cons entry t ih =>
    rw [put, List.map_cons, put]
    split
    · rfl
    · rw [List.map_cons, ih]

theorem put_put (key : κ) (v w : α) (t : Table κ α) : put key v (put key w t) = put key v t := by
  induction t with
  | nil => simp [put]
  | cons entry t ih =>
    obtain ⟨k, u⟩ := entry
    rw [put, put]
    split
    · rename_i hk
      rw [put, if_pos hk]
    · rename_i hk
      rw [put, if_neg hk, ih]

/-- A value that only one key has is changed as its entry is. -/
theorem map_eq_put {f g : α → β} {key : κ} {a : α} {t : Table κ α} (hnodup : t.keys.Nodup)
    (hget : get? key t = some a) (hown : ∀ k b, (k, b) ∈ t → b ≠ a → g b = f b)
    (honly : ∀ k, (k, a) ∈ t → k = key) :
    t.map (fun e => (e.1, g e.2)) = put key (g a) (t.map fun e => (e.1, f e.2)) := by
  induction t with
  | nil => cases hget
  | cons entry t ih =>
    obtain ⟨k, b⟩ := entry
    rw [keys_cons, List.nodup_cons] at hnodup
    rw [get?_cons] at hget
    rw [List.map_cons, List.map_cons, put]
    by_cases hk : k = key
    · rw [if_pos hk, Option.some.injEq] at hget
      rw [if_pos hk, hget]
      refine congrArg _ (List.map_congr_left fun e he => ?_)
      have hne : e.2 ≠ a := by
        rintro rfl
        have hkey : e.1 = key := honly e.1 (List.mem_cons_of_mem _ he)
        exact hnodup.1 (hk.trans hkey.symm ▸ List.mem_map_of_mem he)
      rw [hown e.1 e.2 (List.mem_cons_of_mem _ he) hne]
    · rw [if_neg hk] at hget
      have hne : b ≠ a := by
        rintro rfl
        exact hk (honly k (List.mem_cons_self ..))
      rw [if_neg hk, ih hnodup.2 hget (fun k b hmem => hown k b (List.mem_cons_of_mem _ hmem))
        (fun k hmem => honly k (List.mem_cons_of_mem _ hmem)),
        hown k b (List.mem_cons_self ..) hne]

end Table

namespace Coverage

/-! ## 2. A map that is read while it is written -/

/-- The map after every line of another one is recorded, which is read at every step as it
then is. -/
def absorb (read : Coverage → Coverage) (c : Coverage) : Coverage :=
  (read c).files.keys.foldl (fun c path =>
    ((read c).lines path).foldl (fun c line => c.record path line ((read c).hits path line)) c) c

theorem absorb_const (other c : Coverage) : absorb (fun _ => other) c = c.merge other := by
  simp only [absorb, merge, lineHits, Table.keys, List.foldl_map]

theorem get?_files_record_of_ne {path p : Text} (h : path ≠ p) (c : Coverage) (line : Int)
    (hits : Count) :
    Table.get? p (c.record path line hits).files = Table.get? p c.files := by
  rw [record, Table.get?_modify, if_neg h]

/-- Each line is read before it is written. -/
theorem foldl_record_read {c d : Coverage} {path : Text} {lines : List Int} (hnodup : lines.Nodup)
    (h : ∀ line ∈ lines, c.line? path line = d.line? path line) :
    lines.foldl (fun c line => c.record path line (c.hits path line)) c =
      lines.foldl (fun c line => c.record path line (d.hits path line)) c := by
  induction lines generalizing c with
  | nil => rfl
  | cons line lines ih =>
    rw [List.nodup_cons] at hnodup
    have hhits : c.hits path line = d.hits path line := by
      rw [hits_eq, hits_eq, h line (List.mem_cons_self ..)]
    rw [List.foldl_cons, List.foldl_cons, ← hhits]
    refine ih hnodup.2 fun l hl => ?_
    have hne : line ≠ l := fun heq => hnodup.1 (heq ▸ hl)
    rw [line?_record, if_neg fun heq => hne heq.2]
    exact h l (List.mem_cons_of_mem _ hl)

theorem get?_files_foldl_record_of_ne {path p : Text} (h : path ≠ p) (hits : Int → Count)
    (lines : List Int) (c : Coverage) :
    Table.get? p (lines.foldl (fun c line => c.record path line (hits line)) c).files =
      Table.get? p c.files := by
  induction lines generalizing c with
  | nil => rfl
  | cons line lines ih => rw [List.foldl_cons, ih, get?_files_record_of_ne h]

/-- A map that is merged into itself is read as it was before. -/
theorem absorb_self {d : Coverage} (h : d.IsProper) : absorb (fun c => c) d = d.merge d := by
  have hfiles : ∀ (paths : List Text), paths.Nodup → ∀ c : Coverage,
      (∀ path ∈ paths, Table.get? path c.files = Table.get? path d.files) →
      paths.foldl (fun c path =>
          (c.lines path).foldl (fun c line => c.record path line (c.hits path line)) c) c =
        paths.foldl (fun c path =>
          (d.lines path).foldl (fun c line => c.record path line (d.hits path line)) c) c := by
    intro paths
    induction paths with
    | nil => exact fun _ _ _ => rfl
    | cons path paths ih =>
      intro hnodup c hc
      rw [List.nodup_cons] at hnodup
      have hpath := hc path (List.mem_cons_self ..)
      have hlines : c.lines path = d.lines path := by simp only [lines, hpath]
      have hline : ∀ line ∈ d.lines path, c.line? path line = d.line? path line := fun line _ => by
        simp only [line?, hpath]
      rw [List.foldl_cons, List.foldl_cons, hlines, foldl_record_read (h.nodup_lines path) hline]
      refine ih hnodup.2 _ fun p hp => ?_
      have hne : path ≠ p := fun heq => hnodup.1 (heq ▸ hp)
      rw [get?_files_foldl_record_of_ne hne (d.hits path)]
      exact hc p (List.mem_cons_of_mem _ hp)
  rw [← absorb_const]
  exact hfiles _ h.files d fun _ _ => rfl

/-! ## 3. Files that are given lines -/

/-- The map after a file is given lines. -/
def assign (c : Coverage) (path : Text) (lines : Table Int Count) : Coverage :=
  { c with files := Table.put path lines c.files }

theorem assign_assign (c : Coverage) (path : Text) (lines lines' : Table Int Count) :
    (c.assign path lines).assign path lines' = c.assign path lines' :=
  congrArg (Coverage.mk c.countHits) (Table.put_put path lines' lines c.files)

theorem foldl_assign (entries : Table Text (Table Int Count)) (c : Coverage) :
    entries.foldl (fun c e => c.assign e.1 e.2) c =
      ⟨c.countHits, entries.foldl (fun t e => Table.put e.1 e.2 t) c.files⟩ := by
  induction entries generalizing c with
  | nil => rfl
  | cons e entries ih => exact ih (c.assign e.1 e.2)

/-- The files below a directory are copied one by one. -/
theorem restrictTo_eq_foldl {c : Coverage} (h : c.files.keys.Nodup) (root : Text) :
    c.restrictTo root = c.files.foldl
      (fun new e => if (below root).isPrefixOf e.1 then new.assign e.1 e.2 else new)
      (empty c.countHits) := by
  rw [← List.foldl_filter, foldl_assign]
  exact congrArg (Coverage.mk c.countHits)
    (Table.ofEntries_of_nodup (h.sublist (List.filter_sublist.map Prod.fst))).symm

/-! ## 4. Sheets -/

namespace Store

variable {s : Store}

/-- No sheet is pointed to from two places, and the next new one from none. -/
structure Separate (s : Store) : Prop where
  lt_next : ∀ m path a, (path, a) ∈ (s.held m).files → a < s.next
  own : ∀ m m' path path' a, (path, a) ∈ (s.held m).files → (path', a) ∈ (s.held m').files →
    m = m' ∧ path = path'
  nodup : ∀ m, (s.held m).files.keys.Nodup

theorem held_create (s : Store) (m : Nat) (countHits : Bool) (k : Nat) :
    (s.create m countHits).held k = if m = k then ⟨countHits, []⟩ else s.held k := by
  rw [held, create, Table.get?_put]
  split <;> rfl

theorem held_attach (s : Store) (m : Nat) (path : Text) (lines : Table Int Count) (k : Nat) :
    (s.attach m path lines).held k =
      if m = k then { s.held m with files := Table.put path s.next (s.held m).files }
      else s.held k := by
  rw [held, attach, Table.get?_put]
  split <;> rfl

theorem sheet_attach (s : Store) (m : Nat) (path : Text) (lines : Table Int Count) (a : Nat) :
    (s.attach m path lines).sheet a = if s.next = a then lines else s.sheet a := by
  rw [sheet, attach, Table.get?_put]
  split <;> rfl

theorem sheet_write (s : Store) (countHits : Bool) (a : Nat) (line : Int) (hits : Count)
    (b : Nat) :
    (s.write countHits a line hits).sheet b =
      if a = b then recordLine countHits line hits (s.sheet a) else s.sheet b := by
  rw [sheet, write, Table.get?_put]
  split <;> rfl

theorem keys_view (s : Store) (m : Nat) : (s.view m).files.keys = (s.held m).files.keys :=
  Table.keys_mapValues s.sheet _

theorem separate_start : start.Separate :=
  ⟨fun _ _ _ => nofun, fun _ _ _ _ _ => nofun, fun _ => List.nodup_nil⟩

namespace Separate

variable (h : s.Separate)

include h

theorem create (m : Nat) (countHits : Bool) : (s.create m countHits).Separate := by
  have hmem : ∀ k path a, (path, a) ∈ ((s.create m countHits).held k).files →
      (path, a) ∈ (s.held k).files := by
    intro k path a ha
    rw [held_create] at ha
    split at ha
    · cases ha
    · exact ha
  refine ⟨fun k path a ha => h.lt_next k path a (hmem k path a ha),
    fun k k' p p' a ha ha' => h.own k k' p p' a (hmem k p a ha) (hmem k' p' a ha'), fun k => ?_⟩
  rw [held_create]
  split
  · exact List.nodup_nil
  · exact h.nodup k

theorem attach (m : Nat) (path : Text) (lines : Table Int Count) :
    (s.attach m path lines).Separate := by
  have hmem : ∀ k p a, (p, a) ∈ ((s.attach m path lines).held k).files →
      (k = m ∧ p = path ∧ a = s.next) ∨ (p, a) ∈ (s.held k).files := by
    intro k p a ha
    rw [held_attach] at ha
    split at ha
    · rename_i hk
      rcases Table.mem_put ha with heq | ha
      · cases heq
        exact .inl ⟨hk.symm, rfl, rfl⟩
      · exact .inr (hk ▸ ha)
    · exact .inr ha
  refine ⟨fun k p a ha => ?_, fun k k' p p' a ha ha' => ?_, fun k => ?_⟩
  · rcases hmem k p a ha with ⟨-, -, rfl⟩ | ha
    · exact Nat.lt_succ_self _
    · exact Nat.lt_succ_of_lt (h.lt_next k p a ha)
  · rcases hmem k p a ha with ⟨rfl, rfl, rfl⟩ | ha
    · rcases hmem k' p' _ ha' with ⟨rfl, rfl, -⟩ | ha'
      · exact ⟨rfl, rfl⟩
      · exact absurd (h.lt_next k' p' _ ha') (Nat.lt_irrefl _)
    · rcases hmem k' p' a ha' with ⟨-, -, rfl⟩ | ha'
      · exact absurd (h.lt_next k p _ ha) (Nat.lt_irrefl _)
      · exact h.own k k' p p' a ha ha'
  · rw [held_attach]
    split
    · exact Table.nodup_keys_put _ _ (h.nodup m)
    · exact h.nodup k

theorem write (countHits : Bool) (a : Nat) (line : Int) (hits : Count) :
    (s.write countHits a line hits).Separate :=
  ⟨h.lt_next, h.own, h.nodup⟩

end Separate

/-! ## 5. Changes -/

/-- The store `s'` is `s` but for the map under the name `m`, which holds `c`. -/
structure Changed (m : Nat) (s s' : Store) (c : Coverage) : Prop where
  separate : s'.Separate
  view : ∀ k, s'.view k = if m = k then c else s.view k

namespace Changed

variable {m : Nat} {s' s'' : Store} {c c' : Coverage}

theorem refl (h : s.Separate) (m : Nat) : Changed m s s (s.view m) :=
  ⟨h, fun k => by split <;> simp [*]⟩

theorem view_self (h : Changed m s s' c) : s'.view m = c := by
  rw [h.view, if_pos rfl]

theorem trans (h : Changed m s s' c) (h' : Changed m s' s'' c') : Changed m s s'' c' :=
  ⟨h'.separate, fun k => by rw [h'.view, h.view]; split <;> rfl⟩

/-- Step by step a map is changed in its place as its contents are. -/
theorem foldl {β : Type} {f : Store → β → Store} {g : Coverage → β → Coverage}
    (hstep : ∀ s' c x, Changed m s s' c → Changed m s (f s' x) (g c x)) (xs : List β)
    (h : Changed m s s' c) : Changed m s (xs.foldl f s') (xs.foldl g c) := by
  induction xs generalizing s' c with
  | nil => exact h
  | cons x xs ih => exact ih (hstep s' c x h)

end Changed

theorem changed_create (h : s.Separate) (m : Nat) (countHits : Bool) :
    Changed m s (s.create m countHits) (empty countHits) := by
  refine ⟨h.create m countHits, fun k => ?_⟩
  rw [view, held_create]
  split <;> rfl

/-- A new sheet is seen by the map that gets it. -/
theorem changed_attach (h : s.Separate) (m : Nat) (path : Text) (lines : Table Int Count) :
    Changed m s (s.attach m path lines) ((s.view m).assign path lines) := by
  have hsheet : ∀ k p a, (p, a) ∈ (s.held k).files →
      (s.attach m path lines).sheet a = s.sheet a := fun k p a ha => by
    rw [sheet_attach, if_neg (h.lt_next k p a ha).ne']
  have hfiles : ∀ k, (s.held k).files.map (fun e => (e.1, (s.attach m path lines).sheet e.2)) =
      (s.view k).files := fun k =>
    List.map_congr_left fun e he => by rw [hsheet k e.1 e.2 he]
  refine ⟨h.attach m path lines, fun k => ?_⟩
  rw [view, held_attach]
  split
  · have hput := Table.map_put (s.attach m path lines).sheet path s.next (s.held m).files
    rw [hfiles, sheet_attach, if_pos rfl] at hput
    exact congrArg (Coverage.mk _) hput
  · exact congrArg (Coverage.mk _) (hfiles k)

/-- What is written on a sheet is seen by the map that it belongs to. -/
theorem changed_write (h : s.Separate) {m : Nat} {path : Text} {a : Nat}
    (ha : Table.get? path (s.held m).files = some a) (countHits : Bool) (line : Int)
    (hits : Count) :
    Changed m s (s.write countHits a line hits)
      ((s.view m).assign path (recordLine countHits line hits (s.sheet a))) := by
  have hmem : (path, a) ∈ (s.held m).files := Table.mem_of_get? ha
  have hother : ∀ b, b ≠ a → (s.write countHits a line hits).sheet b = s.sheet b := fun b hb => by
    rw [sheet_write, if_neg (Ne.symm hb)]
  refine ⟨h.write countHits a line hits, fun k => ?_⟩
  split
  · rename_i hk
    subst hk
    have hput := Table.map_eq_put (f := s.sheet) (g := (s.write countHits a line hits).sheet)
      (h.nodup m) ha (fun _ b _ => hother b) fun p hp => (h.own m m p path a hp hmem).2
    rw [sheet_write, if_pos rfl] at hput
    exact congrArg (Coverage.mk (s.held m).countHits) hput
  · rename_i hk
    refine congrArg (Coverage.mk (s.held k).countHits) (List.map_congr_left fun e he => ?_)
    have hne : e.2 ≠ a := fun heq => hk (h.own m k path e.1 a hmem (heq ▸ he)).1
    exact congrArg (Prod.mk e.1) (hother e.2 hne)

/-! ## 6. Operations -/

theorem changed_record (h : s.Separate) (m : Nat) (path : Text) (line : Int) (hits : Count) :
    Changed m s (s.record m path line hits) ((s.view m).record path line hits) := by
  have hget : Table.get? path (s.view m).files = (Table.get? path (s.held m).files).map s.sheet :=
    Table.get?_mapValues _ _ _
  rw [record, Coverage.record, Table.modify, hget]
  cases ha : Table.get? path (s.held m).files with
  | some a => exact changed_write h ha _ line hits
  | none =>
    have hattach := changed_attach h m path []
    have hnext : Table.get? path ((s.attach m path []).held m).files = some s.next := by
      rw [held_attach, if_pos rfl, Table.get?_put, if_pos rfl]
    have hwrite := changed_write hattach.separate hnext (s.held m).countHits line hits
    rw [hattach.view_self, sheet_attach, if_pos rfl] at hwrite
    rw [assign_assign] at hwrite
    exact hattach.trans hwrite

theorem changed_addHits (h : s.Separate) (m : Nat) (hits : List Hit) :
    Changed m s (s.addHits m hits) ((s.view m).addHits hits) := by
  refine Changed.foldl (fun s' c x hc => ?_) hits (.refl h m)
  have hrecord := changed_record hc.separate m x.path x.line (.whole 1)
  rw [hc.view_self] at hrecord
  exact hc.trans hrecord

/-- A merge changes the one map, whichever the other is. -/
theorem changed_merge (h : s.Separate) {m : Nat} (hm : (s.view m).IsProper) (other : Nat) :
    Changed m s (s.merge m other) ((s.view m).merge (s.view other)) := by
  let read : Coverage → Coverage := fun c => if m = other then c else s.view other
  have hread : ∀ s' c, Changed m s s' c → s'.view other = read c := fun s' c hc => hc.view other
  have habsorb : Changed m s (s.merge m other) (absorb read (s.view m)) := by
    have hkeys : (s.held other).files.keys = (read (s.view m)).files.keys := by
      rw [← keys_view, hread s _ (.refl h m)]
    rw [merge, absorb, hkeys]
    refine Changed.foldl (fun s' c path hc => ?_) _ (.refl h m)
    rw [hread s' c hc]
    refine Changed.foldl (fun s' c line hc => ?_) _ hc
    have hrecord := changed_record hc.separate m path line ((s'.view other).hits path line)
    rw [hc.view_self, hread s' c hc] at hrecord
    rw [hread s' c hc]
    exact hc.trans hrecord
  by_cases hother : m = other
  · subst hother
    have hsame : read = fun c => c := funext fun c => if_pos rfl
    rwa [hsame, absorb_self hm] at habsorb
  · have hconst : read = fun _ => s.view other := funext fun c => if_neg hother
    rwa [hconst, absorb_const] at habsorb

/-- The map of the files below a directory is a new one, on sheets of its own. -/
theorem changed_restrictTo (h : s.Separate) (m : Nat) (root : Text) (n : Nat) :
    Changed n s (s.restrictTo m root n) ((s.view m).restrictTo root) := by
  have hnodup : (s.view m).files.keys.Nodup := (keys_view s m).symm ▸ h.nodup m
  rw [restrictTo_eq_foldl hnodup, view, List.foldl_map]
  refine Changed.foldl (fun s' c e hc => ?_) _ (changed_create h n _)
  obtain ⟨path, a⟩ := e
  dsimp only
  split
  · have hattach := changed_attach hc.separate n path (s.sheet a)
    rw [hc.view_self] at hattach
    exact hc.trans hattach
  · exact hc

/-! ## 7. Programs -/

/-- The stores that programs lead to which record counts of at least one. -/
inductive Made : Store → Prop where
  | start : Made start
  | create {s : Store} (h : Made s) (m : Nat) (countHits : Bool) : Made (s.create m countHits)
  | record {s : Store} (h : Made s) (m : Nat) (path : Text) (line : Int) {hits : Count}
      (hhits : IsCount hits) : Made (s.record m path line hits)
  | merge {s : Store} (h : Made s) (m other : Nat) : Made (s.merge m other)
  | restrictTo {s : Store} (h : Made s) (m : Nat) (root : Text) (n : Nat) :
      Made (s.restrictTo m root n)

theorem Made.separate_and_recorded {s : Store} (h : Made s) :
    s.Separate ∧ ∀ k, (s.view k).Recorded := by
  have hchanged : ∀ {s s' : Store} {m : Nat} {c : Coverage}, Changed m s s' c →
      (∀ k, (s.view k).Recorded) → c.Recorded → s'.Separate ∧ ∀ k, (s'.view k).Recorded := by
    intro s s' m c hc hs hrecorded
    refine ⟨hc.separate, fun k => ?_⟩
    rw [hc.view]
    split
    · exact hrecorded
    · exact hs k
  induction h with
  | start => exact ⟨separate_start, fun k => .empty false⟩
  | create _ m countHits ih => exact hchanged (changed_create ih.1 m _) ih.2 (.empty countHits)
  | record _ m path line hhits ih =>
    exact hchanged (changed_record ih.1 m path line _) ih.2 (.record (ih.2 m) path line hhits)
  | merge _ m other ih =>
    exact hchanged (changed_merge ih.1 (ih.2 m).wellCounted.proper other) ih.2
      (.merge (ih.2 m) (ih.2 other))
  | restrictTo _ m root n ih =>
    exact hchanged (changed_restrictTo ih.1 m root n) ih.2 (.restrictTo (ih.2 m) root)

theorem Made.separate (h : Made s) : s.Separate := h.separate_and_recorded.1

theorem Made.recorded (h : Made s) (k : Nat) : (s.view k).Recorded := h.separate_and_recorded.2 k

end Store

end Coverage

end LineTrace
