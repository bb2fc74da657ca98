/-
LineTrace.Proofs.Json.RoundTrip — a value is read as it was written.

`ReadsBack` are the values that this is true of: no name twice in an object, no
integer too long, not too many values within each other, and of the numbers with a
fraction those above zero whose exponent is not the least one. The induction is
over it, since it follows the value, and each of its steps is one layout of
`Spells`: with a line break and blanks before every item.

A document is read as the value with its entries in order (`read_documentText`), and
that is the same value (`same_ordered`).
-/
import LineTrace.Proofs.Json.Spelling

namespace LineTrace

namespace Json

open Text

/-! ## 1. Values that are read back -/

/-- A value that is read as it was written where `room` more values may lie within
each other. -/
inductive ReadsBack : Nat → Json → Prop where
  | null {room : Nat} : ReadsBack room .null
  | bool {room : Nat} (b : Bool) : ReadsBack room (.bool b)
  | int {room : Nat} {i : Int} (h : hasNumeral i = true) : ReadsBack room (.int i)
  | float {room m : Nat} {e : Int} (h : Double.IsNormal m e) :
    ReadsBack room (.float (.finite false m e))
  | str {room : Nat} (t : Text) : ReadsBack room (.str t)
  | arr {room : Nat} {items : List Json} (h : ∀ v ∈ items, ReadsBack room v) :
    ReadsBack (room + 1) (.arr items)
  | obj {room : Nat} {entries : List (Text × Json)} (names : (Table.keys entries).Nodup)
    (h : ∀ e ∈ entries, ReadsBack room e.2) : ReadsBack (room + 1) (.obj entries)

/-- What is read as it was written can be written. -/
theorem ReadsBack.hasNumerals {room : Nat} {v : Json} (h : ReadsBack room v) :
    v.hasNumerals = true := by
  induction h with
  | int h => exact h
  | arr h ih => exact hasNumerals_arr.mpr ih
  | obj names h ih => exact hasNumerals_obj.mpr ih
  | _ => rfl

/-- The text of a value at a level of nesting. -/
def valueText (level : Nat) (v : Json) : Text := joined (indented level [] v)

/-! ## 2. Texts of values -/

/-- What goes before a value is put before its text. -/
theorem joined_indented {room : Nat} {v : Json} (h : ReadsBack room v) (level : Nat)
    (lead : Text) : joined (indented level lead v) = lead ++ valueText level v := by
  cases h with
  | int hi => simp [valueText, indented, leafText?, hi]
  | @arr _ items _ =>
    cases items with
    | nil => simp [valueText, indented]
    | cons v items => simp [valueText, indented]
  | @obj _ entries _ _ =>
    cases entries with
    | nil => simp [valueText, indented]
    | cons e entries => simp [valueText, indented]
  | _ => simp [valueText, indented, leafText?]

theorem joined_indentedItems {room : Nat} {items : List Json} (hne : items ≠ [])
    (h : ∀ v ∈ items, ReadsBack room v) (level : Nat) (lead : Text) :
    joined (indentedItems level lead items) =
      lead ++ joinWith (44 :: lineBreak level) (items.map (valueText level)) := by
  induction items generalizing lead with
  | nil => exact absurd rfl hne
  | cons v items ih =>
    obtain ⟨hv, hitems⟩ := List.forall_mem_cons.mp h
    rw [indentedItems, joined_append, joined_indented hv]
    cases items with
    | nil => simp [indentedItems, joinWith]
    | cons w items =>
      rw [ih (List.cons_ne_nil _ _) hitems]
      simp [joinWith]

theorem joined_indentedEntries (level : Nat) (entries : List (Text × Json)) :
    joined (indentedEntries level entries) =
      joinWith (44 :: lineBreak level) (entries.map (Spells.entryText (valueText level))) := by
  induction entries with
  | nil => rfl
  | cons e entries ih =>
    obtain ⟨k, v⟩ := e
    cases entries with
    | nil => simp [indentedEntries, joinWith, Spells.entryText, valueText]
    | cons e' entries =>
      rw [indentedEntries_cons_cons, joined_append, joined_append, ih]
      simp [joinWith, Spells.entryText, valueText]

theorem valueText_arr (level : Nat) {room : Nat} {items : List Json} (hne : items ≠ [])
    (h : ∀ v ∈ items, ReadsBack room v) :
    valueText level (.arr items) =
      91 :: (lineBreak (level + 1) ++
        joinWith (44 :: lineBreak (level + 1)) (items.map (valueText (level + 1))) ++
          lineBreak level ++ [93]) := by
  have hitems := joined_indentedItems hne h (level + 1) (91 :: lineBreak (level + 1))
  obtain ⟨v, items, rfl⟩ := List.exists_cons_of_ne_nil hne
  rw [valueText, indented, joined_append, joined_append, hitems]
  simp

theorem valueText_obj (level : Nat) {entries : List (Text × Json)} (hne : entries ≠ []) :
    valueText level (.obj entries) =
      123 :: (lineBreak (level + 1) ++ joinWith (44 :: lineBreak (level + 1))
        (entries.map (Spells.entryText (valueText (level + 1)))) ++ lineBreak level ++ [125]) := by
  have hentries := joined_indentedEntries (level + 1) entries
  obtain ⟨e, entries, rfl⟩ := List.exists_cons_of_ne_nil hne
  rw [valueText, indented, joined_append, joined_append, hentries]
  simp

theorem isBlank_lineBreak (level : Nat) : IsBlank (lineBreak level) := by
  refine List.forall_mem_cons.mpr ⟨rfl, fun c hc => ?_⟩
  rw [List.eq_of_mem_replicate hc]
  rfl

/-- A value is read as it was written. -/
theorem ReadsBack.spells {room : Nat} {v : Json} (h : ReadsBack room v) (level : Nat) :
    Spells room (valueText level v) v := by
  have hbreak := isBlank_lineBreak
  induction h generalizing level with
  | null => exact .null _
  | @bool room b =>
    have htext : valueText level (.bool b) = boolText b := by
      simp [valueText, indented, leafText?]
    rw [htext]
    exact .bool room b
  | @int room i hi =>
    have htext : valueText level (.int i) = ofInt i := by
      simp [valueText, indented, leafText?, hi]
    rw [htext]
    exact .int room hi
  | @float room m e he =>
    have htext : valueText level (.float (.finite false m e)) =
        (Double.finite false m e).floatText := by
      simp [valueText, indented, leafText?, numberText]
    rw [htext]
    exact .float room he
  | @str room t =>
    have htext : valueText level (.str t) = stringText t := by
      simp [valueText, indented, leafText?]
    rw [htext]
    exact .str room t
  | @arr room items h ih =>
    by_cases hne : items = []
    · subst hne
      exact .arr_nil room
    · rw [valueText_arr level hne h]
      exact .arr hne (fun v hv => ih v hv (level + 1)) (hbreak _) (hbreak _) (hbreak _)
  | @obj room entries names h ih =>
    by_cases hne : entries = []
    · subst hne
      exact .obj_nil room
    · rw [valueText_obj level hne]
      exact .obj hne names (fun e he => ih e he (level + 1)) (hbreak _) (hbreak _) (hbreak _)

/-! ## 3. Documents -/

theorem keys_sortEntries_nodup {α : Type} {entries : List (Text × α)}
    (h : (Table.keys entries).Nodup) : (Table.keys (sortEntries entries)).Nodup :=
  ((List.mergeSort_perm _ _).map Prod.fst).nodup_iff.mpr h

/-- The names of ordered entries are the names. -/
theorem keys_orderedEntries (entries : List (Text × Json)) :
    Table.keys (orderedEntries entries) = Table.keys entries := by
  rw [orderedEntries_eq, Table.keys, Table.keys, List.map_map]
  rfl

/-- Ordering its entries leaves a value one that is read back. -/
theorem ReadsBack.ordered {room : Nat} {v : Json} (h : ReadsBack room v) :
    ReadsBack room (ordered v) := by
  induction h with
  | null => exact .null
  | bool b => exact .bool b
  | int hi => exact .int hi
  | float he => exact .float he
  | str t => exact .str t
  | arr _ ih =>
    rw [Json.ordered, orderedItems_eq]
    exact .arr (List.forall_mem_map.mpr ih)
  | obj names _ ih =>
    rw [Json.ordered]
    refine .obj (keys_sortEntries_nodup (by rwa [keys_orderedEntries])) fun e he => ?_
    rw [mem_sortEntries, orderedEntries_eq] at he
    obtain ⟨entry, hentry, rfl⟩ := List.mem_map.mp he
    exact ih entry hentry

/-- A member of the ordered value is the ordered member. -/
theorem field?_ordered_of_readsBack {room : Nat} {v : Json} (h : ReadsBack room v) (name : Text) :
    (ordered v).field? name = (v.field? name).map ordered := by
  cases h with
  | @obj _ entries names _ =>
    have hget : ∀ es : List (Text × Json), Table.get? name (orderedEntries es) =
        (Table.get? name es).map ordered := by
      intro es
      induction es with
      | nil => rfl
      | cons e es ih =>
        rw [orderedEntries, Table.get?_cons, Table.get?_cons, ih]
        split <;> rfl
    have hperm : (sortEntries (orderedEntries entries)).Perm (orderedEntries entries) :=
      List.mergeSort_perm _ _
    rw [Json.ordered, field?, field?, ← hget entries]
    refine Table.get?_of_perm (keys_sortEntries_nodup ?_) hperm name
    rwa [keys_orderedEntries]
  | _ => rfl

/-- A document is read as the value with its entries in order. -/
theorem read_documentText {v : Json} (h : ReadsBack depthLimit v) :
    read (documentText v) = .ok (ordered v) :=
  (h.ordered.spells 0).read_line

/-- A text is the document of one value, up to the order of entries. -/
theorem ordered_eq_of_documentText_eq {v w : Json} (hv : ReadsBack depthLimit v)
    (hw : ReadsBack depthLimit w) (h : documentText v = documentText w) :
    ordered v = ordered w := by
  have hread := read_documentText hv
  rw [h, read_documentText hw] at hread
  exact (Except.ok.inj hread).symm

theorem sameItems_map {f : Json → Json} {items : List Json}
    (h : ∀ v ∈ items, same (f v) v = true) : sameItems (items.map f) items = true := by
  induction items with
  | nil => rfl
  | cons v items ih =>
    obtain ⟨hv, hitems⟩ := List.forall_mem_cons.mp h
    rw [List.map_cons, sameItems, hv, ih hitems]
    rfl

theorem sameEntries_of_get? {entries other : List (Text × Json)}
    (h : ∀ e ∈ entries, ∃ w, Table.get? e.1 other = some w ∧ same e.2 w = true) :
    sameEntries entries other = true := by
  induction entries with
  | nil => rfl
  | cons e entries ih =>
    obtain ⟨⟨w, hw, hsame⟩, hentries⟩ := List.forall_mem_cons.mp h
    rw [sameEntries, hw, ih hentries, Bool.and_true]
    exact hsame

/-- The value with its entries in order is the same value. -/
theorem same_ordered {room : Nat} {v : Json} (h : ReadsBack room v) :
    same (ordered v) v = true := by
  induction h with
  | null => rfl
  | bool b => exact beq_self_eq_true b
  | @int _ i _ => exact beq_self_eq_true i
  | @float _ m e _ =>
    cases m <;> simp [Json.ordered, same, Double.eq]
  | str t => exact beq_self_eq_true t
  | arr _ ih =>
    rw [Json.ordered, orderedItems_eq, same]
    exact sameItems_map ih
  | @obj _ entries names _ ih =>
    have hlength : (sortEntries (orderedEntries entries)).length = entries.length := by
      rw [sortEntries, List.length_mergeSort, orderedEntries_eq, List.length_map]
    rw [Json.ordered, same, hlength, beq_self_eq_true, Bool.true_and]
    refine sameEntries_of_get? fun e he => ?_
    rw [mem_sortEntries, orderedEntries_eq] at he
    obtain ⟨⟨k, w⟩, hentry, rfl⟩ := List.mem_map.mp he
    exact ⟨w, Table.get?_of_mem names hentry, ih _ hentry⟩

end Json

end LineTrace
