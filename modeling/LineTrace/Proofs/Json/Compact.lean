/-
LineTrace.Proofs.Json.Compact — a value on one line.

The text of a value on one line has no controls, whatever strings are in it
(`notMem_compact`), so a line feed after it is the only one. It is read as the value
(`read_compact`), entry for entry: other than in a document nothing is sorted here. The
layout is the one of `Spells` with a blank after every comma and none elsewhere.
-/
import LineTrace.Proofs.Json.RoundTrip

namespace LineTrace.Json

open Text

/-! ## 1. Texts -/

theorem compactItems_eq (items : List Json) :
    compactItems items = joinWith [44, 32] (items.map compact) := by
  induction items with
  | nil => rfl
  | cons v items ih =>
    cases items with
    | nil => rfl
    | cons w items =>
      rw [compactItems, ih]
      · rfl
      · exact List.cons_ne_nil _ _

theorem compactEntries_eq (entries : List (Text × Json)) :
    compactEntries entries = joinWith [44, 32] (entries.map (Spells.entryText compact)) := by
  induction entries with
  | nil => rfl
  | cons e entries ih =>
    obtain ⟨k, v⟩ := e
    cases entries with
    | nil => rfl
    | cons e' entries =>
      rw [compactEntries, ih]
      · rfl
      · exact List.cons_ne_nil _ _

theorem compact_arr (items : List Json) :
    compact (.arr items) = 91 :: ([] ++ joinWith [44, 32] (items.map compact) ++ [] ++ [93]) := by
  simp [compact, compactItems_eq]

theorem compact_obj (entries : List (Text × Json)) :
    compact (.obj entries) =
      123 :: ([] ++ joinWith [44, 32] (entries.map (Spells.entryText compact)) ++ [] ++ [125]) := by
  simp [compact, compactEntries_eq]

/-! ## 2. Controls -/

/-- What is neither in the separator nor in a part is not in the parts put together. -/
theorem notMem_joinWith {c : CodePoint} {sep : Text} (hsep : c ∉ sep) {parts : List Text}
    (h : ∀ part ∈ parts, c ∉ part) : c ∉ joinWith sep parts := by
  induction parts with
  | nil => simp [joinWith]
  | cons part parts ih =>
    obtain ⟨hpart, hparts⟩ := List.forall_mem_cons.mp h
    cases parts with
    | nil => exact hpart
    | cons part' parts =>
      rw [joinWith]
      · simp [hpart, hsep, ih hparts]
      · exact List.cons_ne_nil _ _

/-- A value on one line has no controls. -/
theorem notMem_compact {control : Nat} (hcontrol : control < 32) (v : Json) :
    control ∉ compact v := by
  have hcomma : control ∉ ([44, 32] : Text) := IsPlain.notMem (by decide) hcontrol
  induction v using Json.inductionOn with
  | null => exact notMem_leafText? hcontrol (v := .null) rfl
  | bool b => exact notMem_leafText? hcontrol (v := .bool b) rfl
  | int i => exact (isPlain_ofInt i).notMem hcontrol
  | float x => exact notMem_leafText? hcontrol (v := .float x) rfl
  | str t => exact notMem_leafText? hcontrol (v := .str t) rfl
  | arr items ih =>
    have hbrackets : control ∉ ([91, 93] : Text) := IsPlain.notMem (by decide) hcontrol
    have hitems := notMem_joinWith hcomma (List.forall_mem_map.mpr ih)
    rw [compact_arr]
    simp_all
  | obj entries ih =>
    have hbraces : control ∉ ([123, 125] : Text) := IsPlain.notMem (by decide) hcontrol
    have hcolon : control ∉ Text.ofString ": " := IsPlain.notMem (by decide) hcontrol
    have hentries : control ∉ joinWith [44, 32] (entries.map (Spells.entryText compact)) := by
      refine notMem_joinWith hcomma (List.forall_mem_map.mpr fun e he => ?_)
      simp [Spells.entryText, notMem_stringText hcontrol, hcolon, ih e he]
    rw [compact_obj]
    simp_all

/-! ## 3. Reading -/

/-- A value is read as it was written on one line. -/
theorem ReadsBack.spells_compact {room : Nat} {v : Json} (h : ReadsBack room v) :
    Spells room (compact v) v := by
  have hnone : IsBlank [] := by decide
  have hblank : IsBlank [32] := by decide
  induction h with
  | @null room => exact .null room
  | @bool room b => exact .bool room b
  | @int room i hi => exact .int room hi
  | @float room m e he => exact .float room he
  | @str room t => exact .str room t
  | @arr room items h ih =>
    by_cases hne : items = []
    · subst hne
      exact .arr_nil room
    · rw [compact_arr]
      exact .arr hne ih hnone hblank hnone
  | @obj room entries names h ih =>
    by_cases hne : entries = []
    · subst hne
      exact .obj_nil room
    · rw [compact_obj]
      exact .obj hne names ih hnone hblank hnone

/-- A line with a value on it is read as the value. -/
theorem read_compact {v : Json} (h : ReadsBack depthLimit v) : read (compact v ++ [10]) = .ok v :=
  h.spells_compact.read_line

end LineTrace.Json
