/-
LineTrace.Proofs.Json.Values — a value by what it holds.

The functions on values come in threes, one for values, one for lists of items
and one for lists of entries. The equations of the last two are those of a list
function applied to the first, and are stated here once, so that a proof about
values is an induction (`Json.inductionOn`) with two cases that hold others and
needs no threefold statement.
-/
import LineTrace.Json.Writer
import LineTrace.Proofs.Table

namespace LineTrace.Json

theorem sizeOf_lt_arr {v : Json} {items : List Json} (h : v ∈ items) :
    sizeOf v < sizeOf (Json.arr items) := by
  have hitem := List.sizeOf_lt_of_mem h
  simp only [arr.sizeOf_spec]
  omega

theorem sizeOf_lt_obj {e : Text × Json} {entries : List (Text × Json)} (h : e ∈ entries) :
    sizeOf e.2 < sizeOf (Json.obj entries) := by
  have hentry := List.sizeOf_lt_of_mem h
  obtain ⟨k, v⟩ := e
  simp only [Prod.mk.sizeOf_spec] at hentry
  simp only [obj.sizeOf_spec]
  omega

/-- Induction over values: whatever holds of the values in a list or an object
holds of it. -/
@[elab_as_elim]
theorem inductionOn {motive : Json → Prop} (v : Json) (null : motive .null)
    (bool : ∀ b, motive (.bool b)) (int : ∀ i, motive (.int i))
    (float : ∀ x, motive (.float x)) (str : ∀ t, motive (.str t))
    (arr : ∀ items, (∀ v ∈ items, motive v) → motive (.arr items))
    (obj : ∀ entries, (∀ e ∈ entries, motive e.2) → motive (.obj entries)) : motive v :=
  match v with
  | .null => null
  | .bool b => bool b
  | .int i => int i
  | .float x => float x
  | .str t => str t
  | .arr items => arr items fun w _ => inductionOn w null bool int float str arr obj
  | .obj entries => obj entries fun e _ => inductionOn e.2 null bool int float str arr obj
termination_by sizeOf v
decreasing_by
  · exact sizeOf_lt_arr ‹_›
  · exact sizeOf_lt_obj ‹_›

/-! ## 1. Integers that can be written -/

theorem itemsHaveNumerals_eq (items : List Json) :
    itemsHaveNumerals items = items.all hasNumerals := by
  induction items with
  | nil => rfl
  | cons v items ih => rw [itemsHaveNumerals, ih, List.all_cons]

theorem entriesHaveNumerals_eq (entries : List (Text × Json)) :
    entriesHaveNumerals entries = entries.all fun e => e.2.hasNumerals := by
  induction entries with
  | nil => rfl
  | cons e entries ih => rw [entriesHaveNumerals, ih, List.all_cons]

@[simp] theorem hasNumerals_arr {items : List Json} :
    (Json.arr items).hasNumerals = true ↔ ∀ v ∈ items, v.hasNumerals = true := by
  rw [hasNumerals, itemsHaveNumerals_eq, List.all_eq_true]

@[simp] theorem hasNumerals_obj {entries : List (Text × Json)} :
    (Json.obj entries).hasNumerals = true ↔ ∀ e ∈ entries, e.2.hasNumerals = true := by
  rw [hasNumerals, entriesHaveNumerals_eq, List.all_eq_true]

theorem hasNumerals_of_field? {v w : Json} {name : Text} (hv : v.hasNumerals = true)
    (h : v.field? name = some w) : w.hasNumerals = true := by
  cases v with
  | obj entries => exact hasNumerals_obj.mp hv (name, w) (Table.mem_of_get? h)
  | _ => cases h

/-! ## 2. Ordered values -/

theorem orderedItems_eq (items : List Json) : orderedItems items = items.map ordered := by
  induction items with
  | nil => rfl
  | cons v items ih => rw [orderedItems, ih, List.map_cons]

theorem orderedEntries_eq (entries : List (Text × Json)) :
    orderedEntries entries = entries.map fun e => (e.1, e.2.ordered) := by
  induction entries with
  | nil => rfl
  | cons e entries ih => rw [orderedEntries, ih, List.map_cons]

end LineTrace.Json
