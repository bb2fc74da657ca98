/-
LineTrace.Table — tables that remember the order in which keys first appeared.

A table is its list of entries. `put` replaces the value of a key in its place
or appends a new entry, so a table made by `put` alone never holds a key
twice; `get?` is the view that laws are stated through.
-/
import LineTrace.Text.Basic

namespace LineTrace

/-- Entries in the order in which their keys first appeared. -/
abbrev Table (κ α : Type) := List (κ × α)

namespace Table

variable {κ α : Type} [DecidableEq κ]

/-- The value of a key. -/
def get? (key : κ) : Table κ α → Option α
  | [] => none
  | (k, v) :: rest => if k = key then some v else get? key rest

/-- The table with `key` set to `value`, in its place if it has one. -/
def put (key : κ) (value : α) : Table κ α → Table κ α
  | [] => [(key, value)]
  | (k, v) :: rest => if k = key then (k, value) :: rest else (k, v) :: put key value rest

/-- The table with the value of `key` changed by `f`, which sees none where the
key is new. -/
def modify (key : κ) (f : Option α → α) (t : Table κ α) : Table κ α :=
  put key (f (get? key t)) t

/-- The table without `key`. -/
def erase (key : κ) (t : Table κ α) : Table κ α := t.filter fun (k, _) => k ≠ key

/-- The first place and the last value of each key. -/
def ofEntries (entries : List (κ × α)) : Table κ α :=
  entries.foldl (fun seen (k, v) => put k v seen) []

/-- The keys in order. -/
def keys (t : Table κ α) : List κ := t.map Prod.fst

end Table

end LineTrace
