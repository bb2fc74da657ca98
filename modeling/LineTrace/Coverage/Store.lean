/-
LineTrace.Coverage.Store — coverage maps that are changed in place.

A `Coverage` is what a map holds at one time. Where several maps are worked with, they
stand under names and are changed where they are: a map knows for each of its files on
which sheet the lines are, and whatever writes on a sheet changes every map that points to
it. So it is said here which sheets are new. A file that a map did not have gets a sheet of
its own, and a map of the files below a directory gets copies.

The other map of a merge is read line by line while the first one is written, and both may
be the same map.
-/
import LineTrace.Coverage.Map

namespace LineTrace.Coverage

/-- A map as it is held: the sheet that the lines of each file are on. -/
structure Held where
  countHits : Bool
  files : Table Text Nat

/-- The maps under their names, the sheets, and the number of the next new sheet. -/
structure Store where
  maps : Table Nat Held
  sheets : Table Nat (Table Int Count)
  next : Nat

namespace Store

/-- No maps. -/
def start : Store := ⟨[], [], 0⟩

/-- The map under a name. -/
def held (s : Store) (m : Nat) : Held := (Table.get? m s.maps).getD ⟨false, []⟩

/-- What is on a sheet. -/
def sheet (s : Store) (a : Nat) : Table Int Count := (Table.get? a s.sheets).getD []

/-- What the map under a name holds at present. -/
def view (s : Store) (m : Nat) : Coverage :=
  ⟨(s.held m).countHits, (s.held m).files.map fun (path, a) => (path, s.sheet a)⟩

/-- The maps after a new one without files is put under a name. -/
def create (s : Store) (m : Nat) (countHits : Bool) : Store :=
  { s with maps := Table.put m ⟨countHits, []⟩ s.maps }

/-- The maps after a file of one of them is given a new sheet. -/
def attach (s : Store) (m : Nat) (path : Text) (lines : Table Int Count) : Store where
  maps := Table.put m { s.held m with files := Table.put path s.next (s.held m).files } s.maps
  sheets := Table.put s.next lines s.sheets
  next := s.next + 1

/-- The maps after one more record on a sheet. -/
def write (s : Store) (countHits : Bool) (a : Nat) (line : Int) (hits : Count) : Store :=
  { s with sheets := Table.put a (recordLine countHits line hits (s.sheet a)) s.sheets }

/-- The maps after a line of one of them was hit `hits` times. -/
def record (s : Store) (m : Nat) (path : Text) (line : Int) (hits : Count) : Store :=
  match Table.get? path (s.held m).files with
  | some a => s.write (s.held m).countHits a line hits
  | none => (s.attach m path []).write (s.held m).countHits s.next line hits

/-- The maps after hits were added to one of them in order. -/
def addHits (s : Store) (m : Nat) (hits : List Hit) : Store :=
  hits.foldl (fun s h => s.record m h.path h.line (.whole 1)) s

/-- The maps after every line of `other` is recorded in `m` with the count that it has
there when its turn comes. -/
def merge (s : Store) (m other : Nat) : Store :=
  (s.held other).files.keys.foldl (fun s path =>
    ((s.view other).lines path).foldl (fun s line =>
      s.record m path line ((s.view other).hits path line)) s) s

/-- The maps after a new one with copies of the files below a directory is put under the
name `n`. -/
def restrictTo (s : Store) (m : Nat) (root : Text) (n : Nat) : Store :=
  (s.held m).files.foldl (fun new (path, a) =>
    if (below root).isPrefixOf path then new.attach n path (s.sheet a) else new)
    (s.create n (s.held m).countHits)

end Store

end LineTrace.Coverage
