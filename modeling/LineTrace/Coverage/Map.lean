/-
LineTrace.Coverage.Map — which lines of which files were run, and how often.

A coverage map either counts hits or only knows that a line was hit; then
every line in it has the count one. Files and lines keep the order in which
they were first recorded, but two maps are the same (`same`) whenever they
give the same lines to the same files, and everything that is written out is
sorted first.
-/
import LineTrace.Number.Count
import LineTrace.Path.Basic
import LineTrace.Table
import LineTrace.Trace.Hits

namespace LineTrace

/-- The lines of each file with their counts. -/
structure Coverage where
  countHits : Bool
  files : Table Text (Table Int Count)

namespace Coverage

/-- The map of nothing. -/
def empty (countHits : Bool) : Coverage := ⟨countHits, []⟩

/-! ## 1. Recording -/

/-- The lines of one file after one more record. -/
def recordLine (countHits : Bool) (line : Int) (hits : Count) (lines : Table Int Count) :
    Table Int Count :=
  if countHits then Table.modify line (fun old => (old.getD (.whole 0)).add hits) lines
  else Table.put line (.whole 1) lines

/-- The map after a line was hit `hits` times. -/
def record (c : Coverage) (path : Text) (line : Int) (hits : Count) : Coverage :=
  { c with
    files := Table.modify path (fun old => recordLine c.countHits line hits (old.getD [])) c.files }

/-- The map after a hit. -/
def addHit (c : Coverage) (h : Hit) : Coverage := c.record h.path h.line (.whole 1)

/-- The map after hits in order. -/
def addHits (c : Coverage) (hits : List Hit) : Coverage := hits.foldl addHit c

/-! ## 2. Reading -/

/-- The files, sorted. -/
def paths (c : Coverage) : List Text := Text.sorted c.files.keys

/-- The lines of a file in ascending order; none for a file not in the map. -/
def lines (c : Coverage) (path : Text) : List Int :=
  (((Table.get? path c.files).getD []).keys).mergeSort fun a b => a ≤ b

/-- How often a line was hit. -/
def hits (c : Coverage) (path : Text) (line : Int) : Count :=
  (((Table.get? path c.files).bind (Table.get? line))).getD (.whole 0)

/-- The lines of a file in ascending order with their counts. -/
def lineHits (c : Coverage) (path : Text) : List (Int × Count) :=
  (c.lines path).map fun line => (line, c.hits path line)

/-- As many things as a memory has addresses; it holds no more. -/
def addressBound : Nat := 18446744073709551616

/-- The number of lines over all files. -/
def totalLines (c : Coverage) : Nat :=
  min (c.files.foldr (fun (_, lines) n => lines.length + n) 0) addressBound

/-- The number of files. -/
def fileCount (c : Coverage) : Nat := min c.files.length addressBound

/-- Files and lines in order, with counts. -/
def sortedHits (c : Coverage) : List (Text × List (Int × Count)) :=
  c.paths.map fun path => (path, c.lineHits path)

/-- What a map is, in one line. -/
def describe (c : Coverage) : Text :=
  "CoverageMap(" ++ (if c.countHits then ("counts" : Text) else "lines") ++ ", files=" ++
    Text.ofNat c.fileCount ++ ")"

/-- Whether every line that either file has is counted the same by both; a
line that a file does not have counts as never hit. -/
def sameLines (a b : Table Int Count) : Bool :=
  (a.keys ++ b.keys).all fun line =>
    ((Table.get? line a).getD (.whole 0)).same ((Table.get? line b).getD (.whole 0))

/-- Whether two maps count alike and give the same lines to the same files. -/
def same (a b : Coverage) : Bool :=
  a.countHits == b.countHits && a.files.length == b.files.length &&
    a.files.all fun (path, lines) =>
      match Table.get? path b.files with
      | some other => sameLines lines other
      | none => false

/-! ## 3. Combining -/

/-- The map after every line of `other` is recorded with its count there. -/
def merge (c other : Coverage) : Coverage :=
  other.files.foldl (fun c (path, _) =>
    (other.lineHits path).foldl (fun c (line, hits) => c.record path line hits) c) c

/-- The beginning that the paths below a directory share. -/
def below (root : Text) : Text := Path.join (Path.normalize root) []

/-- The map of the files below a directory. -/
def restrictTo (c : Coverage) (root : Text) : Coverage :=
  { c with files := c.files.filter fun (path, _) => (below root).isPrefixOf path }

end Coverage

end LineTrace
