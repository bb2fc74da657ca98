/-
LineTrace.Trace.Stream — from the bytes of a log to groups of fields.

The log is read in chunks. `piecesOfReads` cuts what has been read so far at
the delimiter and carries the uncut rest over to the next read; a rest that
no delimiter ends is dropped, so a truncated log loses its last record and
nothing else. `groupsOfPieces` then walks the pieces: one that ends with the
marker opens a record, and the piece after it is the body.

A body with a wrong number of fields that itself ends with the marker was
torn: it ran into the next record, whose body therefore follows at once.
-/
import LineTrace.Trace.Format

namespace LineTrace

/-! ## 1. Groups -/

/-- The fields of one body. `torn` says that the body ran into the marker of
the next record. -/
structure Group where
  fields : List Text
  torn : Bool
  deriving DecidableEq, Repr

/-- Whether a piece ends with the marker, and so opens a record. -/
def opensRecord (piece : Bytes) : Bool := piece.getLast? == some TraceFormat.markerByte

/-- The group of a body. -/
def Group.ofBody (separator : UInt8) (body : Bytes) : Group :=
  let fields := (Text.splitAt1 separator body).map Text.decodeEscaped
  ⟨fields, fields.length ≠ TraceFormat.fieldCount && opensRecord body⟩

/-- The groups of successive pieces; `inRecord` says that the first of them is
a body. -/
def groupsOfPieces (separator : UInt8) : Bool → List Bytes → List Group
  | _, [] => []
  | true, body :: rest =>
    let g := Group.ofBody separator body
    g :: groupsOfPieces separator g.torn rest
  | false, piece :: rest => groupsOfPieces separator (opensRecord piece) rest

/-! ## 2. Reads -/

/-- The log in reads of at most `size` bytes. -/
def chunks (size : Nat) (log : Bytes) : List Bytes :=
  if h : 0 < size ∧ log ≠ [] then
    have : (log.drop size).length < log.length := by
      have := List.length_pos_iff.mpr h.2
      simp only [List.length_drop]; omega
    log.take size :: chunks size (log.drop size)
  else []
termination_by log.length

/-- The pieces that the delimiter ends, in reads that go on from the unended
bytes `pending`; an empty read ends the log. The second part is the rest that
no delimiter ends, or the failure that stopped the reading. -/
def piecesOfReads {ε : Type} (delimiter pending : Bytes) :
    List (Except ε Bytes) → List Bytes × Except ε Bytes
  | [] => ([], .ok pending)
  | .error e :: _ => ([], .error e)
  | .ok chunk :: rest =>
    if chunk = [] then ([], .ok pending)
    else
      let (ended, tail) := Text.pieces delimiter (pending ++ chunk)
      let (more, left) := piecesOfReads delimiter tail rest
      (ended ++ more, left)

/-! ## 3. Passes -/

/-- Why a pass over a log stopped before its end. -/
inductive PassFault (ε : Type) where
  | noBytes (fault : Text.EncodeFault)
  | unreadable (failure : ε)

/-- The groups of one pass over a log, what stopped it, and how many bytes it
dropped at the log's end. -/
structure Pass (ε : Type) where
  groups : List Group
  stopped : Option (PassFault ε)
  dropped : Nat

/-- All groups of the reads. A format whose separator or delimiter has no
bytes is found out before anything is read. -/
def TraceFormat.scan {ε : Type} (f : TraceFormat) (reads : List (Except ε Bytes)) : Pass ε :=
  match f.separatorBytes, f.delimiterBytes with
  | .error e, _ => ⟨[], some (.noBytes e), 0⟩
  | .ok _, .error e => ⟨[], some (.noBytes e), 0⟩
  | .ok separator, .ok delimiter =>
    let (ended, left) := piecesOfReads delimiter [] reads
    let groups := groupsOfPieces (separator.headD 0) false ended
    match left with
    | .ok rest => ⟨groups, none, rest.length⟩
    | .error e => ⟨groups, some (.unreadable e), 0⟩

/-- The pass as far as its first `n` groups, after which nothing more is
read. -/
def Pass.take {ε : Type} (n : Nat) (p : Pass ε) : Pass ε :=
  if n ≤ p.groups.length then ⟨p.groups.take n, none, 0⟩ else p

/-- How many groups and how many torn bodies the passes so far have met. -/
structure StreamCounts where
  groups : Nat
  resyncs : Nat
  deriving DecidableEq, Repr

/-- The counts after a pass that ran to its end. -/
def StreamCounts.afterPass {ε : Type} (c : StreamCounts) (p : Pass ε) : StreamCounts :=
  ⟨c.groups + p.groups.length, c.resyncs + p.groups.countP Group.torn⟩

/-- The counts after a pass of which only `n` groups were asked for. A torn
body counts once the group after it is asked for. -/
def StreamCounts.afterTake {ε : Type} (c : StreamCounts) (n : Nat) (p : Pass ε) : StreamCounts :=
  if n ≤ p.groups.length then
    ⟨c.groups + n, c.resyncs + (p.groups.take (n - 1)).countP Group.torn⟩
  else c.afterPass p

end LineTrace
