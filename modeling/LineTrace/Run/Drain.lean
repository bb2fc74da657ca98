/-
LineTrace.Run.Drain — from a finished command's log to its coverage.

The log is read in chunks, cut into groups, followed and counted. Reading may
fail on the way; what the groups before say is then still counted, and comes
with the failure.
-/
import LineTrace.Config.Draft
import LineTrace.Coverage.Map
import LineTrace.Failure.Basic
import LineTrace.Log.Record
import LineTrace.Trace.Stream

namespace LineTrace

/-! ## 1. Reads -/

/-- What a reader gets that asks for so many bytes at a time: the log in
pieces and the empty read at its end. -/
def readsOf (size : Nat) (log : Bytes) : List (Except Fault Bytes) :=
  (chunks size log).map .ok ++ [.ok []]

/-- More than can be asked for in one read. -/
def readSizeBound : Int := 9223372036854775808

/-- What a piece of a file takes beside its own bytes. -/
def pieceOverhead : Int := 33

/-- Why a read of so many bytes is refused, if it is: the number, or a piece of
that length, does not fit into a machine word, or there is no room for it. -/
def readRefusal? (room : Nat) (size : Int) : Option Fault :=
  if readSizeBound ≤ size then
    some (.tooLarge "cannot fit 'int' into an index-sized integer")
  else if readSizeBound - pieceOverhead ≤ size then some (.tooLarge "byte string is too large")
  else if room ≤ size then some .noRoom
  else none

/-- How many bytes to ask for at a time, which has to be a number above zero.
What is no whole number is found out only when it is asked for. -/
def readSize (v : Setting) : Except Fault (Option Int) :=
  let refused : Except Fault (Option Int) := .error (.badValue "chunk_size must be > 0")
  match v with
  | .int i => if 0 < i then .ok (some i) else refused
  | .flag b => if b then .ok (some 1) else refused
  | .float x => if x.ltInt 0 ∨ x.eqInt 0 then refused else .ok none
  | v => .error (unordered "<=" v)

/-- What a reader gets that asks a file for as much at a time as a setting
says, where there is room for so many bytes. -/
def readsBy (room : Nat) (size : Option Int) (log : Bytes) : List (Except Fault Bytes) :=
  match size with
  | none => [.error (.badType "argument should be integer or None, not 'float'")]
  | some n =>
    match readRefusal? room n with
    | some e => [.error e]
    | none => readsOf n.toNat log

/-- The reads where only so many of them succeed. -/
def limited (limit : Option (Nat × Fault)) (reads : List (Except Fault Bytes)) :
    List (Except Fault Bytes) :=
  match limit with
  | some (n, e) => if n < reads.length then reads.take n ++ [.error e] else reads
  | none => reads

/-! ## 2. Draining -/

/-- What was found in a log: the coverage, the counts of the stream, the tally
of the records, the follower after them, and the number of bytes at the end that
are no whole record. -/
structure Drained where
  coverage : Coverage
  counts : StreamCounts
  tally : Tally
  follower : Follower
  dropped : Nat

/-- What is found in no log. -/
def Drained.nothing (countHits : Bool) : Drained :=
  ⟨Coverage.empty countHits, ⟨0, 0⟩, Tally.empty, Follower.start Directories.empty, 0⟩

/-- What is found in a log, and what stopped the reading; or the fault that
keeps the log from being followed at all. -/
def drain (f : TraceFormat) (isFile : Text → Bool) (cwd : Text) (countHits : Bool)
    (reads : List (Except Fault Bytes)) : Except Fault (Drained × Option Fault) :=
  let pass := f.scan reads
  match pass.stopped with
  | some (.noBytes e) => .error (.encode e)
  | stopped =>
    let (follower, tally, tooLong) :=
      (Follower.start Directories.empty).run isFile cwd (pass.groups.map Group.fields)
    match tooLong with
    | some e => .error e.fault
    | none =>
      let coverage := (Coverage.empty countHits).addHits tally.hits
      let failure :=
        match stopped with
        | some (.unreadable e) => some e
        | _ => none
      .ok (⟨coverage, StreamCounts.afterPass ⟨0, 0⟩ pass, tally, follower, pass.dropped⟩,
        failure)

/-- The coverage of the files below a root, if there is one. -/
def Coverage.within (c : Coverage) (root : Option Text) : Coverage :=
  match root with
  | some r => c.restrictTo r
  | none => c

/-! ## 3. Wording -/

/-- The fields of a group as a message shows them. -/
def fieldsText (fields : List Text) : Text :=
  [40] ++ Text.joinWith ", " (fields.map Text.quoted) ++
    (if fields.length = 1 then ([44] : Text) else []) ++ [41]

/-- What is recorded of a log while it is drained: every malformed group, and
the bytes that were dropped at the end. -/
def Drained.details (d : Drained) : List LogRecord :=
  (d.tally.malformed.map fun (reason, fields) =>
    LogRecord.of Level.debug ".xtrace.parser"
      ("Skipping malformed trace record (" ++ reason.message ++ "): " ++ fieldsText fields)) ++
  if d.dropped = 0 then []
  else [LogRecord.of Level.debug ".xtrace.stream"
    ("Dropping " ++ Text.ofNat d.dropped ++ " trailing bytes without a closing delimiter")]

/-- The line that sums up a drained log. -/
def Drained.summary (d : Drained) (shown : Coverage) : Text :=
  "Drained " ++ Text.ofNat d.counts.groups ++ " trace records: " ++
    Text.ofNat shown.fileCount ++ " files, " ++ Text.ofNat shown.totalLines ++ " lines, " ++
    Text.ofNat d.tally.skipped ++ " skipped"

/-- The line about torn records. -/
def Drained.tornNotice (d : Drained) : Text :=
  "Resynchronized after " ++ Text.ofNat d.counts.resyncs ++ " torn trace records"

/-- The line about malformed records. -/
def Drained.skippedNotice (d : Drained) : Text :=
  let reasons : List Text :=
    d.tally.mostCommon.map fun (reason, n) => reason ++ ": " ++ Text.ofNat n
  "Skipped " ++ Text.ofNat d.tally.skipped ++ " malformed trace records (" ++
    Text.joinWith ", " reasons ++ ")"

/-- The line about a log that could not be read to its end. -/
def Drained.partialNotice (d : Drained) (shown : Coverage) : Text :=
  "Trace log unreadable after " ++ Text.ofNat d.counts.groups ++
    " records; returning partial coverage for " ++ Text.ofNat shown.fileCount ++ " files"

end LineTrace
