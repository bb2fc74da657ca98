/-
LineTrace.Proofs.Trace.Passes — passes over a log, one group asked for at a
time.

A pass gives its groups one by one: it reads on only when it is asked for a
group that the pieces cut so far do not hold, and a torn body is counted only
when the pass goes on behind it. `Walk` is a pass held between two groups, and
`Walk.ask` is what happens when so many groups are asked for. A stream keeps
nothing of a walk but its counts, so a pass that is abandoned, or that a failing
read has stopped, leaves the counts behind and nothing else.

`ask_eq` says that asking gives what is given of the whole rest, cut off behind
so many groups; for a pass from its start this is `TraceFormat.scan`
(`visit_eq`). So whatever holds of a scan holds of the stepwise pass.
`passes_agree` is the result: reads of any sizes are cut into the leftmost split
of all their bytes, and a pass over them is a pass over all the bytes in one
read, whatever passes were made on the stream before.
-/
import LineTrace.Proofs.Trace.Wire

namespace LineTrace

/-! ## 1. A pass between two groups -/

/-- A pass between two groups: the reads to come, the bytes that no delimiter has
ended, the pieces that are cut and not walked, and whether the group given last
was torn. Then the first of the pieces is a body. -/
structure Walk (ε : Type) where
  reads : List (Except ε Bytes)
  pending : Bytes
  pieces : List Bytes
  torn : Bool

/-- What is found behind a group: a body and what is behind it, or the bytes left
at the end, or a read that fails. -/
inductive Walk.Found (ε : Type) where
  | body (body : Bytes) (pieces : List Bytes) (pending : Bytes) (reads : List (Except ε Bytes))
  | ended (left : Bytes)
  | unreadable (failure : ε)

/-- The first body among pieces and the pieces behind it, or whether the piece
behind all of them is a body. -/
def findBody (inRecord : Bool) : List Bytes → Except Bool (Bytes × List Bytes)
  | [] => .error inRecord
  | piece :: rest => if inRecord then .ok (piece, rest) else findBody (opensRecord piece) rest

namespace Walk

variable {ε : Type}

/-- A pass before its first group. -/
def start (reads : List (Except ε Bytes)) : Walk ε := ⟨reads, [], [], false⟩

/-- The next body: among the pieces that are cut, else among those that the next
read brings. -/
def seek (delimiter : Bytes) (inRecord : Bool) (pieces : List Bytes) (pending : Bytes)
    (reads : List (Except ε Bytes)) : Found ε :=
  match findBody inRecord pieces with
  | .ok (body, rest) => .body body rest pending reads
  | .error inRecord =>
    match reads with
    | [] => .ended pending
    | .error e :: _ => .unreadable e
    | .ok chunk :: more =>
      if chunk = [] then .ended pending
      else
        let (cut, tail) := Text.pieces delimiter (pending ++ chunk)
        seek delimiter inRecord cut tail more
termination_by reads

/-- The pass of groups and of what is left behind them. -/
def passOf (groups : List Group) : Except ε Bytes → Pass ε
  | .ok left => ⟨groups, none, left.length⟩
  | .error e => ⟨groups, some (.unreadable e), 0⟩

/-- The pass with a group in front. -/
def before (g : Group) (p : Pass ε) : Pass ε := { p with groups := g :: p.groups }

/-- All that is still to come of a pass. -/
def rest (delimiter : Bytes) (separator : UInt8) (inRecord : Bool) (pieces : List Bytes)
    (pending : Bytes) (reads : List (Except ε Bytes)) : Pass ε :=
  let cut := piecesOfReads delimiter pending reads
  passOf (groupsOfPieces separator inRecord (pieces ++ cut.1)) cut.2

/-- The pass over so many groups at most, and the counts of the stream then. -/
def ask (delimiter : Bytes) (separator : UInt8) :
    Nat → StreamCounts → Walk ε → Pass ε × StreamCounts
  | 0, c, _ => (⟨[], none, 0⟩, c)
  | n + 1, c, w =>
    let resyncs := c.resyncs + if w.torn then 1 else 0
    match seek delimiter w.torn w.pieces w.pending w.reads with
    | .body body pieces pending reads =>
      let g := Group.ofBody separator body
      let (p, c) := ask delimiter separator n ⟨c.groups + 1, resyncs⟩
        ⟨reads, pending, pieces, g.torn⟩
      (before g p, c)
    | .ended left => (passOf [] (.ok left), ⟨c.groups, resyncs⟩)
    | .unreadable e => (passOf [] (.error e), ⟨c.groups, resyncs⟩)

/-! ## 2. Asking for groups -/

theorem passOf_cons (g : Group) (gs : List Group) (left : Except ε Bytes) :
    passOf (g :: gs) left = before g (passOf gs left) := by
  cases left <;> rfl

theorem groupsOfPieces_findBody (separator : UInt8) (inRecord : Bool)
    (pieces more : List Bytes) :
    groupsOfPieces separator inRecord (pieces ++ more) =
      match findBody inRecord pieces with
      | .ok (body, rest) => Group.ofBody separator body ::
          groupsOfPieces separator (Group.ofBody separator body).torn (rest ++ more)
      | .error inRecord => groupsOfPieces separator inRecord more := by
  induction pieces generalizing inRecord with
  | nil => rfl
  | cons piece pieces ih =>
    cases inRecord with
    | true => rfl
    | false => exact ih (opensRecord piece)

/-- What is found is the first thing that is still to come. -/
theorem rest_eq_seek (delimiter : Bytes) (separator : UInt8) (inRecord : Bool)
    (pieces : List Bytes) (pending : Bytes) (reads : List (Except ε Bytes)) :
    rest delimiter separator inRecord pieces pending reads =
      match seek delimiter inRecord pieces pending reads with
      | .body body pieces pending reads =>
        let g := Group.ofBody separator body
        before g (rest delimiter separator g.torn pieces pending reads)
      | .ended left => passOf [] (.ok left)
      | .unreadable e => passOf [] (.error e) := by
  induction reads generalizing pending pieces inRecord with
  | nil =>
    rw [seek, rest, groupsOfPieces_findBody]
    cases findBody inRecord pieces with
    | ok found => exact passOf_cons _ _ _
    | error inRecord => cases inRecord <;> rfl
  | cons read reads ih =>
    rw [seek, rest, groupsOfPieces_findBody]
    cases findBody inRecord pieces with
    | ok found => exact passOf_cons _ _ _
    | error inRecord =>
      cases read with
      | error e => cases inRecord <;> rfl
      | ok chunk =>
        by_cases hchunk : chunk = []
        · simp only [piecesOfReads, if_pos hchunk]
          cases inRecord <;> rfl
        · simp only [piecesOfReads, if_neg hchunk]
          exact ih _ _ _

theorem take_before (g : Group) (n : Nat) (p : Pass ε) :
    (before g p).take (n + 1) = before g (p.take n) := by
  simp only [Pass.take, before, List.length_cons, Nat.add_le_add_iff_right, List.take_succ_cons]
  split <;> rfl

/-- A group counts when it is given, and as torn when the next one is asked for. -/
theorem afterTake_before (c : StreamCounts) (g : Group) (n : Nat) (p : Pass ε) :
    c.afterTake (n + 1) (before g p) =
      if n = 0 then ⟨c.groups + 1, c.resyncs⟩
      else StreamCounts.afterTake ⟨c.groups + 1, c.resyncs + if g.torn then 1 else 0⟩ n p := by
  cases n with
  | zero => simp [StreamCounts.afterTake, before]
  | succ n =>
    rw [if_neg (Nat.succ_ne_zero n)]
    simp only [StreamCounts.afterTake, StreamCounts.afterPass, before, List.length_cons,
      Nat.add_le_add_iff_right, Nat.add_sub_cancel, List.take_succ_cons, List.countP_cons]
    split <;> simp only [StreamCounts.mk.injEq] <;> omega

/-- Asking gives what is still to come, cut off behind so many groups, and counts
the groups given and the torn ones that were passed. -/
theorem ask_eq (delimiter : Bytes) (separator : UInt8) (n : Nat) (c : StreamCounts)
    (w : Walk ε) :
    let all := rest delimiter separator w.torn w.pieces w.pending w.reads
    ask delimiter separator n c w =
      (all.take n, if n = 0 then c
        else StreamCounts.afterTake ⟨c.groups, c.resyncs + if w.torn then 1 else 0⟩ n all) := by
  intro all
  induction n generalizing c w with
  | zero => simp [ask, Pass.take]
  | succ n ih =>
    have hall : all = _ := rest_eq_seek delimiter separator w.torn w.pieces w.pending w.reads
    rw [ask]
    cases hseek : seek delimiter w.torn w.pieces w.pending w.reads with
    | body body pieces pending reads =>
      rw [hseek] at hall
      simp only [ih, hall, take_before, afterTake_before, Nat.succ_ne_zero, if_false]
    | ended left =>
      rw [hseek] at hall
      rw [hall]
      rfl
    | unreadable e =>
      rw [hseek] at hall
      rw [hall]
      rfl

end Walk

/-! ## 3. Passes on one stream -/

/-- A pass that is asked for: what its reader gives, and how many groups are
taken. More groups than there are ask for the whole pass. -/
structure Visit (ε : Type) where
  reads : List (Except ε Bytes)
  asked : Nat

namespace TraceFormat

variable {ε : Type}

/-- One more pass on a stream, and the counts of the stream then. Nothing at all is
done before the first group is asked for. -/
def visit (f : TraceFormat) (c : StreamCounts) (v : Visit ε) : Pass ε × StreamCounts :=
  match v.asked, f.separatorBytes, f.delimiterBytes with
  | 0, _, _ => (⟨[], none, 0⟩, c)
  | _ + 1, .error e, _ => (⟨[], some (.noBytes e), 0⟩, c)
  | _ + 1, .ok _, .error e => (⟨[], some (.noBytes e), 0⟩, c)
  | n + 1, .ok separator, .ok delimiter =>
    Walk.ask delimiter (separator.headD 0) (n + 1) c (Walk.start v.reads)

/-- The counts of a stream after passes. -/
def visited (f : TraceFormat) (c : StreamCounts) (vs : List (Visit ε)) : StreamCounts :=
  vs.foldl (fun c v => (f.visit c v).2) c

theorem scan_eq_rest {f : TraceFormat} {separator delimiter : Bytes}
    (hsep : f.separatorBytes = .ok separator) (hdel : f.delimiterBytes = .ok delimiter)
    (reads : List (Except ε Bytes)) :
    f.scan reads = Walk.rest delimiter (separator.headD 0) false [] [] reads := by
  rw [scan, hsep, hdel, Walk.rest]
  simp only [List.nil_append]
  cases (piecesOfReads delimiter [] reads).2 <;> rfl

/-- A pass gives the first groups of the scan, and counts them. -/
theorem visit_eq (f : TraceFormat) (c : StreamCounts) (v : Visit ε) :
    f.visit c v = ((f.scan v.reads).take v.asked, c.afterTake v.asked (f.scan v.reads)) := by
  obtain ⟨reads, asked⟩ := v
  cases asked with
  | zero => simp [visit, Pass.take, StreamCounts.afterTake]
  | succ n =>
    cases hsep : f.separatorBytes with
    | error e => simp [visit, scan, hsep, Pass.take, StreamCounts.afterTake, StreamCounts.afterPass]
    | ok separator =>
      cases hdel : f.delimiterBytes with
      | error e =>
        simp [visit, scan, hsep, hdel, Pass.take, StreamCounts.afterTake, StreamCounts.afterPass]
      | ok delimiter =>
        simp only [visit, hsep, hdel, Walk.ask_eq, scan_eq_rest hsep hdel]
        rfl

/-- What passes add to the counts does not depend on the counts. -/
theorem afterTake_eq_add (c : StreamCounts) (n : Nat) (p : Pass ε) :
    c.afterTake n p =
      ⟨c.groups + (StreamCounts.afterTake ⟨0, 0⟩ n p).groups,
        c.resyncs + (StreamCounts.afterTake ⟨0, 0⟩ n p).resyncs⟩ := by
  simp only [StreamCounts.afterTake, StreamCounts.afterPass]
  split <;> simp

/-- Reads of any sizes are cut into the leftmost split of all their bytes but for
its last part, and any number of groups asked of them, and what that adds to the
counts, is the same as of all the bytes in one read on a new stream, whatever
passes were made on this stream before. -/
theorem passes_agree (f : TraceFormat) (hascii : ∀ c ∈ f.delimiter, c < 128) (log : Bytes)
    (parts : List Bytes) (hparts : ∀ part ∈ parts, part ≠ []) (hlog : parts.flatten = log)
    (earlier : List (Visit ε)) (asked : Nat) :
    let delimiter := f.delimiter.map Nat.toUInt8
    let reads : List (Except ε Bytes) := parts.map .ok ++ [.ok []]
    let counts := f.visited ⟨0, 0⟩ earlier
    let later := f.visit counts ⟨reads, asked⟩
    let once := f.visit ⟨0, 0⟩ ⟨[.ok log, .ok []], asked⟩
    f.delimiterBytes = .ok delimiter ∧
      (∃ split, (∀ other, Text.LeftmostSplit delimiter log other ↔ other = split) ∧
        (piecesOfReads delimiter [] reads).1 = split.dropLast) ∧
      f.scan reads = f.scan [.ok log, .ok []] ∧
      later.1 = once.1 ∧
      later.2 = ⟨counts.groups + once.2.groups, counts.resyncs + once.2.resyncs⟩ := by
  intro delimiter reads counts later once
  have hdel : f.delimiterBytes = .ok delimiter := Text.encodeFrom_ascii hascii 0
  have hd : delimiter ≠ [] := by simpa [delimiter] using f.delimiter_ne
  have hbytes : bytesRead reads = log := by
    simp [reads, bytesRead_append hparts, bytesRead, hlog]
  have hfailure : readFailure? reads = none := readFailure?_append hparts _
  have hscan : f.scan reads = f.scan [.ok log, .ok []] := by
    refine scan_congr (hbytes.trans ?_) (hfailure.trans ?_)
    · by_cases h : log = [] <;> simp [bytesRead, h]
    · by_cases h : log = [] <;> simp [readFailure?, h]
  have hlater : later = _ := visit_eq f counts ⟨reads, asked⟩
  have honce : once = _ := visit_eq f ⟨0, 0⟩ ⟨[.ok log, .ok []], asked⟩
  refine ⟨hdel, ⟨Text.splitOn delimiter log, fun other => Text.leftmostSplit_iff hd, ?_⟩, hscan,
    ?_, ?_⟩
  · rw [piecesOfReads_eq hd reads (by simpa using hd), hbytes]
    simp [Text.splitOn]
  · rw [hlater, honce, hscan]
  · rw [hlater, honce, hscan, afterTake_eq_add]

/-- The delimiter overlaps itself and lies across three reads; one pass before was
given up behind a torn body and another met a read that failed. -/
theorem passes_agree_doubled :
    let log : Bytes := [43, 97, 97, 49, 97, 97, 97, 43, 97, 97, 97]
    let parts : List Bytes := [[43, 97], [97, 49, 97], [97], [97, 43, 97], [97, 97]]
    let reads : List (Except Text Bytes) := parts.map .ok ++ [.ok []]
    let earlier : List (Visit Text) :=
      [⟨[.ok [43, 97, 97, 43, 97, 97, 49, 97, 97]], 1⟩, ⟨[.ok [43, 97, 97, 49], .error []], 4⟩]
    let counts := doubled.visited ⟨0, 0⟩ earlier
    let later := doubled.visit counts ⟨reads, 2⟩
    let once := doubled.visit ⟨0, 0⟩ ⟨[.ok log, .ok []], 2⟩
    (∀ c ∈ doubled.delimiter, c < 128) ∧ (∀ part ∈ parts, part ≠ []) ∧ parts.flatten = log ∧
      later.1 = once.1 ∧
      later.2 = ⟨counts.groups + once.2.groups, counts.resyncs + once.2.resyncs⟩ := by
  intro log parts reads earlier counts later once
  exact ⟨by decide, by decide, by decide,
    (passes_agree doubled (by decide) log parts (by decide) (by decide) earlier 2).2.2.2⟩

end TraceFormat

end LineTrace
