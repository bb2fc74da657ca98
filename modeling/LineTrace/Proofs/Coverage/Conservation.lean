/-
LineTrace.Proofs.Coverage.Conservation — every group of a log is accounted for once.

A group is a hit, malformed or unattributed, so the three numbers add up to the groups
that the stream counted (`Follower.Follows.length_eq`). A malformed group is counted
under its heading, and the headings are three fixed texts whatever stands in the bad
fields (`Malformation.heading_mem`). There is a fourth wording, for a directory that is
popped though it is not stacked, and no group is ever malformed for that: `step_record`
has no such outcome.

The hits are stored in one of two ways. Where they are counted, the counts of all lines
add up to the hits (`Coverage.hitTotal_addHits`): the lines in the map are the
different lines among the hits, and each has the number of its occurrences. Where they
are not, the map has the same files and lines. `drain_accounts` says all this of
whatever was drained, and so of every log, read in chunks of any size.
-/
import LineTrace.Proofs.Coverage.Proper
import LineTrace.Proofs.Trace.Overlong
import LineTrace.Proofs.Trace.Wire
import Mathlib.Algebra.BigOperators.Group.List.Lemmas

namespace LineTrace

/-! ## 1. Tables of numbers -/

namespace Table

variable {κ : Type} [DecidableEq κ]

/-- The numbers of a table, added up. -/
def total (t : Table κ Nat) : Nat := (t.map Prod.snd).sum

/-- A change adds what the new number has more than the old one. -/
theorem total_put (key : κ) (n : Nat) (t : Table κ Nat) :
    (put key n t).total + (get? key t).getD 0 = t.total + n := by
  induction t with
  | nil => simp [put, total]
  | cons entry t ih =>
    obtain ⟨k, m⟩ := entry
    rw [put, get?_cons]
    simp only [total] at ih
    by_cases hk : k = key
    · simp only [if_pos hk, total, List.map_cons, List.sum_cons, Option.getD_some]
      omega
    · simp only [if_neg hk, total, List.map_cons, List.sum_cons]
      omega

theorem total_countUp (key : κ) (t : Table κ Nat) :
    (modify key (fun n => n.getD 0 + 1) t).total = t.total + 1 := by
  have h := total_put key ((get? key t).getD 0 + 1) t
  rw [modify]
  omega

end Table

/-! ## 2. Reasons -/

/-- The headings under which malformed groups are counted. -/
def Malformation.headings : List Text :=
  ["expected 4 fields", "expected integer LINENO", "missing PWD"]

/-- What is malformed for want of a record is counted under one of three headings, whatever
the fields are. -/
theorem Malformation.heading_mem {fields : List Text} {reason : Malformation}
    (h : Record.ofFields fields = .ok (.error reason)) : reason.heading ∈ headings := by
  unfold Record.ofFields at h
  split at h
  · rename_i line source pwd oldpwd
    cases hds : lineDigits? line with
    | none =>
      rw [hds] at h
      cases h
      have heading : (lineNumber line).heading = "expected integer LINENO" := rfl
      simp [heading, headings]
    | some ds =>
      rw [hds] at h
      dsimp only at h
      split at h
      · cases h
        have heading : noDirectory.heading = "missing PWD" := rfl
        simp [heading, headings]
      · split at h <;> cases h
  · cases h
    have heading : (fieldCount fields.length).heading = "expected 4 fields" := by
      cbv
    simp [heading, headings]

namespace Tally

/-- The numbers under the headings add up to the malformed groups. -/
theorem total_reasons (os : List Outcome) :
    (ofOutcomes os).reasons.total = (ofOutcomes os).skipped := by
  rw [reasons_ofOutcomes, skipped_ofOutcomes]
  induction os.filterMap Outcome.reason? using List.reverseRecOn with
  | nil => rfl
  | append_singleton reasons reason ih =>
    rw [List.foldl_append, List.foldl_cons, List.foldl_nil, countReason, Table.total_countUp, ih,
      List.length_append, List.length_singleton]

theorem exists_reason_of_mem_keys {os : List Outcome} {heading : Text}
    (h : heading ∈ (ofOutcomes os).reasons.keys) :
    ∃ reason ∈ os.filterMap Outcome.reason?, reason.heading = heading := by
  rw [reasons_ofOutcomes, ← Table.isSome_get?_iff, get?_foldl_countReason] at h
  split at h
  · cases h
  · rename_i hcount
    obtain ⟨reason, hmem, hreason⟩ := List.countP_pos_iff.mp (Nat.pos_of_ne_zero hcount)
    exact ⟨reason, hmem, of_decide_eq_true hreason⟩

end Tally

/-! ## 3. Groups -/

namespace Follower

variable {isFile : Text → Bool} {cwd : Text} {f f' : Follower}

/-- A group that is malformed is so for want of a record. -/
theorem ofFields_of_malformed {fields shown : List Text} {reason : Malformation}
    (h : f.step isFile cwd fields = .ok (f', .malformed reason shown)) :
    Record.ofFields fields = .ok (.error reason) := by
  cases hfields : Record.ofFields fields with
  | error e =>
    rw [step, stepWith, hfields] at h
    cases h
  | ok parsed =>
    cases parsed with
    | error reason' =>
      rw [step_malformed f hfields] at h
      cases h
      rfl
    | ok r =>
      obtain ⟨moved, -, -, hstep⟩ := f.step_record hfields
      rw [hstep] at h
      split at h <;> cases h

/-- Each group is one of three things. -/
theorem Follows.length_eq {groups : List (List Text)} {os : List Outcome}
    (h : Follows isFile cwd f groups os f') :
    groups.length = (os.filterMap Outcome.hit?).length +
      (os.filterMap Outcome.reason?).length + os.countP Outcome.isUnattributed := by
  induction h with
  | nil f => rfl
  | @cons f f₁ f₂ fields rest o os _ _ ih =>
    rw [List.length_cons, ih]
    cases o with
    | hit h =>
      simp [Outcome.hit?, Outcome.reason?, Outcome.isUnattributed, List.filterMap_cons]
      omega
    | malformed reason fields =>
      simp [Outcome.hit?, Outcome.reason?, Outcome.isUnattributed, List.filterMap_cons]
      omega
    | unattributed line =>
      simp [Outcome.hit?, Outcome.reason?, Outcome.isUnattributed, List.filterMap_cons,
        List.countP_cons]
      omega

theorem Follows.heading_mem {groups : List (List Text)} {os : List Outcome}
    (h : Follows isFile cwd f groups os f') :
    ∀ reason ∈ os.filterMap Outcome.reason?, reason.heading ∈ Malformation.headings := by
  induction h with
  | nil f => simp
  | @cons f f₁ f₂ fields rest o os hstep _ ih =>
    cases o with
    | malformed reason shown =>
      exact List.forall_mem_cons.mpr
        ⟨Malformation.heading_mem (ofFields_of_malformed hstep), ih⟩
    | hit h => exact ih
    | unattributed line => exact ih

end Follower

/-! ## 4. Hits -/

namespace Coverage

/-- The counts of all lines of all files, added up. -/
def hitTotal (c : Coverage) : Count :=
  (c.sortedHits.flatMap Prod.snd).foldl (fun n e => n.add e.2) (.whole 0)

/-- Every line of the map with its file. -/
def places (c : Coverage) : List (Text × Int) :=
  c.paths.flatMap fun path => (c.lines path).map (path, ·)

theorem mem_places {c : Coverage} {place : Text × Int} :
    place ∈ c.places ↔ (c.line? place.1 place.2).isSome := by
  obtain ⟨path, line⟩ := place
  rw [← mem_lines]
  constructor
  · intro h
    obtain ⟨p, -, hp⟩ := List.mem_flatMap.mp h
    obtain ⟨l, hl, heq⟩ := List.mem_map.mp hp
    cases heq
    exact hl
  · intro h
    obtain ⟨n, hn⟩ := Option.isSome_iff_exists.mp (mem_lines.mp h)
    exact List.mem_flatMap.mpr ⟨path, mem_paths_of_line? hn, List.mem_map.mpr ⟨line, h, rfl⟩⟩

theorem IsProper.nodup_places {c : Coverage} (h : c.IsProper) : c.places.Nodup := by
  have hpaths : c.paths.Nodup := (List.mergeSort_perm _ _).nodup_iff.mpr h.files
  refine List.nodup_flatMap.mpr ⟨fun path _ => ?_, hpaths.imp fun {p q} hne => ?_⟩
  · exact (h.nodup_lines path).map fun a b hab => (Prod.mk.inj hab).2
  · rw [Function.onFun, List.disjoint_left]
    intro place hp hq
    obtain ⟨l, -, rfl⟩ := List.mem_map.mp hp
    obtain ⟨l', -, heq⟩ := List.mem_map.mp hq
    exact hne (Prod.mk.inj heq).1.symm

/-- The places that hits are on. -/
def placesOf (hits : List Hit) : List (Text × Int) := hits.map fun h => (h.path, (h.line : Int))

theorem countP_placesOf (hits : List Hit) (place : Text × Int) :
    (placesOf hits).countP (· = place) = occurrences place.1 place.2 hits := by
  rw [placesOf, List.countP_map, occurrences]
  refine List.countP_congr fun h _ => ?_
  simp [Prod.ext_iff]

/-- The map of hits has every place once that a hit is on. -/
theorem places_addHits_perm (countHits : Bool) (hits : List Hit) :
    ((empty countHits).addHits hits).places.Perm (placesOf hits).dedup := by
  refine (List.perm_ext_iff_of_nodup ((IsProper.empty countHits).addHits hits).nodup_places
    (List.nodup_dedup _)).mpr fun place => ?_
  have hcount : place ∈ placesOf hits ↔ occurrences place.1 place.2 hits ≠ 0 := by
    rw [← countP_placesOf, ← Nat.pos_iff_ne_zero, List.countP_pos_iff]
    simp
  rw [mem_places, line?_addHits, List.mem_dedup, hcount]
  split <;> simp [*]

theorem foldl_add_whole (ns : List Nat) (n : Nat) :
    (ns.map fun m : Nat => Count.whole m).foldl Count.add (.whole n) =
      .whole (n + ns.sum : Nat) := by
  induction ns generalizing n with
  | nil => rfl
  | cons m ns ih =>
    rw [List.map_cons, List.foldl_cons, List.sum_cons, ← Nat.add_assoc]
    exact ih (n + m)

theorem flatMap_lineHits (c : Coverage) :
    (c.sortedHits.flatMap Prod.snd).map Prod.snd = c.places.map fun p => c.hits p.1 p.2 := by
  simp only [sortedHits, places, List.flatMap_map, List.map_flatMap, lineHits, List.map_map,
    Function.comp_def]

/-- The occurrences of the lines in the map add up to the hits. -/
theorem sum_occurrences (countHits : Bool) (hits : List Hit) :
    (((empty countHits).addHits hits).places.map fun p => occurrences p.1 p.2 hits).sum =
      hits.length := by
  have hcount : (fun p : Text × Int => occurrences p.1 p.2 hits) =
      fun p => (placesOf hits).countP (· = p) := funext fun p => (countP_placesOf hits p).symm
  rw [((places_addHits_perm countHits hits).map _).sum_eq, hcount]
  exact (List.sum_map_count_dedup_eq_length (placesOf hits)).trans (List.length_map ..)

/-- Where hits are counted, the counts add up to the hits. -/
theorem hitTotal_addHits (hits : List Hit) :
    ((empty true).addHits hits).hitTotal = .whole hits.length := by
  have hcounts : ((empty true).addHits hits).places.map (fun p =>
        ((empty true).addHits hits).hits p.1 p.2) =
      (((empty true).addHits hits).places.map fun p => occurrences p.1 p.2 hits).map
        fun m : Nat => Count.whole m := by
    rw [List.map_map]
    refine List.map_congr_left fun p _ => ?_
    rw [Function.comp_apply, hits_eq, line?_addHits]
    split
    · rename_i hzero
      rw [hzero]
      rfl
    · rfl
  calc ((empty true).addHits hits).hitTotal
      = ((((empty true).addHits hits).sortedHits.flatMap Prod.snd).map Prod.snd).foldl
          Count.add (.whole (0 : Nat)) := by rw [hitTotal, List.foldl_map]; rfl
    _ = .whole hits.length := by
      rw [flatMap_lineHits, hcounts, foldl_add_whole, sum_occurrences, Nat.zero_add]

/-- Whether hits are counted is nothing to the files and lines that are hit. -/
theorem addHits_congr (hits : List Hit) :
    ((empty false).addHits hits).paths = ((empty true).addHits hits).paths ∧
      ∀ path, ((empty false).addHits hits).lines path = ((empty true).addHits hits).lines path := by
  refine ⟨paths_congr (nodup_addHits _ _) (nodup_addHits _ _) fun path => ?_, fun path =>
    lines_congr ((IsProper.empty _).addHits hits) ((IsProper.empty _).addHits hits) fun line => ?_⟩
  · rw [mem_files_addHits, mem_files_addHits]
  · rw [line?_addHits, line?_addHits]
    split <;> rfl

/-- Where hits are not counted, every line of the map has the count one. -/
theorem hits_addHits_known {hits : List Hit} {path : Text} {line : Int}
    (h : line ∈ ((empty false).addHits hits).lines path) :
    ((empty false).addHits hits).hits path line = .whole 1 := by
  rw [mem_lines, line?_addHits] at h
  rw [hits_eq, line?_addHits]
  split
  · rename_i hzero
    rw [if_pos hzero] at h
    cases h
  · rfl

end Coverage

/-! ## 5. Drains -/

open Coverage

/-- Whatever is drained, each group is a hit, malformed or unattributed; each malformed
one is counted under one of three headings; each hit is counted where hits are counted,
and where they are not, the map has the same files and lines. -/
theorem drain_accounts (f : TraceFormat) (isFile : Text → Bool) (cwd : Text) (countHits : Bool)
    (reads : List (Except Fault Bytes)) (d : Drained) (stop : Option Fault)
    (h : drain f isFile cwd countHits reads = .ok (d, stop)) :
    d.counts.groups = d.tally.hits.length + d.tally.skipped + d.tally.unattributed ∧
      d.tally.reasons.total = d.tally.skipped ∧
      (∀ heading ∈ d.tally.reasons.keys, heading ∈ Malformation.headings) ∧
      ∃ counted known : Coverage,
        drain f isFile cwd true reads = .ok ({ d with coverage := counted }, stop) ∧
        drain f isFile cwd false reads = .ok ({ d with coverage := known }, stop) ∧
        counted.hitTotal = .whole d.tally.hits.length ∧
        known.paths = counted.paths ∧ (∀ path, known.lines path = counted.lines path) ∧
        ∀ path, ∀ line ∈ known.lines path, known.hits path line = .whole 1 := by
  obtain ⟨groups, dropped, os, follower, hscan, hfollows⟩ := follows_of_drain h
  -- What is followed does not depend on how hits are stored: one run gives all three drains.
  have hdrain := fun countHits => drain_of_follows stop countHits hscan hfollows
  obtain ⟨hpaths, hlines⟩ := addHits_congr (os.filterMap Outcome.hit?)
  rw [hdrain] at h
  cases h
  refine ⟨?_, Tally.total_reasons os, ?_, _, _, hdrain true, hdrain false, ?_, hpaths, hlines,
    fun path line => hits_addHits_known⟩
  · rw [Tally.hits_ofOutcomes, Tally.skipped_ofOutcomes, Tally.unattributed_ofOutcomes,
      ← hfollows.length_eq, List.length_map]
  · intro heading hheading
    obtain ⟨reason, hmem, rfl⟩ := Tally.exists_reason_of_mem_keys hheading
    exact hfollows.heading_mem reason hmem
  · rw [hitTotal_addHits, Tally.hits_ofOutcomes]

/-- One line is hit twice, and once its record lies across three reads; of the other
groups one has no source, one has a comma for a line number, one no directory and one a
single field with a comma and a quote in it. -/
theorem drain_accounts_doubled :
    let reads : List (Except Fault Bytes) :=
      [.ok [43, 97, 97, 49, 31, 47, 98, 31, 47, 31, 97], .ok [97, 43, 97], .ok [97, 49, 31, 47, 98],
        .ok [31, 47, 31, 97, 97, 43, 97, 97, 49, 31, 31, 47, 31, 97, 97],
        .ok [43, 97, 97, 44, 31, 31, 31, 97, 97, 43, 97, 97, 49, 31, 31, 31, 97, 97],
        .ok [43, 97, 97, 49, 44, 39, 97, 97], .ok []]
    let run := fun countHits => drain TraceFormat.doubled (fun _ => false) [47] countHits reads
    ∃ d : Drained, run true = .ok (d, none) ∧
      d.counts.groups = 6 ∧ d.tally.hits.length = 2 ∧ d.tally.skipped = 3 ∧
      d.tally.unattributed = 1 ∧ d.tally.reasons.total = 3 ∧
      ∃ counted known : Coverage, run true = .ok ({ d with coverage := counted }, none) ∧
        run false = .ok ({ d with coverage := known }, none) ∧ counted.hitTotal = .whole 2 ∧
        known.lines [47, 98] = counted.lines [47, 98] := by
  intro reads run
  have hdrain : run true =
      .ok (⟨⟨true, [([47, 98], [(1, .whole 2)])]⟩, ⟨6, 0⟩,
        ⟨[⟨[47, 98], 1, .hit⟩, ⟨[47, 98], 1, .hit⟩],
          [(.lineNumber [44], [[44], [], [], []]), (.noDirectory, [[49], [], [], []]),
            (.fieldCount 1, [[49, 44, 39]])], 3, 1,
          [("expected integer LINENO", 1), ("missing PWD", 1), ("expected 4 fields", 1)]⟩,
        ⟨⟨[⟨[47], []⟩], none⟩, [], []⟩, 0⟩, none) := by
    show drain TraceFormat.doubled (fun _ => false) [47] true reads = _
    cbv
  obtain ⟨-, htotal, -, counted, known, hcounted, hknown, hsum, -, hlines, -⟩ :=
    drain_accounts _ _ _ _ _ _ _ hdrain
  exact ⟨_, hdrain, rfl, rfl, rfl, rfl, htotal, counted, known, hcounted, hknown, hsum, hlines _⟩

end LineTrace
