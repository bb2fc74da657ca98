/-
LineTrace.Proofs.Trace.Writers — several writers, one log.

Each writer appends its records one after the other, each record by one append,
and a schedule says whose turn it is. `SharedLog.Reached` is what every state of
such a log keeps to: its bytes are the records appended so far, each writer's
records stand in it in that writer's order, and together with what is still to
be appended they are all records there are.

Whatever the schedule, the finished log drains to the same coverage and the same
counts (`drain_of_writers`), if every record is self-located. Nothing else is
asked of the schedule, and the records may even be put in an order that no
writers produce: what is counted is a function of each record by itself
(`Follower.Follows.alone`), and counting does not look at the order.
-/
import LineTrace.Proofs.Trace.Attribution
import LineTrace.Proofs.Trace.Overlong
import LineTrace.Proofs.Trace.Wire

namespace LineTrace

/-! ## 1. Appending -/

/-- What each writer has still to append, the records appended with their
writers, and the log. -/
structure SharedLog where
  pending : List (List RawRecord)
  appended : List (Nat × RawRecord)
  bytes : Bytes

namespace SharedLog

/-- Nothing is written yet. -/
def start (writers : List (List RawRecord)) : SharedLog := ⟨writers, [], []⟩

/-- The writer of a number appends its next record, if it has one. -/
def append (w : Wire) (s : SharedLog) (i : Nat) : SharedLog :=
  match s.pending[i]? with
  | some (r :: rest) =>
    ⟨s.pending.set i rest, s.appended ++ [(i, r)], s.bytes ++ w.written r⟩
  | _ => s

/-- The log after the writers' turns in the order of a schedule. -/
def run (w : Wire) (writers : List (List RawRecord)) (schedule : List Nat) : SharedLog :=
  schedule.foldl (append w) (start writers)

/-- Whether every writer has appended all its records. -/
def Done (s : SharedLog) : Prop := ∀ rs ∈ s.pending, rs = []

/-- The records that a writer has appended, in the order of the log. -/
def writtenBy (s : SharedLog) (i : Nat) : List RawRecord :=
  (s.appended.filter (·.1 = i)).map Prod.snd

/-- What holds of a log at any time. -/
structure Reached (w : Wire) (writers : List (List RawRecord)) (s : SharedLog) : Prop where
  bytes : s.bytes = w.log (s.appended.map Prod.snd)
  inOrder : ∀ i, s.writtenBy i ++ s.pending.getD i [] = writers.getD i []
  complete : (s.appended.map Prod.snd ++ s.pending.flatten).Perm writers.flatten

variable {w : Wire} {writers : List (List RawRecord)} {s : SharedLog}

theorem reached_start : (start writers).Reached w writers where
  bytes := rfl
  inOrder := fun _ => rfl
  complete := List.Perm.refl _

/-- Taking the first record from one of several lists takes it from all of
them together. -/
theorem flatten_set_perm {lists : List (List RawRecord)} {i : Nat} {r : RawRecord}
    {rest : List RawRecord} (h : lists[i]? = some (r :: rest)) :
    (r :: (lists.set i rest).flatten).Perm lists.flatten := by
  induction lists generalizing i with
  | nil => simp at h
  | cons rs lists ih =>
    cases i with
    | zero =>
      simp only [List.getElem?_cons_zero, Option.some.injEq] at h
      rw [h]
      exact List.Perm.refl _
    | succ i =>
      rw [List.getElem?_cons_succ] at h
      rw [List.set_cons_succ, List.flatten_cons, List.flatten_cons]
      exact List.perm_middle.symm.trans ((ih h).append_left rs)

/-- What an append leaves to its writer, and to the others. -/
theorem getD_set {lists : List (List RawRecord)} {i : Nat} (rest : List RawRecord)
    (hi : i < lists.length) (j : Nat) :
    (lists.set i rest).getD j [] = if j = i then rest else lists.getD j [] := by
  rw [List.getD_eq_getElem?_getD, List.getD_eq_getElem?_getD]
  by_cases hj : j = i
  · rw [if_pos hj, hj, List.getElem?_set_self hi, Option.getD_some]
  · rw [if_neg hj, List.getElem?_set_ne (Ne.symm hj)]

theorem writtenBy_append (s : SharedLog) (i : Nat) (r : RawRecord) (pending : List (List RawRecord))
    (bytes : Bytes) (j : Nat) :
    writtenBy ⟨pending, s.appended ++ [(i, r)], bytes⟩ j =
      s.writtenBy j ++ if j = i then [r] else [] := by
  rw [writtenBy, writtenBy, List.filter_append, List.map_append]
  by_cases hj : j = i
  · simp [hj]
  · simp [hj, Ne.symm hj]

theorem Reached.append (hs : s.Reached w writers) (i : Nat) :
    (s.append w i).Reached w writers := by
  unfold SharedLog.append
  split
  · rename_i r rest hnext
    have hi : i < s.pending.length := (List.getElem?_eq_some_iff.mp hnext).1
    refine ⟨?_, fun j => ?_, ?_⟩
    · simp [hs.bytes, Wire.log]
    · have horder := hs.inOrder j
      rw [writtenBy_append, getD_set rest hi]
      by_cases hj : j = i
      · rw [hj, List.getD_eq_getElem?_getD, hnext, Option.getD_some] at horder
        rw [if_pos hj, if_pos hj, hj, List.append_assoc, List.singleton_append, horder]
      · rw [if_neg hj, if_neg hj, List.append_nil, horder]
    · have hrest := (flatten_set_perm hnext).append_left (s.appended.map Prod.snd)
      simpa using hrest.trans hs.complete
  · exact hs

theorem Reached.foldl (hs : s.Reached w writers) (schedule : List Nat) :
    (schedule.foldl (SharedLog.append w) s).Reached w writers := by
  induction schedule generalizing s with
  | nil => exact hs
  | cons i schedule ih => exact ih (hs.append i)

/-- Every schedule keeps to it. -/
theorem reached_run (schedule : List Nat) : (run w writers schedule).Reached w writers :=
  reached_start.foldl schedule

/-- A finished log holds all records. -/
theorem Reached.perm (hs : s.Reached w writers) (h : s.Done) :
    (s.appended.map Prod.snd).Perm writers.flatten := by
  have hempty : s.pending.flatten = [] := List.flatten_eq_nil_iff.mpr h
  simpa [hempty] using hs.complete

/-- A finished log holds each writer's records in that writer's order. -/
theorem Reached.writtenBy_eq (hs : s.Reached w writers) (h : s.Done) (i : Nat) :
    s.writtenBy i = writers.getD i [] := by
  have hempty : s.pending.getD i [] = [] := by
    rw [List.getD_eq_getElem?_getD]
    cases hpending : s.pending[i]? with
    | none => rfl
    | some rs => exact h rs (List.mem_of_getElem? hpending)
  have horder := hs.inOrder i
  rwa [hempty, List.append_nil] at horder

end SharedLog

/-! ## 2. Draining -/

/-- Outcomes that are the same up to their order, and up to how they moved the
stack, are counted the same. -/
theorem Drained.agrees_of_perm {d d' : Drained} {countHits : Bool} {os os' : List Outcome}
    (hcoverage : d.coverage = (Coverage.empty countHits).addHits (os.filterMap Outcome.hit?))
    (htally : d.tally = Tally.ofOutcomes os)
    (hcoverage' : d'.coverage = (Coverage.empty countHits).addHits (os'.filterMap Outcome.hit?))
    (htally' : d'.tally = Tally.ofOutcomes os')
    (h : (os.map Outcome.still).Perm (os'.map Outcome.still)) : d.Agrees d' := by
  have hreasons := reasons_perm_of_still h
  refine ⟨?_, ?_, ?_, fun heading => ?_⟩
  · rw [hcoverage, hcoverage']
    exact Coverage.same_addHits (occurrences_of_still h)
  · rw [htally, htally', Tally.skipped_ofOutcomes, Tally.skipped_ofOutcomes, hreasons.length_eq]
  · rw [htally, htally', Tally.unattributed_ofOutcomes, Tally.unattributed_ofOutcomes,
      countP_isUnattributed_of_still h]
  · rw [htally, htally', Tally.reasons_ofOutcomes, Tally.reasons_ofOutcomes,
      Tally.get?_foldl_countReason, Tally.get?_foldl_countReason, hreasons.countP_eq]

namespace TraceFormat

variable {f : TraceFormat} {isFile : Text → Bool}

/-- A record of four fields that can be told from what stands around it, whose
line number can be converted and whose source is found from itself. -/
structure Plain (f : TraceFormat) (hf : f.IsAscii) (isFile : Text → Bool) (r : RawRecord) :
    Prop where
  intact : (f.wire hf).Intact r
  whole : r.fields.length = fieldCount
  line : LineFits r.decoded
  located : SelfLocated isFile r.decoded

theorem Plain.of_decoded {hf : f.IsAscii} {r : RawRecord} {line : Text} {rest : List Text}
    (hintact : (f.wire hf).Intact r) (hwhole : r.fields.length = fieldCount)
    (hdecoded : r.decoded = line :: rest) (hline : line.length ≤ Text.digitLimit)
    (hlocated : SelfLocated isFile (line :: rest)) : Plain f hf isFile r where
  intact := hintact
  whole := hwhole
  line := hdecoded ▸ lineFits_of_length_le rfl hline
  located := hdecoded ▸ hlocated

/-- The groups of such records are the records. -/
theorem Plain.groups_log {hf : f.IsAscii} {rs : List RawRecord}
    (h : ∀ r ∈ rs, Plain f hf isFile r) :
    ((f.wire hf).groups ((f.wire hf).log rs)).map Group.fields = rs.map RawRecord.decoded := by
  rw [Wire.groups_log (fun r hr => (h r hr).intact) (fun r hr => .inl (h r hr).whole),
    List.map_map]
  rfl

/-- A log of such records is drained, and its outcomes are those of the records
by themselves. -/
theorem Plain.drain_log {hf : f.IsAscii} {rs : List RawRecord}
    (h : ∀ r ∈ rs, Plain f hf isFile r) (cwd : Text) (countHits : Bool) {size : Nat}
    (hs : 0 < size) :
    ∃ d os, drain f isFile cwd countHits (readsOf size ((f.wire hf).log rs)) = .ok (d, none) ∧
      d.coverage = (Coverage.empty countHits).addHits (os.filterMap Outcome.hit?) ∧
      d.tally = Tally.ofOutcomes os ∧
      os.map Outcome.still =
        (rs.map RawRecord.decoded).filterMap fun g => (Outcome.alone g).toOption := by
  have hgroups := Plain.groups_log h
  have hfits : ∀ g ∈ rs.map RawRecord.decoded, g.length = fieldCount → LineFits g := by
    intro g hg _
    obtain ⟨r, hr, rfl⟩ := List.mem_map.mp hg
    exact (h r hr).line
  have hlocated : ∀ g ∈ rs.map RawRecord.decoded, SelfLocated isFile g := by
    intro g hg
    obtain ⟨r, hr, rfl⟩ := List.mem_map.mp hg
    exact (h r hr).located
  obtain ⟨os, follower, hfollows⟩ :=
    Follower.exists_follows isFile cwd hfits (Follower.start Directories.empty)
  have hstill := hfollows.alone Follower.coherent_start hlocated
  rw [← hgroups] at hfollows
  obtain ⟨d, hd, hcoverage, htally, -⟩ := drain_readsOf hf countHits hs hfollows
  exact ⟨d, os, hd, hcoverage, htally, hstill⟩

/-- Whatever order the records of several writers come in, the drained log has
the same coverage and the same counts. Whatever the schedule of their appends,
the finished log is such an order, and its groups are the records with each
writer's own in that writer's order. -/
theorem drain_of_writers (f : TraceFormat) (hf : f.IsAscii) (isFile : Text → Bool) (cwd : Text)
    (countHits : Bool) (size : Nat) (hs : 0 < size) (writers : List (List RawRecord))
    (h : ∀ r ∈ writers.flatten, Plain f hf isFile r) :
    let w := f.wire hf
    let run := fun log => drain f isFile cwd countHits (readsOf size log)
    (∀ rs rs' : List RawRecord, rs.Perm writers.flatten → rs'.Perm writers.flatten →
      ∃ d d', run (w.log rs) = .ok (d, none) ∧ run (w.log rs') = .ok (d', none) ∧
        d.Agrees d') ∧
    ∀ schedule : List Nat, let s := SharedLog.run w writers schedule
      s.Done →
        s.bytes = w.log (s.appended.map Prod.snd) ∧
        (s.appended.map Prod.snd).Perm writers.flatten ∧
        (f.scan (readsOf size s.bytes)).groups.map Group.fields =
          s.appended.map (fun entry => entry.2.decoded) ∧
        ∀ i, s.writtenBy i = writers.getD i [] := by
  intro w run
  constructor
  · intro rs rs' hperm hperm'
    obtain ⟨d, os, hd, hcoverage, htally, hstill⟩ :=
      Plain.drain_log (fun r hr => h r (hperm.mem_iff.mp hr)) cwd countHits hs
    obtain ⟨d', os', hd', hcoverage', htally', hstill'⟩ :=
      Plain.drain_log (fun r hr => h r (hperm'.mem_iff.mp hr)) cwd countHits hs
    refine ⟨d, d', hd, hd', Drained.agrees_of_perm hcoverage htally hcoverage' htally' ?_⟩
    rw [hstill, hstill']
    exact ((hperm.trans hperm'.symm).map RawRecord.decoded).filterMap _
  · intro schedule s hdone
    have hreached : s.Reached w writers := SharedLog.reached_run schedule
    have hperm := hreached.perm hdone
    have hplain : ∀ r ∈ s.appended.map Prod.snd, Plain f hf isFile r :=
      fun r hr => h r (hperm.mem_iff.mp hr)
    refine ⟨hreached.bytes, hperm, ?_, hreached.writtenBy_eq hdone⟩
    rw [scan_readsOf hf hs, hreached.bytes, Plain.groups_log hplain, List.map_map]
    rfl

/-- A record with a relative source and one without a source, and one without a
directory by another writer, who has the first turn. -/
theorem drain_of_writers_doubled :
    let relative : RawRecord := ⟨1, [[49], [98], [47, 120], []], [10], by decide, by decide⟩
    let prompt : RawRecord := ⟨2, [[50], [], [47], [47, 120]], [43], by decide, by decide⟩
    let broken : RawRecord := ⟨1, [[51], [98], [], [98]], [], by decide, by decide⟩
    let writers := [[relative, prompt], [broken]]
    let isFile : Text → Bool := (· = [47, 120, 47, 98])
    let w := doubled.wire doubled_isAscii
    let run := fun log => drain doubled isFile [47] true (readsOf 5 log)
    let s := SharedLog.run w writers [1, 0, 0]
    (∀ r ∈ writers.flatten, Plain doubled doubled_isAscii isFile r) ∧ s.Done ∧
      ∃ d d', run (w.log writers.flatten) = .ok (d, none) ∧ run s.bytes = .ok (d', none) ∧
        d.Agrees d' := by
  intro relative prompt broken writers isFile w run s
  have hrelative : Plain doubled doubled_isAscii isFile relative := by
    refine .of_decoded (by decide) (by decide) (RawRecord.decoded_ascii (by simp [relative]))
      (by decide) fun r hr => ?_
    cases hr
    exact .inr (.inr (by decide))
  have hprompt : Plain doubled doubled_isAscii isFile prompt := by
    refine .of_decoded (by decide) (by decide) (RawRecord.decoded_ascii (by simp [prompt]))
      (by decide) fun r hr => ?_
    cases hr
    exact .inl rfl
  have hbroken : Plain doubled doubled_isAscii isFile broken := by
    refine .of_decoded (by decide) (by decide) (RawRecord.decoded_ascii (by simp [broken]))
      (by decide) fun r hr => ?_
    cases hr
  have hplain : ∀ r ∈ writers.flatten, Plain doubled doubled_isAscii isFile r := by
    simp [writers, hrelative, hprompt, hbroken]
  have hdone : s.Done := by
    have hpending : s.pending = [[], []] := rfl
    simp [SharedLog.Done, hpending]
  obtain ⟨horders, hschedules⟩ :=
    drain_of_writers doubled doubled_isAscii isFile [47] true 5 (by decide) writers hplain
  obtain ⟨hbytes, hperm, -, -⟩ := hschedules [1, 0, 0] hdone
  obtain ⟨d, d', hd, hd', hagrees⟩ := horders _ _ (List.Perm.refl _) hperm
  rw [← hbytes] at hd'
  exact ⟨hplain, hdone, d, d', hd, hd', hagrees⟩

end TraceFormat

end LineTrace
