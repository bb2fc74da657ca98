/-
LineTrace.Proofs.Trace.TornRecords — a record that was never closed costs
nothing but itself.

A log is a list of segments, whole records and torn ones in any order. A torn
body runs on to the markers of the segment behind it, and those markers still
open that segment: the group it makes is `Group.ofBody` of the tail and the
markers, and the walk is inside a record again (`groupsFrom_inner`). Torn
segments may follow one another, so the induction is over the segments behind
the opened one, for any opened one.

Such a group has fewer fields than a whole record, so following the groups
passes it by without a look at the directories (`Follower.Follows.filter_whole`).
`drain_torn_records` puts the two together.

A torn segment at the end is not told from a record that is still being
written: it makes no group and is not counted.
-/
import LineTrace.Proofs.Trace.Overlong
import LineTrace.Proofs.Trace.Recovery

namespace LineTrace

/-! ## 1. Segments -/

/-- A record without its closing delimiter. -/
structure TornRecord where
  depth : Nat
  tail : Bytes
  depth_pos : 0 < depth

/-- What a writer leaves in a log. -/
inductive Segment where
  | whole (r : RawRecord)
  | torn (t : TornRecord)

namespace Segment

/-- How often the marker of a segment is repeated. -/
def depth : Segment → Nat
  | whole r => r.depth
  | torn t => t.depth

/-- The record of a segment that is whole. -/
def record? : Segment → Option RawRecord
  | whole r => some r
  | torn _ => none

/-- Whether a segment is torn. -/
def isTorn : Segment → Bool
  | whole _ => false
  | torn _ => true

theorem depth_pos (s : Segment) : 0 < s.depth := by
  cases s with
  | whole r => exact r.depth_pos
  | torn t => exact t.depth_pos

@[simp] theorem record?_whole (r : RawRecord) : (whole r).record? = some r := rfl
@[simp] theorem record?_torn (t : TornRecord) : (torn t).record? = none := rfl
@[simp] theorem isTorn_whole (r : RawRecord) : (whole r).isTorn = false := rfl
@[simp] theorem isTorn_torn (t : TornRecord) : (torn t).isTorn = true := rfl

end Segment

namespace Wire

/-- A segment behind its opening. -/
def inner (w : Wire) : Segment → Bytes
  | .whole r => w.body r ++ w.delimiter ++ r.command
  | .torn t => t.tail

/-- Segments one after the other. -/
def segmentLog (w : Wire) (segments : List Segment) : Bytes :=
  segments.flatMap fun s => w.opening s.depth ++ w.inner s

/-- A whole segment is an intact record of four fields. A torn one holds no
delimiter behind its opening, and its last field is missing. -/
def Sound (w : Wire) : Segment → Prop
  | .whole r => w.Intact r ∧ r.fields.length = TraceFormat.fieldCount
  | .torn t => ¬ w.delimiter <:+: t.tail ∧ t.tail.count w.separator < 3

instance (w : Wire) : (s : Segment) → Decidable (w.Sound s)
  | .whole r => inferInstanceAs (Decidable (w.Intact r ∧ _))
  | .torn t => inferInstanceAs (Decidable (¬ w.delimiter <:+: t.tail ∧ _))

/-- The groups of segments: a torn one is a group together with the markers of
the segment behind it. -/
def segmentGroups (w : Wire) : List Segment → List Group
  | [] => []
  | .whole r :: rest => r.group :: segmentGroups w rest
  | [.torn _] => []
  | .torn t :: next :: rest =>
    Group.ofBody w.separator (t.tail ++ List.replicate next.depth TraceFormat.markerByte) ::
      segmentGroups w (next :: rest)

variable {w : Wire}

theorem segmentLog_cons (s : Segment) (rest : List Segment) :
    w.segmentLog (s :: rest) = w.opening s.depth ++ (w.inner s ++ w.segmentLog rest) := by
  simp [segmentLog]

/-- Without its torn segments a log is the log of its records. -/
theorem segmentLog_filter (segments : List Segment) :
    w.segmentLog (segments.filter (!·.isTorn)) = w.log (segments.filterMap Segment.record?) := by
  induction segments with
  | nil => rfl
  | cons s segments ih =>
    cases s with
    | whole r =>
      rw [List.filter_cons_of_pos (by simp), segmentLog_cons, ih, Segment.depth, inner,
        List.filterMap_cons_some (Segment.record?_whole r), log_cons]
      simp only [List.append_assoc]
    | torn t =>
      rw [List.filter_cons_of_neg (by simp), ih,
        List.filterMap_cons_none (Segment.record?_torn t)]

/-! ## 2. Reading segments -/

theorem Sound.length_group {r : RawRecord} (h : w.Sound (.whole r)) :
    r.group.fields.length = TraceFormat.fieldCount := by
  rw [RawRecord.group, RawRecord.decoded, List.length_map, h.2]

/-- A torn segment and markers behind it are a torn group. -/
theorem Sound.torn_ofBody (hsep : w.separator ≠ TraceFormat.markerByte) {t : TornRecord}
    (h : w.Sound (.torn t)) {depth : Nat} (hd : 0 < depth) :
    (Group.ofBody w.separator
      (t.tail ++ List.replicate depth TraceFormat.markerByte)).torn = true := by
  have hfew : t.tail.count w.separator < 3 := h.2
  have hcount : TraceFormat.fieldCount = 3 + 1 := rfl
  exact Wire.torn_ofBody hsep (by omega) hd

/-- Behind its opening any segment is read, and so are all segments behind it. -/
theorem groupsFrom_inner (hsep : w.separator ≠ TraceFormat.markerByte) {s : Segment}
    {rest : List Segment} (hsound : ∀ x ∈ s :: rest, w.Sound x) :
    w.groupsFrom true (w.inner s ++ w.segmentLog rest) = w.segmentGroups (s :: rest) := by
  induction rest generalizing s with
  | nil =>
    have hs := hsound s (by simp)
    cases s with
    | whole r =>
      obtain ⟨hintact, hfields⟩ := hs
      rw [inner, List.append_assoc, groupsFrom_intact hintact (.inl hfields), segmentLog,
        List.flatMap_nil, List.append_nil, groupsFrom_free hintact.commandFree]
      rfl
    | torn t =>
      rw [inner, segmentLog, List.flatMap_nil, List.append_nil, groupsFrom_free hs.1]
      rfl
  | cons next rest ih =>
    have hnext := ih (s := next) (fun x hx => hsound x (by simp [hx]))
    have hs := hsound s (by simp)
    cases s with
    | whole r =>
      obtain ⟨hintact, hfields⟩ := hs
      rw [inner, List.append_assoc, groupsFrom_intact hintact (.inl hfields), segmentLog_cons,
        groupsFrom_opening hintact.commandFree next.depth_pos, hnext, ← segmentGroups]
    | torn t =>
      rw [inner, segmentLog_cons, groupsFrom_opening_body hs.1 next.depth_pos,
        hs.torn_ofBody hsep next.depth_pos, hnext, ← segmentGroups]

theorem groups_segmentLog (hsep : w.separator ≠ TraceFormat.markerByte)
    {segments : List Segment} (hsound : ∀ s ∈ segments, w.Sound s) :
    w.groups (w.segmentLog segments) = w.segmentGroups segments := by
  cases segments with
  | nil => exact groupsFrom_free free_nil false
  | cons s rest =>
    rw [segmentLog_cons, groups, ← List.nil_append (w.opening s.depth ++ _),
      groupsFrom_opening free_nil s.depth_pos, groupsFrom_inner hsep hsound]

/-- The torn groups are those that are too short for records. -/
theorem torn_iff_of_mem_segmentGroups (hsep : w.separator ≠ TraceFormat.markerByte)
    {segments : List Segment} (hsound : ∀ s ∈ segments, w.Sound s) :
    ∀ g ∈ w.segmentGroups segments,
      (g.torn = true ↔ g.fields.length ≠ TraceFormat.fieldCount) := by
  fun_induction segmentGroups w segments with
  | case1 => simp
  | case2 r rest ih =>
    intro g hg
    rcases List.mem_cons.mp hg with rfl | hg
    · have hlength := (hsound (.whole r) (by simp)).length_group
      simp [RawRecord.group] at hlength ⊢
      exact hlength
    · exact ih (fun x hx => hsound x (by simp [hx])) g hg
  | case3 t => simp
  | case4 t next rest ih =>
    intro g hg
    rcases List.mem_cons.mp hg with rfl | hg
    · have htorn := (hsound (.torn t) (by simp)).torn_ofBody hsep next.depth_pos
      exact ⟨fun h => length_ne_of_torn_ofBody h, fun _ => htorn⟩
    · exact ih (fun x hx => hsound x (List.mem_cons_of_mem _ hx)) g hg

/-- Every torn segment but one at the end makes one torn group. -/
theorem countP_torn_segmentGroups (hsep : w.separator ≠ TraceFormat.markerByte)
    {segments : List Segment} (hsound : ∀ s ∈ segments, w.Sound s) :
    (w.segmentGroups segments).countP Group.torn = segments.dropLast.countP Segment.isTorn := by
  fun_induction segmentGroups w segments with
  | case1 => rfl
  | case2 r rest ih =>
    have hrest := ih (fun x hx => hsound x (by simp [hx]))
    rw [List.countP_cons_of_neg (by simp [RawRecord.group]), hrest]
    cases rest with
    | nil => rfl
    | cons next rest => simp
  | case3 t => rfl
  | case4 t next rest ih =>
    have hrest := ih (fun x hx => hsound x (List.mem_cons_of_mem _ hx))
    have htorn := (hsound (.torn t) (by simp)).torn_ofBody hsep next.depth_pos
    rw [List.countP_cons_of_pos htorn, hrest, List.dropLast_cons_cons,
      List.countP_cons_of_pos (by simp)]

theorem countP_short_segmentGroups (hsep : w.separator ≠ TraceFormat.markerByte)
    {segments : List Segment} (hsound : ∀ s ∈ segments, w.Sound s) :
    ((w.segmentGroups segments).map Group.fields).countP
      (·.length ≠ TraceFormat.fieldCount) = segments.dropLast.countP Segment.isTorn := by
  rw [List.countP_map, ← countP_torn_segmentGroups hsep hsound]
  refine List.countP_congr fun g hg => ?_
  simpa using (torn_iff_of_mem_segmentGroups hsep hsound g hg).symm

/-- The groups of a whole record's length are the whole records. -/
theorem filter_segmentGroups (hsep : w.separator ≠ TraceFormat.markerByte)
    {segments : List Segment} (hsound : ∀ s ∈ segments, w.Sound s) :
    ((w.segmentGroups segments).map Group.fields).filter (·.length = TraceFormat.fieldCount) =
      (segments.filterMap Segment.record?).map RawRecord.decoded := by
  fun_induction segmentGroups w segments with
  | case1 => rfl
  | case2 r rest ih =>
    have hlength := (hsound (.whole r) (by simp)).length_group
    rw [List.map_cons, List.filter_cons_of_pos (by simpa using hlength),
      ih (fun x hx => hsound x (by simp [hx])), List.filterMap_cons]
    rfl
  | case3 t => rfl
  | case4 t next rest ih =>
    have hlength := length_ne_of_torn_ofBody
      ((hsound (.torn t) (by simp)).torn_ofBody hsep next.depth_pos)
    rw [List.map_cons, List.filter_cons_of_neg (by simpa using hlength),
      ih (fun x hx => hsound x (List.mem_cons_of_mem _ hx)), List.filterMap_cons]
    rfl

/-- The groups of the records alone. -/
theorem groups_records {segments : List Segment} (hsound : ∀ s ∈ segments, w.Sound s) :
    w.groups (w.log (segments.filterMap Segment.record?)) =
      (segments.filterMap Segment.record?).map RawRecord.group := by
  have hrecord : ∀ r ∈ segments.filterMap Segment.record?, w.Sound (.whole r) := by
    intro r hr
    obtain ⟨s, hs, hrecord⟩ := List.mem_filterMap.mp hr
    cases s with
    | whole r' =>
      cases hrecord
      exact hsound _ hs
    | torn t => cases hrecord
  exact groups_log (fun r hr => (hrecord r hr).1) (fun r hr => .inl (hrecord r hr).2)

/-- What is left of the groups without the torn ones is what is read of the log
without the torn segments. -/
theorem groups_without_torn (hsep : w.separator ≠ TraceFormat.markerByte)
    {segments : List Segment} (hsound : ∀ s ∈ segments, w.Sound s) :
    (w.groups (w.segmentLog (segments.filter (!·.isTorn)))).map Group.fields =
      ((w.segmentGroups segments).map Group.fields).filter
        (·.length = TraceFormat.fieldCount) := by
  rw [segmentLog_filter, groups_records hsound, filter_segmentGroups hsep hsound, List.map_map]
  rfl

end Wire

/-! ## 3. Draining segments -/

namespace TraceFormat

variable {f : TraceFormat}

/-- The log of segments can be followed to its end. -/
theorem exists_follows_segmentGroups (isFile : Text → Bool) (cwd : Text) (hf : f.IsAscii)
    (hsep : (f.wire hf).separator ≠ markerByte) {segments : List Segment}
    (hsound : ∀ s ∈ segments, (f.wire hf).Sound s)
    (hlines : ∀ s ∈ segments, ∀ r ∈ s.record?, LineFits r.decoded) :
    ∃ os follower, Follower.Follows isFile cwd (Follower.start Directories.empty)
      (((f.wire hf).segmentGroups segments).map Group.fields) os follower := by
  refine Follower.exists_follows isFile cwd (fun g hg hlength => ?_) _
  have hwhole : g ∈ (segments.filterMap Segment.record?).map RawRecord.decoded := by
    rw [← Wire.filter_segmentGroups hsep hsound]
    exact List.mem_filter.mpr ⟨hg, by simpa using hlength⟩
  obtain ⟨r, hr, rfl⟩ := List.mem_map.mp hwhole
  obtain ⟨s, hs, hrecord⟩ := List.mem_filterMap.mp hr
  exact hlines s hs r hrecord

/-- With and without its torn segments a log drains to the same coverage, and
its records are the whole segments in order. What is counted as torn and what is
counted as skipped beyond that is the number of torn segments that another
segment follows. -/
theorem drain_torn_records (f : TraceFormat) (hf : f.IsAscii) (hsep : f.separator = unitSeparator)
    (isFile : Text → Bool) (cwd : Text) (countHits : Bool) (size : Nat) (hs : 0 < size)
    (segments : List Segment) (hsound : ∀ s ∈ segments, (f.wire hf).Sound s)
    (hlines : ∀ s ∈ segments, ∀ r ∈ s.record?, LineFits r.decoded) :
    let w := f.wire hf
    let run := fun log => drain f isFile cwd countHits (readsOf size log)
    let followed := segments.dropLast.countP Segment.isTorn
    ∃ d d' : Drained, run (w.segmentLog segments) = .ok (d, none) ∧
      run (w.segmentLog (segments.filter (!·.isTorn))) = .ok (d', none) ∧
      d.coverage = d'.coverage ∧ d.tally.unattributed = d'.tally.unattributed ∧
      ((f.scan (readsOf size (w.segmentLog segments))).groups.map Group.fields).filter
          (·.length = fieldCount) = (segments.filterMap Segment.record?).map RawRecord.decoded ∧
      d.counts.resyncs = followed ∧ d.tally.skipped = d'.tally.skipped + followed := by
  intro w run followed
  have hmarker := separator_ne_marker hf hsep
  have hgroups := Wire.groups_segmentLog hmarker hsound
  obtain ⟨os, follower, hfollows⟩ :=
    exists_follows_segmentGroups isFile cwd hf hmarker hsound hlines
  obtain ⟨os', hfollows', hhits, hnone, hskipped⟩ := hfollows.filter_whole
  rw [← Wire.groups_without_torn hmarker hsound] at hfollows'
  rw [← hgroups] at hfollows
  obtain ⟨d, hd, hcoverage, htally, hcounts⟩ := drain_readsOf hf countHits hs hfollows
  obtain ⟨d', hd', hcoverage', htally', -⟩ := drain_readsOf hf countHits hs hfollows'
  refine ⟨d, d', hd, hd', ?_, ?_, ?_, ?_, ?_⟩
  · rw [hcoverage, hcoverage', hhits]
  · rw [htally, htally', Tally.unattributed_ofOutcomes, Tally.unattributed_ofOutcomes, hnone]
  · rw [scan_readsOf hf hs, hgroups, Wire.filter_segmentGroups hmarker hsound]
  · rw [hcounts, hgroups, Wire.countP_torn_segmentGroups hmarker hsound]
  · rw [htally, htally', Tally.skipped_ofOutcomes, Tally.skipped_ofOutcomes, hskipped,
      Wire.countP_short_segmentGroups hmarker hsound]

/-- Two torn segments in a row, the second with part of the delimiter at its
end, and one at the end of the log. -/
theorem drain_torn_records_doubled :
    let first : RawRecord := ⟨1, [[49], [], [47, 120], []], [10], by decide, by decide⟩
    let second : RawRecord := ⟨2, [[50], [98], [47, 120], [43]], [], by decide, by decide⟩
    let segments : List Segment :=
      [.torn ⟨1, [49, 31], by decide⟩, .torn ⟨2, [43, 97], by decide⟩, .whole first,
        .torn ⟨1, [], by decide⟩, .whole second, .torn ⟨1, [97], by decide⟩]
    let w := doubled.wire doubled_isAscii
    let run := fun log =>
      drain doubled (· = [47, 120, 47, 98]) [47] true (readsOf 3 log)
    (∀ s ∈ segments, w.Sound s) ∧
      ∃ d d' : Drained, run (w.segmentLog segments) = .ok (d, none) ∧
        run (w.segmentLog [.whole first, .whole second]) = .ok (d', none) ∧
        d.coverage = d'.coverage ∧ d.counts.resyncs = 3 ∧
        d.tally.skipped = d'.tally.skipped + 3 := by
  intro first second segments w run
  have hsound : ∀ s ∈ segments, w.Sound s := by decide
  have hlines : ∀ s ∈ segments, ∀ r ∈ s.record?, LineFits r.decoded := by
    have hfirst : LineFits first.decoded := by
      rw [RawRecord.decoded_ascii (by simp [first])]
      exact lineFits_of_length_le rfl (by decide)
    have hsecond : LineFits second.decoded := by
      rw [RawRecord.decoded_ascii (by simp [second])]
      exact lineFits_of_length_le rfl (by decide)
    simp [segments, hfirst, hsecond]
  obtain ⟨d, d', hd, hd', hcoverage, -, -, hresyncs, hskipped⟩ :=
    drain_torn_records doubled doubled_isAscii rfl (· = [47, 120, 47, 98]) [47] true 3 (by decide)
      segments hsound hlines
  exact ⟨hsound, d, d', hd, hd', hcoverage, hresyncs, hskipped⟩

end TraceFormat

end LineTrace
