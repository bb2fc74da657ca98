/-
LineTrace.Proofs.Trace.Truncation — a log that is cut anywhere gives the
records that it still holds whole.

`groups_of_truncated_log`: of a log of intact records any beginning is kept,
and the pass over it gives exactly the fields of the records whose closing
delimiter lies within it, in order, whatever the size of the chunks. A cut
inside a delimiter, inside a marker or inside a command is a cut like any
other.

The induction is over the records, behind the command text of the record
before (`groupsFrom_take`). Where the cut falls before a delimiter is complete
nothing more is read, because a text that its delimiter ends first holds no
delimiter when it is cut short (`Text.EndedBy.free_take`).

A body of another number of fields than a whole record has must not end with
the marker: it would be taken for torn. This is the only thing asked that does
not concern the delimiter.
-/
import LineTrace.Proofs.Trace.Wire

namespace LineTrace.Wire

/-- The records whose closing delimiter lies within the first `cut` bytes,
where the first record starts at byte `start`. -/
def closedWithin (w : Wire) (cut : Nat) : (start : Nat) → List RawRecord → List RawRecord
  | _, [] => []
  | start, r :: rest =>
    if start + (w.head r).length ≤ cut then
      r :: closedWithin w cut (start + (w.written r).length) rest
    else closedWithin w cut (start + (w.written r).length) rest

variable {w : Wire}

theorem length_head (r : RawRecord) :
    (w.head r).length =
      r.depth + w.delimiter.length + ((w.body r).length + w.delimiter.length) := by
  simp only [head, opening, List.length_append, List.length_replicate]

theorem length_written (r : RawRecord) :
    (w.written r).length = (w.head r).length + r.command.length := by
  simp [written]

theorem closedWithin_eq_nil {cut start : Nat} (h : cut ≤ start) (rs : List RawRecord) :
    w.closedWithin cut start rs = [] := by
  induction rs generalizing start with
  | nil => rfl
  | cons r rs ih =>
    have hpos := r.depth_pos
    rw [closedWithin, if_neg (by rw [length_head]; omega), ih (by omega)]

/-- Once a record is not closed within the cut, no later one is. -/
theorem closedWithin_cons_of_lt {cut start : Nat} {r : RawRecord}
    (h : cut < start + (w.head r).length) (rs : List RawRecord) :
    w.closedWithin cut start (r :: rs) = [] := by
  rw [closedWithin, if_neg (by omega), closedWithin_eq_nil (by rw [length_written]; omega)]

/-- A cut that leaves no whole delimiter leaves no group. -/
theorem groupsFrom_take_of_lt {t : Bytes} (ht : Text.EndedBy w.delimiter t) {n : Nat}
    (hn : n < (t ++ w.delimiter).length) (mode : Bool) (rest : Bytes) :
    w.groupsFrom mode ((t ++ w.delimiter ++ rest).take n) = [] := by
  rw [List.take_append_of_le_length (by omega)]
  exact groupsFrom_free (ht.free_take hn) mode

/-- An opening that is cut short opens nothing. -/
theorem groupsFrom_take_opening {t : Bytes} (ht : ¬ w.delimiter <:+: t) {depth : Nat}
    (h : 0 < depth) (rest : Bytes) (n : Nat) :
    w.groupsFrom false ((t ++ (w.opening depth ++ rest)).take n) =
      if n < t.length + (w.opening depth).length then []
      else w.groupsFrom true (rest.take (n - (t.length + (w.opening depth).length))) := by
  have hopened : t ++ w.opening depth =
      t ++ List.replicate depth TraceFormat.markerByte ++ w.delimiter := by
    rw [opening, List.append_assoc]
  rw [← List.length_append, ← List.append_assoc]
  split
  · rename_i hn
    rw [hopened] at hn ⊢
    exact groupsFrom_take_of_lt (Text.endedBy_append_replicate w.marker_notMem ht h) hn false rest
  · rename_i hn
    rw [List.take_append, List.take_of_length_le (by omega), List.append_assoc,
      groupsFrom_opening ht h]

/-- A body that is cut short is no group. -/
theorem groupsFrom_take_intact {r : RawRecord} (hr : w.Intact r)
    (hclosed : r.fields.length = TraceFormat.fieldCount ∨ opensRecord (w.body r) = false)
    (rest : Bytes) (n : Nat) :
    w.groupsFrom true ((w.body r ++ w.delimiter ++ rest).take n) =
      if n < (w.body r ++ w.delimiter).length then []
      else r.group :: w.groupsFrom false (rest.take (n - (w.body r ++ w.delimiter).length)) := by
  split
  · rename_i hn
    exact groupsFrom_take_of_lt hr.bodyEnded hn true rest
  · rename_i hn
    rw [List.take_append, List.take_of_length_le (by omega), groupsFrom_intact hr hclosed]

/-- The groups of a cut log, behind what the record before left. -/
theorem groupsFrom_take {rs : List RawRecord} (hintact : ∀ r ∈ rs, w.Intact r)
    (hclosed : ∀ r ∈ rs,
      r.fields.length = TraceFormat.fieldCount ∨ opensRecord (w.body r) = false)
    {t : Bytes} (ht : ¬ w.delimiter <:+: t) {n start cut : Nat}
    (hn : n + start = cut + t.length) :
    w.groupsFrom false ((t ++ w.log rs).take n) =
      (w.closedWithin cut start rs).map RawRecord.group := by
  induction rs generalizing t n start with
  | nil =>
    refine groupsFrom_free (fun h => ht (h.trans ?_)) false
    simpa [log_nil] using (List.take_prefix n t).isInfix
  | cons r rs ih =>
    have hr := hintact r (by simp)
    have hhead := length_head (w := w) r
    have hwritten := length_written (w := w) r
    have hopening : (w.opening r.depth).length = r.depth + w.delimiter.length := by
      rw [opening, List.length_append, List.length_replicate]
    have hbody : (w.body r ++ w.delimiter).length = (w.body r).length + w.delimiter.length :=
      List.length_append
    rw [log_cons, groupsFrom_take_opening ht r.depth_pos]
    split
    · -- the cut comes before the opening is complete
      rw [closedWithin_cons_of_lt (by omega), List.map_nil]
    · rw [groupsFrom_take_intact hr (hclosed r (by simp))]
      split
      · -- the cut comes before the closing delimiter is complete
        rw [closedWithin_cons_of_lt (by omega), List.map_nil]
      · have hrest : n - (t.length + (w.opening r.depth).length) -
            (w.body r ++ w.delimiter).length + (start + (w.written r).length) =
              cut + r.command.length := by
          omega
        rw [ih (fun x hx => hintact x (by simp [hx])) (fun x hx => hclosed x (by simp [hx]))
          hr.commandFree hrest, closedWithin, if_pos (by omega), List.map_cons]

end LineTrace.Wire

namespace LineTrace.TraceFormat

/-- A log of intact records that is cut anywhere gives, in chunks of any size,
the fields of the records that are closed within the cut, in order; no torn
body is met. -/
theorem groups_of_truncated_log (f : TraceFormat) (hf : f.IsAscii) (size : Nat) (hs : 0 < size)
    (rs : List RawRecord) (hintact : ∀ r ∈ rs, (f.wire hf).Intact r)
    (hclosed : ∀ r ∈ rs, r.fields.length = fieldCount ∨
      ((f.wire hf).body r).getLast? ≠ some markerByte) (cut : Nat) :
    let w := f.wire hf
    let pass := f.scan (readsOf size ((w.log rs).take cut))
    pass.groups.map Group.fields = (w.closedWithin cut 0 rs).map RawRecord.decoded ∧
      pass.stopped = none ∧
      (∀ counts : StreamCounts, (counts.afterPass pass).resyncs = counts.resyncs) ∧
      ∀ r ∈ rs, r.fields.length = fieldCount →
        w.written r =
          List.replicate r.depth markerByte ++
            (fillPlaces false r.fields f.template.tail ++ r.command) := by
  intro w pass
  have hgroups : w.groups ((w.log rs).take cut) =
      (w.closedWithin cut 0 rs).map RawRecord.group := by
    refine Wire.groupsFrom_take hintact (fun r hr => ?_) Wire.free_nil (by simp)
    refine (hclosed r hr).imp_right fun h => ?_
    simpa [opensRecord] using h
  have hpass : pass.groups = (w.closedWithin cut 0 rs).map RawRecord.group := by
    rw [← hgroups]
    exact congrArg Pass.groups (scan_readsOf hf hs _)
  refine ⟨?_, congrArg Pass.stopped (scan_readsOf hf hs _), fun counts => ?_, ?_⟩
  · rw [hpass, List.map_map]
    rfl
  · have htorn : pass.groups.countP Group.torn = 0 := by
      rw [hpass, List.countP_eq_zero]
      intro g hg
      obtain ⟨r, _, rfl⟩ := List.mem_map.mp hg
      simp [RawRecord.group]
    simp [StreamCounts.afterPass, htorn]
  · intro r _ hr
    exact written_eq_template hf hr

/-- Markers, a line break and half a delimiter stand in the fields and in the
command of the first record; the cut splits the closing delimiter of the
second. -/
theorem groups_of_truncated_log_doubled :
    let first : RawRecord :=
      ⟨2, [[49], [43], [10, 97, 43], [98, 43]], [97, 43, 10], by decide, by decide⟩
    let second : RawRecord := ⟨1, [[120]], [], by decide, by decide⟩
    let w := doubled.wire doubled_isAscii
    w.Intact first ∧ w.Intact second ∧
      first.fields.length = fieldCount ∧ (w.body second).getLast? ≠ some markerByte ∧
      (doubled.scan (readsOf 3 ((w.log [first, second]).take 24))).groups.map Group.fields =
        [first.decoded] := by
  intro first second w
  exact ⟨by decide, by decide, by decide, by decide,
    (groups_of_truncated_log doubled doubled_isAscii 3 (by decide) [first, second] (by decide)
      (by decide) 24).1⟩

end LineTrace.TraceFormat
