/-
LineTrace.Proofs.Trace.Recovery — whatever stands in a log, the reading of it
recovers.

`groups_after_garbage`: behind any bytes at all, of whole intact records at most
the first is lost. The bytes before leave the walk in one of two modes, and
with a text that no delimiter has ended. Outside a record the first opening is
found and nothing is lost. Inside a record the text and the markers of the
first record are taken for a body, and there are three ways on:

* the body has a wrong number of fields: it is torn, and its markers open the
  first record after all (`groupsFrom_torn_log`);
* it has the right number by chance, and the first record's body does not end
  with the marker: that body is skipped, and the second record is found;
* or it does end with the marker: the first record's command is taken for a
  body. Here the condition on commands is needed. A command with exactly as
  many separators as a whole record has would pass for one, and the loss would
  go on.
-/
import LineTrace.Proofs.Trace.Wire

namespace LineTrace.Wire

variable {w : Wire}

/-- A torn body costs the record behind it nothing. -/
theorem groupsFrom_torn_log (hsep : w.separator ≠ TraceFormat.markerByte) {r : RawRecord}
    {rs : List RawRecord} (hintact : ∀ x ∈ r :: rs, w.Intact x)
    (hcount : ∀ x ∈ r :: rs, x.fields.length = TraceFormat.fieldCount) {t : Bytes}
    (ht : ¬ w.delimiter <:+: t) (hfew : t.count w.separator + 1 ≠ TraceFormat.fieldCount) :
    w.groupsFrom true (t ++ w.log (r :: rs)) =
      Group.ofBody w.separator (t ++ List.replicate r.depth TraceFormat.markerByte) ::
        (r :: rs).map RawRecord.group := by
  have hr := hintact r (by simp)
  rw [log_cons, groupsFrom_opening_body ht r.depth_pos, torn_ofBody hsep hfew r.depth_pos,
    groupsFrom_intact hr (.inl (hcount r (by simp))),
    groupsFrom_log (fun x hx => hintact x (by simp [hx]))
      (fun x hx => .inl (hcount x (by simp [hx]))) hr.commandFree, List.map_cons]

/-- A walk that starts inside a record loses at most the first intact one. -/
theorem suffix_groupsFrom_true (hsep : w.separator ≠ TraceFormat.markerByte) {first : RawRecord}
    {rest : List RawRecord} (hintact : ∀ r ∈ first :: rest, w.Intact r)
    (hcount : ∀ r ∈ first :: rest, r.fields.length = TraceFormat.fieldCount)
    (hcommand : ∀ r ∈ first :: rest,
      r.command.count w.separator + 1 ≠ TraceFormat.fieldCount) {t : Bytes}
    (ht : ¬ w.delimiter <:+: t) :
    rest.map RawRecord.group <:+ w.groupsFrom true (t ++ w.log (first :: rest)) := by
  have hfirst := hintact first (by simp)
  have hrest : w.groupsFrom false (first.command ++ w.log rest) = rest.map RawRecord.group :=
    groupsFrom_log (fun x hx => hintact x (by simp [hx]))
      (fun x hx => .inl (hcount x (by simp [hx]))) hfirst.commandFree
  rw [log_cons, groupsFrom_opening_body ht first.depth_pos]
  cases htorn : (Group.ofBody w.separator
      (t ++ List.replicate first.depth TraceFormat.markerByte)).torn with
  | true =>
    rw [groupsFrom_intact hfirst (.inl (hcount first (by simp))), hrest]
    exact ⟨[_, _], rfl⟩
  | false =>
    -- the first record's body is a piece that may open a record
    rw [groupsFrom_outside hfirst.bodyEnded]
    cases hopens : opensRecord (w.body first) with
    | false =>
      rw [hrest]
      exact List.suffix_cons _ _
    | true =>
      cases rest with
      | nil => exact List.nil_suffix
      | cons second rest =>
        rw [groupsFrom_torn_log hsep (fun x hx => hintact x (by simp [hx]))
          (fun x hx => hcount x (by simp [hx])) hfirst.commandFree (hcommand first (by simp))]
        exact ⟨[_, _], rfl⟩

end LineTrace.Wire

namespace LineTrace.TraceFormat

variable {f : TraceFormat}

theorem separator_ne_marker (hf : f.IsAscii) (h : f.separator = unitSeparator) :
    (f.wire hf).separator ≠ markerByte := by
  simp only [wire, h]
  decide

/-- Behind any bytes whatever, the groups end with the fields of all intact
records but the first. -/
theorem groups_after_garbage (f : TraceFormat) (hf : f.IsAscii)
    (hsep : f.separator = unitSeparator) (size : Nat) (hs : 0 < size) (garbage : Bytes)
    (first : RawRecord) (rest : List RawRecord)
    (hintact : ∀ r ∈ first :: rest, (f.wire hf).Intact r)
    (hcount : ∀ r ∈ first :: rest, r.fields.length = fieldCount)
    (hcommand : ∀ r ∈ first :: rest, r.command.count (f.wire hf).separator ≠ 3) :
    let w := f.wire hf
    let pass := f.scan (readsOf size (garbage ++ w.log (first :: rest)))
    pass.stopped = none ∧ rest.map RawRecord.decoded <:+ pass.groups.map Group.fields := by
  intro w pass
  have hmarker := separator_ne_marker hf hsep
  have hfew : ∀ r ∈ first :: rest, r.command.count w.separator + 1 ≠ fieldCount := by
    intro r hr h
    exact hcommand r hr (Nat.succ.inj h)
  have hend : rest.map RawRecord.group <:+ w.groups (garbage ++ w.log (first :: rest)) := by
    obtain ⟨mode, t, ht, happend⟩ :=
      Wire.groupsFrom_append (w := w) false garbage (w.log (first :: rest))
    rw [Wire.groups, happend]
    refine List.IsSuffix.trans ?_ (List.suffix_append _ _)
    cases mode with
    | true => exact Wire.suffix_groupsFrom_true hmarker hintact hcount hfew ht
    | false =>
      rw [Wire.groupsFrom_log hintact (fun r hr => .inl (hcount r hr)) ht]
      exact List.suffix_cons _ _
  have hpass : pass = _ := scan_readsOf hf hs _
  refine ⟨congrArg Pass.stopped hpass, ?_⟩
  have hfields := hend.map Group.fields
  rw [List.map_map] at hfields
  rw [congrArg Pass.groups hpass]
  exact hfields

/-- The bytes before end inside a bogus record that gets its fourth field from
the first record's marker; the first record's body ends with a marker, so its
command is taken for a body too. -/
theorem groups_after_garbage_doubled :
    let first : RawRecord := ⟨1, [[49], [], [47], [43]], [10], by decide, by decide⟩
    let second : RawRecord := ⟨3, [[50], [98], [47], []], [31, 97], by decide, by decide⟩
    let w := doubled.wire doubled_isAscii
    w.Intact first ∧ w.Intact second ∧ first.fields.length = fieldCount ∧
      second.fields.length = fieldCount ∧ first.command.count w.separator ≠ 3 ∧
      second.command.count w.separator ≠ 3 ∧
      [second.decoded] <:+
        (doubled.scan (readsOf 2 ([43, 97, 97, 31, 31, 31] ++
          w.log [first, second]))).groups.map Group.fields := by
  intro first second w
  exact ⟨by decide, by decide, by decide, by decide, by decide, by decide,
    (groups_after_garbage doubled doubled_isAscii rfl 2 (by decide) [43, 97, 97, 31, 31, 31]
      first [second] (by decide) (by decide) (by decide)).2⟩

end LineTrace.TraceFormat
