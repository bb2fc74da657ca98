/-
LineTrace.Proofs.Trace.Classification — what a group is, read off its fields.

A group is looked at in steps: its number of fields, its line number, its directory, then
the stack is moved, and only then its source is looked at. `NoRecord` says of the fields
alone which groups are malformed (`Record.ofFields_malformed_iff`), and
`Directories.eventOf` says of the frames alone what a record's directory means for them
(`classify_eq_eventOf`). Popping to a stacked directory never fails, so there is no other
way to be malformed, in whatever state the stack is.

A malformed group is turned away before the stack is touched. So leaving out all of them
changes nothing but the count of what was skipped. `Follower.step_classified` says this
of every follower, whatever its frames and whatever it remembers.
-/
import Mathlib.Data.Nat.Digits.Defs
import LineTrace.Proofs.Text.Numerals
import LineTrace.Proofs.Trace.Calls

namespace LineTrace

/-! ## 1. Fields -/

namespace Text

/-- One or more ASCII digits. -/
def IsNumeral (t : Text) : Prop := t ≠ [] ∧ ∀ c ∈ t, 48 ≤ c ∧ c ≤ 57

instance (t : Text) : Decidable t.IsNumeral := inferInstanceAs (Decidable (_ ∧ _))

/-- The number that ASCII digits write, by their places. -/
def numeralValue (t : Text) : Nat := Nat.ofDigits 10 (t.map (· - 48)).reverse

theorem decimalValue_eq_ofDigits (ds : List Nat) :
    decimalValue ds = Nat.ofDigits 10 ds.reverse := by
  induction ds using List.reverseRecOn with
  | nil => rfl
  | append_singleton ds d ih =>
    rw [decimalValue_concat, List.reverse_concat, Nat.ofDigits_cons, ih]
    exact Nat.add_comm _ _

theorem isNumeral_iff {t : Text} : t.IsNumeral ↔ t ≠ [] ∧ t.all isDigit := by
  simp only [IsNumeral, List.all_eq_true, isDigit_iff]

end Text

/-- The field of a group that is the line number of a record. -/
def lineField (fields : List Text) : Text := fields.getD 0 []

/-- The field of a group that is the source of a record. -/
def sourceField (fields : List Text) : Text := fields.getD 1 []

/-- The field of a group that is the directory of a record. -/
def pwdField (fields : List Text) : Text := fields.getD 2 []

/-- What is no record: not four fields, or no numeral for a line, or no directory. -/
def NoRecord (fields : List Text) : Prop :=
  fields.length ≠ 4 ∨ ¬ (lineField fields).IsNumeral ∨ pwdField fields = []

instance (fields : List Text) : Decidable (NoRecord fields) :=
  inferInstanceAs (Decidable (_ ∨ _ ∨ _))

theorem not_overlong_of_length_le {fields : List Text}
    (h : (lineField fields).length ≤ Text.digitLimit) : ¬ Overlong fields := by
  intro hlong
  unfold Overlong at hlong
  split at hlong
  · exact absurd hlong.2.2 (Nat.not_lt.mpr h)
  · exact hlong

namespace Record

/-- A group is malformed for what its fields are. -/
theorem ofFields_malformed_iff (fields : List Text) :
    (∃ reason, ofFields fields = .ok (.error reason)) ↔ NoRecord fields := by
  by_cases hcount : fields.length = 4
  · obtain ⟨line, source, pwd, oldpwd, rfl⟩ :
        ∃ line source pwd oldpwd, fields = [line, source, pwd, oldpwd] := by
      match fields, hcount with
      | [line, source, pwd, oldpwd], _ => exact ⟨line, source, pwd, oldpwd, rfl⟩
    have hnone : NoRecord [line, source, pwd, oldpwd] ↔ ¬ line.IsNumeral ∨ pwd = [] := by
      simp [NoRecord, lineField, pwdField]
    rw [hnone, ofFields]
    cases hds : lineDigits? line with
    | none =>
      have hline : ¬ line.IsNumeral := fun h => by
        rw [lineDigits?, if_pos (Text.isNumeral_iff.mp h)] at hds
        cases hds
      simp [hline]
    | some ds =>
      have hline : line.IsNumeral := Text.isNumeral_iff.mpr (lineDigits?_eq_some_iff.mp hds).1
      by_cases hpwd : pwd = []
      · simp [hpwd]
      · by_cases hlimit : Text.digitLimit < ds.length <;> simp [hline, hpwd, hlimit]
  · exact ⟨fun _ => .inl hcount, fun _ => ⟨_, ofFields_of_length_ne hcount⟩⟩

/-- What a group says that is a record. -/
theorem exists_of_not_noRecord {fields : List Text} (h : ¬ NoRecord fields)
    (hfits : ¬ Overlong fields) :
    ∃ r, ofFields fields = .ok (.ok r) ∧ r.line = (lineField fields).numeralValue ∧
      r.source = sourceField fields ∧ r.pwd = pwdField fields := by
  obtain ⟨parsed, hparsed⟩ := exists_of_not_overlong hfits
  cases parsed with
  | error reason => exact absurd ((ofFields_malformed_iff fields).mp ⟨reason, hparsed⟩) h
  | ok r =>
    obtain ⟨line, hfields, -, -, -, hvalue⟩ := ofFields_eq_ok hparsed
    refine ⟨r, hparsed, ?_, ?_, ?_⟩
    · rw [hvalue, hfields, Text.decimalValue_eq_ofDigits]
      rfl
    · rw [hfields]
      rfl
    · rw [hfields]
      rfl

end Record

/-! ## 2. Directories -/

namespace Directories

/-- What a record's directory means for the frames: nothing new where there are none or
where it is on top, a return where it is stacked below, and otherwise a new one. -/
def eventOf (frames : List DirFrame) (pwd : Text) : DirEvent :=
  if frames = [] ∨ frames.head?.map DirFrame.pwd = some pwd then .hit
  else if ∃ frame ∈ frames.tail, frame.pwd = pwd then .pop
  else .push

theorem classify_eq_eventOf (d : Directories) (pwd oldpwd : Text) :
    (d.classify pwd oldpwd).2 = eventOf d.frames pwd := by
  obtain ⟨frames, known⟩ := d
  cases frames with
  | nil => rfl
  | cons top below =>
    by_cases htop : pwd = top.pwd
    · simp [classify, eventOf, htop]
    · have hany : below.any (fun g => g.pwd = pwd) = true ↔ ∃ frame ∈ below, frame.pwd = pwd := by
        simp
      rw [eventOf, if_neg (by simpa using Ne.symm htop), List.tail_cons]
      simp only [classify, if_neg htop]
      by_cases hbelow : ∃ frame ∈ below, frame.pwd = pwd
      · rw [if_pos hbelow, if_pos (hany.mpr hbelow)]
      · rw [if_neg hbelow, if_neg (hbelow ∘ hany.mp)]

end Directories

/-! ## 3. Groups -/

namespace Follower

/-- The outcome of a group that is a record, behind whatever came before. -/
theorem step_of_not_noRecord (isFile : Text → Bool) (cwd : Text) (f : Follower)
    {fields : List Text} (h : ¬ NoRecord fields) (hfits : ¬ Overlong fields) :
    ∃ f' o, f.step isFile cwd fields = .ok (f', o) ∧
      if sourceField fields = [] then o = .unattributed (lineField fields).numeralValue
      else ∃ path, o = .hit ⟨path, (lineField fields).numeralValue,
        Directories.eventOf f.directories.frames (pwdField fields)⟩ := by
  obtain ⟨r, hr, hline, hsource, hpwd⟩ := Record.exists_of_not_noRecord h hfits
  obtain ⟨moved, -, -, hstep⟩ := f.step_record hr
  rw [Directories.classify_eq_eventOf, hline, hsource, hpwd] at hstep
  rw [hstep]
  split
  · exact ⟨_, _, rfl, rfl⟩
  · exact ⟨_, _, rfl, _, rfl⟩

/-- In every state a group is malformed for its fields alone, and then it leaves the
follower as it is. Any other group is unattributed where it has no source, and otherwise
a hit of the line that it numbers, with the meaning of its directory for the frames as
they were. So a run gives the same hits, as many unattributed groups and the same
follower as over the groups that are not malformed. -/
theorem step_classified (isFile : Text → Bool) (cwd : Text) (f : Follower)
    {fields : List Text} (hfields : ¬ Overlong fields) {groups : List (List Text)}
    (hgroups : ∀ g ∈ groups, ¬ Overlong g) :
    (∃ f' o, f.step isFile cwd fields = .ok (f', o) ∧
      ((∃ reason shown, o = .malformed reason shown) ↔ NoRecord fields) ∧
      (NoRecord fields → f' = f) ∧
      (¬ NoRecord fields →
        if sourceField fields = [] then o = .unattributed (lineField fields).numeralValue
        else ∃ path, o = .hit ⟨path, (lineField fields).numeralValue,
          Directories.eventOf f.directories.frames (pwdField fields)⟩)) ∧
    ∃ f' t t', f.run isFile cwd groups = (f', t, none) ∧
      f.run isFile cwd (groups.filter fun g => ¬ NoRecord g) = (f', t', none) ∧
      t.hits = t'.hits ∧ t.unattributed = t'.unattributed := by
  constructor
  · by_cases hnone : NoRecord fields
    · obtain ⟨reason, hreason⟩ := (Record.ofFields_malformed_iff fields).mpr hnone
      exact ⟨f, .malformed reason fields, step_malformed f hreason,
        ⟨fun _ => hnone, fun _ => ⟨reason, fields, rfl⟩⟩, fun _ => rfl, fun h => absurd hnone h⟩
    · obtain ⟨f', o, hstep, ho⟩ := f.step_of_not_noRecord isFile cwd hnone hfields
      refine ⟨f', o, hstep, ⟨?_, fun h => absurd h hnone⟩, fun h => absurd h hnone, fun _ => ho⟩
      rintro ⟨reason, shown, rfl⟩
      split at ho
      · cases ho
      · obtain ⟨path, ho⟩ := ho
        cases ho
  · obtain ⟨os, f', hfollows⟩ := exists_follows_of_not_overlong isFile cwd f hgroups
    obtain ⟨os', hfollows', hhits, hnone, -⟩ :=
      hfollows.filter (fun g => ¬ NoRecord g) fun g _ hg =>
        (Record.ofFields_malformed_iff g).mpr (by simpa using hg)
    refine ⟨f', _, _, hfollows.run, hfollows'.run, ?_, ?_⟩
    · rw [Tally.hits_ofOutcomes, Tally.hits_ofOutcomes, hhits]
    · rw [Tally.unattributed_ofOutcomes, Tally.unattributed_ofOutcomes, hnone]

/-- The stack has a directory twice, and one group returns to the one between. Of the
groups of a run one has no directory, one a sign in its line number and one a single field;
each names a directory that would have moved the stack. -/
theorem step_classified_repeated :
    let f := start (Directories.ofFrames [⟨[47, 98], []⟩, ⟨[47, 97], []⟩, ⟨[47, 98], []⟩])
    let back : List Text := [[48, 48, 55], [120], [47, 97], [47, 98]]
    let groups : List (List Text) :=
      [back, [[49], [120], [], [47]], [[43, 49], [120], [47, 99], []], [[47, 99]],
        [[57], [], [47, 97], []]]
    ¬ Overlong back ∧ ¬ NoRecord back ∧
      (∃ f' path, f.step (fun _ => false) [47] back = .ok (f', .hit ⟨path, 7, .pop⟩)) ∧
      (groups.filter fun g => ¬ NoRecord g) = [back, [[57], [], [47, 97], []]] ∧
      ∃ f' t t', f.run (fun _ => false) [47] groups = (f', t, none) ∧
        f.run (fun _ => false) [47] [back, [[57], [], [47, 97], []]] = (f', t', none) ∧
        t.hits = t'.hits ∧ t.unattributed = t'.unattributed := by
  intro f back groups
  have hfits : ∀ g ∈ groups, ¬ Overlong g := fun g hg =>
    not_overlong_of_length_le ((by decide : ∀ g ∈ groups, (lineField g).length ≤ 4300) g hg)
  have hrecord : ¬ NoRecord back := by decide
  obtain ⟨⟨f', o, hstep, -, -, ho⟩, hrun⟩ :=
    step_classified (fun _ => false) [47] f (hfits back (by simp [groups])) hfits
  obtain ⟨path, rfl⟩ : ∃ path, o = .hit ⟨path, 7, .pop⟩ := ho hrecord
  exact ⟨hfits back (by simp [groups]), hrecord, ⟨f', path, hstep⟩, by decide, hrun⟩

end Follower

end LineTrace
