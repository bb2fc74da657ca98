/-
LineTrace.Proofs.Trace.Wire — records as a shell writes them.

`RawRecord` is what a record says, in bytes, and `Wire.written` is how it is
written: markers, delimiter, fields with separators between them, delimiter,
and the command text that the shell lets follow. For four fields this is the
template that the format gives to the shell (`written_eq_template`).

`Wire.Intact` states what makes a written record readable at all. Nothing is
asked about markers, line breaks or parts of delimiters in the fields or in the
command, and nothing about what stands around the record.

A log is walked from a text `t` without delimiters that the record before it
left behind. Section 3 reads the opening of a record behind such a text
(`groupsFrom_opening`, and `groupsFrom_opening_body` where the text is itself
taken for a body) and then its body (`groupsFrom_intact`). Every theorem about
logs of records is an induction over these three.
-/
import Mathlib.Data.List.Infix
import LineTrace.Proofs.Trace.Reading

namespace LineTrace

/-! ## 1. Records -/

/-- A record in bytes: how often the marker is repeated, the fields, and the
command text behind them. -/
structure RawRecord where
  depth : Nat
  fields : List Bytes
  command : Bytes
  depth_pos : 0 < depth
  fields_ne : fields ≠ []

/-- The texts of the fields. -/
def RawRecord.decoded (r : RawRecord) : List Text := r.fields.map Text.decodeEscaped

theorem RawRecord.decoded_ascii {r : RawRecord} (h : ∀ x ∈ r.fields, ∀ b ∈ x, b.toNat < 128) :
    r.decoded = r.fields.map (·.map UInt8.toNat) :=
  List.map_congr_left fun x hx => Text.decodeEscaped_ascii (h x hx)

/-- The group of a record that is read as it was written. -/
def RawRecord.group (r : RawRecord) : Group := ⟨r.decoded, false⟩

namespace Wire

/-- What opens a record. -/
def opening (w : Wire) (depth : Nat) : Bytes :=
  List.replicate depth TraceFormat.markerByte ++ w.delimiter

/-- The fields with separators between them. -/
def body (w : Wire) (r : RawRecord) : Bytes := Text.joinWith [w.separator] r.fields

/-- A record as far as its closing delimiter. -/
def head (w : Wire) (r : RawRecord) : Bytes := w.opening r.depth ++ (w.body r ++ w.delimiter)

/-- A record with the command text that follows it. -/
def written (w : Wire) (r : RawRecord) : Bytes := w.head r ++ r.command

/-- Records one after the other. -/
def log (w : Wire) (rs : List RawRecord) : Bytes := rs.flatMap w.written

/-- A record that can be told from what stands around it. -/
structure Intact (w : Wire) (r : RawRecord) : Prop where
  separatorFree : ∀ field ∈ r.fields, w.separator ∉ field
  bodyEnded : Text.EndedBy w.delimiter (w.body r)
  commandFree : ¬ w.delimiter <:+: r.command

instance (w : Wire) (r : RawRecord) : Decidable (w.Intact r) :=
  decidable_of_iff
    ((∀ field ∈ r.fields, w.separator ∉ field) ∧ Text.EndedBy w.delimiter (w.body r) ∧
      ¬ w.delimiter <:+: r.command)
    ⟨fun h => ⟨h.1, h.2.1, h.2.2⟩, fun h => ⟨h.separatorFree, h.bodyEnded, h.commandFree⟩⟩

variable {w : Wire}

theorem log_nil : w.log [] = [] := rfl

theorem log_cons (r : RawRecord) (rs : List RawRecord) :
    w.log (r :: rs) =
      w.opening r.depth ++ (w.body r ++ w.delimiter ++ (r.command ++ w.log rs)) := by
  simp [log, written, head]

end Wire

/-! ## 2. The template -/

/-- The bytes of a template in which every place, a dollar sign and braces, has
the next of the values; `inside` says that the text starts within a place. -/
def fillPlaces : (inside : Bool) → List Bytes → Text → Bytes
  | _, _, [] => []
  | true, values, c :: rest => fillPlaces (c ≠ 125) values rest
  | false, value :: values, 36 :: 123 :: rest => value ++ fillPlaces true values rest
  | false, values, c :: rest => c.toUInt8 :: fillPlaces false values rest

theorem fillPlaces_plain (values : List Bytes) {t : Text} (h : 36 ∉ t) (rest : Text) :
    fillPlaces false values (t ++ rest) = t.map Nat.toUInt8 ++ fillPlaces false values rest := by
  induction t with
  | nil => rfl
  | cons c t ih =>
    simp only [List.mem_cons, not_or] at h
    rw [List.cons_append, fillPlaces, ih h.2]
    · rfl
    · intro _ _ _ _ hc _
      exact h.1 hc.symm

theorem fillPlaces_field {field : Text} (h : field ∈ TraceFormat.fields) (value : Bytes)
    (values : List Bytes) (rest : Text) :
    fillPlaces false (value :: values) (field ++ rest) =
      value ++ fillPlaces false values rest := by
  simp only [TraceFormat.fields, List.mem_cons, List.not_mem_nil, or_false] at h
  rcases h with rfl | rfl | rfl | rfl <;> rfl

/-- In front of a field any separator stands for itself, a dollar sign too. -/
theorem fillPlaces_separator {field : Text} (h : field ∈ TraceFormat.fields)
    (values : List Bytes) (sep : CodePoint) (rest : Text) :
    fillPlaces false values (sep :: (field ++ rest)) =
      sep.toUInt8 :: fillPlaces false values (field ++ rest) := by
  obtain ⟨tail, rfl⟩ : ∃ tail, field = 36 :: tail := by
    simp only [TraceFormat.fields, List.mem_cons, List.not_mem_nil, or_false] at h
    rcases h with rfl | rfl | rfl | rfl <;> exact ⟨_, rfl⟩
  rw [fillPlaces]
  intro _ _ _ _ _ htail
  simp at htail

theorem fillPlaces_joinWith (sep : CodePoint) (rest : Text) :
    ∀ (fields : List Text) (values : List Bytes), fields.length = values.length →
      (∀ field ∈ fields, field ∈ TraceFormat.fields) →
      fillPlaces false values (Text.joinWith [sep] fields ++ rest) =
        Text.joinWith [sep.toUInt8] values ++ fillPlaces false [] rest
  | [], [], _, _ => rfl
  | [field], [value], _, hmem => by
      simpa [Text.joinWith] using fillPlaces_field (hmem field (by simp)) value [] rest
  | field :: next :: fields, value :: value' :: values, hlen, hmem => by
      have hjoin : ∃ more, Text.joinWith [sep] (next :: fields) ++ rest = next ++ more := by
        cases fields with
        | nil => exact ⟨rest, rfl⟩
        | cons f fs =>
          exact ⟨[sep] ++ Text.joinWith [sep] (f :: fs) ++ rest, by simp [Text.joinWith]⟩
      obtain ⟨more, hmore⟩ := hjoin
      have ih := fillPlaces_joinWith sep rest (next :: fields) (value' :: values)
        (by simpa using hlen) (fun x hx => hmem x (by simp [hx]))
      have hcons : Text.joinWith [sep] (field :: next :: fields) ++ rest =
          field ++ (sep :: (Text.joinWith [sep] (next :: fields) ++ rest)) := by
        simp [Text.joinWith]
      rw [hcons, fillPlaces_field (hmem field (by simp)), hmore,
        fillPlaces_separator (hmem next (by simp)), ← hmore, ih]
      simp [Text.joinWith]

/-- A record of four fields is the template with its marker repeated and its
places filled. -/
theorem written_eq_template {f : TraceFormat} (hf : f.IsAscii) {r : RawRecord}
    (h : r.fields.length = TraceFormat.fieldCount) :
    (f.wire hf).written r =
      List.replicate r.depth TraceFormat.markerByte ++
        (fillPlaces false r.fields f.template.tail ++ r.command) := by
  have hplain : 36 ∉ f.delimiter := by
    intro hc
    exact f.delimiter_plain 36 hc (by simp [reservedIn])
  have hlast : fillPlaces false [] f.delimiter = f.delimiter.map Nat.toUInt8 := by
    simpa [fillPlaces] using fillPlaces_plain [] hplain []
  have htail : f.template.tail =
      f.delimiter ++ (Text.joinWith [f.separator] TraceFormat.fields ++ f.delimiter) := by
    simp [TraceFormat.template]
  rw [htail, fillPlaces_plain _ hplain,
    fillPlaces_joinWith _ _ _ _ h.symm (fun _ hx => hx), hlast]
  simp [Wire.written, Wire.head, Wire.opening, Wire.body, TraceFormat.wire]

/-! ## 3. Walking over a record -/

theorem opensRecord_append_replicate (t : Bytes) {depth : Nat} (h : 0 < depth) :
    opensRecord (t ++ List.replicate depth TraceFormat.markerByte) = true := by
  obtain ⟨k, rfl⟩ : ∃ k, depth = k + 1 := ⟨depth - 1, by omega⟩
  rw [List.replicate_succ', ← List.append_assoc, opensRecord, List.getLast?_concat,
    beq_self_eq_true]

namespace Wire

variable {w : Wire}

/-- Behind a text without delimiters an opening opens a record. -/
theorem groupsFrom_opening {t : Bytes} (ht : ¬ w.delimiter <:+: t) {depth : Nat}
    (h : 0 < depth) (rest : Bytes) :
    w.groupsFrom false (t ++ (w.opening depth ++ rest)) = w.groupsFrom true rest := by
  have hend := Text.endedBy_append_replicate w.marker_notMem ht h
  rw [opening, List.append_assoc, ← List.append_assoc t, ← List.append_assoc,
    groupsFrom_outside hend, opensRecord_append_replicate t h]

/-- Where the text is taken for a body, it and the markers of the opening are
one group. -/
theorem groupsFrom_opening_body {t : Bytes} (ht : ¬ w.delimiter <:+: t) {depth : Nat}
    (h : 0 < depth) (rest : Bytes) :
    w.groupsFrom true (t ++ (w.opening depth ++ rest)) =
      Group.ofBody w.separator (t ++ List.replicate depth TraceFormat.markerByte) ::
        w.groupsFrom (Group.ofBody w.separator
          (t ++ List.replicate depth TraceFormat.markerByte)).torn rest := by
  have hend := Text.endedBy_append_replicate w.marker_notMem ht h
  rw [opening, List.append_assoc, ← List.append_assoc t, ← List.append_assoc, groupsFrom_body hend]

/-- An intact body is the group of its record, and the record is over. -/
theorem groupsFrom_intact {r : RawRecord} (hr : w.Intact r)
    (hclosed : r.fields.length = TraceFormat.fieldCount ∨ opensRecord (w.body r) = false)
    (rest : Bytes) :
    w.groupsFrom true (w.body r ++ w.delimiter ++ rest) = r.group :: w.groupsFrom false rest := by
  have hfields : Text.splitAt1 w.separator (w.body r) = r.fields :=
    Text.splitAt1_joinWith r.fields_ne hr.separatorFree
  have hgroup : Group.ofBody w.separator (w.body r) = r.group := by
    simp only [Group.ofBody, hfields, RawRecord.group, RawRecord.decoded, Group.mk.injEq,
      true_and, List.length_map]
    rcases hclosed with h | h <;> simp [h]
  rw [groupsFrom_body hr.bodyEnded, hgroup]
  rfl

/-- A log of intact records, behind a text without delimiters, is read as it was
written. -/
theorem groupsFrom_log {rs : List RawRecord} (hintact : ∀ r ∈ rs, w.Intact r)
    (hclosed : ∀ r ∈ rs,
      r.fields.length = TraceFormat.fieldCount ∨ opensRecord (w.body r) = false)
    {t : Bytes} (ht : ¬ w.delimiter <:+: t) :
    w.groupsFrom false (t ++ w.log rs) = rs.map RawRecord.group := by
  induction rs generalizing t with
  | nil => simpa [log_nil] using groupsFrom_free ht false
  | cons r rs ih =>
    have hr := hintact r (by simp)
    rw [log_cons, groupsFrom_opening ht r.depth_pos, groupsFrom_intact hr (hclosed r (by simp)),
      ih (fun x hx => hintact x (by simp [hx])) (fun x hx => hclosed x (by simp [hx]))
        hr.commandFree, List.map_cons]

/-- The groups of a log of intact records are the records. -/
theorem groups_log {rs : List RawRecord} (hintact : ∀ r ∈ rs, w.Intact r)
    (hclosed : ∀ r ∈ rs,
      r.fields.length = TraceFormat.fieldCount ∨ opensRecord (w.body r) = false) :
    w.groups (w.log rs) = rs.map RawRecord.group :=
  groupsFrom_log hintact hclosed free_nil

/-- A body with another number of separators than a whole record has is torn
if markers follow it. -/
theorem torn_ofBody (hsep : w.separator ≠ TraceFormat.markerByte) {t : Bytes}
    (ht : t.count w.separator + 1 ≠ TraceFormat.fieldCount) {depth : Nat} (h : 0 < depth) :
    (Group.ofBody w.separator (t ++ List.replicate depth TraceFormat.markerByte)).torn = true := by
  have hcount : (List.replicate depth TraceFormat.markerByte).count w.separator = 0 := by
    rw [List.count_replicate, if_neg (by simpa using Ne.symm hsep)]
  simp only [Group.ofBody, List.length_map, Text.length_splitAt1, List.count_append, hcount,
    Nat.add_zero, opensRecord_append_replicate t h, Bool.and_true, decide_eq_true_eq]
  exact ht

theorem length_ne_of_torn_ofBody {separator : UInt8} {body : Bytes}
    (h : (Group.ofBody separator body).torn = true) :
    (Group.ofBody separator body).fields.length ≠ TraceFormat.fieldCount := by
  simp only [Group.ofBody, Bool.and_eq_true, decide_eq_true_eq] at h
  exact h.1

end Wire

/-- A format whose delimiter overlaps itself. -/
def TraceFormat.doubled : TraceFormat := ⟨[97, 97], unitSeparator, by decide, by decide⟩

theorem TraceFormat.doubled_isAscii : TraceFormat.doubled.IsAscii := ⟨by decide, by decide⟩

end LineTrace
