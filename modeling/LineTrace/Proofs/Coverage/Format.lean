/-
LineTrace.Proofs.Coverage.Format — what a value has to be for nothing to be wrong
with it.

`IsResultset` says it without places, messages or an order of search: members by
name, each of its kind, lines named by digits, counts from one on. Every check of
the schema is then equivalent to its own part of that (`commandProblems_eq_nil_iff`
and its neighbours), and the whole list of problems is empty exactly on result
sets (`found_eq_nil_iff`).

The name of a line is one of digits, or of digits and one line feed after them:
the pattern that names are searched for ends before a final line break as well as
at the end of the name. This is the one place where the format is wider than its
description.

The rest is about reporting. All problems below one member lie at names, or all
of them at indices (`Problem.Within`), so no two places have to be compared that
have a name on one side and an index on the other; and the value that a message
shows is part of the value that is checked, so messages fail only for integers
that cannot be written.
-/
import LineTrace.Coverage.ResultsetFile
import LineTrace.Proofs.Json.Values

namespace LineTrace

/-! ## 1. Numbers without a fraction -/

namespace Double

theorem eqInt_finite {negative : Bool} {mantissa : Nat} {exponent i : Int} :
    (finite negative mantissa exponent).eqInt i = true ↔
      (if negative then -((ratio mantissa exponent).1 : Int) else (ratio mantissa exponent).1) =
        i * (ratio mantissa exponent).2 := by
  simp [eqInt]

theorem ratio_snd_pos (mantissa : Nat) (exponent : Int) : 0 < (ratio mantissa exponent).2 :=
  Nat.pow_pos (by decide)

/-- A number without a fraction is an integer. -/
theorem isIntegral_iff {x : Double} : x.isIntegral = true ↔ ∃ i, x.eqInt i = true := by
  cases x with
  | nan => simp [isIntegral, eqInt]
  | infinite negative => simp [isIntegral, eqInt]
  | finite negative mantissa exponent =>
    simp only [eqInt_finite, isIntegral, beq_iff_eq, ← Nat.dvd_iff_mod_eq_zero]
    generalize (ratio mantissa exponent).1 = n
    generalize (ratio mantissa exponent).2 = d
    have hdvd : (d : Int) ∣ (if negative then -(n : Int) else n) ↔ d ∣ n := by
      cases negative <;> simp [Int.natCast_dvd_natCast]
    rw [← hdvd]
    constructor
    · rintro ⟨k, hk⟩
      exact ⟨k, by rw [hk, Int.mul_comm]⟩
    · rintro ⟨i, hi⟩
      exact ⟨i, by rw [hi, Int.mul_comm]⟩

/-- A number that is an integer lies below another where the integer does. -/
theorem ltInt_iff {x : Double} {i : Int} (h : x.eqInt i = true) (least : Int) :
    x.ltInt least = true ↔ i < least := by
  cases x with
  | nan => cases h
  | infinite negative => cases h
  | finite negative mantissa exponent =>
    rw [eqInt_finite] at h
    have hpos : (0 : Int) < (ratio mantissa exponent).2 :=
      Int.natCast_pos.mpr (ratio_snd_pos mantissa exponent)
    simp only [ltInt, decide_eq_true_eq, h]
    exact Int.mul_lt_mul_right hpos

end Double

/-- A value that is the integer `i`, written as an integer or as a number with a
fraction of zero. -/
def Json.IsNumber (v : Json) (i : Int) : Prop :=
  v = .int i ∨ ∃ x, v = .float x ∧ x.eqInt i = true

/-- A fault of what the user gave, not of the program. -/
def Fault.IsBadInput (e : Fault) : Prop := ∃ message, e = .failure (Failure.badInput message)

namespace Resultset

/-! ## 2. The format -/

/-- Digits, which a line feed may follow. -/
def IsLineName (name : Text) : Prop :=
  ∃ digits : Text, digits ≠ [] ∧ (∀ c ∈ digits, Text.isDigit c = true) ∧
    (name = digits ∨ name = digits ++ [10])

/-- The lines of a file: their names, and a count from one on for each. -/
def IsLines (v : Json) : Prop :=
  ∃ lines, v = .obj lines ∧ ∀ e ∈ lines, IsLineName e.1 ∧ ∃ n, 1 ≤ n ∧ e.2.IsNumber n

/-- The names that a result set may have. -/
def memberNames : List Text :=
  ["schema", "command", "returncode", "skipped", "unattributed", "count_hits", "coverage"]

/-- A result set, member by member. -/
structure IsResultset (v : Json) : Prop where
  schema : v.field? "schema" = some (.str mark)
  command : ∃ words : List Text, words ≠ [] ∧ v.field? "command" = some (.arr (words.map .str))
  returncode : ∃ w n, v.field? "returncode" = some w ∧ w.IsNumber n
  skipped : ∃ w n, v.field? "skipped" = some w ∧ w.IsNumber n ∧ 0 ≤ n
  unattributed : ∀ w, v.field? "unattributed" = some w → ∃ n, w.IsNumber n ∧ 0 ≤ n
  countHits : ∀ w, v.field? "count_hits" = some w → ∃ b, w = .bool b
  coverage : ∃ files, v.field? "coverage" = some (.obj files) ∧ ∀ e ∈ files, IsLines e.2
  only : ∀ name w, v.field? name = some w → name ∈ memberNames

/-! ## 3. The checks -/

variable {place : Place} {v : Json}

theorem ofKind_eq_nil_iff {kind : Kind} : ofKind place kind v = [] ↔ kind.holds v = true := by
  rw [ofKind]
  split <;> simp_all

theorem holds_object_iff : Kind.object.holds v = true ↔ ∃ entries, v = .obj entries := by
  cases v <;> simp [Kind.holds]

theorem holds_array_iff : Kind.array.holds v = true ↔ ∃ items, v = .arr items := by
  cases v <;> simp [Kind.holds]

theorem holds_string_iff : Kind.string.holds v = true ↔ ∃ t, v = .str t := by
  cases v <;> simp [Kind.holds]

theorem holds_boolean_iff : Kind.boolean.holds v = true ↔ ∃ b, v = .bool b := by
  cases v <;> simp [Kind.holds]

theorem holds_integer_iff : Kind.integer.holds v = true ↔ ∃ n, v.IsNumber n := by
  cases v <;> simp [Kind.holds, Json.IsNumber, Double.isIntegral_iff]

theorem atLeast_eq_nil_iff {least n : Int} (h : v.IsNumber n) :
    atLeast place least v = [] ↔ least ≤ n := by
  rcases h with rfl | ⟨x, rfl, hx⟩
  · simp [atLeast]
  · have hlt := Double.ltInt_iff hx least
    simp only [atLeast]
    split <;> simp_all

theorem integerFrom_eq_nil_iff {least : Int} :
    integerFrom least place v = [] ↔ ∃ n, v.IsNumber n ∧ least ≤ n := by
  rw [integerFrom, List.append_eq_nil_iff, ofKind_eq_nil_iff, holds_integer_iff]
  constructor
  · rintro ⟨⟨n, hn⟩, hleast⟩
    exact ⟨n, hn, (atLeast_eq_nil_iff hn).mp hleast⟩
  · rintro ⟨n, hn, hleast⟩
    exact ⟨⟨n, hn⟩, (atLeast_eq_nil_iff hn).mpr hleast⟩

theorem eachEntry_eq_nil_iff {check : Place → Json → List Problem} {entries : List (Text × Json)} :
    eachEntry check place entries = [] ↔
      ∀ e ∈ entries, check (place ++ [.member e.1]) e.2 = [] := by
  rw [eachEntry, List.flatten_eq_nil_iff, List.forall_mem_map]

theorem eachItem_eq_nil_iff {check : Place → Json → List Problem} {items : List Json} :
    eachItem check place items = [] ↔
      ∀ e ∈ items.zipIdx, check (place ++ [.item e.2]) e.1 = [] := by
  rw [eachItem, List.flatten_eq_nil_iff, List.forall_mem_map]

theorem schemaProblems_eq_nil_iff : schemaProblems place v = [] ↔ v = .str mark := by
  cases v <;> simp [schemaProblems]

/-- The text of a string; nothing for any other value. -/
def wordOf : Json → Text
  | .str t => t
  | _ => []

/-- Strings, and nothing else, are the items of a list of strings. -/
theorem exists_words_iff {items : List Json} :
    (∀ e ∈ items.zipIdx, Kind.string.holds e.1 = true) ↔ ∃ words : List Text,
      items = words.map .str := by
  constructor
  · intro h
    refine ⟨items.map wordOf, ?_⟩
    rw [List.map_map]
    refine (List.map_congr_left fun w hw => ?_).trans (List.map_id items) |>.symm
    obtain ⟨i, hi⟩ := List.mem_iff_getElem?.mp hw
    obtain ⟨t, rfl⟩ := holds_string_iff.mp (h (w, i) (List.mk_mem_zipIdx_iff_getElem?.mpr hi))
    rfl
  · rintro ⟨words, rfl⟩ e he
    obtain ⟨word, -, hword⟩ := List.mem_map.mp (List.fst_mem_of_mem_zipIdx he)
    exact holds_string_iff.mpr ⟨word, hword.symm⟩

/-- A value of another kind is a problem at once. -/
theorem ofKind_append_eq_nil_iff {kind : Kind} {more : List Problem} :
    ofKind place kind v ++ more = [] ↔ kind.holds v = true ∧ more = [] := by
  rw [List.append_eq_nil_iff, ofKind_eq_nil_iff]

theorem commandProblems_eq_nil_iff :
    commandProblems place v = [] ↔ ∃ words : List Text, words ≠ [] ∧ v = .arr (words.map .str) := by
  unfold commandProblems
  rw [ofKind_append_eq_nil_iff, holds_array_iff]
  constructor
  · rintro ⟨⟨items, rfl⟩, h⟩
    obtain ⟨hitems, hne⟩ := List.append_eq_nil_iff.mp h
    simp only [eachItem_eq_nil_iff, ofKind_eq_nil_iff, exists_words_iff] at hitems
    obtain ⟨words, rfl⟩ := hitems
    refine ⟨words, ?_, rfl⟩
    rintro rfl
    simp at hne
  · rintro ⟨words, hne, rfl⟩
    refine ⟨⟨_, rfl⟩, List.append_eq_nil_iff.mpr ⟨?_, ?_⟩⟩
    · simp only [eachItem_eq_nil_iff, ofKind_eq_nil_iff, exists_words_iff]
      exact ⟨words, rfl⟩
    · simp [hne]

theorem isLineName_iff {name : Text} : isLineName name = true ↔ IsLineName name := by
  have hbody : ∀ body : Text, (decide (body ≠ []) && body.all Text.isDigit) = true ↔
      body ≠ [] ∧ ∀ c ∈ body, Text.isDigit c = true := by
    intro body
    rw [Bool.and_eq_true, decide_eq_true_eq, List.all_eq_true]
  rw [isLineName, hbody]
  constructor
  · rintro ⟨hne, hall⟩
    refine ⟨_, hne, hall, ?_⟩
    split
    · rename_i hlast
      obtain ⟨digits, rfl⟩ := List.getLast?_eq_some_iff.mp hlast
      exact .inr (by rw [List.dropLast_concat])
    · exact .inl rfl
  · rintro ⟨digits, hne, hall, rfl | rfl⟩
    · have hlast : name.getLast? ≠ some 10 := by
        intro hlast
        exact absurd (hall 10 (List.mem_of_getLast? hlast)) (by decide)
      rw [if_neg hlast]
      exact ⟨hne, hall⟩
    · rw [if_pos List.getLast?_concat, List.dropLast_concat]
      exact ⟨hne, hall⟩

/-- The pattern for the names of lines lets a line feed through after the digits. -/
example : isLineName "2\n" = true := rfl

theorem linesProblems_eq_nil_iff : linesProblems place v = [] ↔ IsLines v := by
  unfold linesProblems
  rw [ofKind_append_eq_nil_iff, holds_object_iff]
  constructor
  · rintro ⟨⟨lines, rfl⟩, h⟩
    obtain ⟨hnames, hcounts⟩ := List.append_eq_nil_iff.mp h
    rw [List.filterMap_eq_nil_iff] at hnames
    simp only [eachEntry_eq_nil_iff, integerFrom_eq_nil_iff] at hcounts
    refine ⟨lines, rfl, fun e he => ⟨?_, ?_⟩⟩
    · have hname := hnames e he
      rw [← isLineName_iff]
      simpa using hname
    · obtain ⟨n, hn, hone⟩ := hcounts e he
      exact ⟨n, hone, hn⟩
  · rintro ⟨lines, rfl, h⟩
    refine ⟨⟨lines, rfl⟩, List.append_eq_nil_iff.mpr ⟨?_, ?_⟩⟩
    · rw [List.filterMap_eq_nil_iff]
      intro e he
      exact if_pos (isLineName_iff.mpr (h e he).1)
    · simp only [eachEntry_eq_nil_iff, integerFrom_eq_nil_iff]
      intro e he
      obtain ⟨n, hone, hn⟩ := (h e he).2
      exact ⟨n, hn, hone⟩

theorem coverageProblems_eq_nil_iff :
    coverageProblems place v = [] ↔ ∃ files, v = .obj files ∧ ∀ e ∈ files, IsLines e.2 := by
  unfold coverageProblems
  rw [ofKind_append_eq_nil_iff, holds_object_iff]
  constructor
  · rintro ⟨⟨files, rfl⟩, h⟩
    simp only [eachEntry_eq_nil_iff, linesProblems_eq_nil_iff] at h
    exact ⟨files, rfl, h⟩
  · rintro ⟨files, rfl, h⟩
    simp only [eachEntry_eq_nil_iff, linesProblems_eq_nil_iff]
    exact ⟨⟨files, rfl⟩, h⟩

/-! ## 4. The members -/

variable {entries : List (Text × Json)}

theorem missingProblems_eq_nil_iff :
    missingProblems entries = [] ↔ ∀ name ∈ required, (Table.get? name entries).isSome := by
  rw [missingProblems, List.filterMap_eq_nil_iff]
  refine forall₂_congr fun name _ => ?_
  cases Table.get? name entries <;> simp

theorem surplusProblems_eq_nil_iff :
    surplusProblems entries = [] ↔ ∀ name ∈ Table.keys entries, name ∈ Table.keys members := by
  have hfilter : surplusProblems entries = [] ↔
      (Table.keys entries).filter (fun name => (Table.get? name members).isNone) = [] := by
    rw [surplusProblems]
    split <;> simp_all
  rw [hfilter, List.filter_eq_nil_iff]
  refine forall₂_congr fun name _ => ?_
  rw [← Table.isSome_get?_iff]
  cases Table.get? name members <;> simp

theorem memberProblems_eq_nil_iff :
    memberProblems entries = [] ↔
      ∀ m ∈ members, ∀ w, Table.get? m.1 entries = some w → m.2 [.member m.1] w = [] := by
  unfold memberProblems
  rw [List.flatten_eq_nil_iff, List.forall_mem_map]
  refine forall₂_congr fun m _ => ?_
  obtain ⟨name, check⟩ := m
  cases hname : Table.get? name entries <;> simp [hname]

theorem forall_mem_members {P : Text × (Place → Json → List Problem) → Prop} :
    (∀ m ∈ members, P m) ↔ P ("schema", schemaProblems) ∧ P ("command", commandProblems) ∧
      P ("returncode", fun p v => ofKind p .integer v) ∧ P ("skipped", integerFrom 0) ∧
      P ("unattributed", integerFrom 0) ∧ P ("count_hits", fun p v => ofKind p .boolean v) ∧
      P ("coverage", coverageProblems) := by
  simp [members]

theorem forall_mem_required {P : Text → Prop} :
    (∀ name ∈ required, P name) ↔
      P "schema" ∧ P "command" ∧ P "returncode" ∧ P "skipped" ∧ P "coverage" := by
  simp [required]

theorem exists_entries_of_field? {w : Json} {name : Text} (h : v.field? name = some w) :
    ∃ entries, v = .obj entries := by
  cases v with
  | obj entries => exact ⟨entries, rfl⟩
  | _ => cases h

/-- Members with which the checks find nothing wrong: none is missing or unknown, and
each passes its own check. -/
structure MembersFit (entries : List (Text × Json)) : Prop where
  required : ∀ name ∈ required, (Table.get? name entries).isSome
  known : ∀ name ∈ Table.keys entries, name ∈ memberNames
  members : ∀ m ∈ members, ∀ w, Table.get? m.1 entries = some w → m.2 [.member m.1] w = []

theorem found_eq_nil_iff_membersFit :
    found v = [] ↔ ∃ entries, v = .obj entries ∧ MembersFit entries := by
  unfold found
  rw [ofKind_append_eq_nil_iff, holds_object_iff]
  constructor
  · rintro ⟨⟨entries, rfl⟩, h⟩
    simp only [List.append_eq_nil_iff, missingProblems_eq_nil_iff, surplusProblems_eq_nil_iff,
      memberProblems_eq_nil_iff] at h
    exact ⟨entries, rfl, h.1.1, h.1.2, h.2⟩
  · rintro ⟨entries, rfl, h⟩
    simp only [List.append_eq_nil_iff, missingProblems_eq_nil_iff, surplusProblems_eq_nil_iff,
      memberProblems_eq_nil_iff]
    exact ⟨⟨entries, rfl⟩, ⟨h.required, h.known⟩, h.members⟩

theorem MembersFit.isResultset (h : MembersFit entries) : IsResultset (.obj entries) := by
  obtain ⟨hrequired, hknown, hmembers⟩ := h
  simp only [forall_mem_required, forall_mem_members, Option.isSome_iff_exists]
    at hrequired hmembers
  obtain ⟨⟨w₁, h₁⟩, ⟨w₂, h₂⟩, ⟨w₃, h₃⟩, ⟨w₄, h₄⟩, ⟨w₇, h₇⟩⟩ := hrequired
  obtain ⟨hschema, hcommand, hreturncode, hskipped, hunattributed, hcountHits, hcoverage⟩ :=
    hmembers
  have hmark := schemaProblems_eq_nil_iff.mp (hschema w₁ h₁)
  obtain ⟨words, hne, hwords⟩ := commandProblems_eq_nil_iff.mp (hcommand w₂ h₂)
  obtain ⟨n, hn⟩ := holds_integer_iff.mp (ofKind_eq_nil_iff.mp (hreturncode w₃ h₃))
  obtain ⟨m, hm, hzero⟩ := integerFrom_eq_nil_iff.mp (hskipped w₄ h₄)
  obtain ⟨files, hfiles, hlines⟩ := coverageProblems_eq_nil_iff.mp (hcoverage w₇ h₇)
  exact {
    schema := hmark ▸ h₁
    command := ⟨words, hne, hwords ▸ h₂⟩
    returncode := ⟨w₃, n, h₃, hn⟩
    skipped := ⟨w₄, m, h₄, hm, hzero⟩
    unattributed := fun w hw => integerFrom_eq_nil_iff.mp (hunattributed w hw)
    countHits := fun w hw => holds_boolean_iff.mp (ofKind_eq_nil_iff.mp (hcountHits w hw))
    coverage := ⟨files, hfiles ▸ h₇, hlines⟩
    only := fun name w hw =>
      hknown name (Table.isSome_get?_iff.mp (Option.isSome_iff_exists.mpr ⟨w, hw⟩)) }

theorem IsResultset.membersFit (h : IsResultset (.obj entries)) : MembersFit entries := by
  obtain ⟨words, hne, hcommand⟩ := h.command
  obtain ⟨w₃, n, hreturncode, hn⟩ := h.returncode
  obtain ⟨w₄, m, hskipped, hm, hzero⟩ := h.skipped
  obtain ⟨files, hcoverage, hlines⟩ := h.coverage
  refine ⟨?_, fun name hname => ?_, ?_⟩
  · rw [forall_mem_required]
    exact ⟨Option.isSome_of_mem h.schema, Option.isSome_of_mem hcommand,
      Option.isSome_of_mem hreturncode, Option.isSome_of_mem hskipped,
      Option.isSome_of_mem hcoverage⟩
  · obtain ⟨w, hw⟩ := Option.isSome_iff_exists.mp (Table.isSome_get?_iff.mpr hname)
    exact h.only name w hw
  · simp only [forall_mem_members]
    refine ⟨fun w hw => ?_, fun w hw => ?_, fun w hw => ?_, fun w hw => ?_, fun w hw => ?_,
      fun w hw => ?_, fun w hw => ?_⟩
    · cases h.schema.symm.trans hw
      exact schemaProblems_eq_nil_iff.mpr rfl
    · cases hcommand.symm.trans hw
      exact commandProblems_eq_nil_iff.mpr ⟨words, hne, rfl⟩
    · cases hreturncode.symm.trans hw
      exact ofKind_eq_nil_iff.mpr (holds_integer_iff.mpr ⟨n, hn⟩)
    · cases hskipped.symm.trans hw
      exact integerFrom_eq_nil_iff.mpr ⟨m, hm, hzero⟩
    · exact integerFrom_eq_nil_iff.mpr (h.unattributed w hw)
    · exact ofKind_eq_nil_iff.mpr (holds_boolean_iff.mpr (h.countHits w hw))
    · cases hcoverage.symm.trans hw
      exact coverageProblems_eq_nil_iff.mpr ⟨files, rfl, hlines⟩

/-- Nothing is wrong with result sets, and with nothing else. -/
theorem found_eq_nil_iff : found v = [] ↔ IsResultset v := by
  rw [found_eq_nil_iff_membersFit]
  constructor
  · rintro ⟨entries, rfl, h⟩
    exact h.isResultset
  · intro h
    obtain ⟨entries, rfl⟩ := exists_entries_of_field? h.schema
    exact ⟨entries, rfl, h.membersFit⟩

/-! ## 5. Where problems lie and what they show -/

/-- Two steps of one kind: both names or both indices. -/
def Step.Alike : Step → Step → Prop
  | .member _, .member _ => True
  | .item _, .item _ => True
  | _, _ => False

/-- Two places that can be ordered: the first steps in which they differ are of
one kind. -/
def Place.Comparable : Place → Place → Prop
  | a :: as, b :: bs => if a = b then Comparable as bs else a.Alike b
  | _, _ => True

/-- What every check says about a problem that it finds in the value at a place:
the problem lies there or below, by steps of one kind, and shows a part of the
value. -/
structure Problem.Within (place : Place) (IsStep : Step → Prop) (v : Json) (p : Problem) :
    Prop where
  place_eq : ∃ steps, p.place = place ++ steps ∧ ∀ s ∈ steps, IsStep s
  showable : v.hasNumerals = true → p.violation.isShowable = true

variable {IsStep : Step → Prop} {p : Problem}

theorem Problem.Within.here {violation : Violation}
    (h : v.hasNumerals = true → violation.isShowable = true) :
    Problem.Within place IsStep v ⟨place, violation⟩ :=
  ⟨⟨[], (List.append_nil place).symm, by simp⟩, h⟩

/-- A problem of a part is one of the whole. -/
theorem Problem.Within.of_part {step : Step} {w : Json} (h : p.Within (place ++ [step]) IsStep w)
    (hstep : IsStep step) (hpart : v.hasNumerals = true → w.hasNumerals = true) :
    p.Within place IsStep v := by
  obtain ⟨steps, hplace, hsteps⟩ := h.place_eq
  refine ⟨⟨step :: steps, ?_, ?_⟩, fun hv => h.showable (hpart hv)⟩
  · rw [hplace, List.append_assoc]
    rfl
  · exact List.forall_mem_cons.mpr ⟨hstep, hsteps⟩

theorem within_ofKind {kind : Kind} (h : p ∈ ofKind place kind v) : p.Within place IsStep v := by
  obtain ⟨-, hp⟩ := List.mem_ite_nil_left.mp h
  obtain rfl := List.mem_singleton.mp hp
  exact .here id

theorem within_atLeast {least : Int} (h : p ∈ atLeast place least v) :
    p.Within place IsStep v := by
  obtain ⟨-, hp⟩ := List.mem_ite_nil_right.mp h
  obtain rfl := List.mem_singleton.mp hp
  exact .here id

theorem within_integerFrom {least : Int} (h : p ∈ integerFrom least place v) :
    p.Within place IsStep v := by
  rcases List.mem_append.mp h with h | h
  · exact within_ofKind h
  · exact within_atLeast h

theorem within_eachEntry {check : Place → Json → List Problem} {entries : List (Text × Json)}
    (hcheck : ∀ place w, ∀ p ∈ check place w, p.Within place IsStep w)
    (hstep : ∀ name, IsStep (.member name)) (h : p ∈ eachEntry check place entries) :
    p.Within place IsStep (.obj entries) := by
  obtain ⟨problems, hproblems, hp⟩ := List.mem_flatten.mp h
  obtain ⟨e, he, rfl⟩ := List.mem_map.mp hproblems
  exact (hcheck _ _ p hp).of_part (hstep e.1) fun hv => Json.hasNumerals_obj.mp hv e he

theorem within_eachItem {check : Place → Json → List Problem} {items : List Json}
    (hcheck : ∀ place w, ∀ p ∈ check place w, p.Within place IsStep w)
    (hstep : ∀ i, IsStep (.item i)) (h : p ∈ eachItem check place items) :
    p.Within place IsStep (.arr items) := by
  obtain ⟨problems, hproblems, hp⟩ := List.mem_flatten.mp h
  obtain ⟨e, he, rfl⟩ := List.mem_map.mp hproblems
  exact (hcheck _ _ p hp).of_part (hstep e.2) fun hv =>
    Json.hasNumerals_arr.mp hv e.1 (List.fst_mem_of_mem_zipIdx he)

theorem within_schemaProblems (h : p ∈ schemaProblems place v) : p.Within place IsStep v := by
  have hp : p ∈ [(⟨place, .noMark⟩ : Problem)] := by
    unfold schemaProblems at h
    split at h
    · exact (List.mem_ite_nil_left.mp h).2
    · exact h
  obtain rfl := List.mem_singleton.mp hp
  exact .here fun _ => rfl

theorem within_commandProblems (hstep : ∀ i, IsStep (.item i)) (h : p ∈ commandProblems place v) :
    p.Within place IsStep v := by
  unfold commandProblems at h
  rcases List.mem_append.mp h with h | h
  · exact within_ofKind h
  · split at h
    · rcases List.mem_append.mp h with h | h
      · exact within_eachItem (fun _ _ _ => within_ofKind) hstep h
      · obtain ⟨-, hp⟩ := List.mem_ite_nil_right.mp h
        obtain rfl := List.mem_singleton.mp hp
        exact .here fun _ => rfl
    · cases h

theorem within_linesProblems (hstep : ∀ name, IsStep (.member name))
    (h : p ∈ linesProblems place v) : p.Within place IsStep v := by
  unfold linesProblems at h
  rcases List.mem_append.mp h with h | h
  · exact within_ofKind h
  · split at h
    · rcases List.mem_append.mp h with h | h
      · obtain ⟨e, -, he⟩ := List.mem_filterMap.mp h
        obtain ⟨-, hp⟩ := Option.ite_none_left_eq_some.mp he
        obtain rfl := Option.some.inj hp
        exact .here fun _ => rfl
      · exact within_eachEntry (fun _ _ _ => within_integerFrom) hstep h
    · cases h

theorem within_coverageProblems (hstep : ∀ name, IsStep (.member name))
    (h : p ∈ coverageProblems place v) : p.Within place IsStep v := by
  unfold coverageProblems at h
  rcases List.mem_append.mp h with h | h
  · exact within_ofKind h
  · split at h
    · exact within_eachEntry (fun _ _ _ => within_linesProblems hstep) hstep h
    · cases h

/-- Indices lead into the command, names into every other member. -/
def Step.Leads (name : Text) : Step → Prop
  | .item _ => name = Text.ofString "command"
  | .member _ => name ≠ Text.ofString "command"

theorem within_members {m : Text × (Place → Json → List Problem)} (hm : m ∈ members)
    (h : p ∈ m.2 place v) : p.Within place (Step.Leads m.1) v := by
  have hcoverage : ∀ name, Step.Leads "coverage" (.member name) := by
    intro name
    rw [Step.Leads]
    decide
  revert m
  rw [forall_mem_members]
  exact ⟨within_schemaProblems, within_commandProblems fun _ => rfl, within_ofKind,
    within_integerFrom, within_integerFrom, within_ofKind, within_coverageProblems hcoverage⟩

/-- A problem of a value is one of the whole value, or one below a member. -/
theorem mem_found (h : p ∈ found v) :
    (p.place = [] ∧ (v.hasNumerals = true → p.violation.isShowable = true)) ∨
      ∃ name w, v.field? name = some w ∧ p.Within [.member name] (Step.Leads name) w := by
  unfold found at h
  rcases List.mem_append.mp h with h | h
  · obtain ⟨-, hp⟩ := List.mem_ite_nil_left.mp h
    obtain rfl := List.mem_singleton.mp hp
    exact .inl ⟨rfl, id⟩
  · split at h
    · rename_i entries
      rw [List.mem_append, List.mem_append] at h
      rcases h with (h | h) | h
      · obtain ⟨name, -, hname⟩ := List.mem_filterMap.mp h
        split at hname
        · cases hname
        · cases hname
          exact .inl ⟨rfl, fun _ => rfl⟩
      · obtain ⟨-, hp⟩ := List.mem_ite_nil_left.mp h
        obtain rfl := List.mem_singleton.mp hp
        exact .inl ⟨rfl, fun _ => rfl⟩
      · obtain ⟨problems, hproblems, hp⟩ := List.mem_flatten.mp h
        obtain ⟨⟨name, check⟩, hm, rfl⟩ := List.mem_map.mp hproblems
        dsimp only at hp
        split at hp
        · rename_i w hw
          exact .inr ⟨name, w, hw, within_members hm hp⟩
        · cases hp
    · cases h

theorem isShowable_of_mem_found (hv : v.hasNumerals = true) (h : p ∈ found v) :
    p.violation.isShowable = true := by
  rcases mem_found h with ⟨-, hshow⟩ | ⟨name, w, hw, hp⟩
  · exact hshow hv
  · exact hp.showable (Json.hasNumerals_of_field? hv hw)

theorem alike_of_leads {name : Text} {s s' : Step} (hs : s.Leads name) (hs' : s'.Leads name) :
    s.Alike s' := by
  cases s <;> cases s'
  · trivial
  · exact absurd hs' hs
  · exact absurd hs hs'
  · trivial

theorem comparable_of_leads {name : Text} {as bs : Place} (ha : ∀ s ∈ as, s.Leads name)
    (hb : ∀ s ∈ bs, s.Leads name) : Place.Comparable as bs := by
  induction as generalizing bs with
  | nil => trivial
  | cons a as ih =>
    cases bs with
    | nil => trivial
    | cons b bs =>
      obtain ⟨ha₀, ha⟩ := List.forall_mem_cons.mp ha
      obtain ⟨hb₀, hb⟩ := List.forall_mem_cons.mp hb
      rw [Place.Comparable]
      split
      · exact ih ha hb
      · exact alike_of_leads ha₀ hb₀

theorem comparable_nil_left (place : Place) : Place.Comparable [] place := trivial

theorem comparable_nil_right (place : Place) : Place.Comparable place [] := by
  cases place <;> trivial

/-- No problem lies at a name where another one lies at an index. -/
theorem comparable_of_mem_found {p' : Problem} (h : p ∈ found v) (h' : p' ∈ found v) :
    Place.Comparable p.place p'.place := by
  rcases mem_found h with ⟨hp, -⟩ | ⟨name, w, -, hp⟩
  · rw [hp]
    exact comparable_nil_left _
  rcases mem_found h' with ⟨hp', -⟩ | ⟨name', w', -, hp'⟩
  · rw [hp']
    exact comparable_nil_right _
  obtain ⟨steps, hplace, hsteps⟩ := hp.place_eq
  obtain ⟨steps', hplace', hsteps'⟩ := hp'.place_eq
  rw [hplace, hplace', List.singleton_append, List.singleton_append, Place.Comparable]
  split
  · rename_i heq
    cases heq
    exact comparable_of_leads hsteps hsteps'
  · trivial

/-! ## 6. The verdict -/

theorem mem_problems {p : Problem} : p ∈ problems v ↔ p ∈ found v :=
  (List.mergeSort_perm _ _).mem_iff

theorem errors_eq_nil_iff : errors v = [] ↔ IsResultset v := by
  rw [errors, List.map_eq_nil_iff, ← found_eq_nil_iff]
  simp only [List.eq_nil_iff_forall_not_mem, mem_problems]

/-- The messages are there unless one shows an integer that cannot be written. -/
theorem report_cases (v : Json) :
    (∀ p ∈ found v, p.violation.isShowable = true) ∧ report v = .ok (errors v) ∨
      (∃ p ∈ found v, p.violation.isShowable = false) ∧ report v = .error .unwritable := by
  rw [report]
  split
  · rename_i h
    exact .inl ⟨fun p hp => List.all_eq_true.mp h p (mem_problems.mpr hp), rfl⟩
  · rename_i h
    obtain ⟨p, hp, hshow⟩ := List.all_eq_false.mp (Bool.not_eq_true _ ▸ h)
    exact .inr ⟨⟨p, mem_problems.mp hp, Bool.not_eq_true _ ▸ hshow⟩, rfl⟩

theorem report_eq_nil_iff : report v = .ok [] ↔ IsResultset v := by
  rw [← errors_eq_nil_iff]
  rcases report_cases v with ⟨-, h⟩ | ⟨⟨p, hp, -⟩, h⟩
  · rw [h, Except.ok.injEq]
  · have hne : errors v ≠ [] := by
      rw [errors, ne_eq, List.map_eq_nil_iff]
      exact List.ne_nil_of_mem (mem_problems.mpr hp)
    simp [h, hne]

/-- The check refuses what there are messages about, with all of them. -/
theorem check_eq_invalid_iff {messages : List Text} :
    check v = .error (.invalid messages) ↔ report v = .ok messages ∧ messages ≠ [] := by
  rw [check]
  cases h : report v with
  | error e =>
    rcases report_cases v with ⟨-, hreport⟩ | ⟨-, hreport⟩
    · rw [h] at hreport
      cases hreport
    · rw [h] at hreport
      cases hreport
      simp
  | ok found =>
    cases found with
    | nil => simp [eq_comm]
    | cons message more =>
      simp only [Except.error.injEq, Fault.invalid.injEq, Except.ok.injEq]
      constructor
      · rintro rfl
        exact ⟨rfl, by simp⟩
      · rintro ⟨rfl, -⟩
        rfl

theorem check_eq_ok_iff : check v = .ok () ↔ IsResultset v := by
  rw [← report_eq_nil_iff, check]
  cases h : report v with
  | error e => simp
  | ok found => cases found <;> simp

theorem Fault.isBadInput_iff {e : Fault} :
    e.fault.IsBadInput ↔ ∃ messages, e = .invalid messages := by
  cases e with
  | invalid messages => exact ⟨fun _ => ⟨messages, rfl⟩, fun _ => ⟨_, rfl⟩⟩
  | _ =>
    constructor
    · rintro ⟨message, h⟩
      cases h
    · rintro ⟨messages, h⟩
      cases h

/-- The verdict on any value. The places of its problems can be ordered. Their
messages are given unless one would show an integer that cannot be written, which
the value then holds. It is refused as bad input exactly when there are messages,
and there are none exactly when it is a result set. -/
theorem verdict (v : Json) :
    (∀ p ∈ found v, ∀ p' ∈ found v, Place.Comparable p.place p'.place) ∧
    ((∀ p ∈ found v, p.violation.isShowable = true) ∧ report v = .ok (errors v) ∨
      (∃ p ∈ found v, p.violation.isShowable = false) ∧ report v = .error .unwritable ∧
        v.hasNumerals = false) ∧
    ((∃ e, check v = .error e ∧ e.fault.IsBadInput) ↔
      ∃ messages, report v = .ok messages ∧ messages ≠ []) ∧
    (report v = .ok [] ↔ IsResultset v) := by
  refine ⟨fun p hp p' hp' => comparable_of_mem_found hp hp', ?_, ?_, report_eq_nil_iff⟩
  · rcases report_cases v with h | ⟨⟨p, hp, hshow⟩, h⟩
    · exact .inl h
    · refine .inr ⟨⟨p, hp, hshow⟩, h, Bool.eq_false_iff.mpr fun hv => ?_⟩
      rw [isShowable_of_mem_found hv hp] at hshow
      cases hshow
  · constructor
    · rintro ⟨e, he, hbad⟩
      obtain ⟨messages, rfl⟩ := Fault.isBadInput_iff.mp hbad
      exact ⟨messages, check_eq_invalid_iff.mp he⟩
    · rintro ⟨messages, h⟩
      exact ⟨.invalid messages, check_eq_invalid_iff.mpr h,
        Fault.isBadInput_iff.mpr ⟨messages, rfl⟩⟩

end Resultset

end LineTrace
