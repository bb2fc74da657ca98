/-
LineTrace.Proofs.Json.Writing — the text of a value, piece by piece.

A value is written in pieces, some of which may have no text or no bytes. Which
values have neither kind of gap is `IsEncodable`, said of the value and not of its
pieces: integers that can be written, and no code point in a string or a name that
UTF-8 has no bytes for. `isPiece_prettyPieces` is the equivalence. It is an
induction over the value for every level of nesting and every text that goes before
it, because the pieces of a part are written with the line break and the comma
before it.

The written form of a number with a fraction is ASCII (`isPlain_floatText`) and what
an escape adds is too, so only the texts of the value itself matter. No control is left
in a string (`notMem_stringText`), and of the controls only the line feed is written
between strings (`notMem_documentText`).
-/
import LineTrace.Proofs.Json.Values
import LineTrace.Proofs.Text.Encoding
import LineTrace.Proofs.Text.Numerals

namespace LineTrace

/-! ## 1. Plain texts -/

namespace Text

/-- A text of ASCII code points from the blank on. -/
def IsPlain (t : Text) : Prop := ∀ c ∈ t, 32 ≤ c ∧ c < 128

instance (t : Text) : Decidable (IsPlain t) :=
  inferInstanceAs (Decidable (∀ c ∈ t, 32 ≤ c ∧ c < 128))

/-- A text of code points that UTF-8 has bytes for. -/
def IsScalars (t : Text) : Prop := ∀ c ∈ t, isScalar c = true

instance (t : Text) : Decidable (IsScalars t) :=
  inferInstanceAs (Decidable (∀ c ∈ t, isScalar c = true))

theorem isScalar_of_lt {c : Nat} (h : c < 128) : isScalar c = true :=
  isScalar_iff.mpr ⟨Nat.lt_trans h (by decide), .inl (Nat.lt_trans h (by decide))⟩

theorem IsPlain.isScalars {t : Text} (h : IsPlain t) : IsScalars t :=
  fun c hc => isScalar_of_lt (h c hc).2

theorem IsPlain.notMem {t : Text} (h : IsPlain t) {c : Nat} (hc : c < 32) : c ∉ t :=
  fun hmem => Nat.not_le.mpr hc (h c hmem).1

@[simp] theorem isScalars_append {s t : Text} : IsScalars (s ++ t) ↔ IsScalars s ∧ IsScalars t :=
  List.forall_mem_append

theorem IsPlain.append {s t : Text} (hs : IsPlain s) (ht : IsPlain t) : IsPlain (s ++ t) :=
  List.forall_mem_append.mpr ⟨hs, ht⟩

theorem isPlain_replicate {n c : Nat} (hc : 32 ≤ c ∧ c < 128) : IsPlain (List.replicate n c) := by
  intro x hx
  rw [List.eq_of_mem_replicate hx]
  exact hc

theorem IsPlain.of_subset {s t : Text} (ht : IsPlain t) (h : ∀ c ∈ s, c ∈ t) : IsPlain s :=
  fun c hc => ht c (h c hc)

theorem digit_plain {d : Nat} (h : d < 16) : 32 ≤ digit d ∧ digit d < 128 := by
  revert d
  decide

theorem isPlain_numeral {b : Nat} (hb : 2 ≤ b) (hle : b ≤ 16) (n : Nat) :
    IsPlain (numeral b n) := by
  intro c hc
  rw [numeral] at hc
  split at hc
  · rw [List.mem_singleton.mp hc]
    decide
  · obtain ⟨d, hd, rfl⟩ := List.mem_map.mp hc
    exact digit_plain (Nat.lt_of_lt_of_le (lt_of_mem_digits hb hd) hle)

theorem isPlain_ofNat (n : Nat) : IsPlain (ofNat n) := isPlain_numeral (by decide) (by decide) n

theorem isPlain_ofInt (i : Int) : IsPlain (ofInt i) := by
  cases i with
  | ofNat n => exact isPlain_ofNat n
  | negSucc n => exact List.forall_mem_cons.mpr ⟨by decide, isPlain_ofNat (n + 1)⟩

theorem IsPlain.padLeft {width fill : Nat} {t : Text} (ht : IsPlain t)
    (hfill : 32 ≤ fill ∧ fill < 128) : IsPlain (padLeft width fill t) :=
  (isPlain_replicate hfill).append ht

end Text

namespace Double

open Text

theorem isPlain_significant (digits : Nat) : IsPlain (significant digits) := by
  refine (isPlain_ofNat digits).of_subset fun c hc => ?_
  rw [significant, List.mem_reverse] at hc
  exact List.mem_reverse.mp ((List.dropWhile_sublist _).subset hc)

theorem isPlain_positional {ds : Text} (hds : IsPlain ds) (point : Int) :
    IsPlain (positional ds point) := by
  rw [positional]
  split
  · exact (IsPlain.append (by decide) (isPlain_replicate (by decide))).append hds
  · refine ((hds.of_subset fun c => List.mem_of_mem_take).append
      (isPlain_replicate (by decide))).append (by decide) |>.append ?_
    split
    · decide
    · exact hds.of_subset fun c => List.mem_of_mem_drop

theorem isPlain_scientific {ds : Text} (hds : IsPlain ds) (e : Int) :
    IsPlain (scientific ds e) := by
  rw [scientific, exponentText]
  refine (((hds.of_subset fun c => List.mem_of_mem_take).append ?_).append (by decide)).append
    (IsPlain.append ?_ ((isPlain_ofNat _).padLeft (by decide)))
  · split
    · decide
    · exact List.forall_mem_cons.mpr ⟨by decide, hds.of_subset fun c => List.mem_of_mem_drop⟩
  · split <;> decide

theorem isPlain_magnitudeText (mantissa : Nat) (exponent : Int) :
    IsPlain (magnitudeText mantissa exponent) := by
  rw [magnitudeText]
  split
  · decide
  · dsimp only
    split
    · exact isPlain_positional (isPlain_significant _) _
    · exact isPlain_scientific (isPlain_significant _) _

/-- The written form of a number is ASCII. -/
theorem isPlain_floatText (x : Double) : IsPlain x.floatText := by
  cases x with
  | nan => decide
  | infinite negative => cases negative <;> decide
  | finite negative mantissa exponent =>
    refine IsPlain.append ?_ (isPlain_magnitudeText mantissa exponent)
    split <;> decide

end Double

namespace Json

open Text

/-! ## 2. Strings -/

theorem isPlain_escapeChar {c : Nat} (h : c < 128) : IsPlain (escapeChar c) := by
  have hnumeral : IsPlain (numeral 16 c) := isPlain_numeral (by decide) (by decide) c
  unfold escapeChar
  repeat' split
  all_goals try decide
  · exact IsPlain.append (by decide) (hnumeral.padLeft (by decide))
  · rename_i hcontrol
    exact List.forall_mem_singleton.mpr ⟨Nat.not_lt.mp hcontrol, h⟩

theorem escapeChar_of_le {c : Nat} (h : 128 ≤ c) : escapeChar c = [c] := by
  unfold escapeChar
  repeat rw [if_neg (fun hc => absurd h (by rw [hc]; decide))]
  exact if_neg (Nat.not_lt.mpr (Nat.le_trans (by decide) h))

/-- Escaping neither adds nor takes away a code point that has no bytes. -/
theorem isScalars_escapeChar {c : Nat} : IsScalars (escapeChar c) ↔ isScalar c = true := by
  by_cases hc : c < 128
  · exact iff_of_true (isPlain_escapeChar hc).isScalars (isScalar_of_lt hc)
  · rw [escapeChar_of_le (Nat.not_lt.mp hc)]
    simp [IsScalars]

theorem isScalars_stringText {t : Text} : IsScalars (stringText t) ↔ IsScalars t := by
  have hquote : IsScalars [34] := IsPlain.isScalars (by decide)
  have hopen : stringText t = [34] ++ (t.flatMap escapeChar ++ [34]) := rfl
  rw [hopen, isScalars_append, isScalars_append]
  simp only [hquote, true_and, and_true]
  simp only [IsScalars, List.forall_mem_flatMap]
  exact forall₂_congr fun c _ => isScalars_escapeChar

/-! ## 3. Pieces -/

/-- A value that can be written in full: every integer is short enough, and every
code point of a string or a name has bytes. -/
inductive IsEncodable : Json → Prop where
  | null : IsEncodable .null
  | bool (b : Bool) : IsEncodable (.bool b)
  | int {i : Int} (h : Text.hasNumeral i = true) : IsEncodable (.int i)
  | float (x : Double) : IsEncodable (.float x)
  | str {t : Text} (h : IsScalars t) : IsEncodable (.str t)
  | arr {items : List Json} (h : ∀ v ∈ items, IsEncodable v) : IsEncodable (.arr items)
  | obj {entries : List (Text × Json)} (names : ∀ e ∈ entries, IsScalars e.1)
      (h : ∀ e ∈ entries, IsEncodable e.2) : IsEncodable (.obj entries)

/-- A piece that has a text, and a text that has bytes. -/
def IsPiece (piece : Option Text) : Prop := ∃ t, piece = some t ∧ IsScalars t

@[simp] theorem isPiece_some {t : Text} : IsPiece (some t) ↔ IsScalars t := by
  simp [IsPiece]

theorem isScalars_lineBreak (level : Nat) : IsScalars (lineBreak level) :=
  List.forall_mem_cons.mpr ⟨by decide, (isPlain_replicate (by decide)).isScalars⟩

theorem isPlain_numberText (x : Double) : IsPlain (numberText x) := by
  unfold numberText
  split
  · decide
  · decide
  · decide
  · exact Double.isPlain_floatText x

/-- A value without parts is written in one piece. -/
theorem isPiece_leafText? {v : Json} (hparts : ∀ items, v ≠ .arr items)
    (hentries : ∀ entries, v ≠ .obj entries) : IsPiece (leafText? v) ↔ IsEncodable v := by
  cases v with
  | null => exact iff_of_true (isPiece_some.mpr (IsPlain.isScalars (by decide))) .null
  | bool b =>
    refine iff_of_true (isPiece_some.mpr (IsPlain.isScalars ?_)) (.bool b)
    cases b <;> decide
  | int i =>
    rw [leafText?]
    by_cases h : hasNumeral i = true
    · rw [if_pos h]
      exact iff_of_true (isPiece_some.mpr (isPlain_ofInt i).isScalars) (.int h)
    · rw [if_neg h]
      refine iff_of_false ?_ ?_
      · rintro ⟨t, ht, -⟩
        cases ht
      · intro hint
        cases hint with
        | int hnumeral => exact h hnumeral
  | float x => exact iff_of_true (isPiece_some.mpr (isPlain_numberText x).isScalars) (.float x)
  | str t =>
    rw [leafText?, isPiece_some, isScalars_stringText]
    constructor
    · exact .str
    · intro hstr
      cases hstr with
      | str h => exact h
  | arr items => exact absurd rfl (hparts items)
  | obj entries => exact absurd rfl (hentries entries)

/-- The pieces of items: the first has `lead` before it, the others a comma. -/
theorem isPiece_indentedItems (level : Nat) {items : List Json}
    (h : ∀ v ∈ items, ∀ lead, (∀ p ∈ indented level lead v, IsPiece p) ↔
      IsScalars lead ∧ IsEncodable v) {lead : Text} (hlead : IsScalars lead) :
    (∀ p ∈ indentedItems level lead items, IsPiece p) ↔ ∀ v ∈ items, IsEncodable v := by
  have hcomma : IsScalars (44 :: lineBreak level) :=
    List.forall_mem_cons.mpr ⟨by decide, isScalars_lineBreak level⟩
  induction items generalizing lead with
  | nil => simp [indentedItems]
  | cons v items ih =>
    obtain ⟨hv, hitems⟩ := List.forall_mem_cons.mp h
    rw [indentedItems, List.forall_mem_append, List.forall_mem_cons]
    refine (and_congr (hv lead) (ih hitems hcomma)).trans ?_
    simp [hlead]

theorem indentedEntries_cons_cons (level : Nat) (k : Text) (v : Json) (e : Text × Json)
    (entries : List (Text × Json)) :
    indentedEntries level ((k, v) :: e :: entries) =
      [some (stringText k), some (Text.ofString ": ")] ++ indented level [] v ++
        [some (44 :: lineBreak level)] ++ indentedEntries level (e :: entries) := by
  rw [indentedEntries]
  simp

theorem isPiece_indentedEntries (level : Nat) {entries : List (Text × Json)}
    (h : ∀ e ∈ entries, ∀ lead, (∀ p ∈ indented level lead e.2, IsPiece p) ↔
      IsScalars lead ∧ IsEncodable e.2) :
    (∀ p ∈ indentedEntries level entries, IsPiece p) ↔
      ∀ e ∈ entries, IsScalars e.1 ∧ IsEncodable e.2 := by
  have hcomma : IsScalars (44 :: lineBreak level) :=
    List.forall_mem_cons.mpr ⟨by decide, isScalars_lineBreak level⟩
  have hcolon : IsScalars ": " := IsPlain.isScalars (by decide)
  induction entries with
  | nil => simp [indentedEntries]
  | cons e entries ih =>
    obtain ⟨k, v⟩ := e
    obtain ⟨hv, hentries⟩ := List.forall_mem_cons.mp h
    have hnil : IsScalars [] := by simp [IsScalars]
    have hentry : (∀ p ∈ [some (stringText k), some (Text.ofString ": ")] ++ indented level [] v,
        IsPiece p) ↔ IsScalars k ∧ IsEncodable v := by
      rw [List.forall_mem_append, hv []]
      simp [isScalars_stringText, hcolon, hnil]
    rw [List.forall_mem_cons]
    refine Iff.trans ?_ (and_congr hentry (ih hentries))
    cases entries with
    | nil => simp [indentedEntries]
    | cons e' entries =>
      rw [indentedEntries_cons_cons, List.forall_mem_append, List.forall_mem_append]
      simp only [List.forall_mem_singleton, isPiece_some, hcomma, and_true]

theorem isEncodable_arr {items : List Json} :
    IsEncodable (.arr items) ↔ ∀ v ∈ items, IsEncodable v := by
  constructor
  · intro h
    cases h with
    | arr h => exact h
  · exact .arr

theorem isEncodable_obj {entries : List (Text × Json)} :
    IsEncodable (.obj entries) ↔ ∀ e ∈ entries, IsScalars e.1 ∧ IsEncodable e.2 := by
  constructor
  · intro h e he
    cases h with
    | obj names h => exact ⟨names e he, h e he⟩
  · intro h
    exact .obj (fun e he => (h e he).1) fun e he => (h e he).2

/-- The one piece of a value without parts, and the text before it. -/
theorem isPiece_leaf {v : Json} (hparts : ∀ items, v ≠ .arr items)
    (hentries : ∀ entries, v ≠ .obj entries) (lead : Text) :
    (∀ p ∈ [(leafText? v).map (lead ++ ·)], IsPiece p) ↔ IsScalars lead ∧ IsEncodable v := by
  rw [List.forall_mem_singleton, ← isPiece_leafText? hparts hentries]
  cases leafText? v with
  | none => simp [IsPiece]
  | some t => simp

/-- The pieces of a value all have a text that has bytes exactly when the value can
be written in full, and what goes before it can. -/
theorem isPiece_indented (v : Json) (level : Nat) (lead : Text) :
    (∀ p ∈ indented level lead v, IsPiece p) ↔ IsScalars lead ∧ IsEncodable v := by
  have hbreak := isScalars_lineBreak
  induction v using Json.inductionOn generalizing level lead with
  | arr items ih =>
    rw [isEncodable_arr]
    cases items with
    | nil =>
      have hempty : IsScalars "[]" := IsPlain.isScalars (by decide)
      simp [indented, hempty]
    | cons v items =>
      have hopen : IsScalars (91 :: lineBreak (level + 1)) :=
        List.forall_mem_cons.mpr ⟨by decide, hbreak (level + 1)⟩
      have hclose : IsScalars [93] := IsPlain.isScalars (by decide)
      have hitems := isPiece_indentedItems (level + 1)
        (fun w hw lead => ih w hw (level + 1) lead) hopen
      rw [indented, List.forall_mem_append, List.forall_mem_append, ← hitems]
      simp [hbreak, hclose]
  | obj entries ih =>
    rw [isEncodable_obj]
    cases entries with
    | nil =>
      have hempty : IsScalars [123, 125] := IsPlain.isScalars (by decide)
      simp [indented, hempty]
    | cons e entries =>
      have hopen : IsScalars [123] := IsPlain.isScalars (by decide)
      have hclose : IsScalars [125] := IsPlain.isScalars (by decide)
      have hentries := isPiece_indentedEntries (level + 1)
        (fun w hw lead => ih w hw (level + 1) lead)
      rw [indented, List.forall_mem_append, List.forall_mem_append, ← hentries]
      simp [hbreak, hopen, hclose]
  | null => exact isPiece_leaf (by simp) (by simp) lead
  | bool b => exact isPiece_leaf (by simp) (by simp) lead
  | int i => exact isPiece_leaf (by simp) (by simp) lead
  | float x => exact isPiece_leaf (by simp) (by simp) lead
  | str t => exact isPiece_leaf (by simp) (by simp) lead

/-! ## 4. Documents -/

theorem mem_sortEntries {α : Type} {e : Text × α} {entries : List (Text × α)} :
    e ∈ sortEntries entries ↔ e ∈ entries :=
  (List.mergeSort_perm _ _).mem_iff

/-- The order of entries does not matter for what can be written. -/
theorem isEncodable_ordered (v : Json) : IsEncodable (ordered v) ↔ IsEncodable v := by
  induction v using Json.inductionOn with
  | arr items ih =>
    rw [ordered, orderedItems_eq, isEncodable_arr, isEncodable_arr, List.forall_mem_map]
    exact forall₂_congr ih
  | obj entries ih =>
    rw [ordered, orderedEntries_eq, isEncodable_obj, isEncodable_obj]
    simp only [mem_sortEntries, List.forall_mem_map]
    exact forall₂_congr fun e he => and_congr_right fun _ => ih e he
  | _ => rfl

theorem isPiece_prettyPieces (v : Json) : (∀ p ∈ prettyPieces v, IsPiece p) ↔ IsEncodable v := by
  have hnil : IsScalars [] := by simp [IsScalars]
  rw [prettyPieces, isPiece_indented, isEncodable_ordered]
  exact and_iff_right hnil

/-! ## 5. Pieces put together -/

/-- The text of pieces; one that has none adds nothing. -/
def joined (pieces : List (Option Text)) : Text := pieces.flatMap fun piece => piece.getD []

@[simp] theorem joined_nil : joined [] = [] := rfl

@[simp] theorem joined_cons (piece : Option Text) (pieces : List (Option Text)) :
    joined (piece :: pieces) = piece.getD [] ++ joined pieces := List.flatMap_cons

@[simp] theorem joined_append (ps qs : List (Option Text)) :
    joined (ps ++ qs) = joined ps ++ joined qs := List.flatMap_append

/-- The text of a value, one item a line, with the line break that ends it. -/
def documentText (v : Json) : Text := joined v.prettyPieces ++ [10]

/-! ## 6. Controls -/

section Controls

variable {control : Nat} (hcontrol : control < 32)

include hcontrol

/-- No control is left in a string. -/
theorem notMem_escapeChar (c : Nat) : control ∉ escapeChar c := by
  by_cases hc : c < 128
  · exact (isPlain_escapeChar hc).notMem hcontrol
  · rw [escapeChar_of_le (Nat.not_lt.mp hc), List.mem_singleton]
    rintro rfl
    exact hc (Nat.lt_trans hcontrol (by decide))

theorem notMem_stringText (t : Text) : control ∉ stringText t := by
  have hbody : control ∉ t.flatMap escapeChar := by
    rw [List.mem_flatMap]
    rintro ⟨c, -, hc⟩
    exact notMem_escapeChar hcontrol c hc
  have hquote : control ≠ 34 := Nat.ne_of_lt (Nat.lt_trans hcontrol (by decide))
  simpa [stringText, hquote] using hbody

theorem notMem_leafText? {v : Json} {t : Text} (h : leafText? v = some t) : control ∉ t := by
  cases v with
  | null =>
    cases h
    exact IsPlain.notMem (by decide) hcontrol
  | bool b =>
    cases h
    cases b <;> exact IsPlain.notMem (by decide) hcontrol
  | int i =>
    obtain ⟨-, ⟨⟩⟩ := Option.ite_none_right_eq_some.mp h
    exact (isPlain_ofInt i).notMem hcontrol
  | float x =>
    cases h
    exact (isPlain_numberText x).notMem hcontrol
  | str t =>
    cases h
    exact notMem_stringText hcontrol t
  | arr items =>
    cases h
    exact IsPlain.notMem (by decide) hcontrol
  | obj entries =>
    cases h
    exact IsPlain.notMem (by decide) hcontrol

end Controls

/-! ## 7. Carriage returns -/

theorem notMem_lineBreak (level : Nat) : 13 ∉ lineBreak level := by
  simp [lineBreak]

theorem notMem_leaf (v : Json) {lead : Text} (hlead : 13 ∉ lead) :
    13 ∉ joined [(leafText? v).map (lead ++ ·)] := by
  cases h : leafText? v with
  | none => simp
  | some t =>
    have ht := notMem_leafText? (show 13 < 32 by decide) h
    simp [hlead, ht]

theorem notMem_indentedItems (level : Nat) {items : List Json}
    (h : ∀ v ∈ items, ∀ lead, 13 ∉ lead → 13 ∉ joined (indented level lead v)) {lead : Text}
    (hlead : 13 ∉ lead) : 13 ∉ joined (indentedItems level lead items) := by
  induction items generalizing lead with
  | nil => simp [indentedItems]
  | cons v items ih =>
    obtain ⟨hv, hitems⟩ := List.forall_mem_cons.mp h
    have hcomma : 13 ∉ 44 :: lineBreak level := by simp [notMem_lineBreak]
    rw [indentedItems, joined_append, List.mem_append, not_or]
    exact ⟨hv lead hlead, ih hitems hcomma⟩

theorem notMem_indentedEntries (level : Nat) {entries : List (Text × Json)}
    (h : ∀ e ∈ entries, 13 ∉ joined (indented level [] e.2)) :
    13 ∉ joined (indentedEntries level entries) := by
  induction entries with
  | nil => simp [indentedEntries]
  | cons e entries ih =>
    obtain ⟨k, v⟩ := e
    obtain ⟨hv, hentries⟩ := List.forall_mem_cons.mp h
    have hcolon : 13 ∉ Text.ofString ": " := IsPlain.notMem (by decide) (by decide)
    have hbreak := notMem_lineBreak level
    have hk := notMem_stringText (show 13 < 32 by decide) k
    cases entries with
    | nil => simp [indentedEntries, hk, hcolon, hv]
    | cons e' entries =>
      rw [indentedEntries_cons_cons]
      simp [hk, hcolon, hv, hbreak, ih hentries]

/-- No carriage return is written at any level. -/
theorem notMem_indented (v : Json) (level : Nat) {lead : Text} (hlead : 13 ∉ lead) :
    13 ∉ joined (indented level lead v) := by
  have hbreak := notMem_lineBreak
  induction v using Json.inductionOn generalizing level lead with
  | arr items ih =>
    cases items with
    | nil =>
      have hempty : 13 ∉ Text.ofString "[]" := IsPlain.notMem (by decide) (by decide)
      simp [indented, hlead, hempty]
    | cons v items =>
      have hopen : 13 ∉ 91 :: lineBreak (level + 1) := by simp [hbreak]
      have hitems := notMem_indentedItems (level + 1)
        (fun w hw _ => ih w hw (level + 1)) hopen
      simp [indented, hlead, hbreak, hitems]
  | obj entries ih =>
    cases entries with
    | nil => simp [indented, hlead]
    | cons e entries =>
      have hentries := notMem_indentedEntries (level + 1)
        fun w hw => ih w hw (level + 1) List.not_mem_nil
      simp [indented, hlead, hbreak, hentries]
  | null => exact notMem_leaf _ hlead
  | bool b => exact notMem_leaf _ hlead
  | int i => exact notMem_leaf _ hlead
  | float x => exact notMem_leaf _ hlead
  | str t => exact notMem_leaf _ hlead

theorem notMem_documentText (v : Json) : 13 ∉ documentText v := by
  have hpieces := notMem_indented (ordered v) 0 (List.not_mem_nil (a := 13))
  simpa [documentText, prettyPieces] using hpieces

end Json

end LineTrace
