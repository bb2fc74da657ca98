/-
LineTrace.Proofs.Json.Spelling — texts from which a value is read.

A value has many texts: items and entries may stand on one line or on a line each. What
they have in common is said once, of any layout. `Spells` are the texts from which a
value is read, whatever follows; values without parts have theirs from the tokens, and an
array or an object has those made of texts of its parts with commas and any blanks
between them (`Spells.arr`, `Spells.obj`).

The fuel of the reader is measured by the text that is left, as the reader measures it.
-/
import LineTrace.Proofs.Json.Tokens
import LineTrace.Proofs.Json.Values

namespace LineTrace.Json

open Text

/-! ## 1. Blanks -/

/-- A text of blanks. -/
def IsBlank (t : Text) : Prop := ∀ c ∈ t, isSpace c = true

instance (t : Text) : Decidable (IsBlank t) :=
  inferInstanceAs (Decidable (∀ c ∈ t, isSpace c = true))

theorem IsBlank.skipSpace_append {blank : Text} (h : IsBlank blank) (t : Text) :
    skipSpace (blank ++ t) = skipSpace t :=
  List.dropWhile_append_of_pos h

/-- Blanks may stand before what follows a value. -/
theorem IsBlank.follows_append {blank rest : Text} (h : IsBlank blank) (hrest : Follows rest) :
    Follows (blank ++ rest) := by
  cases blank with
  | nil => exact hrest
  | cons c tail => exact .blank (List.forall_mem_cons.mp h).1 _

theorem skipSpace_cons {c : Nat} (h : isSpace c = false) (t : Text) :
    skipSpace (c :: t) = c :: t :=
  List.dropWhile_cons_of_neg (by simp [h])

theorem front_digit {d : Nat} (h : d < 10) :
    digit d < 128 ∧ isSpace (digit d) = false ∧ digit d ≠ 93 := by
  revert d
  decide

/-- A digit opens neither a string nor an array nor an object, and no name. -/
theorem digit_opens_nothing {d : Nat} (h : d < 10) :
    digit d ≠ 34 ∧ digit d ≠ 123 ∧ digit d ≠ 91 ∧ digit d ∉ [110, 116, 102, 78, 73, 45] := by
  revert d
  decide

/-- An integer starts with a digit, or with a minus sign and a digit. -/
theorem exists_front_ofInt (i : Int) :
    ∃ d tail, d < 10 ∧ (ofInt i = digit d :: tail ∨ ofInt i = 45 :: digit d :: tail) := by
  obtain ⟨ds, hds, hne, hlt, -⟩ := exists_digits_ofNat i.natAbs
  obtain ⟨d, ds, rfl⟩ := List.exists_cons_of_ne_nil hne
  refine ⟨d, ds.map digit, hlt d (by simp), ?_⟩
  cases i with
  | ofNat n => exact .inl hds
  | negSucc n => exact .inr (congrArg (45 :: ·) hds)

/-! ## 2. Values without parts -/

theorem readValue_null (fuel room : Nat) (rest : Text) :
    readValue (fuel + 1) room ("null" ++ rest) = .ok (.null, rest) := rfl

theorem readValue_bool (fuel room : Nat) (b : Bool) (rest : Text) :
    readValue (fuel + 1) room (boolText b ++ rest) = .ok (.bool b, rest) := by
  cases b <;> rfl

theorem readValue_str (fuel room : Nat) (t rest : Text) :
    readValue (fuel + 1) room (stringText t ++ rest) = .ok (.str t, rest) := by
  have hopen : stringText t ++ rest = 34 :: (t.flatMap escapeChar ++ 34 :: rest) := by
    simp [stringText]
  rw [hopen]
  unfold readValue
  simp only [if_true, readString_flatMap]
  rfl

/-- How the names start: none with a digit, and a minus sign goes with a letter. -/
theorem front_of_mem_names {e : Text × Json} (h : e ∈ names) :
    ∃ x y more, e.1 = x :: y :: more ∧ x ∈ [110, 116, 102, 78, 73, 45] ∧ (x = 45 → y = 73) := by
  simp only [names, List.mem_cons, List.not_mem_nil, or_false] at h
  rcases h with rfl | rfl | rfl | rfl | rfl | rfl <;>
    exact ⟨_, _, _, rfl, by decide, by decide⟩

theorem readName?_eq_none {c d : Nat} {t : Text}
    (h : c ∉ [110, 116, 102, 78, 73, 45] ∨ c = 45 ∧ d ≠ 73) : readName? (c :: d :: t) = none := by
  rw [readName?, Option.map_eq_none_iff, List.find?_eq_none]
  rintro ⟨name, v⟩ he hfront
  obtain ⟨x, y, more, rfl, hx, hminus⟩ := front_of_mem_names he
  rw [List.isPrefixOf_iff_prefix, List.cons_prefix_cons, List.cons_prefix_cons] at hfront
  obtain ⟨rfl, rfl, -⟩ := hfront
  rcases h with h | ⟨rfl, hd⟩
  · exact h hx
  · exact hd (hminus rfl)

/-- A number starts neither a string nor an array nor an object, and no name. -/
theorem readValue_number {fuel room c : Nat} {t : Text} (hquote : c ≠ 34) (hbrace : c ≠ 123)
    (hbracket : c ≠ 91) (hname : readName? (c :: t) = none) :
    readValue (fuel + 1) room (c :: t) = readNumber (c :: t) := by
  unfold readValue
  simp only [if_neg hquote, if_neg hbrace, if_neg hbracket, hname]

/-- A digit opens a number. -/
theorem readValue_digit {fuel room d : Nat} (hd : d < 10) {tail rest : Text}
    (hrest : Follows rest) :
    readValue (fuel + 1) room (digit d :: tail ++ rest) = readNumber (digit d :: tail ++ rest) := by
  obtain ⟨hquote, hbrace, hbracket, hname⟩ := digit_opens_nothing hd
  obtain ⟨x, more, hmore⟩ : ∃ x more, tail ++ rest = x :: more :=
    List.exists_cons_of_ne_nil (List.append_ne_nil_of_right_ne_nil tail hrest.ne_nil)
  rw [List.cons_append, hmore,
    readValue_number hquote hbrace hbracket (readName?_eq_none (.inl hname))]

theorem readValue_int (fuel room : Nat) {i : Int} (hi : hasNumeral i = true) {rest : Text}
    (hrest : Follows rest) :
    readValue (fuel + 1) room (ofInt i ++ rest) = .ok (.int i, rest) := by
  rw [← readNumber_ofInt hi hrest]
  obtain ⟨d, tail, hd, hfront | hfront⟩ := exists_front_ofInt i
  · rw [hfront, readValue_digit hd hrest]
  · have hd73 : digit d ≠ 73 := fun h => (digit_opens_nothing hd).2.2.2 (by rw [h]; decide)
    rw [hfront, List.cons_append, List.cons_append,
      readValue_number (by decide) (by decide) (by decide) (readName?_eq_none (.inr ⟨rfl, hd73⟩))]

theorem readValue_float (fuel room : Nat) {m : Nat} {e : Int} (he : Double.IsNormal m e)
    {rest : Text} (hrest : Follows rest) :
    readValue (fuel + 1) room ((Double.finite false m e).floatText ++ rest) =
      .ok (.float (.finite false m e), rest) := by
  obtain ⟨⟨d, tail, hd, hfront⟩, hread⟩ := readNumber_floatText he
  rw [← hread rest hrest, hfront, readValue_digit hd hrest]

/-! ## 3. Parts -/

/-- An item, and what comes next: the end of the array, or a comma. -/
theorem readItems_item {room fuel : Nat} {v : Json} {body after : Text}
    (hread : readValue fuel room body = .ok (v, after)) :
    (∀ tail, skipSpace after = 93 :: tail → readItems (fuel + 1) room body = .ok ([v], tail)) ∧
    ∀ more, skipSpace after = 44 :: more → readItems (fuel + 1) room body =
      (readItems fuel room (skipSpace more)).map fun (vs, tail) => (v :: vs, tail) := by
  constructor
  · intro tail hnext
    unfold readItems
    simp only [hread, hnext]
  · intro more hnext
    conv => lhs; unfold readItems
    simp only [hread, hnext]

/-- The name, the colon and the value of an entry, and what comes next: the end of
the object, or a comma. -/
theorem readEntries_entry {room fuel : Nat} (k : Text) {v : Json} {body after : Text}
    (hskip : skipSpace body = body) (hread : readValue fuel room body = .ok (v, after)) :
    (∀ tail, skipSpace after = 125 :: tail →
      readEntries (fuel + 1) room (stringText k ++ ": " ++ body) = .ok ([(k, v)], tail)) ∧
    ∀ more, skipSpace after = 44 :: more →
      readEntries (fuel + 1) room (stringText k ++ ": " ++ body) =
        (readEntries fuel room (skipSpace more)).map fun (es, tail) => ((k, v) :: es, tail) := by
  have htext : stringText k ++ ": " ++ body =
      34 :: (k.flatMap escapeChar ++ 34 :: 58 :: 32 :: body) := by
    simp [stringText, Text.ofString]
  have hblank : skipSpace (32 :: body) = body := hskip
  rw [htext]
  constructor
  · intro tail hnext
    unfold readEntries
    simp only [readString_flatMap, skipSpace_cons (show isSpace 58 = false from rfl), hblank, hread,
      hnext]
  · intro more hnext
    conv => lhs; unfold readEntries
    simp only [readString_flatMap, skipSpace_cons (show isSpace 58 = false from rfl), hblank, hread,
      hnext]

theorem readValue_bracket {fuel room c : Nat} {t tail : Text} (h : skipSpace t = c :: tail)
    (hc : c ≠ 93) :
    readValue (fuel + 1) (room + 1) (91 :: t) =
      (readItems fuel room (c :: tail)).map fun (vs, tail) => (.arr vs, tail) := by
  unfold readValue
  simp only [h]
  split <;> simp_all

theorem readValue_brace {fuel room c : Nat} {t tail : Text} (h : skipSpace t = c :: tail)
    (hc : c ≠ 125) :
    readValue (fuel + 1) (room + 1) (123 :: t) =
      (readEntries fuel room (c :: tail)).map fun (es, tail) =>
        (.obj (Table.ofEntries es), tail) := by
  unfold readValue
  simp only [h]
  split <;> simp_all

/-! ## 4. Texts of values -/

/-- A text from which a value is read in which `room` more may lie within each other,
whatever follows, with fuel for twice what is left. It starts neither with a blank nor
with a closing bracket. -/
structure Spells (room : Nat) (t : Text) (v : Json) : Prop where
  front : ∃ c tail, t = c :: tail ∧ c < 128 ∧ isSpace c = false ∧ c ≠ 93
  reads : ∀ fuel rest, Follows rest → 2 * (t ++ rest).length ≤ fuel →
    readValue fuel room (t ++ rest) = .ok (v, rest)

namespace Spells

theorem skipSpace_append {room : Nat} {t : Text} {v : Json} (h : Spells room t v) (rest : Text) :
    skipSpace (t ++ rest) = t ++ rest := by
  obtain ⟨c, tail, rfl, -, hspace, -⟩ := h.front
  rw [List.cons_append, skipSpace_cons hspace]

/-- A text is never empty, so there is fuel. -/
theorem of_succ {room : Nat} {t : Text} {v : Json}
    (hfront : ∃ c tail, t = c :: tail ∧ c < 128 ∧ isSpace c = false ∧ c ≠ 93)
    (hstep : ∀ fuel rest, Follows rest → 2 * (t ++ rest).length ≤ fuel + 1 →
      readValue (fuel + 1) room (t ++ rest) = .ok (v, rest)) : Spells room t v := by
  refine ⟨hfront, fun fuel rest hrest hfuel => ?_⟩
  cases fuel with
  | zero =>
    obtain ⟨c, tail, rfl, -⟩ := hfront
    simp at hfuel
  | succ fuel => exact hstep fuel rest hrest hfuel

theorem null (room : Nat) : Spells room "null" .null :=
  of_succ ⟨110, _, rfl, by decide⟩ fun fuel rest _ _ => readValue_null fuel room rest

theorem bool (room : Nat) (b : Bool) : Spells room (boolText b) (.bool b) :=
  of_succ (by cases b <;> exact ⟨_, _, rfl, by decide⟩)
    fun fuel rest _ _ => readValue_bool fuel room b rest

theorem int (room : Nat) {i : Int} (hi : hasNumeral i = true) :
    Spells room (ofInt i) (.int i) := by
  refine of_succ ?_ fun fuel rest hrest _ => readValue_int fuel room hi hrest
  obtain ⟨d, tail, hd, hfront | hfront⟩ := exists_front_ofInt i
  · exact ⟨_, _, hfront, front_digit hd⟩
  · exact ⟨_, _, hfront, by decide⟩

theorem float (room : Nat) {m : Nat} {e : Int} (he : Double.IsNormal m e) :
    Spells room (Double.finite false m e).floatText (.float (.finite false m e)) := by
  refine of_succ ?_ fun fuel rest hrest _ => readValue_float fuel room he hrest
  obtain ⟨d, tail, hd, hfront⟩ := (readNumber_floatText he).1
  exact ⟨_, _, hfront, front_digit hd⟩

theorem str (room : Nat) (t : Text) : Spells room (stringText t) (.str t) :=
  of_succ ⟨34, _, rfl, by decide⟩ fun fuel rest _ _ => readValue_str fuel room t rest

theorem arr_nil (room : Nat) : Spells (room + 1) "[]" (.arr []) :=
  of_succ ⟨91, _, rfl, by decide⟩ fun _ _ _ _ => rfl

theorem obj_nil (room : Nat) : Spells (room + 1) [123, 125] (.obj []) :=
  of_succ ⟨123, _, rfl, by decide⟩ fun _ _ _ _ => rfl

/-! ## 5. Texts of arrays and objects -/

theorem joinWith_cons (sep t : Text) (ts : List Text) :
    ∃ more, joinWith sep (t :: ts) = t ++ more := by
  cases ts with
  | nil => exact ⟨[], (List.append_nil t).symm⟩
  | cons u ts => exact ⟨sep ++ joinWith sep (u :: ts), by simp [joinWith]⟩

/-- The text of an entry whose value has the text `text`. -/
def entryText (text : Json → Text) (e : Text × Json) : Text := stringText e.1 ++ ": " ++ text e.2

theorem entryText_eq (text : Json → Text) (e : Text × Json) :
    ∃ more, entryText text e = 34 :: more := ⟨_, rfl⟩

theorem skipSpace_entryText (text : Json → Text) (e : Text × Json) (rest : Text) :
    skipSpace (entryText text e ++ rest) = entryText text e ++ rest := by
  obtain ⟨more, hmore⟩ := entryText_eq text e
  rw [hmore, List.cons_append, skipSpace_cons rfl]

/-- Blanks are skipped up to the first part, if that does not start with one. -/
theorem skipSpace_joinWith {α : Type} {blank : Text} (h : IsBlank blank) {part : α → Text} {x : α}
    (hpart : ∀ rest, skipSpace (part x ++ rest) = part x ++ rest) (sep : Text) (xs : List α)
    (rest : Text) :
    skipSpace (blank ++ (joinWith sep ((x :: xs).map part) ++ rest)) =
      joinWith sep ((x :: xs).map part) ++ rest := by
  obtain ⟨more, hmore⟩ := joinWith_cons sep (part x) (xs.map part)
  rw [h.skipSpace_append, List.map_cons, hmore, List.append_assoc, hpart]

variable {room : Nat} {text : Json → Text} {opening between close : Text}

/-- Items are read up to the bracket that closes them. -/
theorem readItems_joinWith {items : List Json} (hne : items ≠ [])
    (h : ∀ v ∈ items, Spells room (text v) v) (hbetween : IsBlank between) (hclose : IsBlank close)
    (rest : Text) {fuel : Nat}
    (hfuel : 2 * (joinWith (44 :: between) (items.map text) ++ (close ++ 93 :: rest)).length <
      fuel) :
    readItems fuel room (joinWith (44 :: between) (items.map text) ++ (close ++ 93 :: rest)) =
      .ok (items, rest) := by
  induction items generalizing fuel with
  | nil => exact absurd rfl hne
  | cons v items ih =>
    obtain ⟨hv, hitems⟩ := List.forall_mem_cons.mp h
    obtain ⟨fuel, rfl⟩ := Nat.exists_eq_succ_of_ne_zero (Nat.ne_zero_of_lt hfuel)
    cases items with
    | nil =>
      refine (readItems_item (hv.reads fuel _ (hclose.follows_append (.bracket rest))
        (Nat.le_of_lt_succ hfuel))).1 _ ?_
      rw [hclose.skipSpace_append, skipSpace_cons rfl]
    | cons w items =>
      have hw : Spells room (text w) w := hitems w (List.mem_cons_self ..)
      have htext : joinWith (44 :: between) ((v :: w :: items).map text) ++ (close ++ 93 :: rest) =
          text v ++ 44 :: (between ++
            (joinWith (44 :: between) ((w :: items).map text) ++ (close ++ 93 :: rest))) := by
        simp [joinWith]
      have hskip := skipSpace_joinWith hbetween hw.skipSpace_append (44 :: between) items
        (close ++ 93 :: rest)
      rw [htext] at hfuel ⊢
      have hrest := @ih (List.cons_ne_nil _ _) hitems fuel (by simp at hfuel ⊢; omega)
      rw [(readItems_item (hv.reads fuel _ (.comma _) (Nat.le_of_lt_succ hfuel))).2 _
        (skipSpace_cons rfl _), hskip, hrest]
      rfl

/-- Entries are read up to the brace that closes them. -/
theorem readEntries_joinWith {entries : List (Text × Json)} (hne : entries ≠ [])
    (h : ∀ e ∈ entries, Spells room (text e.2) e.2) (hbetween : IsBlank between)
    (hclose : IsBlank close) (rest : Text) {fuel : Nat}
    (hfuel : 2 * (joinWith (44 :: between) (entries.map (entryText text)) ++
      (close ++ 125 :: rest)).length < fuel) :
    readEntries fuel room (joinWith (44 :: between) (entries.map (entryText text)) ++
      (close ++ 125 :: rest)) = .ok (entries, rest) := by
  induction entries generalizing fuel with
  | nil => exact absurd rfl hne
  | cons e entries ih =>
    obtain ⟨k, v⟩ := e
    obtain ⟨hv, hentries⟩ := List.forall_mem_cons.mp h
    obtain ⟨fuel, rfl⟩ := Nat.exists_eq_succ_of_ne_zero (Nat.ne_zero_of_lt hfuel)
    cases entries with
    | nil =>
      have htext : joinWith (44 :: between) ([(k, v)].map (entryText text)) ++
          (close ++ 125 :: rest) = stringText k ++ Text.ofString ": " ++
            (text v ++ (close ++ 125 :: rest)) := by
        simp [joinWith, entryText]
      rw [htext] at hfuel ⊢
      refine (readEntries_entry k (hv.skipSpace_append _) (hv.reads fuel _
        (hclose.follows_append (.brace rest)) (by simp at hfuel ⊢; omega))).1 _ ?_
      rw [hclose.skipSpace_append, skipSpace_cons rfl]
    | cons e' entries =>
      have htext : joinWith (44 :: between) (((k, v) :: e' :: entries).map (entryText text)) ++
          (close ++ 125 :: rest) = stringText k ++ Text.ofString ": " ++
            (text v ++ 44 :: (between ++
              (joinWith (44 :: between) ((e' :: entries).map (entryText text)) ++
                (close ++ 125 :: rest)))) := by
        simp [joinWith, entryText]
      have hskip := skipSpace_joinWith hbetween (skipSpace_entryText text e') (44 :: between)
        entries (close ++ 125 :: rest)
      rw [htext] at hfuel ⊢
      have hrest := @ih (List.cons_ne_nil _ _) hentries fuel (by simp at hfuel ⊢; omega)
      rw [(readEntries_entry k (hv.skipSpace_append _)
        (hv.reads fuel _ (.comma _) (by simp at hfuel ⊢; omega))).2 _ (skipSpace_cons rfl _),
        hskip, hrest]
      rfl

/-- An array with commas and blanks between its items. -/
theorem arr {items : List Json} (hne : items ≠ []) (h : ∀ v ∈ items, Spells room (text v) v)
    (hopening : IsBlank opening) (hbetween : IsBlank between) (hclose : IsBlank close) :
    Spells (room + 1)
      (91 :: (opening ++ joinWith (44 :: between) (items.map text) ++ close ++ [93]))
      (.arr items) := by
  refine of_succ ⟨91, _, rfl, by decide⟩ fun fuel rest _ hfuel => ?_
  obtain ⟨v, items, rfl⟩ := List.exists_cons_of_ne_nil hne
  obtain ⟨more, hmore⟩ := joinWith_cons (44 :: between) (text v) (items.map text)
  obtain ⟨c, tail, hfront, -, hspace, hc⟩ := (h v (List.mem_cons_self ..)).front
  have htext :
      91 :: (opening ++ joinWith (44 :: between) ((v :: items).map text) ++ close ++ [93]) ++
        rest = 91 :: (opening ++
          (joinWith (44 :: between) ((v :: items).map text) ++ (close ++ 93 :: rest))) := by
    simp
  have hinner : joinWith (44 :: between) ((v :: items).map text) ++ (close ++ 93 :: rest) =
      c :: (tail ++ more ++ (close ++ 93 :: rest)) := by
    rw [List.map_cons, hmore, hfront]
    rfl
  rw [htext] at hfuel ⊢
  rw [readValue_bracket (by rw [hopening.skipSpace_append, hinner, skipSpace_cons hspace]) hc,
    ← hinner, readItems_joinWith hne h hbetween hclose rest (by simp at hfuel ⊢; omega)]
  rfl

/-- An object with commas and blanks between its entries. -/
theorem obj {entries : List (Text × Json)} (hne : entries ≠ [])
    (hnames : (Table.keys entries).Nodup) (h : ∀ e ∈ entries, Spells room (text e.2) e.2)
    (hopening : IsBlank opening) (hbetween : IsBlank between) (hclose : IsBlank close) :
    Spells (room + 1)
      (123 ::
        (opening ++ joinWith (44 :: between) (entries.map (entryText text)) ++ close ++ [125]))
      (.obj entries) := by
  refine of_succ ⟨123, _, rfl, by decide⟩ fun fuel rest _ hfuel => ?_
  obtain ⟨e, entries, rfl⟩ := List.exists_cons_of_ne_nil hne
  obtain ⟨more, hmore⟩ :=
    joinWith_cons (44 :: between) (entryText text e) (entries.map (entryText text))
  obtain ⟨name, hname⟩ := entryText_eq text e
  have htext : 123 :: (opening ++ joinWith (44 :: between) ((e :: entries).map (entryText text)) ++
      close ++ [125]) ++ rest = 123 :: (opening ++
        (joinWith (44 :: between) ((e :: entries).map (entryText text)) ++
          (close ++ 125 :: rest))) := by
    simp
  have hinner : joinWith (44 :: between) ((e :: entries).map (entryText text)) ++
      (close ++ 125 :: rest) = 34 :: (name ++ more ++ (close ++ 125 :: rest)) := by
    rw [List.map_cons, hmore, hname]
    rfl
  rw [htext] at hfuel ⊢
  rw [readValue_brace (by rw [hopening.skipSpace_append, hinner, skipSpace_cons rfl]) (by decide),
    ← hinner, readEntries_joinWith hne h hbetween hclose rest (by simp at hfuel ⊢; omega)]
  exact congrArg (fun es => Except.ok (Json.obj es, rest)) (Table.ofEntries_of_nodup hnames)

/-! ## 6. Whole texts -/

/-- A line with a text of a value on it is read as the value. -/
theorem read_line {t : Text} {v : Json} (h : Spells depthLimit t v) :
    Json.read (t ++ [10]) = .ok v := by
  have hread := h.reads (2 * (t ++ [10]).length + 2) [10] (.blank rfl []) (Nat.le_add_right _ _)
  have hmark : (t ++ [10]).head? ≠ some 0xFEFF := by
    obtain ⟨c, tail, rfl, hascii, -⟩ := h.front
    rw [List.cons_append, List.head?_cons]
    rintro ⟨⟩
    exact absurd hascii (by decide)
  rw [Json.read, if_neg hmark, h.skipSpace_append, hread]
  rfl

end Spells

end LineTrace.Json
