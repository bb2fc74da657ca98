/-
LineTrace.Proofs.Json.Tokens — strings and numbers are read as they were written.

A string is read escape by escape (`readString_flatMap`). A number ends where
neither a digit nor a point nor an exponent can go on, and what follows a value in
a written text, a comma, a closing bracket or a blank, is none of them (`Follows`).

For a number with a fraction or an exponent the text is only one of many of its
value: zeros at the end are left out, and the point stands where it reads best. So
its digits and its exponent are read first, whatever they are, and then it is shown
that they have the value of the digits that were to be written
(`exists_positional`, `exists_scientific`); digits of that value read as the number
(`ofDecimal_shortest`).
-/
import LineTrace.Json.Reader
import LineTrace.Proofs.Json.Writing
import LineTrace.Proofs.Number.Shortest

namespace LineTrace

namespace Json

open Text

/-! ## 1. Strings -/

/-- Four hexadecimal digits of a small number are read as it. -/
theorem unit?_padLeft {c : Nat} (h : c < 256) {more : Text} (hmore : more ≠ []) :
    unit? (padLeft 4 48 (numeral 16 c) ++ more) = some c := by
  obtain ⟨x, more, rfl⟩ := List.exists_cons_of_ne_nil hmore
  have hhigh : c / 16 < 16 := by omega
  have hlow : c % 16 < 16 := Nat.mod_lt c (by decide)
  have hvalue : 4096 * 0 + 256 * 0 + 16 * (c / 16) + c % 16 = c := by omega
  have hpadded : padLeft 4 48 (numeral 16 c) =
      [digit 0, digit 0, digit (c / 16), digit (c % 16)] := padLeft_numeral h (by decide)
  rw [hpadded]
  simp only [List.cons_append, List.nil_append, unit?, hexValue?_digit hhigh,
    hexValue?_digit hlow, hexValue?_digit (Nat.zero_lt_succ 15), Option.pure_def,
    Option.bind_eq_bind, Option.bind_some, hvalue]

theorem surrogatePair?_of_lt {c : Nat} (h : c < 0xD800) (t : Text) : surrogatePair? c t = none := by
  unfold surrogatePair?
  split
  · exact if_neg fun hhigh => Nat.not_le.mpr h hhigh.1
  · rfl

theorem readString_quote (opened : Nat) (rest : Text) :
    readString opened (34 :: rest) = .ok ([], rest) := by
  rw [readString.eq_def]
  rfl

theorem readString_letter (opened : Nat) {letter c : Nat} (hletter : letter ≠ 117)
    (h : letterEscape? letter = some c) (more : Text) :
    readString opened (92 :: letter :: more) = pushChar c (readString opened more) := by
  rw [readString.eq_def]
  simp [hletter, h]

theorem readString_unit (opened : Nat) {c : Nat} {more : Text} (h : unit? more = some c)
    (hlow : c < 0xD800) :
    readString opened (92 :: 117 :: more) = pushChar c (readString opened (more.drop 4)) := by
  rw [readString.eq_def]
  simp [h, surrogatePair?_of_lt hlow]

theorem readString_plain (opened : Nat) {c : Nat} (hquote : c ≠ 34) (hbackslash : c ≠ 92)
    (hcontrol : ¬ c < 32) (rest : Text) :
    readString opened (c :: rest) = pushChar c (readString opened rest) := by
  rw [readString.eq_def]
  simp [hquote, hbackslash, hcontrol]

/-- The escape of a code point is read as the code point. -/
theorem readString_escapeChar (opened c : Nat) {more : Text} (hmore : more ≠ []) :
    readString opened (escapeChar c ++ more) = pushChar c (readString opened more) := by
  have hletter : ∀ {d e : Nat}, d = c → e ≠ 117 → letterEscape? e = some d →
      readString opened ([92, e] ++ more) = pushChar c (readString opened more) := by
    rintro d e rfl he hd
    exact readString_letter opened he hd more
  unfold escapeChar
  iterate 7
    split
    · rename_i h
      exact hletter h.symm (by decide) rfl
  split
  · rename_i h
    have hunit := unit?_padLeft (Nat.lt_trans h (by decide)) hmore
    have hdrop : (padLeft 4 48 (numeral 16 c) ++ more).drop 4 = more := by
      rw [padLeft_numeral (Nat.lt_trans h (by decide)) (by decide)]
      rfl
    rw [List.append_assoc]
    exact (readString_unit opened hunit (Nat.lt_trans h (by decide))).trans (by rw [hdrop])
  · rename_i hquote hbackslash _ _ _ _ _ hcontrol
    exact readString_plain opened hquote hbackslash hcontrol more

/-- A string is read up to its closing quote. -/
theorem readString_flatMap (opened : Nat) (t rest : Text) :
    readString opened (t.flatMap escapeChar ++ 34 :: rest) = .ok (t, rest) := by
  induction t with
  | nil =>
    exact readString_quote opened rest
  | cons c t ih =>
    rw [List.flatMap_cons, List.append_assoc, readString_escapeChar opened c (by simp), ih]
    rfl
/-! ## 2. Digits -/

/-- What does not go on with digits. -/
def EndsDigits (rest : Text) : Prop := rest.head?.all (fun c => !isDigit c) = true

theorem mem_of_isSpace {c : CodePoint} (h : isSpace c = true) : c ∈ [32, 9, 10, 13] := by
  simpa [isSpace, or_assoc] using h

/-- What follows a value in a written text: a comma, a closing bracket or a blank. -/
inductive Follows : Text → Prop
  | comma (tail : Text) : Follows (44 :: tail)
  | bracket (tail : Text) : Follows (93 :: tail)
  | brace (tail : Text) : Follows (125 :: tail)
  | blank {c : CodePoint} (h : isSpace c = true) (tail : Text) : Follows (c :: tail)

theorem Follows.eq_cons {rest : Text} (h : Follows rest) :
    ∃ c ∈ [44, 93, 125, 32, 9, 10, 13], ∃ tail, rest = c :: tail := by
  cases h with
  | comma tail => exact ⟨44, by decide, tail, rfl⟩
  | bracket tail => exact ⟨93, by decide, tail, rfl⟩
  | brace tail => exact ⟨125, by decide, tail, rfl⟩
  | blank h tail => exact ⟨_, List.mem_append_right [44, 93, 125] (mem_of_isSpace h), tail, rfl⟩

theorem Follows.ne_nil {rest : Text} (h : Follows rest) : rest ≠ [] := by
  cases h <;> exact List.cons_ne_nil _ _

theorem Follows.endsDigits {rest : Text} (h : Follows rest) : EndsDigits rest := by
  obtain ⟨c, hc, tail, rfl⟩ := h.eq_cons
  have hnone : ∀ c ∈ [44, 93, 125, 32, 9, 10, 13], isDigit c = false := by decide
  simp [EndsDigits, hnone c hc]

theorem isDigit_of_mem_map_digit {ds : List Nat} (h : ∀ d ∈ ds, d < 10) {c : CodePoint}
    (hc : c ∈ ds.map digit) : isDigit c = true := by
  obtain ⟨d, hd, rfl⟩ := List.mem_map.mp hc
  exact isDigit_digit (h d hd)

theorem spanDigits_map_digit {ds : List Nat} (h : ∀ d ∈ ds, d < 10) {rest : Text}
    (hrest : EndsDigits rest) : spanDigits (ds.map digit ++ rest) = (ds, rest) := by
  have hdigits : ∀ c ∈ ds.map digit, isDigit c = true := fun c => isDigit_of_mem_map_digit h
  have hstop : rest.takeWhile isDigit = [] ∧ rest.dropWhile isDigit = rest := by
    cases rest with
    | nil => exact ⟨rfl, rfl⟩
    | cons c tail =>
      have hc : isDigit c = false := by simpa [EndsDigits] using hrest
      simp [hc]
  rw [spanDigits, List.takeWhile_append_of_pos hdigits, List.dropWhile_append_of_pos hdigits,
    hstop.1, hstop.2, List.append_nil, map_sub_map_digit h]

theorem wholePart_map_digit {ds : List Nat} (h : IsWhole ds) {rest : Text}
    (hrest : EndsDigits rest) : wholePart (ds.map digit ++ rest) = (ds, rest) := by
  rcases h.first with rfl | hfirst
  · rfl
  · obtain ⟨d, more, rfl⟩ := List.exists_cons_of_ne_nil h.ne_nil
    rw [← spanDigits_map_digit h.lt hrest]
    unfold wholePart
    split
    · rename_i heq
      have hzero : d = 0 := eq_zero_of_digit (h.lt d (by simp)) (List.cons.inj heq).1
      exact absurd (by rw [hzero]; rfl) hfirst
    · rfl

theorem head?_map_digit_ne {ds : List Nat} (h : IsWhole ds) (rest : Text) :
    (ds.map digit ++ rest).head? ≠ some 45 := by
  obtain ⟨d, more, rfl⟩ := List.exists_cons_of_ne_nil h.ne_nil
  simpa using (digit_ne (h.lt d (by simp))).2.1

/-! ## 3. Integers -/

theorem minusOf_of_head?_ne {t : Text} (h : t.head? ≠ some 45) : minusOf t = (false, t) := by
  cases t with
  | nil => rfl
  | cons c t =>
    have hc : c ≠ 45 := by simpa using h
    unfold minusOf
    split
    · rename_i heq
      exact absurd (List.cons.inj heq).1 hc
    · rfl

/-- The sign of a number, and its digits. -/
theorem minusOf_append (negative : Bool) {body : Text} (h : body.head? ≠ some 45) :
    minusOf ((if negative then [45] else []) ++ body) = (negative, body) := by
  cases negative with
  | true => rfl
  | false => exact minusOf_of_head?_ne h

theorem readNumber_eq {t body afterWhole afterFraction rest : Text} {negative : Bool}
    {whole fraction : List Nat} {exponent : Option Int} (hsign : minusOf t = (negative, body))
    (hwhole : wholePart body = (whole, afterWhole)) (hne : whole ≠ [])
    (hfraction : fractionPart afterWhole = (fraction, afterFraction))
    (hexponent : exponentPart afterFraction = (exponent, rest)) :
    readNumber t = (numberOf negative whole fraction exponent).map fun v => (v, rest) := by
  obtain ⟨d, ds, rfl⟩ := List.exists_cons_of_ne_nil hne
  simp only [readNumber, hsign, hwhole, hfraction, hexponent]

/-- What follows a value does not go on with a number. -/
theorem Follows.fractionPart {rest : Text} (h : Follows rest) :
    Json.fractionPart rest = ([], rest) := by
  obtain ⟨c, hc, tail, rfl⟩ := h.eq_cons
  simp only [List.mem_cons, List.not_mem_nil, or_false] at hc
  rcases hc with rfl | rfl | rfl | rfl | rfl | rfl | rfl <;> rfl

theorem Follows.exponentPart {rest : Text} (h : Follows rest) :
    Json.exponentPart rest = (none, rest) := by
  obtain ⟨c, hc, tail, rfl⟩ := h.eq_cons
  simp only [List.mem_cons, List.not_mem_nil, or_false] at hc
  rcases hc with rfl | rfl | rfl | rfl | rfl | rfl | rfl <;> rfl

/-- An integer is read as it was written. -/
theorem readNumber_ofInt {i : Int} (hi : hasNumeral i = true) {rest : Text}
    (hrest : Follows rest) : readNumber (ofInt i ++ rest) = .ok (.int i, rest) := by
  obtain ⟨ds, hds, hwhole, hvalue⟩ := exists_isWhole_ofNat i.natAbs
  have hsigned : ofInt i = (if decide (i < 0) then [45] else []) ++ ds.map digit := by
    cases i with
    | ofNat n => exact hds
    | negSucc n =>
      rw [if_pos (decide_eq_true (Int.negSucc_lt_zero n))]
      exact congrArg (45 :: ·) hds
  have hlength : ds.length ≤ digitLimit := by
    rw [hasNumeral, decide_eq_true_eq, hds, List.length_map] at hi
    exact hi
  have hi' : (if decide (i < 0) = true then -(i.natAbs : Int) else i.natAbs) = i := by
    by_cases hneg : i < 0
    · rw [if_pos (decide_eq_true hneg)]
      omega
    · rw [if_neg (by simpa using hneg)]
      omega
  rw [hsigned, List.append_assoc, readNumber_eq (minusOf_append _ (head?_map_digit_ne hwhole rest))
    (wholePart_map_digit hwhole hrest.endsDigits) hwhole.ne_nil hrest.fractionPart
    hrest.exponentPart, numberOf, if_pos ⟨rfl, rfl⟩, if_neg (Nat.not_lt.mpr hlength), hvalue]
  exact congrArg (fun j => Except.ok (Json.int j, rest)) hi'

/-! ## 4. Numbers with a fraction or an exponent -/

/-- The digits after a point. -/
theorem fractionPart_map_digit {ds : List Nat} (hne : ds ≠ []) (h : ∀ d ∈ ds, d < 10)
    {rest : Text} (hrest : EndsDigits rest) :
    fractionPart (46 :: (ds.map digit ++ rest)) = (ds, rest) := by
  obtain ⟨d, more, rfl⟩ := List.exists_cons_of_ne_nil hne
  simp only [fractionPart, spanDigits_map_digit h hrest]

/-- An exponent is read as it was written. -/
theorem exponentPart_exponentText (e : Int) {rest : Text} (hrest : EndsDigits rest) :
    exponentPart (101 :: (Double.exponentText e ++ rest)) = (some e, rest) := by
  obtain ⟨ds, hds, hne, hlt, hvalue⟩ := exists_digits_ofNat e.natAbs
  -- at least two digits, the first of which may be zeros
  obtain ⟨padded, hpadded, hpaddedNe, hpaddedLt, hpaddedValue⟩ : ∃ padded : List Nat,
      padLeft 2 48 (ofNat e.natAbs) = padded.map digit ∧ padded ≠ [] ∧ (∀ d ∈ padded, d < 10) ∧
        decimalValue padded = e.natAbs := by
    refine ⟨List.replicate (2 - (ofNat e.natAbs).length) 0 ++ ds, ?_, by simp [hne], ?_, ?_⟩
    · rw [padLeft, hds, List.map_append, List.map_replicate]
      rfl
    · rintro d hd
      rcases List.mem_append.mp hd with hd | hd
      · rw [List.eq_of_mem_replicate hd]
        decide
      · exact hlt d hd
    · rw [decimalValue_zeros_append, hvalue]
  have hspan := spanDigits_map_digit hpaddedLt hrest
  obtain ⟨d, more, rfl⟩ := List.exists_cons_of_ne_nil hpaddedNe
  rw [Double.exponentText, hpadded]
  by_cases hneg : e < 0
  · have hvalue' : -(decimalValue (d :: more) : Int) = e := by omega
    simp only [if_pos hneg, List.cons_append, List.nil_append, exponentPart, signOf, hspan, hvalue']
    rfl
  · have hvalue' : (decimalValue (d :: more) : Int) = e := by omega
    simp only [if_neg hneg, List.cons_append, List.nil_append, exponentPart, signOf, hspan, hvalue']
    rfl

/-- Digits, a point and digits are read as a number. -/
theorem readNumber_positional {whole fraction : List Nat} (hwhole : IsWhole whole)
    (hne : fraction ≠ []) (hlt : ∀ d ∈ fraction, d < 10) {rest : Text} (hrest : Follows rest) :
    readNumber (whole.map digit ++ 46 :: fraction.map digit ++ rest) =
      .ok (.float (Double.ofDecimal false (decimalValue (whole ++ fraction)) (-fraction.length)),
        rest) := by
  have hsign := minusOf_of_head?_ne
    (head?_map_digit_ne hwhole (46 :: (fraction.map digit ++ rest)))
  have htext : whole.map digit ++ 46 :: fraction.map digit ++ rest =
      whole.map digit ++ 46 :: (fraction.map digit ++ rest) := by simp
  rw [htext, readNumber_eq hsign (wholePart_map_digit hwhole rfl) hwhole.ne_nil
    (fractionPart_map_digit hne hlt hrest.endsDigits) hrest.exponentPart, numberOf,
    if_neg (fun h => hne h.2)]
  simp [Except.map]

/-- A digit, a fraction if there is one, and an exponent are read as a number. -/
theorem readNumber_scientific {ds : List Nat} (h : Double.IsSignificant ds) (e : Int) {rest : Text}
    (hrest : Follows rest) :
    readNumber (Double.scientific (ds.map digit) e ++ rest) =
      .ok (.float (Double.ofDecimal false (decimalValue ds) (e + 1 - ds.length)), rest) := by
  obtain ⟨d, fraction, rfl⟩ := List.exists_cons_of_ne_nil h.ne_nil
  have hwhole : IsWhole [d] := ⟨by simp, fun x hx => h.lt x (by simp_all), .inr h.first⟩
  have hexponent := exponentPart_exponentText e hrest.endsDigits
  obtain ⟨after, htext, hends, hfraction⟩ : ∃ after,
      Double.scientific ((d :: fraction).map digit) e ++ rest = [d].map digit ++ after ∧
        EndsDigits after ∧
        fractionPart after = (fraction, 101 :: (Double.exponentText e ++ rest)) := by
    by_cases hnil : fraction = []
    · refine ⟨101 :: (Double.exponentText e ++ rest), ?_, rfl, by rw [hnil]; rfl⟩
      simp [Double.scientific, hnil]
    · refine ⟨46 :: (fraction.map digit ++ 101 :: (Double.exponentText e ++ rest)), ?_, rfl,
        fractionPart_map_digit hnil (fun x hx => h.lt x (by simp [hx])) rfl⟩
      simp [Double.scientific, hnil]
  have hplaces : e - (fraction.length : Int) = e + 1 - ((d :: fraction).length : Int) := by
    rw [List.length_cons]
    omega
  have hsign := minusOf_of_head?_ne (head?_map_digit_ne hwhole after)
  rw [htext, readNumber_eq hsign (wholePart_map_digit hwhole hends) hwhole.ne_nil hfraction
    hexponent, numberOf, if_neg (by simp), Option.getD_some, hplaces]
  rfl

/-- A number starts with a digit and is read as it was written. -/
theorem readNumber_floatText {m : Nat} {e : Int} (h : Double.IsNormal m e) :
    (∃ d tail, d < 10 ∧ (Double.finite false m e).floatText = digit d :: tail) ∧
      ∀ rest, Follows rest → readNumber ((Double.finite false m e).floatText ++ rest) =
        .ok (.float (.finite false m e), rest) := by
  have hshortest := Double.ofDecimal_shortest h
  have hmantissa : m ≠ 0 := by
    rintro rfl
    exact absurd h.low (by decide)
  have hdigits : 0 < (Double.shortest m e).1 := by
    by_contra hzero
    rw [Nat.eq_zero_of_not_pos hzero, Double.ofDecimal, if_pos (.inl rfl), Double.nearest,
      if_pos rfl] at hshortest
    cases hshortest
    exact hmantissa rfl
  obtain ⟨ds, k, htext, hds, hvalue, hlength⟩ := Double.exists_significant hdigits
  -- the digits read as the number, wherever the point stands
  have hread : Double.ofDecimal false (decimalValue ds)
      ((ofNat (Double.shortest m e).1).length + (Double.shortest m e).2 - ds.length) =
      .finite false m e := by
    rw [← hshortest, hvalue, Double.ofDecimal_pow_mul, ← hvalue, hlength]
    exact congrArg _ (by omega)
  have hfloat : (Double.finite false m e).floatText = Double.magnitudeText m e := rfl
  rw [hfloat, Double.magnitudeText, if_neg hmantissa]
  simp only [htext]
  split
  · obtain ⟨whole, fraction, hplaced⟩ := Double.exists_positional hds
      ((ofNat (Double.shortest m e).1).length + (Double.shortest m e).2)
    refine ⟨?_, fun rest hrest => ?_⟩
    · obtain ⟨d, more, rfl⟩ := List.exists_cons_of_ne_nil hplaced.isWhole.ne_nil
      exact ⟨d, _, hplaced.isWhole.lt d (by simp), hplaced.text⟩
    · rw [hplaced.text, readNumber_positional hplaced.isWhole hplaced.fraction_ne_nil
        hplaced.fraction_lt hrest, hplaced.value, hread]
  · refine ⟨?_, fun rest hrest => ?_⟩
    · obtain ⟨d, more, rfl⟩ := List.exists_cons_of_ne_nil hds.ne_nil
      exact ⟨d, _, hds.lt d (by simp), rfl⟩
    · rw [readNumber_scientific hds _ hrest, sub_add_cancel, hread]

end Json

end LineTrace
