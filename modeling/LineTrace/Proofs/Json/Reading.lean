/-
LineTrace.Proofs.Json.Reading — what is true of every value that is read.

`of_read` is the induction over the reader's three functions, stated once: what
holds of the strings, the names and the numbers that are read and goes over from
the parts of a value to the value holds of whatever is read. The fuel is what the
induction is on, since it goes down with every call.

The use of it here: a numeral is refused before it is too long to be written
again, so every integer in a value that was read can be written
(`hasNumerals_of_read`).
-/
import LineTrace.Json.Reader
import LineTrace.Proofs.Json.Values
import LineTrace.Proofs.Text.Encoding
import LineTrace.Proofs.Text.Numerals

namespace LineTrace

namespace Json

/-! ## 1. Induction over reading -/

section Reading

variable {P : Json → Prop} (str : ∀ t, P (.str t)) (name : ∀ e ∈ names, P e.2)
  (number : ∀ t v rest, readNumber t = .ok (v, rest) → P v)
  (arr : ∀ items, (∀ v ∈ items, P v) → P (.arr items))
  (obj : ∀ entries, (∀ e ∈ entries, P e.2) → P (.obj (Table.ofEntries entries)))

theorem of_readItems_succ {fuel : Nat}
    (value : ∀ room t v rest, readValue fuel room t = .ok (v, rest) → P v)
    (items : ∀ room t vs rest, readItems fuel room t = .ok (vs, rest) → ∀ v ∈ vs, P v)
    {room : Nat} {t : Text} {vs : List Json} {rest : Text}
    (h : readItems (fuel + 1) room t = .ok (vs, rest)) : ∀ v ∈ vs, P v := by
  unfold readItems at h
  split at h
  · cases h
  · rename_i v after hv
    have hfirst : P v := value _ _ _ _ hv
    split at h
    · cases h
      simpa using hfirst
    · obtain ⟨⟨more, tail⟩, hmore, heq⟩ := map_eq_ok_iff.mp h
      cases heq
      exact List.forall_mem_cons.mpr ⟨hfirst, items _ _ _ _ hmore⟩
    · cases h

theorem of_readEntries_succ {fuel : Nat}
    (value : ∀ room t v rest, readValue fuel room t = .ok (v, rest) → P v)
    (entries : ∀ room t es rest, readEntries fuel room t = .ok (es, rest) → ∀ e ∈ es, P e.2)
    {room : Nat} {t : Text} {es : List (Text × Json)} {rest : Text}
    (h : readEntries (fuel + 1) room t = .ok (es, rest)) : ∀ e ∈ es, P e.2 := by
  unfold readEntries at h
  split at h
  · split at h
    · cases h
    split at h
    · split at h
      · cases h
      · rename_i v after hv
        have hfirst : P v := value _ _ _ _ hv
        split at h
        · cases h
          simpa using hfirst
        · obtain ⟨⟨more, tail⟩, hmore, heq⟩ := map_eq_ok_iff.mp h
          cases heq
          exact List.forall_mem_cons.mpr ⟨hfirst, entries _ _ _ _ hmore⟩
        · cases h
    · cases h
  · cases h

include str name number arr obj in
theorem of_readValue_succ {fuel : Nat}
    (items : ∀ room t vs rest, readItems fuel room t = .ok (vs, rest) → ∀ v ∈ vs, P v)
    (entries : ∀ room t es rest, readEntries fuel room t = .ok (es, rest) → ∀ e ∈ es, P e.2)
    {room : Nat} {t : Text} {v : Json} {rest : Text}
    (h : readValue (fuel + 1) room t = .ok (v, rest)) : P v := by
  unfold readValue at h
  split at h
  · cases h
  · split at h
    · obtain ⟨x, -, hx⟩ := map_eq_ok_iff.mp h
      cases hx
      exact str _
    split at h
    · split at h
      · cases h
      · cases h
        exact obj [] (by simp)
      · obtain ⟨x, hread, hx⟩ := map_eq_ok_iff.mp h
        cases hx
        exact obj _ (entries _ _ _ _ hread)
    split at h
    · split at h
      · cases h
      · cases h
        exact arr [] (by simp)
      · obtain ⟨x, hread, hx⟩ := map_eq_ok_iff.mp h
        cases hx
        exact arr _ (items _ _ _ _ hread)
    split at h
    · rename_i found hname
      cases h
      obtain ⟨e, he, hv⟩ := Option.map_eq_some_iff.mp hname
      cases hv
      exact name e (List.mem_of_find?_eq_some he)
    · exact number _ _ _ h

include str name number arr obj in
theorem of_readers (fuel : Nat) :
    (∀ room t v rest, readValue fuel room t = .ok (v, rest) → P v) ∧
    (∀ room t vs rest, readItems fuel room t = .ok (vs, rest) → ∀ v ∈ vs, P v) ∧
    ∀ room t es rest, readEntries fuel room t = .ok (es, rest) → ∀ e ∈ es, P e.2 := by
  induction fuel with
  | zero =>
    refine ⟨?_, ?_, ?_⟩ <;> intro room t found rest h <;> cases h
  | succ fuel ih =>
    obtain ⟨value, items, entries⟩ := ih
    exact ⟨fun _ _ _ _ => of_readValue_succ str name number arr obj items entries,
      fun _ _ _ _ => of_readItems_succ value items,
      fun _ _ _ _ => of_readEntries_succ value entries⟩

include str name number arr obj in
/-- What holds of strings, names and numbers, and of a value if it holds of its
parts, holds of the value that a text spells. -/
theorem of_read {t : Text} {v : Json} (h : read t = .ok v) : P v := by
  rw [read] at h
  split at h
  · cases h
  split at h
  · cases h
  · rename_i after hread
    split at h
    · cases h
      exact (of_readers str name number arr obj _).1 _ _ _ _ hread
    · cases h

end Reading

/-! ## 2. Integers -/

theorem lt_of_mem_spanDigits {t : Text} {d : Nat} (h : d ∈ (spanDigits t).1) : d < 10 := by
  obtain ⟨c, hc, rfl⟩ := List.mem_map.mp h
  have hdigit := Text.isDigit_iff.mp (List.all_eq_true.mp List.all_takeWhile c hc)
  omega

theorem lt_of_mem_wholePart {t : Text} {d : Nat} (h : d ∈ (wholePart t).1) : d < 10 := by
  unfold wholePart at h
  split at h
  · rw [List.mem_singleton.mp h]
    decide
  · exact lt_of_mem_spanDigits h

theorem natAbs_signed (negative : Bool) (n : Nat) :
    (if negative then -(n : Int) else n).natAbs = n := by
  cases negative <;> simp

theorem hasNumerals_of_numberOf {negative : Bool} {whole fraction : List Nat}
    (hne : whole ≠ []) (hdigits : ∀ d ∈ whole, d < 10) {exponent : Option Int} {v : Json}
    (h : numberOf negative whole fraction exponent = .ok v) : v.hasNumerals = true := by
  rw [numberOf] at h
  split at h
  · split at h
    · cases h
    · cases h
      have hlen := Text.length_ofNat_decimalValue_le hne hdigits
      rw [hasNumerals, Text.hasNumeral, decide_eq_true_eq, natAbs_signed]
      omega
  · cases h
    rfl

/-- An integer that was read can be written. -/
theorem hasNumerals_of_readNumber {t : Text} {v : Json} {rest : Text}
    (h : readNumber t = .ok (v, rest)) : v.hasNumerals = true := by
  unfold readNumber at h
  simp only at h
  split at h
  · cases h
  · rename_i whole afterWhole hne hwhole
    obtain ⟨v', hnumber, hv⟩ := map_eq_ok_iff.mp h
    cases hv
    refine hasNumerals_of_numberOf hne (fun d hd => ?_) hnumber
    exact lt_of_mem_wholePart (by rw [hwhole]; exact hd)

/-- Every integer in a value that was read can be written. -/
theorem hasNumerals_of_read {t : Text} {v : Json} (h : read t = .ok v) :
    v.hasNumerals = true := by
  refine of_read (P := fun v => v.hasNumerals = true) (fun _ => rfl) ?_
    (fun _ _ _ => hasNumerals_of_readNumber) (fun _ => hasNumerals_arr.mpr) ?_ h
  · intro e he
    simp only [names, List.mem_cons, List.not_mem_nil, or_false] at he
    rcases he with rfl | rfl | rfl | rfl | rfl | rfl <;> rfl
  · intro entries hentries
    rw [hasNumerals_obj]
    exact fun e he => hentries e (Table.mem_ofEntries he)

end Json

end LineTrace
