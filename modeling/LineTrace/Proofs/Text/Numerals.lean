/-
LineTrace.Proofs.Text.Numerals — decimal numerals are read as they are written.

`exists_isWhole_ofNat` takes a numeral apart once: it is digits, at least one, no
zero before others, and their value is the number. What is a numeral for a reader follows from that
alone, so the recursion that writes the digits is not opened again.

A numeral is read back (`readInteger_ofInt`) as long as it is not longer than a
numeral may be; longer ones are written all the same. Digits that were read never
give a number with a longer numeral than themselves
(`length_ofNat_decimalValue_le`).
-/
import LineTrace.Text.Integer
import Mathlib.Algebra.Group.Nat.Defs
import Mathlib.Data.List.Induction

namespace LineTrace.Text

/-! ## 1. Writing -/

theorem decimalValue_concat (ds : List Nat) (d : Nat) :
    decimalValue (ds ++ [d]) = 10 * decimalValue ds + d := by
  simp [decimalValue, List.foldl_append]

theorem digits_of_pos {b n : Nat} (hb : 2 ≤ b) (hn : 0 < n) :
    digits b n = digits b (n / b) ++ [n % b] := by
  rw [digits, dif_pos ⟨hb, hn⟩]

theorem digits_zero (b : Nat) : digits b 0 = [] := by
  rw [digits, dif_neg (by simp)]

theorem lt_of_mem_digits {b n d : Nat} (hb : 2 ≤ b) (h : d ∈ digits b n) : d < b := by
  induction n using Nat.strongRecOn with
  | _ n ih =>
    by_cases hn : 0 < n
    · rw [digits_of_pos hb hn, List.mem_append, List.mem_singleton] at h
      rcases h with h | rfl
      · exact ih (n / b) (Nat.div_lt_self hn hb) h
      · exact Nat.mod_lt n (by omega)
    · rw [Nat.eq_zero_of_not_pos hn, digits_zero] at h
      cases h

theorem decimalValue_digits (n : Nat) : decimalValue (digits 10 n) = n := by
  induction n using Nat.strongRecOn with
  | _ n ih =>
    by_cases hn : 0 < n
    · rw [digits_of_pos (by decide) hn, decimalValue_concat,
        ih (n / 10) (Nat.div_lt_self hn (by decide))]
      omega
    · rw [Nat.eq_zero_of_not_pos hn, digits_zero]
      rfl

/-- The digits of a number that is not zero do not start with one. -/
theorem head?_digits_ne_zero {b n : Nat} (hb : 2 ≤ b) (hn : 0 < n) :
    (digits b n).head? ≠ some 0 := by
  induction n using Nat.strongRecOn with
  | _ n ih =>
    rw [digits_of_pos hb hn]
    by_cases hdiv : 0 < n / b
    · have hfront := ih (n / b) (Nat.div_lt_self hn hb) hdiv
      rw [digits_of_pos hb hdiv] at hfront ⊢
      simpa using hfront
    · have hlt : n < b := by
        by_contra hge
        exact hdiv (Nat.div_pos (Nat.not_lt.mp hge) (by omega))
      rw [Nat.eq_zero_of_not_pos hdiv, digits_zero, Nat.mod_eq_of_lt hlt]
      simpa using Nat.ne_of_gt hn

/-- Digits as a numeral has them: a zero alone, or digits that do not start with
one. -/
structure IsWhole (ds : List Nat) : Prop where
  ne_nil : ds ≠ []
  lt : ∀ d ∈ ds, d < 10
  first : ds = [0] ∨ ds.head? ≠ some 0

/-- A numeral is its digits, and they have the number's value. -/
theorem exists_isWhole_ofNat (n : Nat) :
    ∃ ds, ofNat n = ds.map digit ∧ IsWhole ds ∧ decimalValue ds = n := by
  by_cases hn : n = 0
  · refine ⟨[0], ?_, ⟨by simp, by simp, .inl rfl⟩, by rw [hn]; rfl⟩
    rw [ofNat, numeral, if_pos hn]
    rfl
  · have hpos := Nat.pos_of_ne_zero hn
    have hne : digits 10 n ≠ [] := by
      rw [digits_of_pos (by decide) hpos]
      simp
    refine ⟨digits 10 n, ?_, ⟨hne, fun d => lt_of_mem_digits (by decide),
      .inr (head?_digits_ne_zero (by decide) hpos)⟩, decimalValue_digits n⟩
    rw [ofNat, numeral, if_neg hn]

theorem exists_digits_ofNat (n : Nat) :
    ∃ ds, ofNat n = ds.map digit ∧ ds ≠ [] ∧ (∀ d ∈ ds, d < 10) ∧ decimalValue ds = n := by
  obtain ⟨ds, hds, hwhole, hvalue⟩ := exists_isWhole_ofNat n
  exact ⟨ds, hds, hwhole.ne_nil, hwhole.lt, hvalue⟩

theorem ofNat_ne_nil (n : Nat) : ofNat n ≠ [] := by
  obtain ⟨ds, hds, hne, -⟩ := exists_digits_ofNat n
  simpa [hds] using hne

/-- Digits can be read off their code points. -/
theorem map_sub_map_digit {ds : List Nat} (h : ∀ d ∈ ds, d < 10) :
    (ds.map digit).map (· - 48) = ds := by
  rw [List.map_map]
  refine (List.map_congr_left fun d hd => ?_).trans (List.map_id ds)
  have hd' := h d hd
  simp [digit, hd']

theorem decimalValue_zeros_append (k : Nat) (ds : List Nat) :
    decimalValue (List.replicate k 0 ++ ds) = decimalValue ds := by
  induction k with
  | zero => rfl
  | succ k ih => exact ih

theorem decimalValue_append_zeros (ds : List Nat) (k : Nat) :
    decimalValue (ds ++ List.replicate k 0) = 10 ^ k * decimalValue ds := by
  induction k with
  | zero => simp
  | succ k ih =>
    rw [List.replicate_succ', ← List.append_assoc, decimalValue_concat, ih, Nat.pow_succ,
      Nat.add_zero, ← Nat.mul_assoc, Nat.mul_comm 10]

/-- The number can be read off its numeral. -/
theorem decimalValue_ofNat (n : Nat) : decimalValue ((ofNat n).map (· - 48)) = n := by
  obtain ⟨ds, hds, -, hlt, hvalue⟩ := exists_digits_ofNat n
  rw [hds, map_sub_map_digit hlt, hvalue]

/-! ## 2. Length -/

/-- One more digit makes a numeral longer by one at most. -/
theorem length_digits_le (n : Nat) {d : Nat} (hd : d < 10) :
    (digits 10 (10 * n + d)).length ≤ (digits 10 n).length + 1 := by
  by_cases hzero : 10 * n + d = 0
  · rw [hzero, digits_zero]
    exact Nat.zero_le _
  · have hdiv : (10 * n + d) / 10 = n := by omega
    rw [digits_of_pos (by decide) (Nat.pos_of_ne_zero hzero), hdiv, List.length_append]
    exact Nat.le_refl _

theorem length_digits_decimalValue_le {ds : List Nat} (h : ∀ d ∈ ds, d < 10) :
    (digits 10 (decimalValue ds)).length ≤ ds.length := by
  induction ds using List.reverseRecOn with
  | nil =>
    have hnil : digits 10 (decimalValue []) = [] := digits_zero 10
    exact Nat.le_of_eq (congrArg List.length hnil)
  | append_singleton ds d ih =>
    have hstep := length_digits_le (decimalValue ds) (h d (by simp))
    have hlen := ih fun x hx => h x (by simp [hx])
    rw [decimalValue_concat, List.length_append, List.length_singleton]
    omega

/-- The numeral of the number that digits spell is not longer than they are. -/
theorem length_ofNat_decimalValue_le {ds : List Nat} (hne : ds ≠ []) (h : ∀ d ∈ ds, d < 10) :
    (ofNat (decimalValue ds)).length ≤ ds.length := by
  rw [ofNat, numeral]
  split
  · exact List.length_pos_iff.mpr hne
  · rw [List.length_map]
    exact length_digits_decimalValue_le h

/-- One digit is never too long. -/
theorem hasNumeral_of_lt_ten {i : Int} (h : i.natAbs < 10) : hasNumeral i = true := by
  have hvalue : decimalValue [i.natAbs] = i.natAbs := by simp [decimalValue]
  have hlength : (ofNat (decimalValue [i.natAbs])).length ≤ 1 :=
    length_ofNat_decimalValue_le (List.cons_ne_nil _ _) (by simpa using h)
  rw [hvalue] at hlength
  exact decide_eq_true (Nat.le_trans hlength (by decide))

theorem lt_pow_length_digits (n : Nat) : n < 10 ^ (digits 10 n).length := by
  induction n using Nat.strongRecOn with
  | _ n ih =>
    by_cases hn : 0 < n
    · have hlt := ih (n / 10) (Nat.div_lt_self hn (by decide))
      rw [digits_of_pos (by decide) hn, List.length_append, List.length_singleton, Nat.pow_succ]
      omega
    · rw [Nat.eq_zero_of_not_pos hn]
      exact Nat.pow_pos (by decide)

theorem pow_length_digits_le {n : Nat} (hn : 0 < n) : 10 ^ (digits 10 n).length ≤ 10 * n := by
  induction n using Nat.strongRecOn with
  | _ n ih =>
    rw [digits_of_pos (by decide) hn, List.length_append, List.length_singleton, Nat.pow_succ]
    by_cases hdiv : 0 < n / 10
    · have hle := ih (n / 10) (Nat.div_lt_self hn (by decide)) hdiv
      omega
    · rw [Nat.eq_zero_of_not_pos hdiv, digits_zero, List.length_nil]
      omega

/-- A number has as many digits as its order of magnitude says. -/
theorem length_ofNat_bounds {n : Nat} (hn : 0 < n) :
    n < 10 ^ (ofNat n).length ∧ 10 ^ (ofNat n).length ≤ 10 * n := by
  rw [ofNat, numeral, if_neg (Nat.ne_of_gt hn), List.length_map]
  exact ⟨lt_pow_length_digits n, pow_length_digits_le hn⟩

theorem length_ofNat_ten_mul {n : Nat} (hn : 0 < n) :
    (ofNat (10 * n)).length = (ofNat n).length + 1 := by
  have hpos : 0 < 10 * n := by omega
  have hdiv : 10 * n / 10 = n := by omega
  rw [ofNat, ofNat, numeral, numeral, if_neg (Nat.ne_of_gt hpos), if_neg (Nat.ne_of_gt hn),
    List.length_map, List.length_map, digits_of_pos (by decide) hpos, hdiv, List.length_append,
    List.length_singleton]

/-- A numeral has no more digits than a number below a power of ten needs. -/
theorem length_ofNat_le_iff {n k : Nat} (hk : 0 < k) : (ofNat n).length ≤ k ↔ n < 10 ^ k := by
  rcases Nat.eq_zero_or_pos n with rfl | hpos
  · exact iff_of_true hk (Nat.pow_pos (by decide))
  · obtain ⟨hlt, hle⟩ := length_ofNat_bounds hpos
    constructor
    · exact fun h => Nat.lt_of_lt_of_le hlt (Nat.pow_le_pow_right (by decide) h)
    · intro h
      by_contra hlong
      have hpow : 10 ^ (k + 1) ≤ 10 ^ (ofNat n).length :=
        Nat.pow_le_pow_right (by decide) (Nat.lt_of_not_le hlong)
      rw [Nat.pow_succ] at hpow
      omega

theorem hasNumeral_iff {i : Int} : hasNumeral i = true ↔ i.natAbs < 10 ^ digitLimit := by
  rw [hasNumeral, decide_eq_true_eq]
  exact length_ofNat_le_iff (by decide)

/-! ## 3. Reading -/

theorem digitValue?_digit {d : Nat} (h : d < 10) : digitValue? (digit d) = some d := by
  revert d
  decide

theorem eq_zero_of_digit {d : Nat} (h : d < 10) (hd : digit d = 48) : d = 0 := by
  revert d
  decide

theorem hexValue?_digit {d : Nat} (h : d < 16) : hexValue? (digit d) = some d := by
  revert d
  decide

/-- A small number has two hexadecimal digits, with zeros before them. -/
theorem padLeft_numeral {c width : Nat} (h : c < 256) (hwidth : 2 ≤ width) :
    padLeft width 48 (numeral 16 c) =
      List.replicate (width - 2) 48 ++ [digit (c / 16), digit (c % 16)] := by
  have hsplit : List.replicate (width - 1) 48 = List.replicate (width - 2) 48 ++ [digit 0] := by
    rw [show width - 1 = (width - 2) + 1 by omega, List.replicate_succ']
    rfl
  by_cases hzero : c = 0
  · rw [hzero, show numeral 16 0 = [48] from rfl, padLeft, List.length_singleton, hsplit]
    simp [digit]
  by_cases hone : c / 16 = 0
  · have hdigits : digits 16 c = [c % 16] := by
      rw [digits_of_pos (by decide) (Nat.pos_of_ne_zero hzero), hone, digits_zero, List.nil_append]
    rw [numeral, if_neg hzero, hdigits, hone, padLeft, List.map_singleton, List.length_singleton,
      hsplit]
    simp
  · have hfront : c / 16 / 16 = 0 := by omega
    have hmod : c / 16 % 16 = c / 16 := by omega
    have hdigits : digits 16 c = [c / 16, c % 16] := by
      rw [digits_of_pos (by decide) (Nat.pos_of_ne_zero hzero),
        digits_of_pos (by decide) (Nat.pos_of_ne_zero hone), hfront, digits_zero, hmod]
      rfl
    rw [numeral, if_neg hzero, hdigits]
    rfl

theorem isNumberBlank_digit {d : Nat} (h : d < 10) : isNumberBlank (digit d) = false := by
  revert d
  decide

theorem isDigit_digit {d : Nat} (h : d < 10) : isDigit (digit d) = true := by
  revert d
  decide

theorem isDigit_iff {c : Nat} : isDigit c = true ↔ 48 ≤ c ∧ c ≤ 57 := by
  simp [isDigit]

/-- A digit is neither a low line nor a sign. -/
theorem digit_ne {d : Nat} (h : d < 10) : digit d ≠ 95 ∧ digit d ≠ 45 ∧ digit d ≠ 43 := by
  revert d
  decide

/-- A numeral holds digits only. -/
theorem isDigit_of_mem_ofNat {n : Nat} {c : CodePoint} (h : c ∈ ofNat n) : isDigit c = true := by
  obtain ⟨ds, hds, -, hlt, -⟩ := exists_digits_ofNat n
  rw [hds, List.mem_map] at h
  obtain ⟨d, hd, rfl⟩ := h
  exact isDigit_digit (hlt d hd)

theorem ofNat_injective {m n : Nat} (h : ofNat m = ofNat n) : m = n := by
  rw [← decimalValue_ofNat m, h, decimalValue_ofNat]

/-- The numeral of a number that is not below zero has no sign. -/
theorem ofNat_ne_minus (m : Nat) (t : Text) : ofNat m ≠ 45 :: t := by
  intro h
  have hdigit : isDigit 45 = true := isDigit_of_mem_ofNat (n := m) (by rw [h]; simp)
  exact absurd hdigit (by decide)

theorem ofInt_injective : Function.Injective ofInt := by
  intro i j h
  cases i with
  | ofNat m =>
    cases j with
    | ofNat n => exact congrArg Int.ofNat (ofNat_injective h)
    | negSucc n => exact absurd h (ofNat_ne_minus m _)
  | negSucc m =>
    cases j with
    | ofNat n => exact absurd h.symm (ofNat_ne_minus n _)
    | negSucc n =>
      have hsucc := ofNat_injective (List.cons.inj h).2
      exact congrArg Int.negSucc (Nat.succ.inj hsucc)

/-- Digits are read to their end, whatever does not go on with them follows. -/
theorem digitRun_digits {ds : List Nat} (h : ∀ d ∈ ds, d < 10) {tail : Text}
    (htail : ∀ afterDigit, digitRun afterDigit tail = some ([], tail)) (afterDigit : Bool) :
    digitRun afterDigit (ds.map digit ++ tail) = some (ds, tail) := by
  induction ds generalizing afterDigit with
  | nil => exact htail afterDigit
  | cons d ds ih =>
    have hd : d < 10 := h d (by simp)
    rw [List.map_cons, List.cons_append, digitRun, if_neg (digit_ne hd).1, digitValue?_digit hd]
    simp only [ih (fun x hx => h x (by simp [hx])), Option.map_some]

/-- A digit is no sign. -/
theorem signOf_digit {d : Nat} (h : d < 10) (rest : Text) :
    signOf (digit d :: rest) = (false, digit d :: rest) := by
  unfold signOf
  split
  · rename_i heq
    exact absurd (List.cons.inj heq).1 (digit_ne h).2.1
  · rename_i heq
    exact absurd (List.cons.inj heq).1 (digit_ne h).2.2
  · rfl

/-- Digits, and a line feed after them if there is one, are read as their value
unless they are too many. -/
theorem readInteger_digits {ds : List Nat} (hne : ds ≠ []) (hlt : ∀ d ∈ ds, d < 10) {tail : Text}
    (htail : tail = [] ∨ tail = [10]) :
    readInteger (ds.map digit ++ tail) =
      if digitLimit < ds.length then .error (.tooLong ds.length)
      else .ok (decimalValue ds : Int) := by
  obtain ⟨d, rest, rfl⟩ := List.exists_cons_of_ne_nil hne
  have hd : d < 10 := hlt d (by simp)
  have hrun : ∀ afterDigit, digitRun afterDigit tail = some ([], tail) := by
    rcases htail with rfl | rfl <;> exact fun _ => rfl
  have hblank : tail.all isNumberBlank = true := by
    rcases htail with rfl | rfl <;> rfl
  have hstart : ((d :: rest).map digit ++ tail).dropWhile isNumberBlank =
      (d :: rest).map digit ++ tail :=
    List.dropWhile_cons_of_neg (by simp [isNumberBlank_digit hd])
  have hsign : signOf ((d :: rest).map digit ++ tail) = (false, (d :: rest).map digit ++ tail) :=
    signOf_digit hd _
  rw [readInteger, hstart, hsign]
  simp only [digitRun_digits hlt hrun, hblank, if_true]
  rfl

/-- The numeral of a number that is not below zero is read as the number. -/
theorem readInteger_ofInt {i : Int} (hi : 0 ≤ i) (hle : (ofInt i).length ≤ digitLimit) :
    readInteger (ofInt i) = .ok i := by
  obtain ⟨n, rfl⟩ := Int.eq_ofNat_of_zero_le hi
  obtain ⟨ds, hds, hne, hlt, hvalue⟩ := exists_digits_ofNat n
  have hnumeral : ofInt (n : Int) = ds.map digit := hds
  rw [hnumeral, List.length_map] at hle
  rw [hnumeral, ← List.append_nil (ds.map digit), readInteger_digits hne hlt (.inl rfl),
    if_neg (Nat.not_lt.mpr hle), hvalue]

end LineTrace.Text
