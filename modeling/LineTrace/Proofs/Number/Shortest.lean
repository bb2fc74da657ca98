/-
LineTrace.Proofs.Number.Shortest — the digits of a number read back as it.

For fewer than seventeen digits there is nothing to show: the search accepts only
what reads back. At seventeen it must succeed. The grid of that many digits has a
point within half a step of the number, a step is at most one part in `10 ^ 16` of
it, and what is that close to a number is rounded to it (`nearest_of_close`). So
`ofDecimal_shortest` holds of every number whose exponent is not the least one.

The limits on the number of places in `ofDecimal` are far outside of the range of
such numbers (`ofDecimal_eq_nearest`).
-/
import LineTrace.Number.Shortest
import LineTrace.Proofs.Number.Rounding
import LineTrace.Proofs.Text.Numerals

namespace LineTrace.Double

/-! ## 1. The decimal order of magnitude -/

theorem length_ofNat_zpow {n : Nat} (hn : 0 < n) :
    (10 : ℚ) ^ ((Text.ofNat n).length - 1 : ℤ) ≤ n ∧
      (n : ℚ) < 10 ^ ((Text.ofNat n).length : ℤ) := by
  obtain ⟨hlt, hle⟩ := Text.length_ofNat_bounds hn
  constructor
  · rw [zpow_sub_one₀ (by norm_num), ← div_eq_mul_inv, div_le_iff₀ (by norm_num), mul_comm]
    exact_mod_cast hle
  · exact_mod_cast hlt

theorem decimalPoint_spec {num den : Nat} (hnum : 0 < num) (hden : 0 < den) :
    (10 : ℚ) ^ (decimalPoint num den - 1) ≤ num / den ∧
      (num : ℚ) / den < 10 ^ decimalPoint num den := by
  obtain ⟨hnumLow, hnumHigh⟩ := length_ofNat_zpow hnum
  obtain ⟨hdenLow, hdenHigh⟩ := length_ofNat_zpow hden
  have hpos : (0 : ℚ) < den := Nat.cast_pos.mpr hden
  have htest := zpow_le_div_iff (by decide : 0 < 10) num hden
    (((Text.ofNat num).length : ℤ) - (Text.ofNat den).length)
  have hlow : (10 : ℚ) ^ (((Text.ofNat num).length : ℤ) - (Text.ofNat den).length - 1) ≤
      num / den := by
    rw [le_div_iff₀ hpos]
    calc (10 : ℚ) ^ (((Text.ofNat num).length : ℤ) - (Text.ofNat den).length - 1) * den
        ≤ 10 ^ (((Text.ofNat num).length : ℤ) - (Text.ofNat den).length - 1) *
            10 ^ ((Text.ofNat den).length : ℤ) :=
          mul_le_mul_of_nonneg_left hdenHigh.le (by positivity)
      _ = 10 ^ ((Text.ofNat num).length - 1 : ℤ) := by
          rw [← zpow_add₀ (by norm_num)]
          exact congrArg _ (by omega)
      _ ≤ num := hnumLow
  have hhigh : (num : ℚ) / den <
      10 ^ (((Text.ofNat num).length : ℤ) - (Text.ofNat den).length + 1) := by
    rw [div_lt_iff₀ hpos]
    calc (num : ℚ) < 10 ^ ((Text.ofNat num).length : ℤ) := hnumHigh
      _ = 10 ^ (((Text.ofNat num).length : ℤ) - (Text.ofNat den).length + 1) *
            10 ^ ((Text.ofNat den).length - 1 : ℤ) := by
          rw [← zpow_add₀ (by norm_num)]
          exact congrArg _ (by omega)
      _ ≤ 10 ^ (((Text.ofNat num).length : ℤ) - (Text.ofNat den).length + 1) * den :=
          mul_le_mul_of_nonneg_left hdenLow (by positivity)
  rw [Nat.cast_ofNat] at htest
  simp only [decimalPoint, Nat.pow_eq]
  split
  · rename_i hlt
    exact ⟨hlow, not_le.mp fun hle => Nat.not_le.mpr hlt (htest.mp hle)⟩
  · rename_i hle
    rw [add_sub_cancel_right]
    exact ⟨htest.mpr (Nat.not_lt.mp hle), hhigh⟩

/-! ## 2. The grid -/

/-- The nearest integer is a half away at most. -/
theorem roundHalfEven_error (num : Nat) {den : Nat} (hden : 0 < den) :
    |(roundHalfEven num den : ℚ) - num / den| ≤ 1 / 2 := by
  have hpos : (0 : ℚ) < den := Nat.cast_pos.mpr hden
  have hdiv : (den : ℚ) * (num / den : ℕ) + (num % den : ℕ) = num := by
    exact_mod_cast Nat.div_add_mod num den
  have hquotient : (num : ℚ) / den = (num / den : ℕ) + (num % den : ℕ) / den := by
    rw [div_eq_iff hpos.ne', add_mul, div_mul_cancel₀ _ hpos.ne', mul_comm, hdiv]
  have hdown : 2 * (num % den) ≤ den → |((num / den : ℕ) : ℚ) - num / den| ≤ 1 / 2 := by
    intro hle
    have hcast : (2 * (num % den : ℕ) : ℚ) ≤ den := by exact_mod_cast hle
    have hhalf : ((num % den : ℕ) : ℚ) / den ≤ 1 / 2 := by
      rw [div_le_iff₀ hpos]
      linarith
    rw [hquotient, sub_add_cancel_left, abs_neg, abs_of_nonneg (by positivity)]
    exact hhalf
  have hup : den ≤ 2 * (num % den) → |((num / den + 1 : ℕ) : ℚ) - num / den| ≤ 1 / 2 := by
    intro hle
    have hcast : (den : ℚ) ≤ 2 * (num % den : ℕ) := by exact_mod_cast hle
    have hhalf : 1 / 2 ≤ ((num % den : ℕ) : ℚ) / den := by
      rw [le_div_iff₀ hpos]
      linarith
    have hlt : ((num % den : ℕ) : ℚ) / den < 1 := by
      rw [div_lt_one hpos]
      exact_mod_cast Nat.mod_lt num hden
    rw [hquotient, Nat.cast_add, Nat.cast_one, add_sub_add_left_eq_sub, abs_of_pos (by linarith)]
    linarith
  simp only [roundHalfEven]
  split
  · rename_i hlt
    exact hdown hlt.le
  · rename_i hge
    split
    · rename_i hgt
      exact hup hgt.le
    · rename_i hle
      split
      · exact hdown (Nat.not_lt.mp hle)
      · exact hup (Nat.not_lt.mp hge)

theorem roundHalfEven_eq_or (num den : Nat) :
    roundHalfEven num den = num / den ∨ roundHalfEven num den = num / den + 1 := by
  simp only [roundHalfEven]
  repeat' split
  all_goals simp

/-- The grid point that is nearest is tried. -/
theorem roundHalfEven_mem_gridPoints (num : Nat) {den : Nat} (hden : 0 < den) (unit : ℤ) :
    roundHalfEven (num * 10 ^ (-unit).toNat) (den * 10 ^ unit.toNat) ∈
      gridPoints num den unit := by
  simp only [gridPoints, Nat.pow_eq]
  generalize num * 10 ^ (-unit).toNat = n
  generalize hd : den * 10 ^ unit.toNat = d
  have hpos : 0 < d := hd ▸ Nat.mul_pos hden (Nat.pow_pos (by decide))
  split
  · rename_i hexact
    have hq : roundHalfEven n d = n / d := by
      simp only [roundHalfEven, hexact, if_pos hpos, Nat.mul_zero]
    rw [hq]
    exact List.mem_singleton_self _
  · rcases roundHalfEven_eq_or n d with hq | hq
    · rw [if_pos hq, hq]
      exact List.mem_cons_self ..
    · rw [if_neg (by omega), hq]
      exact List.mem_cons_self ..

/-- A grid has a point that is half a step away at most. -/
theorem exists_gridPoint (num : Nat) {den : Nat} (hden : 0 < den) (unit : ℤ) :
    ∃ q ∈ gridPoints num den unit, |(q : ℚ) * 10 ^ unit - num / den| ≤ 10 ^ unit / 2 := by
  have hpow : (0 : ℚ) < 10 ^ unit := by positivity
  have hscale : ((num * 10 ^ (-unit).toNat : ℕ) : ℚ) / (den * 10 ^ unit.toNat : ℕ) =
      num / den / 10 ^ unit := by
    have hzpow := zpow_eq_div 10 unit
    rw [Nat.cast_ofNat] at hzpow
    rw [hzpow, Nat.cast_mul, Nat.cast_mul, div_div_eq_mul_div, div_mul_eq_mul_div, div_div]
  have herror := roundHalfEven_error (num * 10 ^ (-unit).toNat)
    (Nat.mul_pos hden (Nat.pow_pos (n := unit.toNat) (by decide : 0 < 10)))
  have hmem := roundHalfEven_mem_gridPoints num hden unit
  rw [hscale] at herror
  generalize roundHalfEven (num * 10 ^ (-unit).toNat) (den * 10 ^ unit.toNat) = q at herror hmem
  refine ⟨q, hmem, ?_⟩
  calc |(q : ℚ) * 10 ^ unit - num / den|
      = |(q : ℚ) - num / den / 10 ^ unit| * 10 ^ unit := by
        rw [← abs_of_pos hpow, ← abs_mul, abs_of_pos hpow, sub_mul, div_mul_cancel₀ _ hpow.ne']
    _ ≤ 1 / 2 * 10 ^ unit := mul_le_mul_of_nonneg_right herror hpow.le
    _ = 10 ^ unit / 2 := by ring

/-! ## 3. Reading digits -/

/-- Within the range of numbers, the number of places plays no part. -/
theorem ofDecimal_eq_nearest {digits : Nat} {exponent : ℤ}
    (hlow : (10 : ℚ) ^ (-400 : ℤ) ≤ digits * 10 ^ exponent)
    (hhigh : (digits : ℚ) * 10 ^ exponent < 10 ^ (400 : ℤ)) (negative : Bool) :
    ofDecimal negative digits exponent =
      nearest negative (digits * 10 ^ exponent.toNat) (10 ^ (-exponent).toNat) := by
  have hpow : (0 : ℚ) < 10 ^ exponent := by positivity
  have hdigits : 0 < digits := by
    by_contra hzero
    rw [Nat.eq_zero_of_not_pos hzero, Nat.cast_zero, zero_mul] at hlow
    exact absurd hlow (not_le.mpr (by positivity))
  obtain ⟨hle, hlt⟩ := length_ofNat_zpow hdigits
  have hplacesLow : -400 < ((Text.ofNat digits).length : ℤ) + exponent := by
    refine (zpow_lt_zpow_iff_right₀ (a := (10 : ℚ)) (by norm_num)).mp (lt_of_le_of_lt hlow ?_)
    rw [zpow_add₀ (by norm_num)]
    exact mul_lt_mul_of_pos_right hlt hpow
  have hplacesHigh : ((Text.ofNat digits).length : ℤ) - 1 + exponent < 400 := by
    refine (zpow_lt_zpow_iff_right₀ (a := (10 : ℚ)) (by norm_num)).mp (lt_of_le_of_lt ?_ hhigh)
    rw [zpow_add₀ (by norm_num)]
    exact mul_le_mul_of_nonneg_right hle hpow.le
  have hfew : ¬ (digits = 0 ∨ ((Text.ofNat digits).length : ℤ) + exponent < -400) := by
    omega
  have hmany : ¬ 400 < ((Text.ofNat digits).length : ℤ) + exponent := by
    omega
  simp only [ofDecimal, if_neg hfew, if_neg hmany, Nat.pow_eq]

/-- The places that digits may have go beyond the range of numbers. -/
theorem two_zpow_le_ten_zpow : (2 : ℚ) ^ (1025 : ℤ) ≤ 10 ^ (400 : ℤ) := by
  calc (2 : ℚ) ^ (1025 : ℤ) ≤ 2 ^ (3 * 400 : ℤ) :=
        zpow_le_zpow_right₀ (by norm_num) (by norm_num)
    _ = (2 ^ 3) ^ (400 : ℤ) := zpow_mul 2 3 400
    _ ≤ 10 ^ (400 : ℤ) := zpow_le_zpow_left₀ (by norm_num) (by norm_num) (by norm_num)

/-- Digits whose value is closer to a number than one part in `2 * 10 ^ 16` read as
it. -/
theorem ofDecimal_of_close {m q : Nat} {e unit : ℤ} (h : IsNormal m e)
    (hclose : |(q : ℚ) * 10 ^ unit - m * 2 ^ e| * (2 * 10 ^ 16) ≤ m * 2 ^ e) (negative : Bool) :
    ofDecimal negative q unit = .finite negative m e := by
  have hmLow : (2 : ℚ) ^ 52 ≤ m := by exact_mod_cast h.low
  have hmHigh : (m : ℚ) < 2 ^ 53 := by exact_mod_cast h.high
  have hpow : (0 : ℚ) < 2 ^ e := by positivity
  have hleast : (2 : ℚ) ^ (-1021 : ℤ) ≤ m * 2 ^ e := by
    calc (2 : ℚ) ^ (-1021 : ℤ) ≤ 2 ^ (52 + e) :=
          zpow_le_zpow_right₀ (by norm_num) (by have := h.least; omega)
      _ = 2 ^ 52 * 2 ^ e := by rw [zpow_add₀ (by norm_num), zpow_ofNat]
      _ ≤ m * 2 ^ e := mul_le_mul_of_nonneg_right hmLow hpow.le
  have hgreatest : (m : ℚ) * 2 ^ e < 2 ^ (1024 : ℤ) := by
    calc (m : ℚ) * 2 ^ e < 2 ^ 53 * 2 ^ e := mul_lt_mul_of_pos_right hmHigh hpow
      _ = 2 ^ (53 + e) := by rw [zpow_add₀ (by norm_num), zpow_ofNat]
      _ ≤ 2 ^ (1024 : ℤ) := zpow_le_zpow_right₀ (by norm_num) (by have := h.greatest; omega)
  have hdistance : |(q : ℚ) * 10 ^ unit - m * 2 ^ e| ≤ m * 2 ^ e / 2 := by
    have hnonneg := abs_nonneg ((q : ℚ) * 10 ^ unit - m * 2 ^ e)
    linarith
  obtain ⟨hleft, hright⟩ := abs_le.mp hdistance
  have hfew : (10 : ℚ) ^ (-400 : ℤ) ≤ q * 10 ^ unit := by
    have hsmall : (10 : ℚ) ^ (-400 : ℤ) ≤ 2 ^ (-1025 : ℤ) := by
      rw [zpow_neg, zpow_neg]
      exact inv_anti₀ (by positivity) two_zpow_le_ten_zpow
    have hhalf : (2 : ℚ) ^ (-1025 : ℤ) ≤ 2 ^ (-1021 : ℤ) / 2 := by
      rw [le_div_iff₀ (by norm_num), ← zpow_add_one₀ (by norm_num)]
      exact zpow_le_zpow_right₀ (by norm_num) (by norm_num)
    linarith
  have hmany : (q : ℚ) * 10 ^ unit < 10 ^ (400 : ℤ) := by
    have hdouble : (q : ℚ) * 10 ^ unit ≤ m * 2 ^ e * 2 := by
      have hnonneg : (0 : ℚ) ≤ m * 2 ^ e := by positivity
      linarith
    calc (q : ℚ) * 10 ^ unit ≤ m * 2 ^ e * 2 := hdouble
      _ < 2 ^ (1024 : ℤ) * 2 := mul_lt_mul_of_pos_right hgreatest (by norm_num)
      _ = 2 ^ (1025 : ℤ) := (zpow_add_one₀ (by norm_num) 1024).symm
      _ ≤ 10 ^ (400 : ℤ) := two_zpow_le_ten_zpow
  have hvalue : ((q * 10 ^ unit.toNat : ℕ) : ℚ) / (10 ^ (-unit).toNat : ℕ) = q * 10 ^ unit := by
    have hzpow := zpow_eq_div 10 unit
    rw [Nat.cast_ofNat] at hzpow
    rw [hzpow, Nat.cast_mul, mul_div_assoc]
  have hdigits : 0 < q := by
    by_contra hzero
    rw [Nat.eq_zero_of_not_pos hzero, Nat.cast_zero, zero_mul] at hfew
    exact absurd hfew (not_le.mpr (by positivity))
  rw [ofDecimal_eq_nearest hfew hmany]
  exact nearest_of_close h (Nat.mul_pos hdigits (Nat.pow_pos (by decide)))
    (Nat.pow_pos (by decide)) (by rwa [hvalue]) negative

/-! ## 4. The fewest digits -/

/-- The search accepts only digits that read back, and it ends if seventeen do. -/
theorem ofDecimal_shortestFrom {x : Double} {num den : Nat} {point : ℤ}
    (hlast : ∃ q ∈ gridPoints num den (point - 17), ofDecimal false q (point - 17) = x)
    {fuel count : Nat} (hfuel : 0 < fuel) (hcount : fuel + count = 18) :
    ofDecimal false (shortestFrom x num den point fuel count).1
      (shortestFrom x num den point fuel count).2 = x := by
  induction fuel generalizing count with
  | zero => exact absurd hfuel (Nat.lt_irrefl 0)
  | succ fuel ih =>
    simp only [shortestFrom]
    split
    · rename_i q hq
      simpa using List.find?_some hq
    · rename_i hnone
      by_cases hzero : fuel = 0
      · obtain ⟨q, hmem, hq⟩ := hlast
        have hseventeen : (count : ℤ) = 17 := by omega
        rw [hseventeen] at hnone
        exact absurd hq (by simpa using List.find?_eq_none.mp hnone q hmem)
      · exact ih (Nat.pos_of_ne_zero hzero) (by omega)

theorem ratio_eq (m : Nat) (e : ℤ) :
    ((ratio m e).1 : ℚ) / (ratio m e).2 = m * 2 ^ e := by
  have hzpow := zpow_eq_div 2 e
  rw [Nat.cast_ofNat] at hzpow
  simp only [ratio, Nat.pow_eq]
  rw [hzpow, Nat.cast_mul, mul_div_assoc]

/-- A number is what its shortest digits read as. -/
theorem ofDecimal_shortest {m : Nat} {e : ℤ} (h : IsNormal m e) :
    ofDecimal false (shortest m e).1 (shortest m e).2 = .finite false m e := by
  have hvalue := ratio_eq m e
  have hnum : 0 < (ratio m e).1 :=
    Nat.mul_pos (Nat.lt_of_lt_of_le (by decide) h.low) (Nat.pow_pos (by decide))
  have hden : 0 < (ratio m e).2 := Nat.pow_pos (by decide)
  obtain ⟨hlow, -⟩ := decimalPoint_spec hnum hden
  obtain ⟨q, hmem, hhalf⟩ := exists_gridPoint (ratio m e).1 hden
    (decimalPoint (ratio m e).1 (ratio m e).2 - 17)
  have hstep :
      (10 : ℚ) ^ (decimalPoint (ratio m e).1 (ratio m e).2 - 17) * 10 ^ 16 ≤ m * 2 ^ e := by
    rw [← zpow_natCast, ← zpow_add₀ (by norm_num), ← hvalue]
    exact le_of_eq_of_le (congrArg _ (by norm_num; ring)) hlow
  rw [hvalue] at hhalf
  refine ofDecimal_shortestFrom ⟨q, hmem, ofDecimal_of_close h ?_ false⟩ (by decide) rfl
  linarith

/-! ## 5. The written form -/

open Text

/-- A zero more at the end is a place more in the exponent. -/
theorem ofDecimal_ten_mul (negative : Bool) (digits : Nat) (exponent : ℤ) :
    ofDecimal negative (10 * digits) exponent = ofDecimal negative digits (exponent + 1) := by
  by_cases hzero : digits = 0
  · simp [ofDecimal, hzero]
  have hlength := length_ofNat_ten_mul (Nat.pos_of_ne_zero hzero)
  have hplaces : ((ofNat (10 * digits)).length : ℤ) + exponent =
      (ofNat digits).length + (exponent + 1) := by omega
  have hexponent : 1 + exponent.toNat + (-(exponent + 1)).toNat =
      (exponent + 1).toNat + (-exponent).toNat := by omega
  have hratio : 10 * digits * 10 ^ exponent.toNat * 10 ^ (-(exponent + 1)).toNat =
      digits * 10 ^ (exponent + 1).toNat * 10 ^ (-exponent).toNat := by
    calc 10 * digits * 10 ^ exponent.toNat * 10 ^ (-(exponent + 1)).toNat
        = digits * 10 ^ (1 + exponent.toNat + (-(exponent + 1)).toNat) := by
          rw [Nat.pow_add, Nat.pow_add]
          ring
      _ = digits * 10 ^ (exponent + 1).toNat * 10 ^ (-exponent).toNat := by
          rw [hexponent, Nat.pow_add, Nat.mul_assoc]
  have hnearest := nearest_congr (Nat.pow_pos (n := (-exponent).toNat) (by decide : 0 < 10))
    (Nat.pow_pos (n := (-(exponent + 1)).toNat) (by decide : 0 < 10)) hratio negative
  have hten : ¬ 10 * digits = 0 := by omega
  simp only [ofDecimal, hplaces, hzero, hten, false_or, Nat.pow_eq, hnearest]

theorem ofDecimal_pow_mul (negative : Bool) (k digits : Nat) (exponent : ℤ) :
    ofDecimal negative (10 ^ k * digits) exponent = ofDecimal negative digits (exponent + k) := by
  induction k generalizing exponent with
  | zero => simp
  | succ k ih =>
    rw [Nat.pow_succ, Nat.mul_comm (10 ^ k), Nat.mul_assoc, ofDecimal_ten_mul, ih]
    exact congrArg _ (by omega)

/-- Digits are digits without zeros at the end, and zeros. -/
theorem exists_withoutZeros {ds : List Nat} (h : ∀ d ∈ ds, d < 10) :
    ∃ kept k, ds = kept ++ List.replicate k 0 ∧
      ((ds.map digit).reverse.dropWhile (· == 48)).reverse = kept.map digit := by
  induction ds using List.reverseRecOn with
  | nil => exact ⟨[], 0, rfl, rfl⟩
  | append_singleton ds d ih =>
    obtain ⟨kept, k, hds, hkept⟩ := ih fun x hx => h x (by simp [hx])
    have hd : d < 10 := h d (by simp)
    have hreverse : ((ds ++ [d]).map digit).reverse = digit d :: (ds.map digit).reverse := by simp
    by_cases hzero : d = 0
    · refine ⟨kept, k + 1, ?_, ?_⟩
      · rw [hds, hzero, List.replicate_succ', List.append_assoc]
      · rw [hreverse, hzero, List.dropWhile_cons_of_pos rfl, hkept]
    · have hdigit : digit d ≠ 48 := mt (eq_zero_of_digit hd) hzero
      refine ⟨ds ++ [d], 0, by simp, ?_⟩
      rw [hreverse, List.dropWhile_cons_of_neg (by simpa using hdigit), ← hreverse,
        List.reverse_reverse]

/-- Digits that do not start with a zero. -/
structure IsSignificant (ds : List Nat) : Prop where
  ne_nil : ds ≠ []
  lt : ∀ d ∈ ds, d < 10
  first : ds.head? ≠ some 0

/-- The significant digits of a number, and the zeros that they leave out. -/
theorem exists_significant {q : Nat} (hq : 0 < q) :
    ∃ ds k, significant q = ds.map digit ∧ IsSignificant ds ∧ q = 10 ^ k * decimalValue ds ∧
      (ofNat q).length = ds.length + k := by
  obtain ⟨all, hall, hwhole, hvalue⟩ := exists_isWhole_ofNat q
  obtain ⟨ds, k, rfl, hds⟩ := exists_withoutZeros hwhole.lt
  rw [decimalValue_append_zeros] at hvalue
  have hne : ds ≠ [] := by
    rintro rfl
    exact absurd hvalue.symm (Nat.ne_of_gt hq)
  refine ⟨ds, k, by rw [significant, hall, hds],
    ⟨hne, fun x hx => hwhole.lt x (List.mem_append_left _ hx), ?_⟩, hvalue.symm, ?_⟩
  · obtain ⟨d, more, rfl⟩ := List.exists_cons_of_ne_nil hne
    rcases hwhole.first with hzero | hfirst
    · obtain ⟨rfl, hnil⟩ := List.cons.inj hzero
      obtain ⟨rfl, -⟩ := List.append_eq_nil_iff.mp hnil
      exact absurd hvalue.symm (Nat.ne_of_gt hq)
    · exact hfirst
  · rw [hall, List.length_map, List.length_append, List.length_replicate]

/-- Digits on both sides of a point that are written for significant digits with the
point after the first `point` places, and have their value. -/
structure IsPositional (ds : List Nat) (point : ℤ) (whole fraction : List Nat) : Prop where
  text : positional (ds.map digit) point = whole.map digit ++ 46 :: fraction.map digit
  isWhole : IsWhole whole
  fraction_ne_nil : fraction ≠ []
  fraction_lt : ∀ d ∈ fraction, d < 10
  value : ∀ negative, ofDecimal negative (decimalValue (whole ++ fraction)) (-fraction.length) =
    ofDecimal negative (decimalValue ds) (point - ds.length)

theorem lt_of_mem_zeros {n : Nat} : ∀ d ∈ List.replicate n 0, d < 10 := by
  intro d hd
  rw [List.eq_of_mem_replicate hd]
  decide

/-- `0.`, zeros and the digits. -/
theorem isPositional_before {ds : List Nat} (h : IsSignificant ds) {point : ℤ}
    (hpoint : point ≤ 0) : IsPositional ds point [0] (List.replicate (-point).toNat 0 ++ ds) where
  text := by
    rw [positional, if_pos hpoint, List.map_append, List.map_replicate]
    rfl
  isWhole := ⟨by simp, by simp, .inl rfl⟩
  fraction_ne_nil := by simp [h.ne_nil]
  fraction_lt d hd := (List.mem_append.mp hd).elim (lt_of_mem_zeros d) (h.lt d)
  value negative := by
    have hexponent :
        -((List.replicate (-point).toNat 0 ++ ds).length : ℤ) = point - ds.length := by
      rw [List.length_append, List.length_replicate]
      omega
    have hvalue : decimalValue ([0] ++ (List.replicate (-point).toNat 0 ++ ds)) =
        decimalValue ds := decimalValue_zeros_append ((-point).toNat + 1) ds
    rw [hexponent, hvalue]

/-- The digits, zeros and `.0`. -/
theorem isPositional_behind {ds : List Nat} (h : IsSignificant ds) {point : ℤ}
    (hpoint : ¬ point ≤ 0) (hlength : ds.length ≤ point.toNat) :
    IsPositional ds point (ds ++ List.replicate (point.toNat - ds.length) 0) [0] where
  text := by
    have hdrop : (ds.map digit).drop point.toNat = [] :=
      List.drop_eq_nil_of_le (by rwa [List.length_map])
    have htake : (ds.map digit).take point.toNat = ds.map digit :=
      List.take_of_length_le (by rwa [List.length_map])
    simp only [positional, if_neg hpoint, hdrop, htake, if_pos, List.map_append,
      List.map_replicate, List.length_map]
    simp [digit]
  isWhole := by
    refine ⟨by simp [h.ne_nil],
      fun d hd => (List.mem_append.mp hd).elim (h.lt d) (lt_of_mem_zeros d), .inr ?_⟩
    obtain ⟨d, more, rfl⟩ := List.exists_cons_of_ne_nil h.ne_nil
    exact h.first
  fraction_ne_nil := by simp
  fraction_lt := by simp
  value negative := by
    have hexponent : -(([0] : List Nat).length : ℤ) + (point.toNat - ds.length + 1 : ℕ) =
        point - ds.length := by
      rw [List.length_singleton]
      omega
    have hvalue : decimalValue (ds ++ List.replicate (point.toNat - ds.length) 0 ++ [0]) =
        10 ^ (point.toNat - ds.length + 1) * decimalValue ds := by
      rw [← decimalValue_append_zeros, List.append_assoc, ← List.replicate_succ']
    rw [hvalue, ofDecimal_pow_mul, hexponent]

/-- The digits with the point among them. -/
theorem isPositional_among {ds : List Nat} (h : IsSignificant ds) {point : ℤ}
    (hpoint : ¬ point ≤ 0) (hlength : ¬ ds.length ≤ point.toNat) :
    IsPositional ds point (ds.take point.toNat) (ds.drop point.toNat) where
  text := by
    have hdrop : (ds.map digit).drop point.toNat ≠ [] := by
      rw [ne_eq, List.drop_eq_nil_iff, List.length_map]
      exact hlength
    have hsub : point.toNat - ds.length = 0 := by omega
    simp only [positional, if_neg hpoint, if_neg hdrop, List.length_map, hsub,
      List.replicate_zero, List.append_nil, List.map_take, List.map_drop]
    simp
  isWhole := by
    refine ⟨?_, fun d hd => h.lt d (List.mem_of_mem_take hd), .inr ?_⟩
    · rw [ne_eq, List.take_eq_nil_iff, not_or]
      exact ⟨by omega, h.ne_nil⟩
    · rw [List.head?_take, if_neg (by omega)]
      exact h.first
  fraction_ne_nil := by rwa [ne_eq, List.drop_eq_nil_iff]
  fraction_lt d hd := h.lt d (List.mem_of_mem_drop hd)
  value negative := by
    have hexponent : -((ds.drop point.toNat).length : ℤ) = point - ds.length := by
      rw [List.length_drop]
      omega
    rw [List.take_append_drop, hexponent]

/-- Wherever the point stands, the digits around it have the value of the significant
digits. -/
theorem exists_positional {ds : List Nat} (h : IsSignificant ds) (point : ℤ) :
    ∃ whole fraction, IsPositional ds point whole fraction := by
  by_cases hpoint : point ≤ 0
  · exact ⟨_, _, isPositional_before h hpoint⟩
  by_cases hlength : ds.length ≤ point.toNat
  · exact ⟨_, _, isPositional_behind h hpoint hlength⟩
  · exact ⟨_, _, isPositional_among h hpoint hlength⟩

end LineTrace.Double
