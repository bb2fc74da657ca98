/-
LineTrace.Proofs.Number.Rounding — the nearest number depends on the value alone.

Two ratios of one value are rounded alike (`nearest_congr`), so it does not matter
how many zeros a numeral ends with or where its point stands. And what lies close
enough to a number is rounded to it (`nearest_of_close`): the distance allowed is one
part in `2 * 10 ^ 16`, which is less than half the step between numbers above it and
less than half the step below it, where that is only half as wide.

The values are rational numbers here. `floorLog2` is characterised by its bounds, and
these determine it (`floorLog2_eq`).
-/
import LineTrace.Number.Double
import Mathlib.Algebra.Order.Field.Power
import Mathlib.Tactic.Positivity
import Mathlib.Tactic.Linarith
import Mathlib.Tactic.Ring

namespace LineTrace.Double

/-! ## 1. The nearest integer -/

theorem roundHalfEven_mul {k : Nat} (hk : 0 < k) (num den : Nat) :
    roundHalfEven (k * num) (k * den) = roundHalfEven num den := by
  have hlt : 2 * (k * (num % den)) < k * den ↔ 2 * (num % den) < den := by
    rw [Nat.mul_left_comm, Nat.mul_lt_mul_left hk]
  have hgt : k * den < 2 * (k * (num % den)) ↔ den < 2 * (num % den) := by
    rw [Nat.mul_left_comm, Nat.mul_lt_mul_left hk]
  simp only [roundHalfEven, Nat.mul_div_mul_left _ _ hk, Nat.mul_mod_mul_left, hlt, hgt]

theorem roundHalfEven_congr {num den num' den' : Nat} (hden : 0 < den) (hden' : 0 < den')
    (h : num * den' = num' * den) : roundHalfEven num den = roundHalfEven num' den' := by
  rw [← roundHalfEven_mul hden' num den, ← roundHalfEven_mul hden num' den', Nat.mul_comm den' num,
    Nat.mul_comm den num', h, Nat.mul_comm den' den]

/-- What lies less than a half away from an integer is rounded to it. -/
theorem roundHalfEven_of_close {num den m : Nat} (hden : 0 < den)
    (h : |(num : ℚ) / den - m| < 1 / 2) : roundHalfEven num den = m := by
  have hpos : (0 : ℚ) < den := Nat.cast_pos.mpr hden
  obtain ⟨hlow, hhigh⟩ := abs_lt.mp h
  have hlow' : 2 * m * den < 2 * num + den := by
    have : (m : ℚ) - 1 / 2 < num / den := by linarith
    rw [lt_div_iff₀ hpos] at this
    have hcast : (2 * m * den : ℚ) < 2 * num + den := by linarith
    exact_mod_cast hcast
  have hhigh' : 2 * num < (2 * m + 1) * den := by
    have : (num : ℚ) / den < m + 1 / 2 := by linarith
    rw [div_lt_iff₀ hpos] at this
    have hcast : (2 * num : ℚ) < (2 * m + 1) * den := by linarith
    exact_mod_cast hcast
  have hdiv := Nat.div_add_mod num den
  have hmod := Nat.mod_lt num hden
  rw [roundHalfEven]
  generalize num / den = q at *
  generalize num % den = r at *
  have hle : q ≤ m := by
    by_contra hlt
    have hmul := Nat.mul_le_mul_left den (Nat.not_le.mp hlt)
    rw [Nat.mul_succ] at hmul
    linarith
  have hge : m ≤ q + 1 := by
    by_contra hlt
    have hmul := Nat.mul_le_mul_left den (Nat.not_le.mp hlt)
    rw [Nat.mul_succ, Nat.mul_succ] at hmul
    linarith
  rcases Nat.le_and_le_add_one_iff.mp ⟨hle, hge⟩ with rfl | rfl
  · have hlt : 2 * r < den := by linarith
    simp only [if_pos hlt]
  · have hgt : den < 2 * r := by linarith
    simp only [if_neg (Nat.lt_asymm hgt), if_pos hgt]

/-- What is not below an integer is not rounded below it. -/
theorem le_roundHalfEven {num den low : Nat} (hden : 0 < den) (h : low * den ≤ num) :
    low ≤ roundHalfEven num den := by
  have hle : low ≤ num / den := (Nat.le_div_iff_mul_le hden).mpr h
  rw [roundHalfEven]
  repeat' split
  all_goals omega

/-- What is not above an integer is not rounded above it. -/
theorem roundHalfEven_le {num den high : Nat} (hden : 0 < den) (h : num ≤ high * den) :
    roundHalfEven num den ≤ high := by
  have hle : num / den ≤ high := Nat.div_le_of_le_mul (by rwa [Nat.mul_comm])
  have hup : num % den ≠ 0 → num / den < high := by
    intro hmod
    refine Nat.lt_of_le_of_ne hle fun hq => hmod ?_
    have hdiv := Nat.div_add_mod num den
    rw [hq, Nat.mul_comm] at hdiv
    omega
  rw [roundHalfEven]
  repeat' split
  all_goals omega

/-! ## 2. Powers -/

/-- An integer power as a ratio of natural ones. -/
theorem zpow_eq_div (b : Nat) (k : ℤ) :
    (b : ℚ) ^ k = (b ^ k.toNat : ℕ) / (b ^ (-k).toNat : ℕ) := by
  rcases Int.le_total 0 k with hk | hk
  · obtain ⟨n, rfl⟩ := Int.eq_ofNat_of_zero_le hk
    simp
  · obtain ⟨n, hn⟩ := Int.eq_ofNat_of_zero_le (Int.neg_nonneg_of_nonpos hk)
    obtain rfl : k = -n := by omega
    simp

/-- The two parts of a scaled ratio. -/
theorem scaleDown_eq (num den : Nat) (e : ℤ) :
    ((scaleDown num den e).1 : ℚ) / (scaleDown num den e).2 = num / den / 2 ^ e ∧
      (0 < den → 0 < (scaleDown num den e).2) := by
  have hpow := zpow_eq_div 2 e
  refine ⟨?_, fun hden => Nat.mul_pos hden (Nat.pow_pos (by decide))⟩
  simp only [scaleDown, Nat.pow_eq, Nat.cast_mul]
  rw [Nat.cast_ofNat] at hpow
  rw [hpow, div_div_eq_mul_div, div_mul_eq_mul_div, div_div]

/-! ## 3. The binary order of magnitude -/

/-- Which power of two is the last below a ratio is determined by its bounds. -/
theorem zpow_bounds_unique {v : ℚ} {j k : ℤ} (hj : (2 : ℚ) ^ j ≤ v) (hj' : v < 2 ^ (j + 1))
    (hk : (2 : ℚ) ^ k ≤ v) (hk' : v < 2 ^ (k + 1)) : j = k := by
  have hjk : j < k + 1 := (zpow_lt_zpow_iff_right₀ (by norm_num)).mp (lt_of_le_of_lt hj hk')
  have hkj : k < j + 1 := (zpow_lt_zpow_iff_right₀ (by norm_num)).mp (lt_of_le_of_lt hk hj')
  omega

/-- The comparison with a power of two, without fractions. -/
theorem zpow_le_div_iff {b : Nat} (hb : 0 < b) (num : Nat) {den : Nat} (hden : 0 < den) (k : ℤ) :
    (b : ℚ) ^ k ≤ num / den ↔ den * b ^ k.toNat ≤ num * b ^ (-k).toNat := by
  have hpow : (0 : ℚ) < (b ^ (-k).toNat : ℕ) := Nat.cast_pos.mpr (Nat.pow_pos hb)
  rw [zpow_eq_div b k, div_le_div_iff₀ hpow (Nat.cast_pos.mpr hden), mul_comm]
  exact_mod_cast Iff.rfl

/-- A number lies between two powers of two that follow each other. -/
theorem log2_bounds {n : Nat} (hn : 0 < n) :
    (2 : ℚ) ^ (Nat.log2 n : ℤ) ≤ n ∧ (n : ℚ) < 2 ^ (Nat.log2 n + 1 : ℤ) := by
  constructor
  · exact_mod_cast Nat.log2_self_le hn.ne'
  · exact_mod_cast (Nat.lt_log2_self (n := n))

theorem floorLog2_spec {num den : Nat} (hnum : 0 < num) (hden : 0 < den) :
    (2 : ℚ) ^ floorLog2 num den ≤ num / den ∧ (num : ℚ) / den < 2 ^ (floorLog2 num den + 1) := by
  obtain ⟨hnumLow, hnumHigh⟩ := log2_bounds hnum
  obtain ⟨hdenLow, hdenHigh⟩ := log2_bounds hden
  have htest := zpow_le_div_iff (by decide : 0 < 2) num hden
    ((Nat.log2 num : ℤ) - Nat.log2 den)
  have hpos : (0 : ℚ) < den := Nat.cast_pos.mpr hden
  have hlow : (2 : ℚ) ^ ((Nat.log2 num : ℤ) - Nat.log2 den - 1) ≤ num / den := by
    rw [le_div_iff₀ hpos]
    calc (2 : ℚ) ^ ((Nat.log2 num : ℤ) - Nat.log2 den - 1) * den
        ≤ 2 ^ ((Nat.log2 num : ℤ) - Nat.log2 den - 1) * 2 ^ (Nat.log2 den + 1 : ℤ) :=
          mul_le_mul_of_nonneg_left hdenHigh.le (by positivity)
      _ = 2 ^ (Nat.log2 num : ℤ) := by
          rw [← zpow_add₀ (by norm_num)]
          exact congrArg _ (by omega)
      _ ≤ num := hnumLow
  have hhigh : (num : ℚ) / den < 2 ^ ((Nat.log2 num : ℤ) - Nat.log2 den + 1) := by
    rw [div_lt_iff₀ hpos]
    calc (num : ℚ) < 2 ^ (Nat.log2 num + 1 : ℤ) := hnumHigh
      _ = 2 ^ ((Nat.log2 num : ℤ) - Nat.log2 den + 1) * 2 ^ (Nat.log2 den : ℤ) := by
          rw [← zpow_add₀ (by norm_num)]
          exact congrArg _ (by omega)
      _ ≤ 2 ^ ((Nat.log2 num : ℤ) - Nat.log2 den + 1) * den :=
          mul_le_mul_of_nonneg_left hdenLow (by positivity)
  rw [Nat.cast_ofNat] at htest
  simp only [floorLog2, Nat.pow_eq, ← htest]
  split
  · rename_i hle
    exact ⟨hle, hhigh⟩
  · rename_i hlt
    rw [sub_add_cancel]
    exact ⟨hlow, not_le.mp hlt⟩

theorem floorLog2_eq {num den : Nat} (hnum : 0 < num) (hden : 0 < den) {k : ℤ}
    (hlow : (2 : ℚ) ^ k ≤ num / den) (hhigh : (num : ℚ) / den < 2 ^ (k + 1)) :
    floorLog2 num den = k :=
  zpow_bounds_unique (floorLog2_spec hnum hden).1 (floorLog2_spec hnum hden).2 hlow hhigh

/-! ## 4. The nearest number -/

/-- Ratios of one value have the same nearest number. -/
theorem nearest_congr {num den num' den' : Nat} (hden : 0 < den) (hden' : 0 < den')
    (h : num * den' = num' * den) (negative : Bool) :
    nearest negative num den = nearest negative num' den' := by
  have hzero : num = 0 ↔ num' = 0 := by
    constructor
    · rintro rfl
      exact (Nat.mul_eq_zero.mp (h.symm.trans (Nat.zero_mul _))).resolve_right hden.ne'
    · rintro rfl
      exact (Nat.mul_eq_zero.mp (h.trans (Nat.zero_mul _))).resolve_right hden'.ne'
  by_cases hnum : num = 0
  · rw [nearest, nearest, if_pos hnum, if_pos (hzero.mp hnum)]
  have hnum' : num' ≠ 0 := mt hzero.mpr hnum
  have hvalue : (num : ℚ) / den = num' / den' := by
    rw [div_eq_div_iff (Nat.cast_pos.mpr hden).ne' (Nat.cast_pos.mpr hden').ne']
    exact_mod_cast h
  have hfloor : floorLog2 num den = floorLog2 num' den' := by
    obtain ⟨hlow, hhigh⟩ := floorLog2_spec (Nat.pos_of_ne_zero hnum') hden'
    exact floorLog2_eq (Nat.pos_of_ne_zero hnum) hden (hvalue ▸ hlow) (hvalue ▸ hhigh)
  have hround : ∀ e, roundHalfEven (scaleDown num den e).1 (scaleDown num den e).2 =
      roundHalfEven (scaleDown num' den' e).1 (scaleDown num' den' e).2 := by
    intro e
    refine roundHalfEven_congr ((scaleDown_eq num den e).2 hden)
      ((scaleDown_eq num' den' e).2 hden') ?_
    simp only [scaleDown]
    rw [Nat.mul_mul_mul_comm, h, Nat.mul_mul_mul_comm]
  simp only [nearest, if_neg hnum, if_neg hnum', hfloor, hround]

/-- A number in range: the mantissa below `2 ^ 53`, the exponent from `-1074` to
`971`, and the mantissa at least `2 ^ 52` unless the exponent is the least one. -/
def InRange : Double → Prop
  | .finite _ m e => m < 2 ^ 53 ∧ -1074 ≤ e ∧ e ≤ 971 ∧ (2 ^ 52 ≤ m ∨ e = -1074)
  | _ => True

/-- The ratio in units of the last place of its nearest number. -/
theorem scaleDown_bounds {num den : Nat} (hnum : 0 < num) (hden : 0 < den) {e : ℤ}
    (he : e = max (floorLog2 num den - 52) (-1074)) :
    (scaleDown num den e).1 ≤ 2 ^ 53 * (scaleDown num den e).2 ∧
      (e ≠ -1074 → 2 ^ 52 * (scaleDown num den e).2 ≤ (scaleDown num den e).1) := by
  obtain ⟨hratio, hpos⟩ := scaleDown_eq num den e
  obtain ⟨hlow, hhigh⟩ := floorLog2_spec hnum hden
  have hpow : (0 : ℚ) < 2 ^ e := by positivity
  have hden' : (0 : ℚ) < (scaleDown num den e).2 := Nat.cast_pos.mpr (hpos hden)
  constructor
  · have hle : (num : ℚ) / den ≤ 2 ^ (53 : ℤ) * 2 ^ e := by
      rw [← zpow_add₀ (by norm_num)]
      exact hhigh.le.trans (zpow_le_zpow_right₀ (by norm_num) (by omega))
    rw [← div_le_iff₀ hpow, ← hratio, div_le_iff₀ hden', zpow_ofNat] at hle
    exact_mod_cast hle
  · intro hne
    have hge : 2 ^ (52 : ℤ) * 2 ^ e ≤ (num : ℚ) / den := by
      rw [← zpow_add₀ (by norm_num)]
      exact (zpow_le_zpow_right₀ (by norm_num) (by omega)).trans hlow
    rw [← le_div_iff₀ hpow, ← hratio, le_div_iff₀ hden', zpow_ofNat] at hge
    exact_mod_cast hge

/-- The nearest number is in range. -/
theorem nearest_inRange (negative : Bool) (num : Nat) {den : Nat} (hden : 0 < den) :
    (nearest negative num den).InRange := by
  by_cases hnum : num = 0
  · rw [nearest, if_pos hnum]
    exact ⟨by decide, by decide, by decide, .inr rfl⟩
  obtain ⟨e, he⟩ : ∃ e, e = max (floorLog2 num den - 52) (-1074) := ⟨_, rfl⟩
  obtain ⟨hhigh, hlow⟩ := scaleDown_bounds (Nat.pos_of_ne_zero hnum) hden he
  have hpos := (scaleDown_eq num den e).2 hden
  obtain ⟨m, hm⟩ : ∃ m, roundHalfEven (scaleDown num den e).1 (scaleDown num den e).2 = m :=
    ⟨_, rfl⟩
  have hle : m ≤ 2 ^ 53 := hm ▸ roundHalfEven_le hpos hhigh
  have hge : e ≠ -1074 → 2 ^ 52 ≤ m := fun hne => hm ▸ le_roundHalfEven hpos (hlow hne)
  simp only [nearest, if_neg hnum, ← he, hm, Nat.pow_eq]
  have hleast : -1074 ≤ e := by omega
  by_cases htop : m = 2 ^ 53
  · simp only [if_pos htop]
    split
    · trivial
    · exact ⟨by decide, by omega, by omega, .inl (Nat.le_refl _)⟩
  · simp only [if_neg htop]
    split
    · trivial
    · exact ⟨by omega, hleast, by omega, or_iff_not_imp_right.mpr hge⟩

/-- A number in range whose exponent is not the least one. -/
structure IsNormal (m : Nat) (e : ℤ) : Prop where
  low : 2 ^ 52 ≤ m
  high : m < 2 ^ 53
  least : -1074 < e
  greatest : e ≤ 971

/-- The number that is nearest to `t` units of the last place, by the unit and the
rounded mantissa. -/
theorem nearest_eq {num den : Nat} (hnum : 0 < num) (hden : 0 < den) {e : ℤ} {m : Nat} {t : ℚ}
    (he : -1074 ≤ e) (ht : (num : ℚ) / den = t * 2 ^ e) (hlow : 2 ^ 52 ≤ t) (hhigh : t < 2 ^ 53)
    (hm : |t - m| < 1 / 2) (negative : Bool) :
    nearest negative num den =
      if m = 2 ^ 53 then
        if 971 < e + 1 then .infinite negative else .finite negative (2 ^ 52) (e + 1)
      else if 971 < e then .infinite negative else .finite negative m e := by
  have hpow : (0 : ℚ) < 2 ^ e := by positivity
  have hfloor : floorLog2 num den = 52 + e := by
    refine floorLog2_eq hnum hden ?_ ?_
    · rw [ht, zpow_add₀ (by norm_num), zpow_ofNat]
      exact mul_le_mul_of_nonneg_right hlow hpow.le
    · have htop : 52 + e + 1 = (53 : ℕ) + e := by omega
      rw [ht, htop, zpow_add₀ (by norm_num), zpow_natCast]
      exact mul_lt_mul_of_pos_right hhigh hpow
  have hexponent : max (floorLog2 num den - 52) (-1074) = e := by omega
  obtain ⟨hratio, hpos⟩ := scaleDown_eq num den e
  have hround : roundHalfEven (scaleDown num den e).1 (scaleDown num den e).2 = m :=
    roundHalfEven_of_close (hpos hden) (by rwa [hratio, ht, mul_div_cancel_right₀ _ hpow.ne'])
  simp only [nearest, if_neg hnum.ne', hexponent, hround, Nat.pow_eq]
  split <;> rfl

/-- What is closer to a number than one part in `2 * 10 ^ 16` has it as its nearest
number. -/
theorem nearest_of_close {m num den : Nat} {e : ℤ} (h : IsNormal m e) (hnum : 0 < num)
    (hden : 0 < den) (hclose : |(num : ℚ) / den - m * 2 ^ e| * (2 * 10 ^ 16) ≤ m * 2 ^ e)
    (negative : Bool) : nearest negative num den = .finite negative m e := by
  have hpow : (0 : ℚ) < 2 ^ e := by positivity
  -- in units of the last place: `t` is the ratio and `m` the number
  obtain ⟨t, ht⟩ : ∃ t : ℚ, (num : ℚ) / den = t * 2 ^ e := ⟨_, (div_mul_cancel₀ _ hpow.ne').symm⟩
  have hunits : |t - m| * (2 * 10 ^ 16) ≤ m := by
    rw [ht, ← sub_mul, abs_mul, abs_of_pos hpow, mul_right_comm] at hclose
    exact le_of_mul_le_mul_right hclose hpow
  have hmHigh : (m : ℚ) + 1 ≤ 2 ^ 53 := by exact_mod_cast h.high
  have hdistance : |t - m| < 1 / 2 := by
    norm_num at hmHigh
    linarith
  obtain ⟨hleft, hright⟩ := abs_lt.mp hdistance
  by_cases hcase : (2 : ℚ) ^ 52 ≤ t
  · rw [nearest_eq hnum hden h.least.le ht hcase (by linarith) hdistance, if_neg h.high.ne,
      if_neg (not_lt.mpr h.greatest)]
  · -- below the least mantissa the step is half as wide, and only that mantissa is close
    have hmEq : m = 2 ^ 52 := by
      have hlt : (m : ℚ) < 2 ^ 52 + 1 := by linarith
      exact le_antisymm (Nat.le_of_lt_succ (by exact_mod_cast hlt)) h.low
    have hmCast : (m : ℚ) = 2 ^ 52 := by exact_mod_cast hmEq
    rw [hmCast] at hunits hleft
    have ht' : (num : ℚ) / den = t * 2 * 2 ^ (e - 1) := by
      rw [ht, mul_assoc, mul_comm 2, ← zpow_add_one₀ (by norm_num), sub_add_cancel]
    have hm : |t * 2 - (2 ^ 53 : ℕ)| < 1 / 2 := by
      have hscale : t * 2 - (2 ^ 53 : ℕ) = (t - 2 ^ 52) * 2 := by
        norm_num
        ring
      rw [hscale, abs_mul, abs_two]
      norm_num at hunits
      linarith
    have hexponent : ¬ 971 < e - 1 + 1 := by
      have := h.greatest
      omega
    rw [nearest_eq hnum hden (Int.le_sub_one_of_lt h.least) ht' (by linarith) (by linarith) hm,
      if_pos rfl, if_neg hexponent, sub_add_cancel, hmEq]

end LineTrace.Double
