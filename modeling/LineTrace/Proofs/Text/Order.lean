/-
LineTrace.Proofs.Text.Order — texts are in one order only.

The order by code point is total, transitive and antisymmetric, so a sorted list of
texts is determined by the texts in it, whatever order they came in
(`mergeSort_eq_of_perm`).
-/
import LineTrace.Text.Basic
import Mathlib.Logic.Basic

namespace LineTrace

/-! ## 1. The order by code point -/

namespace Text

theorem le_total (s t : Text) : (le s t || le t s) = true := by
  induction s generalizing t with
  | nil => rfl
  | cons x s ih =>
    cases t with
    | nil => rfl
    | cons y t =>
      by_cases hxy : x = y
      · simpa [le, hxy] using ih t
      · simp only [le, if_neg hxy, if_neg (Ne.symm hxy), Bool.or_eq_true, decide_eq_true_eq]
        exact Nat.lt_or_gt_of_ne hxy

theorem le_trans (s t u : Text) (hst : le s t = true) (htu : le t u = true) : le s u = true := by
  induction s generalizing t u with
  | nil => rfl
  | cons x s ih =>
    cases t with
    | nil => cases hst
    | cons y t =>
      cases u with
      | nil => cases htu
      | cons z u =>
        simp only [le] at hst htu ⊢
        by_cases hxy : x = y
        · subst hxy
          by_cases hxz : x = z
          · subst hxz
            simp only [if_true] at hst htu ⊢
            exact ih t u hst htu
          · rwa [if_neg hxz] at htu ⊢
        · rw [if_neg hxy, decide_eq_true_eq] at hst
          by_cases hyz : y = z
          · subst hyz
            rwa [if_neg hxy, decide_eq_true_eq]
          · rw [if_neg hyz, decide_eq_true_eq] at htu
            have hxz : x < z := Nat.lt_trans hst htu
            rwa [if_neg (Nat.ne_of_lt hxz), decide_eq_true_eq]

theorem le_antisymm {s t : Text} (hst : le s t = true) (hts : le t s = true) : s = t := by
  induction s generalizing t with
  | nil =>
    cases t with
    | nil => rfl
    | cons y t => cases hts
  | cons x s ih =>
    cases t with
    | nil => cases hst
    | cons y t =>
      simp only [le] at hst hts
      by_cases hxy : x = y
      · subst hxy
        simp only [if_true] at hst hts
        rw [ih hst hts]
      · rw [if_neg hxy, decide_eq_true_eq] at hst
        rw [if_neg (Ne.symm hxy), decide_eq_true_eq] at hts
        exact absurd hst (Nat.lt_asymm hts)

end Text

/-! ## 2. Sorted lists -/

/-- Lists of the same elements are sorted alike. -/
theorem mergeSort_eq_of_perm {α : Type} {le : α → α → Bool}
    (htrans : ∀ a b c, le a b = true → le b c = true → le a c = true)
    (htotal : ∀ a b, (le a b || le b a) = true)
    (hantisymm : ∀ a b, le a b = true → le b a = true → a = b) {xs ys : List α}
    (h : xs.Perm ys) : xs.mergeSort le = ys.mergeSort le := by
  have hsorted := List.pairwise_mergeSort htrans htotal
  have hperm : (xs.mergeSort le).Perm (ys.mergeSort le) :=
    (List.mergeSort_perm xs le).trans (h.trans (List.mergeSort_perm ys le).symm)
  exact hperm.eq_of_pairwise (fun a b _ _ => hantisymm a b) (hsorted xs) (hsorted ys)

end LineTrace
