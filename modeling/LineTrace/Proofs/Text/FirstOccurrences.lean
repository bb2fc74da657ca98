/-
LineTrace.Proofs.Text.FirstOccurrences — a list without its repetitions.

`dedup` reads a list from the left and keeps what it has not met yet. Every law here is an
induction from the other end of the list, where one element more is kept or is not
(`dedup_concat`).

`FirstsOf` says what is kept without saying how: the same elements, in the order of the
places at which each stands first. Elements that stand at ordered places differ, so that none
is there twice is part of this, and there is only one such list (`dedup_eq_iff`).
-/
import LineTrace.Text.Basic
import Mathlib.Data.List.Induction
import Mathlib.Data.List.Sort

namespace LineTrace.Text

variable {α : Type} [DecidableEq α]

/-! ## 1. One element more -/

theorem dedup_concat (xs : List α) (x : α) :
    dedup (xs ++ [x]) = if x ∈ dedup xs then dedup xs else dedup xs ++ [x] := by
  rw [dedup, List.foldl_append, List.foldl_cons, List.foldl_nil]
  rfl

theorem dedup_concat_of_mem {xs : List α} {x : α} (h : x ∈ dedup xs) :
    dedup (xs ++ [x]) = dedup xs := by
  rw [dedup_concat, if_pos h]

theorem dedup_concat_of_notMem {xs : List α} {x : α} (h : x ∉ dedup xs) :
    dedup (xs ++ [x]) = dedup xs ++ [x] := by
  rw [dedup_concat, if_neg h]

theorem mem_dedup {xs : List α} {x : α} : x ∈ dedup xs ↔ x ∈ xs := by
  induction xs using List.reverseRecOn with
  | nil => rfl
  | append_singleton xs y ih =>
    by_cases hy : y ∈ dedup xs
    · rw [dedup_concat_of_mem hy, ih, List.mem_append, List.mem_singleton]
      constructor
      · exact .inl
      · rintro (h | rfl)
        · exact h
        · exact ih.mp hy
    · rw [dedup_concat_of_notMem hy, List.mem_append, List.mem_append, ih]

/-- What stands in front stays there. -/
theorem dedup_prefix_append (xs ys : List α) : dedup xs <+: dedup (xs ++ ys) := by
  induction ys using List.reverseRecOn with
  | nil => simp
  | append_singleton ys y ih =>
    rw [← List.append_assoc, dedup_concat]
    split
    · exact ih
    · exact ih.trans (List.prefix_append _ [y])

/-- Where nothing is confused, the first occurrences stay the first ones. -/
theorem dedup_map {β : Type} [DecidableEq β] {f : α → β} (hf : Function.Injective f)
    (xs : List α) : dedup (xs.map f) = (dedup xs).map f := by
  induction xs using List.reverseRecOn with
  | nil => rfl
  | append_singleton xs x ih =>
    rw [List.map_append, List.map_singleton]
    by_cases hx : x ∈ dedup xs
    · have hfx : f x ∈ dedup (xs.map f) := ih ▸ List.mem_map_of_mem hx
      rw [dedup_concat_of_mem hfx, dedup_concat_of_mem hx, ih]
    · have hfx : f x ∉ dedup (xs.map f) := ih ▸ mt (List.mem_map_of_injective hf).mp hx
      rw [dedup_concat_of_notMem hfx, dedup_concat_of_notMem hx, ih, List.map_append,
        List.map_singleton]

/-! ## 2. The order of first occurrences -/

/-- The elements of `xs` are `firsts`, each once, ordered by where each stands first. -/
structure FirstsOf (xs firsts : List α) : Prop where
  mem_iff : ∀ x, x ∈ firsts ↔ x ∈ xs
  inOrder : firsts.Pairwise fun x y => xs.idxOf x < xs.idxOf y

theorem pairwise_idxOf_dedup (xs : List α) :
    (dedup xs).Pairwise fun x y => xs.idxOf x < xs.idxOf y := by
  induction xs using List.reverseRecOn with
  | nil => exact List.Pairwise.nil
  | append_singleton xs z ih =>
    -- What was kept before stands before `z`, so `z` behind it moves no first place.
    have hold : ∀ {x}, x ∈ dedup xs → (xs ++ [z]).idxOf x = xs.idxOf x := fun h =>
      List.idxOf_append_of_mem (mem_dedup.mp h)
    have hkept : (dedup xs).Pairwise fun x y => (xs ++ [z]).idxOf x < (xs ++ [z]).idxOf y := by
      refine ih.imp_of_mem fun hx hy hlt => ?_
      rwa [hold hx, hold hy]
    by_cases hz : z ∈ dedup xs
    · rwa [dedup_concat_of_mem hz]
    · rw [dedup_concat_of_notMem hz, List.pairwise_append]
      refine ⟨hkept, List.pairwise_singleton _ _, fun x hx y hy => ?_⟩
      have hxs : xs.idxOf x < xs.length := List.idxOf_lt_length_of_mem (mem_dedup.mp hx)
      rw [List.mem_singleton.mp hy, hold hx, List.idxOf_append_of_notMem (mt mem_dedup.mpr hz)]
      exact Nat.lt_add_right _ hxs

theorem nodup_dedup (xs : List α) : (dedup xs).Nodup := by
  refine (pairwise_idxOf_dedup xs).imp ?_
  rintro x _ hlt rfl
  exact Nat.lt_irrefl _ hlt

theorem firstsOf_dedup (xs : List α) : FirstsOf xs (dedup xs) where
  mem_iff _ := mem_dedup
  inOrder := pairwise_idxOf_dedup xs

/-- There is one such list. -/
theorem FirstsOf.unique {xs firsts firsts' : List α} (h : FirstsOf xs firsts)
    (h' : FirstsOf xs firsts') : firsts = firsts' := by
  have : Std.Antisymm fun x y => xs.idxOf x < xs.idxOf y :=
    ⟨fun _ _ hlt hgt => absurd hlt (Nat.lt_asymm hgt)⟩
  have : Std.Irrefl fun x y => xs.idxOf x < xs.idxOf y := ⟨fun _ => Nat.lt_irrefl _⟩
  exact h.inOrder.eq_of_mem_iff h'.inOrder fun x => (h.mem_iff x).trans (h'.mem_iff x).symm

theorem dedup_eq_iff {xs firsts : List α} : dedup xs = firsts ↔ FirstsOf xs firsts := by
  constructor
  · rintro rfl
    exact firstsOf_dedup xs
  · exact (firstsOf_dedup xs).unique

/-- The second 3 and the second 1 go. -/
example : dedup [3, 1, 3, 2, 1] = [3, 1, 2] := by decide

end LineTrace.Text
