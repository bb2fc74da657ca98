/-
LineTrace.Proofs.Path.Tidy — a tidy path has the same components.

Tidying takes out what says nothing, so a tidy path names the same components
(`components_tidy`) and is absolute where the path was (`isAbsolute_tidy`); seen from a
directory it leads the same way (`components_join_tidy`). What it does not keep is how a
path is written: `slash_mem_tidy_iff` says when a slash is left in it.
-/
import LineTrace.Proofs.FileSystem.Replacing

namespace LineTrace.Path

/-! ## 1. Components -/

@[simp] theorem components_nil : components [] = [] := rfl

@[simp] theorem components_slash_cons (p : Text) : components (slash :: p) = components p :=
  components_append_slash [] p

theorem components_replicate_append (n : Nat) (p : Text) :
    components (List.replicate n slash ++ p) = components p := by
  induction n with
  | zero => rfl
  | succ n ih => rw [List.replicate_succ, List.cons_append, components_slash_cons, ih]

/-- Components that name something are the components of the path they make. -/
theorem components_joinWith {parts : List Text}
    (h : ∀ c ∈ parts, slash ∉ c ∧ c ≠ [] ∧ c ≠ [46]) :
    components (Text.joinWith [slash] parts) = parts := by
  by_cases hne : parts = []
  · subst hne
    rfl
  · rw [components, Text.splitAt1_joinWith hne fun c hc => (h c hc).1, List.filter_eq_self]
    intro c hc
    simpa using (h c hc).2

theorem components_assemble (slashes : Nat) {parts : List Text}
    (h : ∀ c ∈ parts, slash ∉ c ∧ c ≠ [] ∧ c ≠ [46]) :
    components (assemble slashes parts) = parts := by
  have hjoined : components (List.replicate slashes slash ++ Text.joinWith [slash] parts) = parts := by
    rw [components_replicate_append, components_joinWith h]
  rw [assemble]
  split
  · rename_i hnil
    rw [hnil] at hjoined
    exact hjoined
  · exact hjoined

@[simp] theorem components_tidy (p : Text) : components (tidy p) = components p :=
  components_assemble _ fun _ => of_mem_components

/-! ## 2. Slashes -/

theorem rootSlashes_eq_zero_iff {p : Text} : rootSlashes p = 0 ↔ isAbsolute p = false := by
  cases p with
  | nil => simp [rootSlashes, isAbsolute]
  | cons c p =>
    by_cases hc : c = slash
    · subst hc
      have hlength : ((slash :: p).takeWhile (· == slash)).length ≠ 0 := by simp
      constructor
      · intro h
        unfold rootSlashes at h
        split at h
        · rename_i hzero
          exact absurd hzero hlength
        · cases h
        · cases h
      · intro h
        simp [isAbsolute] at h
    · simp [rootSlashes, isAbsolute, hc]

theorem isAbsolute_joinWith {parts : List Text} (h : ∀ c ∈ parts, slash ∉ c ∧ c ≠ []) :
    isAbsolute (Text.joinWith [slash] parts) = false := by
  cases parts with
  | nil => rfl
  | cons part rest =>
    obtain ⟨hslash, hne⟩ := h part (List.mem_cons_self ..)
    obtain ⟨c, cs, rfl⟩ := List.exists_cons_of_ne_nil hne
    have hc : c ≠ slash := fun hc => hslash (by simp [hc])
    cases rest <;> simp [Text.joinWith, isAbsolute, hc]

theorem isAbsolute_assemble {slashes : Nat} {parts : List Text}
    (h : ∀ c ∈ parts, slash ∉ c ∧ c ≠ [] ∧ c ≠ [46]) :
    isAbsolute (assemble slashes parts) = decide (slashes ≠ 0) := by
  have hparts := isAbsolute_joinWith fun c hc => ⟨(h c hc).1, (h c hc).2.1⟩
  rw [assemble]
  cases slashes with
  | zero =>
    simp only [List.replicate_zero, List.nil_append]
    split
    · rfl
    · simpa using hparts
  | succ n => simp [List.replicate_succ, isAbsolute]

theorem isAbsolute_tidy (p : Text) : isAbsolute (tidy p) = isAbsolute p := by
  rw [tidy, isAbsolute_assemble fun _ => of_mem_components]
  cases habsolute : isAbsolute p with
  | false => simp [rootSlashes_eq_zero_iff.mpr habsolute]
  | true =>
    have hne : rootSlashes p ≠ 0 := by
      rw [Ne, rootSlashes_eq_zero_iff, habsolute]
      simp
    simpa using hne

/-- Between components there are slashes. -/
theorem slash_mem_joinWith_iff {parts : List Text} (h : ∀ c ∈ parts, slash ∉ c) :
    slash ∈ Text.joinWith [slash] parts ↔ 2 ≤ parts.length := by
  cases parts with
  | nil => simp [Text.joinWith]
  | cons part parts =>
    cases parts with
    | nil => simpa [Text.joinWith] using h part (by simp)
    | cons next parts => simp [Text.joinWith]

/-- A tidy path has a slash where it is absolute or has two components. -/
theorem slash_mem_tidy_iff (p : Text) :
    slash ∈ tidy p ↔ isAbsolute p = true ∨ 2 ≤ (components p).length := by
  have habsolute : isAbsolute p = true ↔ rootSlashes p ≠ 0 := by
    rw [Ne, rootSlashes_eq_zero_iff, Bool.not_eq_false]
  rw [habsolute, ← slash_mem_joinWith_iff fun c hc => (of_mem_components hc).1, tidy, assemble]
  split
  · rename_i hnil
    obtain ⟨hroot, hparts⟩ := List.append_eq_nil_iff.mp hnil
    rw [List.replicate_eq_nil_iff] at hroot
    rw [hparts]
    simp [hroot, slash]
  · simp [List.mem_replicate]

/-! ## 3. Seen from a directory -/

/-- A relative path leads on from the directory, an absolute one from the root. -/
theorem components_join (d p : Text) :
    components (join d p) = if isAbsolute p then components p else components d ++ components p := by
  rw [join]
  split
  · rfl
  · split
    · rename_i h
      rcases h with rfl | hlast
      · rfl
      · obtain ⟨front, rfl⟩ := List.getLast?_eq_some_iff.mp hlast
        rw [List.append_assoc, List.singleton_append, components_append_slash,
          components_append_slash, components_nil, List.append_nil]
    · exact components_append_slash d p

theorem components_join_tidy (d p : Text) :
    components (join d (tidy p)) = components (join d p) := by
  rw [components_join, components_join, isAbsolute_tidy, components_tidy]

end LineTrace.Path
