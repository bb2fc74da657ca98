/-
LineTrace.Proofs.Path.Normal — normal paths.

`normalize` takes the components of a path one by one onto a stack, from which `..` takes
the last one off. What the stack holds at the end is `climbed`, and a normal path is its
leading slashes and those components, with single slashes between them
(`components_normalize`, `rootSlashes_normalize`). So normalizing a second time changes
nothing (`normalize_normalize`).

Below a root no `..` is left: an absolute path has a normal form of one or two slashes and
names (`IsNormal`), and nothing else is normal (`isNormal_iff`). Two leading slashes are
kept as two, any other number is one.

A relative path climbs the same way from wherever it starts (`foldl_climb_climbed`), so
relative paths of one normal form lead to one place from every directory
(`normalize_join_congr`).
-/
import LineTrace.Proofs.Path.Tidy
import Mathlib.Data.List.TakeWhile

namespace LineTrace.Path

/-! ## 1. Climbing -/

/-- Components with `..` worked out. -/
def climbed (rooted : Bool) (parts : List Text) : List Text :=
  (parts.foldl (climb rooted) []).reverse

theorem climb_of_ne {rooted : Bool} {part : Text} (h : part ≠ dotDot) (above : List Text) :
    climb rooted above part = part :: above :=
  if_neg h

/-- Climbing brings in no component. -/
theorem mem_climb {rooted : Bool} {above : List Text} {part c : Text}
    (h : c ∈ climb rooted above part) : c = part ∨ c ∈ above := by
  unfold climb at h
  split at h
  · rename_i hpart
    split at h
    · split at h
      · cases h
      · exact .inl (hpart ▸ List.mem_singleton.mp h)
    · split at h
      · exact (List.mem_cons.mp h).imp_left fun hc => hpart ▸ hc
      · exact .inr (List.mem_cons_of_mem _ h)
  · exact List.mem_cons.mp h

theorem mem_foldl_climb {rooted : Bool} {parts above : List Text} {c : Text}
    (h : c ∈ parts.foldl (climb rooted) above) : c ∈ above ∨ c ∈ parts := by
  induction parts generalizing above with
  | nil => exact .inl h
  | cons part parts ih =>
    rcases ih h with habove | hparts
    · rcases mem_climb habove with rfl | habove
      · exact .inr (List.mem_cons_self ..)
      · exact .inl habove
    · exact .inr (List.mem_cons_of_mem _ hparts)

theorem mem_of_mem_climbed {rooted : Bool} {parts : List Text} {c : Text}
    (h : c ∈ climbed rooted parts) : c ∈ parts :=
  (mem_foldl_climb (List.mem_reverse.mp h)).resolve_left List.not_mem_nil

/-- Below the root no `..` stays. -/
theorem dotDot_notMem_foldl_climb {parts above : List Text} (h : dotDot ∉ above) :
    dotDot ∉ parts.foldl (climb true) above := by
  induction parts generalizing above with
  | nil => exact h
  | cons part parts ih =>
    refine ih ?_
    unfold climb
    split
    · split
      · exact List.not_mem_nil
      · rename_i last rest
        rw [List.mem_cons, not_or] at h
        rw [if_neg (Ne.symm h.1)]
        exact h.2
    · rename_i hpart
      exact fun hmem => (List.mem_cons.mp hmem).elim (fun hc => hpart hc.symm) h

theorem dotDot_notMem_climbed (parts : List Text) : dotDot ∉ climbed true parts := fun h =>
  dotDot_notMem_foldl_climb List.not_mem_nil (List.mem_reverse.mp h)

/-- Components without `..` are stacked as they are. -/
theorem foldl_climb_of_forall_ne {rooted : Bool} {parts : List Text}
    (h : ∀ c ∈ parts, c ≠ dotDot) (above : List Text) :
    parts.foldl (climb rooted) above = parts.reverse ++ above := by
  induction parts generalizing above with
  | nil => rfl
  | cons part parts ih =>
    rw [List.foldl_cons, climb_of_ne (h part (by simp)), ih fun c hc => h c (by simp [hc]),
      List.reverse_cons, List.append_assoc, List.singleton_append]

theorem climbed_of_forall_ne {rooted : Bool} {parts : List Text}
    (h : ∀ c ∈ parts, c ≠ dotDot) : climbed rooted parts = parts := by
  rw [climbed, foldl_climb_of_forall_ne h, List.append_nil, List.reverse_reverse]

/-- What a relative path takes off and puts on is the same wherever it starts. -/
theorem foldl_climb_climbed (rooted : Bool) (parts above : List Text) :
    (climbed false parts).foldl (climb rooted) above = parts.foldl (climb rooted) above := by
  induction parts using List.reverseRecOn with
  | nil => rfl
  | append_singleton parts part ih =>
    rw [List.foldl_append, List.foldl_cons, List.foldl_nil, ← ih, climbed, List.foldl_append,
      List.foldl_cons, List.foldl_nil, climbed]
    cases hstack : parts.foldl (climb false) [] with
    | nil =>
      by_cases hpart : part = dotDot
      · rw [hpart]
        rfl
      · rw [climb_of_ne hpart]
        rfl
    | cons last rest =>
      by_cases hpart : part = dotDot
      · -- What `..` takes off again is what the path has put on last, unless that is `..` too.
        by_cases hlast : last = dotDot <;> simp [climb, hpart, hlast, List.foldl_append]
      · rw [climb_of_ne hpart, List.reverse_cons (a := part), List.foldl_append, List.foldl_cons,
          List.foldl_nil]

theorem climbed_climbed (rooted : Bool) (parts : List Text) :
    climbed rooted (climbed rooted parts) = climbed rooted parts := by
  cases rooted with
  | false => rw [climbed, foldl_climb_climbed, ← climbed]
  | true =>
    exact climbed_of_forall_ne fun c hc hdot => dotDot_notMem_climbed parts (hdot ▸ hc)

/-! ## 2. Leading slashes -/

theorem rootSlashes_le_two (p : Text) : rootSlashes p ≤ 2 := by
  unfold rootSlashes
  split <;> omega

theorem takeWhile_slash_append {q : Text} (hq : isAbsolute q = false) (n : Nat) :
    (List.replicate n slash ++ q).takeWhile (· == slash) = List.replicate n slash := by
  rw [List.takeWhile_append_of_pos fun c hc => by simp [List.eq_of_mem_replicate hc]]
  cases q with
  | nil => simp
  | cons c q =>
    have hc : (c == slash) = false := by simpa [isAbsolute] using hq
    simp [hc]

theorem rootSlashes_replicate_append {q : Text} (hq : isAbsolute q = false) {n : Nat}
    (hn : n ≤ 2) : rootSlashes (List.replicate n slash ++ q) = n := by
  rw [rootSlashes, takeWhile_slash_append hq, List.length_replicate]
  obtain rfl | rfl | rfl : n = 0 ∨ n = 1 ∨ n = 2 := by omega
  all_goals rfl

theorem rootSlashes_assemble {slashes : Nat} (hslashes : slashes ≤ 2) {parts : List Text}
    (h : ∀ c ∈ parts, slash ∉ c ∧ c ≠ []) : rootSlashes (assemble slashes parts) = slashes := by
  rw [assemble]
  split
  · rename_i hnil
    rw [List.append_eq_nil_iff, List.replicate_eq_nil_iff] at hnil
    rw [hnil.1]
    rfl
  · exact rootSlashes_replicate_append (isAbsolute_joinWith h) hslashes

/-- Behind leading slashes there is a path that starts with none. -/
theorem exists_eq_replicate_append (p : Text) :
    ∃ n q, p = List.replicate n slash ++ q ∧ isAbsolute q = false := by
  refine ⟨(p.takeWhile (· == slash)).length, p.dropWhile (· == slash), ?_, ?_⟩
  · have hall : p.takeWhile (· == slash) =
        List.replicate (p.takeWhile (· == slash)).length slash :=
      List.eq_replicate_iff.mpr ⟨rfl, fun c hc => by simpa using List.mem_takeWhile_imp hc⟩
    rw [← hall, List.takeWhile_append_dropWhile]
  · cases hdrop : p.dropWhile (· == slash) with
    | nil => rfl
    | cons c q =>
      have hc := List.head?_dropWhile_not (· == slash) p
      rw [hdrop] at hc
      simpa [isAbsolute] using hc

/-! ## 3. Normal forms -/

theorem normalize_eq (p : Text) :
    normalize p = assemble (rootSlashes p) (climbed (0 < rootSlashes p) (components p)) := rfl

theorem of_mem_climbed_components {rooted : Bool} {p c : Text}
    (h : c ∈ climbed rooted (components p)) : slash ∉ c ∧ c ≠ [] ∧ c ≠ [46] :=
  of_mem_components (mem_of_mem_climbed h)

@[simp] theorem components_normalize (p : Text) :
    components (normalize p) = climbed (0 < rootSlashes p) (components p) :=
  components_assemble _ fun _ => of_mem_climbed_components

@[simp] theorem rootSlashes_normalize (p : Text) : rootSlashes (normalize p) = rootSlashes p :=
  rootSlashes_assemble (rootSlashes_le_two p) fun _ hc =>
    ⟨(of_mem_climbed_components hc).1, (of_mem_climbed_components hc).2.1⟩

/-- A second time nothing is left to work out. -/
@[simp] theorem normalize_normalize (p : Text) : normalize (normalize p) = normalize p := by
  rw [normalize_eq (normalize p), rootSlashes_normalize, components_normalize, climbed_climbed,
    ← normalize_eq]

theorem isAbsolute_iff {p : Text} : isAbsolute p = true ↔ 0 < rootSlashes p := by
  rw [Nat.pos_iff_ne_zero, Ne, rootSlashes_eq_zero_iff, Bool.not_eq_false]

theorem isAbsolute_normalize (p : Text) : isAbsolute (normalize p) = isAbsolute p := by
  rw [Bool.eq_iff_iff, isAbsolute_iff, isAbsolute_iff, rootSlashes_normalize]

/-- The path of leading slashes and names with single slashes between them. -/
def IsNormal (p : Text) : Prop :=
  ∃ slashes names, (slashes = 1 ∨ slashes = 2) ∧ (∀ c ∈ names, IsName c) ∧
    p = List.replicate slashes slash ++ Text.joinWith [slash] names

theorem assemble_of_pos {slashes : Nat} (h : 0 < slashes) (parts : List Text) :
    assemble slashes parts = List.replicate slashes slash ++ Text.joinWith [slash] parts := by
  rw [assemble]
  split
  · rename_i hnil
    rw [List.append_eq_nil_iff, List.replicate_eq_nil_iff] at hnil
    exact absurd hnil.1 (Nat.pos_iff_ne_zero.mp h)
  · rfl

/-- The names of an absolute path in its normal form. -/
theorem isName_of_mem_components_normalize {p c : Text} (h : isAbsolute p = true)
    (hc : c ∈ components (normalize p)) : IsName c := by
  rw [components_normalize, decide_eq_true (isAbsolute_iff.mp h)] at hc
  obtain ⟨hslash, hne, hdot⟩ := of_mem_climbed_components hc
  exact ⟨hslash, hne, hdot, fun hdotDot => dotDot_notMem_climbed _ (hdotDot ▸ hc)⟩

theorem isNormal_normalize {p : Text} (h : isAbsolute p = true) : IsNormal (normalize p) := by
  have hpos : 0 < rootSlashes p := isAbsolute_iff.mp h
  have hle := rootSlashes_le_two p
  refine ⟨rootSlashes p, components (normalize p), by omega,
    fun c => isName_of_mem_components_normalize h, ?_⟩
  rw [components_normalize, normalize_eq, assemble_of_pos hpos]

/-- The parts of a normal path can be read off it. -/
theorem parts_of_isNormal {slashes : Nat} (hslashes : slashes = 1 ∨ slashes = 2)
    {names : List Text} (hnames : ∀ c ∈ names, IsName c) :
    let p := List.replicate slashes slash ++ Text.joinWith [slash] names
    rootSlashes p = slashes ∧ components p = names := by
  intro p
  have hp : p = assemble slashes names := (assemble_of_pos (by omega) names).symm
  rw [hp]
  exact ⟨rootSlashes_assemble (by omega) fun c hc => ⟨(hnames c hc).1, (hnames c hc).2⟩,
    components_assemble _ fun c hc => ⟨(hnames c hc).1, (hnames c hc).2, (hnames c hc).3⟩⟩

/-- Normal are the absolute paths that normalizing leaves as they are. -/
theorem isNormal_iff {p : Text} : IsNormal p ↔ isAbsolute p = true ∧ normalize p = p := by
  constructor
  · rintro ⟨slashes, names, hslashes, hnames, rfl⟩
    obtain ⟨hroot, hparts⟩ := parts_of_isNormal hslashes hnames
    refine ⟨isAbsolute_iff.mpr (by omega), ?_⟩
    rw [normalize_eq, hroot, hparts, climbed_of_forall_ne fun c hc => (hnames c hc).ne_dotDot,
      assemble_of_pos (by omega)]
  · rintro ⟨habsolute, hp⟩
    rw [← hp]
    exact isNormal_normalize habsolute

/-! ## 4. Seen from a directory -/

theorem isAbsolute_join {d : Text} (h : isAbsolute d = true) (p : Text) :
    isAbsolute (join d p) = true := by
  unfold join
  split
  · assumption
  · obtain ⟨c, d, rfl⟩ : ∃ c d', d = c :: d' := by
      cases d with
      | nil => cases h
      | cons c d => exact ⟨c, d, rfl⟩
    split <;> exact h

/-- A relative path leaves the leading slashes of the directory as they are. -/
theorem rootSlashes_join {d p : Text} (hd : d ≠ []) (hp : isAbsolute p = false) :
    rootSlashes (join d p) = rootSlashes d := by
  obtain ⟨n, q, rfl, hq⟩ := exists_eq_replicate_append d
  rw [join, if_neg (by simp [hp])]
  cases q with
  | nil =>
    obtain ⟨m, rfl⟩ := Nat.exists_eq_succ_of_ne_zero (n := n) (by rintro rfl; exact hd rfl)
    have hlast : (List.replicate (m + 1) slash ++ []).getLast? = some slash := by
      simp [List.getLast?_replicate]
    rw [if_pos (.inr hlast), rootSlashes, rootSlashes, List.append_assoc, List.nil_append,
      takeWhile_slash_append hp, takeWhile_slash_append rfl]
  | cons c q =>
    have happend : ∀ t, isAbsolute (c :: q ++ t) = false := fun t => hq
    split
    · rw [List.append_assoc, rootSlashes, rootSlashes, takeWhile_slash_append (happend _),
        takeWhile_slash_append hq]
    · rw [List.append_assoc, rootSlashes, rootSlashes, takeWhile_slash_append (happend _),
        takeWhile_slash_append hq]

/-- Spellings of one path stay so when they are seen from a directory. -/
theorem normalize_join_congr (d : Text) {p q : Text} (h : normalize p = normalize q) :
    normalize (join d p) = normalize (join d q) := by
  have habsolute : isAbsolute p = isAbsolute q := by
    rw [← isAbsolute_normalize p, h, isAbsolute_normalize]
  cases hp : isAbsolute p with
  | true =>
    rw [join, if_pos hp, join, if_pos (habsolute ▸ hp), h]
  | false =>
    have hq : isAbsolute q = false := habsolute ▸ hp
    by_cases hd : d = []
    · simpa [hd, join, hp, hq] using h
    · have hparts : climbed false (components p) = climbed false (components q) := by
        have hcomponents := congrArg components h
        simpa [rootSlashes_eq_zero_iff.mpr hp, rootSlashes_eq_zero_iff.mpr hq] using hcomponents
      rw [normalize_eq, normalize_eq, rootSlashes_join hd hp, rootSlashes_join hd hq,
        components_join, components_join, if_neg (by simp [hp]), if_neg (by simp [hq]), climbed,
        climbed, List.foldl_append, List.foldl_append, ← foldl_climb_climbed _ (components p),
        hparts, foldl_climb_climbed]

end LineTrace.Path
