/-
LineTrace.Proofs.Text.Splitting — where a text is cut, said without the
scanner that cuts it.

`Text.cut?` finds the leftmost occurrence of a delimiter. Two facts say all
about it: it finds none exactly where the delimiter is no infix
(`cut?_eq_none_iff`), and it answers `(x, rest)` exactly where the text is
`x ++ d ++ rest` and `x` is `EndedBy` the delimiter (`cut?_eq_some_iff`). So
every text is either free of the delimiter or cut by it, and
`delimiter_induction` is induction along the cuts.

`pieces_append` is the law that reading in parts rests on: cutting a longer
text goes on from the uncut rest of the shorter one. It holds for delimiters
that overlap themselves too, because an occurrence that starts further left
also ends further left. What cutting a text gives is described by
`LeftmostSplit`, which does not mention the scanner; `leftmostSplit_iff` says that
a text has one such split and that `splitOn` finds it.

The separator of the fields is one element, so there splitting undoes joining
(`splitAt1_joinWith`) and makes one part more than there are separators
(`length_splitAt1`).
-/
import LineTrace.Text.Basic

namespace LineTrace.Text

/-- The first occurrence of `d` in `x` followed by `d` is the final one. -/
def EndedBy {α : Type} (d x : List α) : Prop := ∀ u v, x ++ d = u ++ d ++ v → v = []

/-- The parts of a text on a delimiter, from the left: each but the last is ended
by the first occurrence behind the part before it, and the last holds none. -/
inductive LeftmostSplit {α : Type} (d : List α) : List α → List (List α) → Prop where
  | last {xs : List α} (free : ¬ d <:+: xs) : LeftmostSplit d xs [xs]
  | part {x rest : List α} {parts : List (List α)} (ended : EndedBy d x)
      (more : LeftmostSplit d rest parts) : LeftmostSplit d (x ++ d ++ rest) (x :: parts)

section Delimiter

variable {α : Type} {d x xs : List α}

/-! ## 1. What a delimiter ends -/

theorem EndedBy.of_cons {c : α} (h : EndedBy d (c :: x)) : EndedBy d x := by
  intro u v huv
  exact h (c :: u) v (by simp [huv])

/-- A text without the delimiter's first element is ended by it. -/
theorem endedBy_of_notMem {c : α} (h : c ∉ x) :
    EndedBy (c :: d) x := by
  intro u v huv
  rw [List.append_assoc, List.cons_append] at huv
  have hlen : x.length = u.length + v.length := by
    have := congrArg List.length huv
    simp at this
    omega
  rcases List.append_eq_append_iff.mp huv with ⟨w, rfl, -⟩ | ⟨w, rfl, hw⟩
  · rw [List.length_append] at hlen
    exact List.length_eq_zero_iff.mp (by omega)
  · cases w with
    | nil =>
      rw [List.append_nil] at hlen
      exact List.length_eq_zero_iff.mp (by omega)
    | cons b w =>
      obtain ⟨rfl, -⟩ := List.cons.inj hw
      simp at h

/-- An end that comes first is the only occurrence in all but the last
element. -/
theorem endedBy_iff (hd : d ≠ []) : EndedBy d x ↔ ¬ d <:+: x ++ d.dropLast := by
  have hlast : x ++ d = (x ++ d.dropLast) ++ [d.getLast hd] := by
    rw [List.append_assoc, List.dropLast_concat_getLast hd]
  constructor
  · rintro h ⟨u, v, huv⟩
    have := h u (v ++ [d.getLast hd]) (by rw [hlast, ← huv]; simp)
    simp at this
  · intro h u v huv
    rcases List.eq_nil_or_concat v with rfl | ⟨v', e, rfl⟩
    · rfl
    · refine absurd ⟨u, v', ?_⟩ h
      rw [hlast, List.concat_eq_append, ← List.append_assoc] at huv
      exact (List.append_inj' huv rfl).1.symm

/-- Cut short anywhere, an ended text no longer holds the delimiter. -/
theorem EndedBy.free_take (h : EndedBy d x) {n : Nat} (hn : n < (x ++ d).length) :
    ¬ d <:+: (x ++ d).take n := by
  rintro ⟨u, v, huv⟩
  have hsplit : x ++ d = u ++ d ++ (v ++ (x ++ d).drop n) := by
    rw [← List.append_assoc, huv, List.take_append_drop]
  have hnil := h u _ hsplit
  simp only [List.append_eq_nil_iff, List.drop_eq_nil_iff] at hnil
  omega

/-- An element that the delimiter does not hold keeps the two sides apart. -/
theorem free_append_cons {m : α} (hm : m ∉ d) {y : List α} (hx : ¬ d <:+: x)
    (hy : ¬ d <:+: y) : ¬ d <:+: x ++ m :: y := by
  rintro ⟨u, v, huv⟩
  rw [List.append_assoc, List.append_eq_append_iff] at huv
  rcases huv with ⟨a, rfl, hdv⟩ | ⟨a, rfl, hmy⟩
  · -- the occurrence starts within `x`
    rcases List.append_eq_append_iff.mp hdv.symm with ⟨b, rfl, hb⟩ | ⟨b, rfl, hb⟩
    · cases b with
      | nil => exact hx ⟨u, [], by simp⟩
      | cons e b =>
        simp only [List.cons_append, List.cons.injEq] at hb
        exact hm (by simp [hb.1])
    · exact hx ⟨u, b, by simp⟩
  · -- the occurrence starts at `m` or behind it
    cases a with
    | nil =>
      cases d with
      | nil => exact hx List.nil_infix
      | cons e d =>
        simp only [List.nil_append, List.cons_append, List.cons.injEq] at hmy
        exact hm (by simp [hmy.1])
    | cons e a =>
      simp only [List.cons_append, List.cons.injEq] at hmy
      exact hy ⟨a, v, by rw [hmy.2, List.append_assoc]⟩

/-- Markers between a free text and the delimiter do not bring the end
forward. -/
theorem endedBy_append_replicate {m : α} (hm : m ∉ d) (hx : ¬ d <:+: x) {k : Nat}
    (hk : 0 < k) : EndedBy d (x ++ List.replicate k m) := by
  have hd : d ≠ [] := by
    rintro rfl
    exact hx List.nil_infix
  have htail : ∀ n, ¬ d <:+: List.replicate n m ++ d.dropLast := by
    intro n
    induction n with
    | zero =>
      intro h
      have hle := h.length_le
      have := List.length_pos_iff.mpr hd
      simp only [List.replicate_zero, List.nil_append, List.length_dropLast] at hle
      omega
    | succ n ih =>
      rw [List.replicate_succ, List.cons_append]
      exact free_append_cons (x := []) hm (by simpa using hd) ih
  obtain ⟨k, rfl⟩ : ∃ j, k = j + 1 := ⟨k - 1, by omega⟩
  rw [endedBy_iff hd, List.append_assoc, List.replicate_succ, List.cons_append]
  exact free_append_cons hm hx (htail k)

/-! ## 2. One cut -/

variable [DecidableEq α]

theorem cut?_eq_none_iff (hd : d ≠ []) : cut? d xs = none ↔ ¬ d <:+: xs := by
  induction xs with
  | nil => simp [cut?, hd]
  | cons c xs ih =>
    rw [cut?, List.infix_cons_iff]
    by_cases hp : d <+: c :: xs
    · simp [hp]
    · simp [hp, ih]

theorem cut?_append (hd : d ≠ []) (h : EndedBy d x) (rest : List α) :
    cut? d (x ++ d ++ rest) = some (x, rest) := by
  induction x with
  | nil =>
    obtain ⟨e, d, rfl⟩ := List.exists_cons_of_ne_nil hd
    simp [cut?]
  | cons c x ih =>
    have hp : ¬ d <+: c :: (x ++ d ++ rest) := by
      intro hp
      have hle : d.length ≤ (c :: (x ++ d)).length := by simp; omega
      have hshort : d <+: c :: (x ++ d) :=
        List.prefix_of_prefix_length_le hp ⟨rest, by simp⟩ hle
      obtain ⟨v, hv⟩ := hshort
      have hnil := h [] v (by simp [hv])
      subst hnil
      have := congrArg List.length hv
      simp only [List.length_append, List.length_cons, List.length_nil] at this
      omega
    rw [List.cons_append, List.cons_append, cut?,
      if_neg (by simpa using hp), ih h.of_cons]
    rfl

theorem cut?_eq_some_iff (hd : d ≠ []) {before after : List α} :
    cut? d xs = some (before, after) ↔ xs = before ++ d ++ after ∧ EndedBy d before := by
  constructor
  · intro h
    induction xs generalizing before with
    | nil => simp [cut?, hd] at h
    | cons c xs ih =>
      rw [cut?] at h
      split at h
      · rename_i hp
        obtain ⟨t, ht⟩ := List.isPrefixOf_iff_prefix.mp hp
        rw [← ht, List.drop_left, Option.some.injEq, Prod.mk.injEq] at h
        obtain ⟨rfl, rfl⟩ := h
        refine ⟨by rw [← ht]; rfl, fun u v huv => ?_⟩
        have := congrArg List.length huv
        simp only [List.length_append, List.length_nil] at this
        exact List.length_eq_zero_iff.mp (by omega)
      · rename_i hp
        cases hc : cut? d xs with
        | none => simp [hc] at h
        | some p =>
          obtain ⟨b, a⟩ := p
          simp only [hc, Option.map_some, Option.some.injEq, Prod.mk.injEq] at h
          obtain ⟨rfl, rfl⟩ := h
          obtain ⟨rfl, hb⟩ := ih hc
          refine ⟨rfl, fun u v huv => ?_⟩
          cases u with
          | nil =>
            refine absurd (List.isPrefixOf_iff_prefix.mpr ?_) hp
            exact ⟨v ++ a, by simpa using congrArg (· ++ a) huv.symm⟩
          | cons e u =>
            simp only [List.cons_append, List.cons.injEq] at huv
            exact hb u v huv.2
  · rintro ⟨rfl, h⟩
    exact cut?_append hd h after

instance (d x : List α) : Decidable (EndedBy d x) :=
  if hd : d = [] then
    decidable_of_iff (x = []) (by
      subst hd
      constructor
      · rintro rfl u v huv
        simp only [List.append_nil, List.nil_eq, List.append_eq_nil_iff] at huv
        exact huv.2
      · intro h
        exact h [] x (by simp))
  else
    decidable_of_iff (cut? d (x ++ d) = some (x, [])) (by simp [cut?_eq_some_iff hd])

/-- A text is free of the delimiter or cut by it. -/
theorem free_or_cut (hd : d ≠ []) (xs : List α) :
    ¬ d <:+: xs ∨ ∃ before after, xs = before ++ d ++ after ∧ EndedBy d before := by
  cases h : cut? d xs with
  | none => exact .inl ((cut?_eq_none_iff hd).mp h)
  | some p => exact .inr ⟨p.1, p.2, (cut?_eq_some_iff hd).mp h⟩

/-- Induction along the delimiters of a text. -/
@[elab_as_elim]
theorem delimiter_induction {motive : List α → Prop} (hd : d ≠ [])
    (free : ∀ xs, ¬ d <:+: xs → motive xs)
    (cut : ∀ x rest, EndedBy d x → motive rest → motive (x ++ d ++ rest)) (xs : List α) :
    motive xs := by
  rcases free_or_cut hd xs with h | ⟨x, rest, hxs, hx⟩
  · exact free xs h
  · have : rest.length < xs.length := by
      have := List.length_pos_iff.mpr hd
      simp only [hxs, List.length_append]
      omega
    exact hxs ▸ cut x rest hx (delimiter_induction hd free cut rest)
termination_by xs.length

/-! ## 3. All cuts -/

theorem pieces_of_free (hd : d ≠ []) (h : ¬ d <:+: xs) : pieces d xs = ([], xs) := by
  rw [pieces, (cut?_eq_none_iff hd).mpr h]

theorem pieces_cut (hd : d ≠ []) (h : EndedBy d x) (rest : List α) :
    pieces d (x ++ d ++ rest) = (x :: (pieces d rest).1, (pieces d rest).2) := by
  have hlt : rest.length < (x ++ d ++ rest).length := by
    have := List.length_pos_iff.mpr hd
    simp only [List.length_append]
    omega
  rw [pieces, cut?_append hd h]
  exact dif_pos hlt

/-- What is left uncut holds no delimiter. -/
theorem free_pieces_snd (hd : d ≠ []) (xs : List α) : ¬ d <:+: (pieces d xs).2 := by
  induction xs using delimiter_induction hd with
  | free xs h => rwa [pieces_of_free hd h]
  | cut x rest h ih => rwa [pieces_cut hd h]

/-- Cutting goes on from the uncut rest. -/
theorem pieces_append (hd : d ≠ []) (xs ys : List α) :
    pieces d (xs ++ ys) =
      ((pieces d xs).1 ++ (pieces d ((pieces d xs).2 ++ ys)).1,
        (pieces d ((pieces d xs).2 ++ ys)).2) := by
  induction xs using delimiter_induction hd with
  | free xs h => simp [pieces_of_free hd h]
  | cut x rest h ih =>
    rw [List.append_assoc (x ++ d), pieces_cut hd h, pieces_cut hd h, ih]
    rfl

theorem splitOn_cut (hd : d ≠ []) (h : EndedBy d x) (rest : List α) :
    splitOn d (x ++ d ++ rest) = x :: splitOn d rest := by
  rw [splitOn, pieces_cut hd h]
  rfl

/-- A text has one leftmost split, and the scanner finds it. -/
theorem leftmostSplit_iff (hd : d ≠ []) {parts : List (List α)} :
    LeftmostSplit d xs parts ↔ parts = splitOn d xs := by
  constructor
  · intro h
    induction h with
    | last free =>
      rw [splitOn, pieces_of_free hd free]
      rfl
    | part ended _ ih => rw [splitOn_cut hd ended, ih]
  · rintro rfl
    induction xs using delimiter_induction hd with
    | free xs h =>
      rw [splitOn, pieces_of_free hd h]
      exact .last h
    | cut x rest h ih =>
      rw [splitOn_cut hd h]
      exact .part h ih

end Delimiter

/-! ## 4. Fields -/

section Separator

variable {α : Type} [DecidableEq α] {sep : α}

theorem splitAt1_ne_nil (xs : List α) : splitAt1 sep xs ≠ [] := by
  cases xs with
  | nil => simp [splitAt1]
  | cons c xs =>
    rw [splitAt1]
    split
    · simp
    · split <;> simp

/-- There is one part more than there are separators. -/
theorem length_splitAt1 (xs : List α) : (splitAt1 sep xs).length = xs.count sep + 1 := by
  induction xs with
  | nil => rfl
  | cons c xs ih =>
    rw [splitAt1]
    by_cases hc : c = sep
    · simp [hc, ih]
    · rw [if_neg hc, List.count_cons_of_ne hc, ← ih]
      split
      · rename_i h
        exact absurd h (splitAt1_ne_nil xs)
      · rename_i h
        simp [h]

/-- No part holds the separator. -/
theorem notMem_of_mem_splitAt1 {xs part : List α} (h : part ∈ splitAt1 sep xs) : sep ∉ part := by
  induction xs generalizing part with
  | nil =>
    rw [splitAt1, List.mem_singleton] at h
    rw [h]
    exact List.not_mem_nil
  | cons x xs ih =>
    rw [splitAt1] at h
    split at h
    · rcases List.mem_cons.mp h with rfl | h
      · exact List.not_mem_nil
      · exact ih h
    · rename_i hx
      split at h
      · rename_i hnil
        exact absurd hnil (splitAt1_ne_nil xs)
      · rename_i first parts hparts
        rcases List.mem_cons.mp h with rfl | h
        · rw [List.mem_cons, not_or]
          exact ⟨Ne.symm hx, ih (by rw [hparts]; exact List.mem_cons_self ..)⟩
        · exact ih (by rw [hparts]; exact List.mem_cons_of_mem _ h)

theorem splitAt1_of_not_mem {xs : List α} (h : sep ∉ xs) : splitAt1 sep xs = [xs] := by
  induction xs with
  | nil => rfl
  | cons c xs ih =>
    simp only [List.mem_cons, not_or] at h
    rw [splitAt1, if_neg (Ne.symm h.1), ih h.2]

/-- A separator parts what is before it from what is behind it. -/
theorem splitAt1_append_cons (xs ys : List α) :
    splitAt1 sep (xs ++ sep :: ys) = splitAt1 sep xs ++ splitAt1 sep ys := by
  induction xs with
  | nil => simp [splitAt1]
  | cons c xs ih =>
    rw [List.cons_append, splitAt1, splitAt1, ih]
    by_cases hc : c = sep
    · rw [if_pos hc, if_pos hc, List.cons_append]
    · rw [if_neg hc, if_neg hc]
      cases hxs : splitAt1 sep xs with
      | nil => exact absurd hxs (splitAt1_ne_nil xs)
      | cons part parts => rfl

/-- Splitting undoes joining. -/
theorem splitAt1_joinWith {parts : List (List α)} (hne : parts ≠ [])
    (h : ∀ part ∈ parts, sep ∉ part) : splitAt1 sep (joinWith [sep] parts) = parts := by
  induction parts with
  | nil => exact absurd rfl hne
  | cons part parts ih =>
    have hpart := h part (by simp)
    cases parts with
    | nil => simpa [joinWith] using splitAt1_of_not_mem hpart
    | cons part' parts =>
      have hrest := ih (by simp) fun q hq => h q (by simp [hq])
      rw [joinWith, List.append_assoc, List.singleton_append, splitAt1_append_cons,
        splitAt1_of_not_mem hpart, hrest, List.singleton_append]
      simp

/-- Splitting sees of the elements which of them are the separator. -/
theorem splitAt1_map {β : Type} [DecidableEq β] {f : α → β} (hf : ∀ x y, f x = f y → x = y)
    (xs : List α) : splitAt1 (f sep) (xs.map f) = (splitAt1 sep xs).map (List.map f) := by
  induction xs with
  | nil => rfl
  | cons x xs ih =>
    rw [List.map_cons, splitAt1, splitAt1, ih]
    by_cases hx : x = sep
    · rw [if_pos hx, if_pos (congrArg f hx), List.map_cons, List.map_nil]
    · rw [if_neg hx, if_neg (mt (hf x sep) hx)]
      cases splitAt1 sep xs <;> rfl

end Separator

theorem map_joinWith {α β : Type} (f : α → β) (sep : List α) (parts : List (List α)) :
    (joinWith sep parts).map f = joinWith (sep.map f) (parts.map (List.map f)) := by
  induction parts with
  | nil => rfl
  | cons part parts ih =>
    cases parts with
    | nil => rfl
    | cons next parts =>
      simp only [joinWith, List.map_append, ih, List.map_cons]

end LineTrace.Text
