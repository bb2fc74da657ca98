/-
LineTrace.Proofs.Table — what a table answers after it was changed.

`get?` is the view that everything else is stated through: `get?_put` and
`get?_modify` say what a change does to it, whatever the order of the entries.
The order matters only where a table is walked entry by entry, and then it is
needed that no key stands in it twice (`nodup_keys_put`), so that every entry is
the one that `get?` finds (`get?_of_mem`). What holds of every entry is kept by a
change because no entry but the new one comes in (`mem_put`).
-/
import LineTrace.Table

namespace LineTrace.Table

variable {κ α : Type}

@[simp] theorem keys_nil : keys ([] : Table κ α) = [] := rfl

@[simp] theorem keys_cons (k : κ) (v : α) (t : Table κ α) : keys ((k, v) :: t) = k :: t.keys := rfl

@[simp] theorem keys_map (f : κ → α) (ks : List κ) : keys (ks.map fun k => (k, f k)) = ks := by
  rw [keys, List.map_map]
  exact List.map_id ks

variable [DecidableEq κ]

/-! ## 1. Answers -/

@[simp] theorem get?_nil (key : κ) : get? key ([] : Table κ α) = none := rfl

theorem get?_cons (key k : κ) (v : α) (t : Table κ α) :
    get? key ((k, v) :: t) = if k = key then some v else get? key t := rfl

/-- After a change the key has the new value and every other key its old one. -/
theorem get?_put (key k : κ) (v : α) (t : Table κ α) :
    get? key (put k v t) = if k = key then some v else get? key t := by
  induction t with
  | nil => rw [put, get?_cons]
  | cons entry t ih =>
    obtain ⟨k', v'⟩ := entry
    rw [put]
    by_cases hk : k' = k
    · rw [if_pos hk, get?_cons, get?_cons, hk]
      split <;> rfl
    · rw [if_neg hk, get?_cons, get?_cons, ih]
      split
      · rename_i hkey
        rw [if_neg (fun h => hk (hkey.trans h.symm))]
      · rfl

theorem get?_modify (key k : κ) (f : Option α → α) (t : Table κ α) :
    get? key (modify k f t) = if k = key then some (f (get? key t)) else get? key t := by
  rw [modify, get?_put]
  split
  · rename_i h
    rw [h]
  · rfl

/-- Of the entries that are kept by their keys, each key answers as before. -/
theorem get?_filter (keep : κ → Bool) (key : κ) (t : Table κ α) :
    get? key (t.filter fun e => keep e.1) = if keep key then get? key t else none := by
  induction t with
  | nil => simp
  | cons entry t ih =>
    obtain ⟨k, v⟩ := entry
    by_cases hk : keep k
    · rw [List.filter_cons_of_pos (by simpa using hk), get?_cons, get?_cons, ih]
      by_cases hkey : k = key
      · simp [← hkey, hk]
      · simp [hkey]
    · rw [List.filter_cons_of_neg (by simpa using hk), ih, get?_cons]
      by_cases hkey : k = key
      · simp [← hkey, hk]
      · simp [hkey]

theorem get?_erase (key k : κ) (t : Table κ α) :
    get? key (erase k t) = if k = key then none else get? key t := by
  rw [erase, get?_filter fun x => x ≠ k]
  by_cases hk : k = key
  · simp [hk]
  · simp [hk, Ne.symm hk]

/-- A table made of its keys answers each of them. -/
theorem get?_map (f : κ → α) (ks : List κ) (key : κ) :
    get? key (ks.map fun k => (k, f k)) = if key ∈ ks then some (f key) else none := by
  induction ks with
  | nil => rfl
  | cons k ks ih =>
    rw [List.map_cons, get?_cons, ih]
    by_cases hk : k = key
    · simp [hk]
    · simp [hk, Ne.symm hk]

/-! ## 2. Keys -/

/-- The keys that a table answers are its keys. -/
theorem isSome_get?_iff {key : κ} {t : Table κ α} : (get? key t).isSome ↔ key ∈ t.keys := by
  induction t with
  | nil => simp
  | cons entry t ih =>
    obtain ⟨k, v⟩ := entry
    rw [get?_cons, keys_cons, List.mem_cons, ← ih]
    split
    · rename_i h
      simp [h]
    · rename_i h
      exact (or_iff_right (Ne.symm h)).symm

theorem mem_keys_put {key k : κ} {v : α} {t : Table κ α} :
    key ∈ (put k v t).keys ↔ key = k ∨ key ∈ t.keys := by
  rw [← isSome_get?_iff, get?_put, ← isSome_get?_iff]
  split
  · rename_i h
    simp [h]
  · rename_i h
    exact (or_iff_right (Ne.symm h)).symm

/-- A key that is there keeps its place. -/
theorem keys_put_of_mem {k : κ} (v : α) {t : Table κ α} (h : k ∈ t.keys) :
    (put k v t).keys = t.keys := by
  induction t with
  | nil => cases h
  | cons entry t ih =>
    obtain ⟨k', v'⟩ := entry
    rw [put]
    split
    · rfl
    · rename_i hk
      rw [keys_cons, keys_cons, ih ((List.mem_cons.mp h).resolve_left (Ne.symm hk))]

/-- No change brings a key in twice. -/
theorem nodup_keys_put (k : κ) (v : α) {t : Table κ α} (h : t.keys.Nodup) :
    (put k v t).keys.Nodup := by
  induction t with
  | nil => simp [put]
  | cons entry t ih =>
    obtain ⟨k', v'⟩ := entry
    rw [keys_cons, List.nodup_cons] at h
    rw [put]
    split
    · rw [keys_cons, List.nodup_cons]
      exact h
    · rename_i hk
      rw [keys_cons, List.nodup_cons, mem_keys_put]
      exact ⟨not_or.mpr ⟨hk, h.1⟩, ih h.2⟩

/-- Without repeated keys every entry is the one that is found. -/
theorem get?_of_mem {t : Table κ α} (h : t.keys.Nodup) {key : κ} {v : α} (hmem : (key, v) ∈ t) :
    get? key t = some v := by
  induction t with
  | nil => simp at hmem
  | cons entry t ih =>
    obtain ⟨k', v'⟩ := entry
    rw [keys_cons, List.nodup_cons] at h
    rw [get?_cons]
    rcases List.mem_cons.mp hmem with hentry | hmem
    · cases hentry
      rw [if_pos rfl]
    · have hkey : key ∈ keys t := List.mem_map_of_mem hmem
      have hne : k' ≠ key := by
        rintro rfl
        exact h.1 hkey
      rw [if_neg hne, ih h.2 hmem]

/-! ## 3. Entries -/

theorem mem_of_get? {t : Table κ α} {key : κ} {v : α} (h : get? key t = some v) :
    (key, v) ∈ t := by
  induction t with
  | nil => cases h
  | cons entry t ih =>
    obtain ⟨k, w⟩ := entry
    rw [get?_cons] at h
    split at h
    · rename_i hk
      cases h
      rw [hk]
      exact List.mem_cons_self ..
    · exact List.mem_cons_of_mem _ (ih h)

theorem get?_eq_some_iff {t : Table κ α} (h : t.keys.Nodup) {key : κ} {v : α} :
    get? key t = some v ↔ (key, v) ∈ t :=
  ⟨mem_of_get?, get?_of_mem h⟩

/-- The order of entries is nothing to the answers. -/
theorem get?_of_perm {s t : Table κ α} (hs : s.keys.Nodup) (h : s.Perm t) (key : κ) :
    get? key s = get? key t := by
  have ht : t.keys.Nodup := (h.map Prod.fst).nodup_iff.mp hs
  ext v
  rw [get?_eq_some_iff hs, get?_eq_some_iff ht, h.mem_iff]

/-- A change brings in no entry but the new one. -/
theorem mem_put {key : κ} {v : α} {t : Table κ α} {e : κ × α} (h : e ∈ put key v t) :
    e = (key, v) ∨ e ∈ t := by
  induction t with
  | nil => exact .inl (List.mem_singleton.mp h)
  | cons entry t ih =>
    obtain ⟨k, w⟩ := entry
    rw [put] at h
    split at h
    · rename_i hk
      rw [hk, List.mem_cons] at h
      exact h.imp_right fun hmem => List.mem_cons_of_mem _ hmem
    · rcases List.mem_cons.mp h with rfl | h
      · exact .inr (List.mem_cons_self ..)
      · exact (ih h).imp_right fun hmem => List.mem_cons_of_mem _ hmem

theorem mem_ofEntries {e : κ × α} {entries : List (κ × α)} (h : e ∈ ofEntries entries) :
    e ∈ entries := by
  have hfold : ∀ seen : Table κ α,
      e ∈ entries.foldl (fun seen x => put x.1 x.2 seen) seen → e ∈ seen ∨ e ∈ entries := by
    clear h
    induction entries with
    | nil => exact fun _ => .inl
    | cons entry entries ih =>
      intro seen hmem
      rcases ih _ hmem with hseen | hmem
      · rcases mem_put hseen with rfl | hseen
        · exact .inr (List.mem_cons_self ..)
        · exact .inl hseen
      · exact .inr (List.mem_cons_of_mem _ hmem)
  exact (hfold [] h).resolve_left List.not_mem_nil

/-- A change of a key that is left out is left out with it. -/
theorem filter_put (keep : κ → Bool) (key : κ) (v : α) (t : Table κ α) :
    (put key v t).filter (fun e => keep e.1) =
      if keep key then put key v (t.filter fun e => keep e.1)
      else t.filter fun e => keep e.1 := by
  induction t with
  | nil => by_cases hkey : keep key <;> simp [put, hkey]
  | cons entry t ih =>
    obtain ⟨k, w⟩ := entry
    rw [put]
    split
    · rename_i hk
      by_cases hkey : keep key <;> simp [put, hk, hkey]
    · rename_i hk
      by_cases hkeep : keep k
      · rw [List.filter_cons_of_pos (by simpa using hkeep), ih,
          List.filter_cons_of_pos (by simpa using hkeep), put, if_neg hk]
        split <;> rfl
      · rw [List.filter_cons_of_neg (by simpa using hkeep), ih,
          List.filter_cons_of_neg (by simpa using hkeep)]

theorem put_of_notMem {key : κ} {v : α} {t : Table κ α} (h : key ∉ t.keys) :
    put key v t = t ++ [(key, v)] := by
  induction t with
  | nil => rfl
  | cons entry t ih =>
    obtain ⟨k, w⟩ := entry
    rw [keys_cons, List.mem_cons, not_or] at h
    rw [put, if_neg (Ne.symm h.1), ih h.2, List.cons_append]

/-- Entries without a repeated key are a table as they stand. -/
theorem ofEntries_of_nodup {entries : List (κ × α)} (h : (keys entries).Nodup) :
    ofEntries entries = entries := by
  have hfold : ∀ seen : Table κ α, (keys (seen ++ entries)).Nodup →
      entries.foldl (fun seen x => put x.1 x.2 seen) seen = seen ++ entries := by
    clear h
    induction entries with
    | nil => simp
    | cons entry entries ih =>
      obtain ⟨k, v⟩ := entry
      intro seen hnodup
      have hk : k ∉ keys seen := by
        intro hmem
        rw [keys, List.map_append, List.nodup_append] at hnodup
        exact hnodup.2.2 k hmem k (by simp) rfl
      simp only [List.foldl_cons, put_of_notMem hk]
      rw [ih _ (by simpa using hnodup), List.append_assoc, List.singleton_append]
  exact hfold [] (by simpa using h)

theorem put_ne_nil (key : κ) (v : α) (t : Table κ α) : put key v t ≠ [] := by
  cases t with
  | nil => simp [put]
  | cons entry t =>
    obtain ⟨k, w⟩ := entry
    rw [put]
    split <;> simp

end LineTrace.Table
