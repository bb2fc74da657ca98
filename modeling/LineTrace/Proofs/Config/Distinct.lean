/-
LineTrace.Proofs.Config.Distinct — documents whose tables name nothing twice.

A table of settings is a list of entries, and only where no name is in it twice does a
look-up say what stands in it. `Setting.Distinct` asks that of a setting on every level.
Whatever is read from a text is so: an entry is added only under a name that is new
(`distinct_addEntry`), a table on the way to it is put back in its place
(`distinct_changeAt`), and a value is made of values in the same way (`distinct_value`).
So it holds of a document after every statement, and of the table that is read
(`distinct_read`).
-/
import LineTrace.Config.Toml
import LineTrace.Proofs.Table
import LineTrace.Proofs.Text.Encoding

namespace LineTrace

/-! ## 1. Settings -/

/-- No table in the setting names anything twice. -/
inductive Setting.Distinct : Setting → Prop where
  | absent : Distinct .absent
  | flag (b : Bool) : Distinct (.flag b)
  | int (i : Int) : Distinct (.int i)
  | float (x : Double) : Distinct (.float x)
  | text (t : Text) : Distinct (.text t)
  | moment (m : Moment) : Distinct (.moment m)
  | list {items : List Setting} (hitems : ∀ v ∈ items, Distinct v) : Distinct (.list items)
  | table {entries : List (Text × Setting)} (hkeys : (Table.keys entries).Nodup)
      (hentries : ∀ e ∈ entries, Distinct e.2) : Distinct (.table entries)

namespace Setting

variable {entries : List (Text × Setting)}

theorem distinct_table_iff : (Setting.table entries).Distinct ↔
    (Table.keys entries).Nodup ∧ ∀ e ∈ entries, e.2.Distinct := by
  constructor
  · rintro (_ | _ | _ | _ | _ | _ | _ | ⟨hkeys, hentries⟩)
    exact ⟨hkeys, hentries⟩
  · rintro ⟨hkeys, hentries⟩
    exact .table hkeys hentries

theorem distinct_list_iff {items : List Setting} :
    (Setting.list items).Distinct ↔ ∀ v ∈ items, v.Distinct := by
  constructor
  · rintro (_ | _ | _ | _ | _ | _ | hitems | _)
    exact hitems
  · exact .list

theorem distinct_empty : (Setting.table []).Distinct := .table List.nodup_nil (by simp)

theorem Distinct.put (h : (Setting.table entries).Distinct) (name : Text) {v : Setting}
    (hv : v.Distinct) : (Setting.table (Table.put name v entries)).Distinct := by
  obtain ⟨hkeys, hentries⟩ := distinct_table_iff.mp h
  refine .table (Table.nodup_keys_put name v hkeys) fun e he => ?_
  rcases Table.mem_put he with rfl | he
  · exact hv
  · exact hentries e he

theorem Distinct.get? (h : (Setting.table entries).Distinct) {name : Text} {v : Setting}
    (hv : Table.get? name entries = some v) : v.Distinct :=
  (distinct_table_iff.mp h).2 _ (Table.mem_of_get? hv)

end Setting

namespace Toml

/-! ## 2. Changes -/

theorem distinct_addEntry {name : Text} {v : Setting} (hv : v.Distinct)
    {es es' : List (Text × Setting)} (h : (Setting.table es).Distinct)
    (hadd : addEntry name v es = some es') : (Setting.table es').Distinct := by
  unfold addEntry at hadd
  split at hadd
  · cases hadd
  · cases hadd
    exact h.put name hv

/-- A change deep inside keeps to distinct names if it does so where it is made. -/
theorem distinct_changeAt {throughLists : Bool}
    {f : List (Text × Setting) → Option (List (Text × Setting))}
    (hf : ∀ es es', (Setting.table es).Distinct → f es = some es' → (Setting.table es').Distinct)
    {ks : List Text} {es es' : List (Text × Setting)} (h : (Setting.table es).Distinct)
    (hchange : changeAt throughLists f ks es = some es') : (Setting.table es').Distinct := by
  induction ks generalizing es es' with
  | nil => exact hf es es' h hchange
  | cons k ks ih =>
    rw [changeAt] at hchange
    split at hchange
    · obtain ⟨inner, hinner, rfl⟩ := Option.map_eq_some_iff.mp hchange
      exact h.put k (ih Setting.distinct_empty hinner)
    · rename_i old hold
      obtain ⟨inner, hinner, rfl⟩ := Option.map_eq_some_iff.mp hchange
      exact h.put k (ih (h.get? hold) hinner)
    · rename_i items hitems
      split at hchange
      · rename_i old hlast
        obtain ⟨inner, hinner, rfl⟩ := Option.map_eq_some_iff.mp hchange
        have hall := Setting.distinct_list_iff.mp (h.get? hitems)
        have hold : (Setting.table old).Distinct := hall _ (List.mem_of_getLast? hlast)
        refine h.put k (.list fun v hv => ?_)
        rcases List.mem_append.mp hv with hv | hv
        · exact hall v (List.dropLast_subset items hv)
        · rw [List.mem_singleton.mp hv]
          exact ih hold hinner
      · cases hchange
    · cases hchange

/-! ## 3. Values -/

section

variable {t rest : Text} {v : Setting}

theorem distinct_of_moment? (h : moment? t = some (.ok v, rest)) : v.Distinct := by
  unfold moment? at h
  split at h
  · simp only [Option.some.injEq, Prod.mk.injEq] at h
    obtain ⟨h, -⟩ := h
    split at h
    · cases h
      exact .moment _
    · cases h
  · obtain ⟨tail, -, h⟩ := Option.map_eq_some_iff.mp h
    cases h
    exact .moment _

theorem distinct_of_basedNumber? (h : basedNumber? t = some (v, rest)) : v.Distinct := by
  unfold basedNumber? at h
  split at h
  · split at h
    · cases h
    · split at h
      · cases h
      · cases h
        exact .int _
  · cases h

theorem distinct_of_decimalNumber? (h : decimalNumber? t = some (.ok v, rest)) :
    v.Distinct := by
  unfold decimalNumber? at h
  dsimp only at h
  split at h
  · cases h
  · split at h
    · split at h
      · split at h
        · cases h
        · cases h
          exact .int _
      · cases h
        exact .float _
    · cases h
      exact .float _

theorem distinct_of_namedNumber? (h : namedNumber? t = some (v, rest)) : v.Distinct := by
  unfold namedNumber? at h
  dsimp only at h
  split at h
  · cases h
    exact .float _
  · split at h
    · cases h
      exact .float _
    · cases h

theorem distinct_scalar (h : scalar t = .ok (v, rest)) : v.Distinct := by
  unfold scalar at h
  split at h
  · rename_i r tail hmoment
    obtain ⟨w, rfl, heq⟩ := map_eq_ok_iff.mp h
    cases heq
    exact distinct_of_moment? hmoment
  split at h
  · rename_i found hbased
    cases h
    exact distinct_of_basedNumber? hbased
  split at h
  · rename_i r tail hdecimal
    obtain ⟨w, rfl, heq⟩ := map_eq_ok_iff.mp h
    cases heq
    exact distinct_of_decimalNumber? hdecimal
  split at h
  · rename_i found hnamed
    cases h
    exact distinct_of_namedNumber? hnamed
  · cases h

end

theorem distinct_addInline {closed : List (List Text)} {k : List Text} {v : Setting}
    (hv : v.Distinct) {es es' : List (Text × Setting)} (h : (Setting.table es).Distinct)
    (hadd : addInline closed k v es = some es') : (Setting.table es').Distinct := by
  unfold addInline at hadd
  split at hadd
  · cases hadd
  · exact distinct_changeAt (fun _ _ => distinct_addEntry hv) h hadd

section

variable {fuel room : Nat} {t rest : Text}
  (value_ : ∀ room t v rest, value fuel room t = .ok (v, rest) → v.Distinct)
  (items_ : ∀ room t vs rest, items fuel room t = .ok (vs, rest) → ∀ v ∈ vs, v.Distinct)
  (entries_ : ∀ room closed es t es' rest, (Setting.table es).Distinct →
    entries fuel room closed es t = .ok (es', rest) → (Setting.table es').Distinct)

include items_ entries_ in
theorem distinct_value_succ {v : Setting} (h : value (fuel + 1) room t = .ok (v, rest)) :
    v.Distinct := by
  unfold value at h
  split at h
  · cases h
  split at h
  · obtain ⟨x, -, heq⟩ := map_eq_ok_iff.mp h
    cases heq
    exact .text _
  split at h
  · cases h
    exact .flag _
  split at h
  · cases h
    exact .flag _
  split at h
  · split at h
    · cases h
    · obtain ⟨x, hitems, heq⟩ := map_eq_ok_iff.mp h
      cases heq
      exact .list (items_ _ _ _ _ hitems)
  split at h
  · split at h
    · cases h
    split at h
    · cases h
      exact Setting.distinct_empty
    · obtain ⟨x, hentries, heq⟩ := map_eq_ok_iff.mp h
      cases heq
      exact entries_ _ _ _ _ _ _ Setting.distinct_empty hentries
  · exact distinct_scalar h

include value_ items_ in
theorem distinct_items_succ {vs : List Setting} (h : items (fuel + 1) room t = .ok (vs, rest)) :
    ∀ v ∈ vs, v.Distinct := by
  unfold items at h
  split at h
  · cases h
  · cases h
    simp
  · split at h
    · cases h
    · rename_i v after hv
      have hfirst : v.Distinct := value_ _ _ _ _ hv
      split at h
      · cases h
      · cases h
        simpa using hfirst
      · obtain ⟨x, hmore, heq⟩ := map_eq_ok_iff.mp h
        cases heq
        exact List.forall_mem_cons.mpr ⟨hfirst, items_ _ _ _ _ hmore⟩
      · cases h

include value_ entries_ in
theorem distinct_entries_succ {closed : List (List Text)} {es es' : List (Text × Setting)}
    (hes : (Setting.table es).Distinct)
    (h : entries (fuel + 1) room closed es t = .ok (es', rest)) :
    (Setting.table es').Distinct := by
  unfold entries at h
  split at h
  · cases h
  · split at h
    · cases h
    · rename_i v after hv
      split at h
      · cases h
      · rename_i added hadd
        have hadded := distinct_addInline (value_ _ _ _ _ hv) hes hadd
        split at h
        · cases h
          exact hadded
        · exact entries_ _ _ _ _ _ _ hadded h
        · cases h
  · cases h

end

/-- Values are made of values, and so the fuel is what the induction is on. -/
theorem distinct_readers (fuel : Nat) :
    (∀ room t v rest, value fuel room t = .ok (v, rest) → v.Distinct) ∧
      (∀ room t vs rest, items fuel room t = .ok (vs, rest) → ∀ v ∈ vs, v.Distinct) ∧
      ∀ room closed es t es' rest, (Setting.table es).Distinct →
        entries fuel room closed es t = .ok (es', rest) → (Setting.table es').Distinct := by
  induction fuel with
  | zero =>
    refine ⟨fun _ _ _ _ h => ?_, fun _ _ _ _ h => ?_, fun _ _ _ _ _ _ _ h => ?_⟩ <;> cases h
  | succ fuel ih =>
    obtain ⟨hvalue, hitems, hentries⟩ := ih
    exact ⟨fun _ _ _ _ => distinct_value_succ hitems hentries,
      fun _ _ _ _ => distinct_items_succ hvalue hitems,
      fun _ _ _ _ _ _ => distinct_entries_succ hvalue hentries⟩

theorem distinct_value {fuel room : Nat} {t rest : Text} {v : Setting}
    (h : value fuel room t = .ok (v, rest)) : v.Distinct :=
  (distinct_readers fuel).1 room t v rest h

/-! ## 4. Documents -/

/-- A statement whose value, if it has one, names nothing twice. -/
def Statement.Distinct : Statement → Prop
  | .pair _ v => v.Distinct
  | .tableHeader _ => True
  | .itemHeader _ => True

theorem distinct_statement {t rest : Text} {s : Statement} (h : statement t = .ok (s, rest)) :
    s.Distinct := by
  unfold statement at h
  dsimp only at h
  split at h
  · split at h
    · cases h
    · cases h
      trivial
    · cases h
  · split at h
    · cases h
    · cases h
      trivial
    · cases h
  · split at h
    · cases h
    · obtain ⟨x, hvalue, heq⟩ := map_eq_ok_iff.mp h
      cases heq
      exact distinct_value hvalue
    · cases h

theorem distinct_statements (fuel : Nat) (t : Text) :
    ∀ s ∈ (statements fuel t).1, s.Distinct := by
  induction fuel generalizing t with
  | zero => simp [statements]
  | succ fuel ih =>
    unfold statements
    split
    · simp
    · exact ih _
    · split
      · simp
      · exact ih _
    · split
      · simp
      · rename_i s rest hs
        have hfirst : s.Distinct := distinct_statement hs
        split
        · simpa using hfirst
        · exact List.forall_mem_cons.mpr ⟨hfirst, ih _⟩

namespace Document

theorem distinct_apply {d d' : Document} {s : Statement} (hs : s.Distinct)
    (hd : (Setting.table d.entries).Distinct) (h : d.apply s = some d') :
    (Setting.table d'.entries).Distinct := by
  cases s with
  | pair k v =>
    simp only [apply] at h
    split at h
    · cases h
    split at h
    · cases h
    · obtain ⟨es, hes, rfl⟩ := Option.map_eq_some_iff.mp h
      exact distinct_changeAt (fun _ _ => distinct_addEntry hs) hd hes
  | tableHeader k =>
    simp only [apply] at h
    split at h
    · cases h
    · obtain ⟨es, hes, rfl⟩ := Option.map_eq_some_iff.mp h
      refine distinct_changeAt (fun es es' hold hnew => ?_) hd hes
      cases hnew
      exact hold
  | itemHeader k =>
    simp only [apply] at h
    split at h
    · cases h
    · obtain ⟨es, hes, rfl⟩ := Option.map_eq_some_iff.mp h
      refine distinct_changeAt (fun es es' hold hnew => ?_) hd hes
      split at hnew
      · cases hnew
        exact hold.put _ (.list (by simpa using Setting.distinct_empty))
      · rename_i items hitems
        cases hnew
        have hall := Setting.distinct_list_iff.mp (hold.get? hitems)
        refine hold.put _ (.list fun v hv => ?_)
        rcases List.mem_append.mp hv with hv | hv
        · exact hall v hv
        · rw [List.mem_singleton.mp hv]
          exact Setting.distinct_empty
      · cases hnew

theorem distinct_applyAll {d d' : Document} {ss : List Statement}
    (hss : ∀ s ∈ ss, s.Distinct) (hd : (Setting.table d.entries).Distinct)
    (h : d.applyAll ss = some d') : (Setting.table d'.entries).Distinct := by
  induction ss generalizing d with
  | nil =>
    cases h
    exact hd
  | cons s ss ih =>
    rw [applyAll] at h
    split at h
    · cases h
    · rename_i next hnext
      exact ih (fun x hx => hss x (List.mem_cons_of_mem s hx))
        (distinct_apply (hss s (List.mem_cons_self ..)) hd hnext) h

end Document

/-- The table of a text names nothing twice, on any level. -/
theorem distinct_read {t : Text} {data : List (Text × Setting)} (h : read t = .ok data) :
    (Setting.table data).Distinct := by
  unfold read at h
  dsimp only at h
  split at h
  · cases h
  · cases h
  · rename_i d hd _
    cases h
    exact Document.distinct_applyAll (distinct_statements _ t) Setting.distinct_empty hd

end Toml

end LineTrace
