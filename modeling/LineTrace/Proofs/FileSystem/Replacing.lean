/-
LineTrace.Proofs.FileSystem.Replacing — a new file that takes the place of another.

The name of a temporary file is free. The search for it tries one serial number
more than there are nodes, and files of different serial numbers stand at different
places (`serialText_injective`, `head?_of_locate_join`), so they cannot all be there
already (`exists_free`). It is this that makes a clean-up exact: where the temporary
file was there was nothing before (`makeTemporary_new`), so once it is gone
everything is as it was.

`IsNew` is what is known of the temporary file from then on, and each operation on
it is told by what stands at every place afterwards.
-/
import LineTrace.Proofs.FileSystem.Files
import Mathlib.Data.List.Nodup
import Mathlib.Data.List.Perm.Subperm

namespace LineTrace

/-! ## 1. Tidy paths -/

namespace Path

theorem of_mem_components {p c : Text} (h : c ∈ components p) :
    slash ∉ c ∧ c ≠ [] ∧ c ≠ [46] := by
  obtain ⟨hpart, hkeep⟩ := List.mem_filter.mp h
  have hne : c ≠ [] ∧ c ≠ [46] := by simpa using hkeep
  exact ⟨Text.notMem_of_mem_splitAt1 hpart, hne⟩

/-- A last component that says something is no slash and no dot behind one. -/
theorem asksDirectory_append {front c : Text} (hslash : slash ∉ c) (hne : c ≠ [])
    (hdot : c ≠ [46]) : FileSystem.asksDirectory (front ++ c) = false := by
  rcases List.eq_nil_or_concat c with rfl | ⟨before, last, rfl⟩
  · exact absurd rfl hne
  have hlast : last ≠ 47 := by
    rintro rfl
    exact hslash (by simp [slash])
  by_cases h46 : last = 46
  · subst h46
    rcases List.eq_nil_or_concat before with rfl | ⟨rest, letter, rfl⟩
    · exact absurd rfl hdot
    · have hletter : letter ≠ 47 := by
        rintro rfl
        exact hslash (by simp [slash])
      simp [FileSystem.asksDirectory, hletter]
  · simp [FileSystem.asksDirectory, hlast, h46]

theorem exists_joinWith_eq_append {parts : List Text} {last : Text}
    (h : parts.getLast? = some last) : ∃ front, Text.joinWith [slash] parts = front ++ last := by
  induction parts with
  | nil => cases h
  | cons part parts ih =>
    cases parts with
    | nil =>
      cases h
      exact ⟨[], rfl⟩
    | cons next parts =>
      obtain ⟨front, hfront⟩ := ih (by simpa using h)
      refine ⟨part ++ [slash] ++ front, ?_⟩
      rw [Text.joinWith, hfront, ← List.append_assoc]
      simp

/-- A path asked for as a directory that has no components is a root. -/
theorem components_join_of_asksDirectory {p : Text} (d : Text)
    (h : FileSystem.asksDirectory (tidy p) = true) (hnil : components p = []) :
    components (join d (tidy p)) = [] := by
  have hslashes : rootSlashes p = 0 ∨ rootSlashes p = 2 ∨ rootSlashes p = 1 := by
    unfold rootSlashes
    split <;> simp
  rw [tidy, hnil] at h ⊢
  rcases hslashes with h0 | h2 | h1
  · rw [h0] at h
    exact absurd h (by decide)
  · rw [h2]
    rfl
  · rw [h1]
    rfl

/-- A tidy path asks for a directory only where it has no components. -/
theorem components_eq_nil_of_asksDirectory {p : Text}
    (h : FileSystem.asksDirectory (tidy p) = true) : components p = [] := by
  cases hlast : (components p).getLast? with
  | none => exact List.getLast?_eq_none_iff.mp hlast
  | some last =>
    obtain ⟨hslash, hne, hdot⟩ := of_mem_components (List.mem_of_getLast? hlast)
    obtain ⟨front, hfront⟩ := exists_joinWith_eq_append hlast
    have htidy : tidy p = List.replicate (rootSlashes p) slash ++ front ++ last := by
      rw [tidy, assemble, hfront, List.append_assoc]
      split
      · rename_i hnil
        simp [hne] at hnil
      · rfl
    rw [htidy, asksDirectory_append hslash hne hdot] at h
    cases h

end Path

namespace FileSystem

open LineTrace.Path

variable {fs : FileSystem}

/-! ## 2. Free names -/

/-- The serial number can be read off its text. -/
theorem decimalValue_serialText (n : Nat) :
    Text.decimalValue ((serialText n).map (· - 48)) = n := by
  rw [serialText, Text.padLeft, List.map_append, List.map_replicate, Text.decimalValue_zeros_append,
    Text.decimalValue_ofNat]

theorem serialText_injective {m n : Nat} (h : serialText m = serialText n) : m = n := by
  rw [← decimalValue_serialText m, h, decimalValue_serialText]

theorem nodeAt_of_pathExists {p : Text} (h : fs.pathExists p = true) :
    ∃ l, fs.locate p = .ok l ∧ (fs.nodeAt l).isSome := by
  rw [pathExists, node] at h
  cases hl : fs.locate p with
  | error e => simp [hl, Except.isOk, Except.toBool] at h
  | ok l =>
    refine ⟨l, rfl, ?_⟩
    cases hnode : fs.nodeAt l with
    | none => simp [hl, hnode, Except.isOk, Except.toBool] at h
    | some n => rfl

/-- Of names that mean different places, one more than there are nodes, one is
free. -/
theorem exists_free {name : Nat → Text} {label : Nat → Text}
    (hlabel : ∀ n l, fs.locate (name n) = .ok l → l.head? = some (label n))
    (hinj : ∀ m n, label m = label n → m = n) (start : Nat) :
    ∃ i < fs.nodes.length + 1, fs.pathExists (name (start + i)) = false := by
  by_contra hall
  have hexists : ∀ i, ∃ l : Location, i < fs.nodes.length + 1 →
      l ∈ fs.nodes.keys ∧ l.head? = some (label (start + i)) := by
    intro i
    by_cases hi : i < fs.nodes.length + 1
    · have htaken : fs.pathExists (name (start + i)) = true := by
        by_contra hfree
        exact hall ⟨i, hi, Bool.eq_false_iff.mpr hfree⟩
      obtain ⟨l, hl, hnode⟩ := nodeAt_of_pathExists htaken
      have hhead := hlabel _ l hl
      have hne : l ≠ [] := by
        rintro rfl
        cases hhead
      rw [nodeAt, if_neg hne, Table.isSome_get?_iff] at hnode
      exact ⟨l, fun _ => ⟨hnode, hhead⟩⟩
    · exact ⟨[], fun hlt => absurd hlt hi⟩
  choose place hplace using hexists
  have hnodup : ((List.range (fs.nodes.length + 1)).map place).Nodup := by
    refine List.Nodup.map_on (fun i hi j hj hij => ?_) List.nodup_range
    have hheadi := (hplace i (List.mem_range.mp hi)).2
    have hheadj := (hplace j (List.mem_range.mp hj)).2
    rw [hij, hheadj, Option.some.injEq] at hheadi
    have hsum := hinj _ _ hheadi
    omega
  have hsubset : (List.range (fs.nodes.length + 1)).map place ⊆ fs.nodes.keys := by
    intro l hl
    obtain ⟨i, hi, rfl⟩ := List.mem_map.mp hl
    exact (hplace i (List.mem_range.mp hi)).1
  have hlength := (hnodup.subperm hsubset).length_le
  rw [List.length_map, List.length_range, Table.keys, List.length_map] at hlength
  omega

theorem pathExists_freeSerial (name : Nat → Text) {fuel start : Nat}
    (h : ∃ i < fuel, fs.pathExists (name (start + i)) = false) :
    fs.pathExists (name (fs.freeSerial name fuel start)) = false := by
  induction fuel generalizing start with
  | zero =>
    obtain ⟨i, hi, -⟩ := h
    exact absurd hi (Nat.not_lt_zero i)
  | succ fuel ih =>
    obtain ⟨i, hi, hfree⟩ := h
    rw [freeSerial]
    by_cases htaken : fs.pathExists (name start) = true
    · rw [if_pos htaken]
      cases i with
      | zero =>
        rw [Nat.add_zero, htaken] at hfree
        cases hfree
      | succ i => exact ih ⟨i, by omega, by rwa [Nat.add_assoc, Nat.add_comm 1]⟩
    · rw [if_neg htaken]
      exact Bool.eq_false_iff.mpr htaken

/-! ## 3. The temporary file -/

/-- A file has come to stand at a place where nothing was, and nothing else has
changed. -/
structure IsNew (before after : FileSystem) (path : Text) (l : Location) (content : Bytes) :
    Prop where
  nothing : before.nodeAt l = none
  locate : after.locate path = .ok l
  isFile : asksDirectory path = false
  keeps : Keeps before after
  node : ∀ m, after.nodeAt m = if m = l then some (.file content 0o600) else before.nodeAt m

/-- A temporary file is new, whatever was there before. -/
theorem makeTemporary_new {directory before after : Text} {fs' : FileSystem} {path : Text}
    (hbefore : slash ∉ before) (hafter : slash ∉ after)
    (hlast : ∃ c, after.getLast? = some c ∧ c ≠ 47 ∧ c ≠ 46)
    (h : fs.makeTemporary directory before after = .ok (fs', path)) :
    ∃ n l, l.head? = some (before ++ serialText n ++ after) ∧ IsNew fs fs' path l [] := by
  obtain ⟨n, l, hn, hpath, hplace, hhead, hfile, rfl⟩ := makeTemporary_cases hbefore hafter hlast h
  obtain ⟨hlocate, hnode⟩ := filePlace_eq_ok hplace
  have hfree : fs.pathExists path = false := by
    rw [hpath, hn]
    have hhead' : ∀ k m, fs.locate (join (absolute fs.cwd directory)
        (before ++ serialText k ++ after)) = .ok m →
        m.head? = some (before ++ serialText k ++ after) :=
      fun k m => head?_of_locate_join (isName_temporary hbefore hafter k)
    have hinj : ∀ i j, before ++ serialText i ++ after = before ++ serialText j ++ after → i = j :=
      fun i j hij => serialText_injective (List.append_cancel_left (List.append_cancel_right hij))
    exact pathExists_freeSerial (fun k => join (absolute fs.cwd directory)
      (before ++ serialText k ++ after)) (exists_free hhead' hinj fs.serial)
  have hnothing : fs.nodeAt l = none := by
    rw [pathExists, node, hlocate] at hfree
    cases hl : fs.nodeAt l with
    | none => rfl
    | some node => simp [hl, Except.isOk, Except.toBool] at hfree
  have hne : l ≠ [] := by
    rintro rfl
    exact hnode (if_pos rfl)
  have hkeeps : Keeps fs { fs.setNode l (.file [] 0o600) with serial := n + 1 } :=
    ⟨rfl, (keeps_setNode_file hnode [] 0o600).directory⟩
  exact ⟨n, l, hhead, hnothing, hkeeps.locate hfile hlocate, hfile, hkeeps, fun m =>
    nodeAt_setNode_of_ne_nil hne fs m _⟩

theorem IsNew.file {before after : FileSystem} {path : Text} {l : Location} {content : Bytes}
    (h : IsNew before after path l content) : after.nodeAt l = some (.file content 0o600) := by
  rw [h.node, if_pos rfl]

theorem IsNew.ne_nil {before after : FileSystem} {path : Text} {l : Location} {content : Bytes}
    (h : IsNew before after path l content) : l ≠ [] :=
  StandsAt.ne_nil ⟨h.locate, 0o600, h.file⟩

/-- What is written to it is added to its content. -/
theorem IsNew.appendFile {before after : FileSystem} {path : Text} {l : Location}
    {content : Bytes} (h : IsNew before after path l content) (more : Bytes) :
    IsNew before (after.appendFile path more) path l (content ++ more) := by
  have hsame := sameTree_appendFile after path more
  have happend : after.appendFile path more = after.setNode l (.file (content ++ more) 0o600) := by
    rw [FileSystem.appendFile, h.locate]
    simp only [h.file]
  refine ⟨h.nothing, hsame.locate h.locate, h.isFile, ?_, fun m => ?_⟩
  · exact ⟨hsame.cwd.trans h.keeps.cwd, fun d hd =>
      hsame.keeps.directory d (h.keeps.directory d hd)⟩
  · rw [happend, nodeAt_setNode_of_ne_nil h.ne_nil, h.node]
    split <;> rfl

/-- Taking it away leaves what there was. -/
theorem IsNew.remove {before after : FileSystem} {path : Text} {l : Location} {content : Bytes}
    (h : IsNew before after path l content) :
    ∃ fs', after.remove path = .ok fs' ∧ ∀ m, fs'.nodeAt m = before.nodeAt m := by
  refine ⟨after.unsetNode l, ?_, fun m => ?_⟩
  · rw [FileSystem.remove, h.locate]
    simp only [h.file]
  · rw [nodeAt_unsetNode_of_ne_nil h.ne_nil, h.node]
    by_cases hm : m = l
    · rw [if_pos hm, hm, h.nothing]
    · rw [if_neg hm, if_neg hm]

/-! ## 4. Taking a place -/

/-- A file has this content, and nothing else has changed. -/
structure IsWritten (before after : FileSystem) (path : Text) (l : Location) (content : Bytes) :
    Prop where
  stands : after.StandsAt path l content
  others : ∀ m, m ≠ l → after.nodeAt m = before.nodeAt m

/-- A place for a file is never asked for as a directory. -/
theorem filePlace_tidy {p : Text} {l : Location} (h : fs.filePlace (tidy p) = .ok l) :
    asksDirectory (tidy p) = false := by
  by_contra hask
  have hnil := components_eq_nil_of_asksDirectory (Bool.not_eq_false _ ▸ hask)
  obtain ⟨hlocate, hnode⟩ := filePlace_eq_ok h
  obtain ⟨-, hwalk, -⟩ := locate_eq_ok_iff.mp hlocate
  have hroot : components (join fs.cwd (tidy p)) = [] := by
    exact components_join_of_asksDirectory fs.cwd (by simpa using hask) hnil
  rw [hroot, walk] at hwalk
  cases hwalk
  exact hnode (if_pos rfl)

/-- Where a file could be put before, one can be put beside it. -/
theorem IsNew.filePlace {before after : FileSystem} {path : Text} {l m : Location}
    {content : Bytes} (h : IsNew before after path l content) {target : Text}
    (hplace : before.filePlace (tidy target) = .ok m) :
    after.filePlace (tidy target) = .ok m := by
  obtain ⟨hlocate, hnode, habove⟩ := filePlace_eq_ok_iff.mp hplace
  refine filePlace_eq_ok_iff.mpr ⟨h.keeps.locate (filePlace_tidy hplace) hlocate, ?_, fun hm => ?_⟩
  · rw [h.node]
    split
    · simp
    · exact hnode
  · rw [h.node] at hm
    split at hm
    · cases hm
    · exact h.keeps.directory _ (habove hm)

/-- It takes the place of the target, or nothing happens. -/
theorem IsNew.replace {before after : FileSystem} {path : Text} {l : Location} {content : Bytes}
    (h : IsNew before after path l content) (target : Text) :
    (∃ done m, after.replace path (tidy target) = .ok done ∧
      IsWritten before done (tidy target) m content) ∨
    ∃ e, after.replace path (tidy target) = .error e := by
  rw [FileSystem.replace, h.locate]
  simp only [h.file]
  cases hplace : after.filePlace (tidy target) with
  | error e => exact .inr ⟨_, rfl⟩
  | ok m =>
    obtain ⟨hlocate, hnode⟩ := filePlace_eq_ok hplace
    have hne : m ≠ [] := by
      rintro rfl
      exact hnode (if_pos rfl)
    have hl : after.nodeAt l ≠ some .directory := by
      rw [h.file]
      simp
    have hm : (after.unsetNode l).nodeAt m ≠ some .directory := by
      rw [nodeAt_unsetNode_of_ne_nil h.ne_nil]
      split
      · simp
      · exact hnode
    have hkeeps := keeps_setNode_file hm content 0o600
    refine .inl ⟨_, m, rfl, ⟨?_, 0o600, ?_⟩, fun k hk => ?_⟩
    · exact hkeeps.locate (filePlace_tidy hplace)
        ((keeps_unsetNode hl).locate (filePlace_tidy hplace) hlocate)
    · rw [nodeAt_setNode_of_ne_nil hne, if_pos rfl]
    · rw [nodeAt_setNode_of_ne_nil hne, if_neg hk, nodeAt_unsetNode_of_ne_nil h.ne_nil, h.node]
      by_cases hkl : k = l
      · rw [if_pos hkl, hkl, h.nothing]
      · rw [if_neg hkl, if_neg hkl]

end FileSystem

end LineTrace
