/-
LineTrace.Proofs.FileSystem.Files — what becomes of a file while others come and
go.

A path is looked up along directories, so two file systems in which the same
places are directories lead every path to the same place. `Keeps` says that no
directory is lost, which is what making and filling files does, and then a path
that means a place goes on meaning it (`Keeps.locate`). `SameTree` says that only
contents differ, and then everything that can be asked without reading is answered
alike (`SameTree.isFile`).

A temporary file stands at a place whose last component is its own name
(`makeTemporary_cases`). Files whose names start differently therefore never
stand at one place, whatever their directories are.
-/
import LineTrace.FileSystem.Basic
import LineTrace.Proofs.Table
import LineTrace.Proofs.Text.Numerals
import LineTrace.Proofs.Text.Splitting

namespace LineTrace

/-! ## 1. Joined paths -/

namespace Path

theorem components_append_slash (p q : Text) :
    components (p ++ slash :: q) = components p ++ components q := by
  rw [components, Text.splitAt1_append_cons, List.filter_append]
  rfl

/-- A name is a component of its own. -/
structure IsName (t : Text) : Prop where
  slash_notMem : slash ∉ t
  ne_nil : t ≠ []
  ne_dot : t ≠ [46]
  ne_dotDot : t ≠ dotDot

theorem isName_of_length {t : Text} (hslash : slash ∉ t) (hlength : 2 < t.length) : IsName t := by
  refine ⟨hslash, ?_, ?_, ?_⟩ <;> rintro rfl <;> exact absurd hlength (by decide)

theorem IsName.components {t : Text} (h : IsName t) : components t = [t] := by
  rw [Path.components, Text.splitAt1_of_not_mem h.slash_notMem]
  simp [h.ne_nil, h.ne_dot]

/-- A path that is seen from a directory keeps its components behind those of the
directory, if these count. -/
theorem exists_components_join (d p : Text) :
    ∃ front, components (join d p) = front ++ components p := by
  rw [join]
  split
  · exact ⟨[], rfl⟩
  · split
    · rename_i h
      rcases h with rfl | hlast
      · exact ⟨[], rfl⟩
      · obtain ⟨front, rfl⟩ := List.getLast?_eq_some_iff.mp hlast
        refine ⟨components front, ?_⟩
        rw [List.append_assoc, List.singleton_append, components_append_slash]
    · exact ⟨components d, components_append_slash d p⟩

/-- A joined path ends with the path that was joined. -/
theorem exists_join_eq_append (d p : Text) : ∃ front, join d p = front ++ p := by
  rw [join]
  split
  · exact ⟨[], rfl⟩
  · split
    · exact ⟨d, rfl⟩
    · exact ⟨d ++ [slash], by simp⟩

end Path

/-- Whether a node is a directory. -/
def Node.isDirectory : Node → Bool
  | .file _ _ => false
  | .directory => true

namespace FileSystem

variable {fs a b : FileSystem} {p : Text} {l m : Location}

/-! ## 2. Places -/

theorem nodeAt_setNode (fs : FileSystem) (l m : Location) (n : Node) :
    (fs.setNode l n).nodeAt m =
      if m = [] then some .directory else if l = m then some n else fs.nodeAt m := by
  rw [nodeAt, setNode]
  split
  · rfl
  · rename_i hm
    rw [Table.get?_put, nodeAt, if_neg hm]

theorem nodeAt_unsetNode (fs : FileSystem) (l m : Location) :
    (fs.unsetNode l).nodeAt m =
      if m = [] then some .directory else if l = m then none else fs.nodeAt m := by
  rw [nodeAt, unsetNode]
  split
  · rfl
  · rename_i hm
    rw [Table.get?_erase, nodeAt, if_neg hm]

/-- Below the root a change of one node is a change of that node only. -/
theorem nodeAt_setNode_of_ne_nil (hl : l ≠ []) (fs : FileSystem) (m : Location) (n : Node) :
    (fs.setNode l n).nodeAt m = if m = l then some n else fs.nodeAt m := by
  rw [nodeAt_setNode]
  by_cases hm : m = []
  · rw [if_pos hm, if_neg (by rw [hm]; exact Ne.symm hl), nodeAt, if_pos hm]
  · rw [if_neg hm]
    simp only [eq_comm]

theorem nodeAt_unsetNode_of_ne_nil (hl : l ≠ []) (fs : FileSystem) (m : Location) :
    (fs.unsetNode l).nodeAt m = if m = l then none else fs.nodeAt m := by
  rw [nodeAt_unsetNode]
  by_cases hm : m = []
  · rw [if_pos hm, if_neg (by rw [hm]; exact Ne.symm hl), nodeAt, if_pos hm]
  · rw [if_neg hm]
    simp only [eq_comm]

/-- What a path has to be to mean any place. -/
def Nameable (p : Text) : Prop :=
  p ≠ [] ∧ 0 ∉ p ∧ ∃ bytes, Text.encode .utf8Escaped p = .ok bytes ∧ bytes.length < pathLimit

theorem locate_eq_ok_iff :
    fs.locate p = .ok l ↔
      Nameable p ∧ fs.walk [] (Path.components (Path.join fs.cwd p)) = .ok l ∧
        ∀ content mode, fs.nodeAt l = some (.file content mode) → asksDirectory p = false := by
  unfold locate
  split
  · rename_i hp
    simp [Nameable, hp]
  · rename_i hne
    split
    · rename_i hnull
      simp [Nameable, hnull]
    · rename_i hnull
      cases henc : Text.encode .utf8Escaped p with
      | error e => simp [Nameable, henc]
      | ok bytes =>
        by_cases hlong : pathLimit ≤ bytes.length
        · have hname : ¬ Nameable p := by
            rintro ⟨-, -, bytes', hbytes, hlt⟩
            rw [henc] at hbytes
            cases hbytes
            omega
          simp [hlong, hname]
        · have hname : Nameable p := ⟨hne, hnull, bytes, henc, Nat.not_le.mp hlong⟩
          simp only [if_neg hlong, hname, true_and]
          cases hwalk : fs.walk [] (Path.components (Path.join fs.cwd p)) with
          | error e => simp
          | ok place =>
            dsimp only
            constructor
            · intro h
              split at h
              · split at h
                · cases h
                · rename_i hask
                  cases h
                  exact ⟨rfl, fun _ _ _ => by simpa using hask⟩
              · rename_i hfile
                cases h
                exact ⟨rfl, fun content mode hnode => absurd hnode (hfile content mode)⟩
            · rintro ⟨h, hask⟩
              cases h
              split
              · rename_i hnode
                simp [hask _ _ hnode]
              · rfl

/-- The walk through one more component. -/
theorem walk_concat {here : Location} {cs : List Text} {c : Text} (hc : c ≠ Path.dotDot)
    (h : fs.walk here (cs ++ [c]) = .ok l) : ∃ above, l = c :: above := by
  induction cs generalizing here with
  | nil =>
    simp only [List.nil_append, walk, if_neg hc] at h
    split at h
    · cases h
    · cases h
    · split at h
      · cases h
      · cases h
        exact ⟨here, rfl⟩
  | cons c' cs ih =>
    simp only [List.cons_append, walk] at h
    split at h
    · cases h
    · cases h
    · split at h
      · exact ih h
      · split at h
        · cases h
        · exact ih h

/-! ## 3. Directories that stay -/

/-- No directory of the first file system is lost in the second. -/
structure Keeps (a b : FileSystem) : Prop where
  cwd : b.cwd = a.cwd
  directory : ∀ l, a.nodeAt l = some .directory → b.nodeAt l = some .directory

theorem Keeps.walk (h : Keeps a b) {here : Location} {cs : List Text}
    (hwalk : a.walk here cs = .ok l) : b.walk here cs = .ok l := by
  induction cs generalizing here with
  | nil => exact hwalk
  | cons c cs ih =>
    simp only [FileSystem.walk] at hwalk ⊢
    split at hwalk
    · cases hwalk
    · cases hwalk
    · rename_i hdir
      rw [h.directory here hdir]
      dsimp only
      split at hwalk
      · rename_i hc
        rw [if_pos hc]
        exact ih hwalk
      · rename_i hc
        rw [if_neg hc]
        split at hwalk
        · cases hwalk
        · exact ih hwalk

/-- A path that does not ask for a directory goes on meaning its place. -/
theorem Keeps.locate (h : Keeps a b) (hp : asksDirectory p = false) (hl : a.locate p = .ok l) :
    b.locate p = .ok l := by
  obtain ⟨hname, hwalk, -⟩ := locate_eq_ok_iff.mp hl
  exact locate_eq_ok_iff.mpr ⟨hname, by rw [h.cwd]; exact h.walk hwalk, fun _ _ _ => hp⟩

theorem keeps_setNode_file (hl : fs.nodeAt l ≠ some .directory) (content : Bytes) (mode : Nat) :
    Keeps fs (fs.setNode l (.file content mode)) := by
  refine ⟨rfl, fun m hm => ?_⟩
  rw [nodeAt_setNode]
  split
  · rfl
  · rw [if_neg (by rintro rfl; exact hl hm), hm]

theorem keeps_unsetNode (hl : fs.nodeAt l ≠ some .directory) : Keeps fs (fs.unsetNode l) := by
  refine ⟨rfl, fun m hm => ?_⟩
  rw [nodeAt_unsetNode]
  split
  · rfl
  · rw [if_neg (by rintro rfl; exact hl hm), hm]

/-! ## 4. Files in the same tree -/

/-- Both have nothing, a file or a directory at each place; the files may differ. -/
structure SameTree (a b : FileSystem) : Prop where
  cwd : b.cwd = a.cwd
  kind : ∀ l, (b.nodeAt l).map Node.isDirectory = (a.nodeAt l).map Node.isDirectory

theorem SameTree.symm (h : SameTree a b) : SameTree b a :=
  ⟨h.cwd.symm, fun l => (h.kind l).symm⟩

theorem SameTree.keeps (h : SameTree a b) : Keeps a b := by
  refine ⟨h.cwd, fun l hl => ?_⟩
  have hkind := h.kind l
  rw [hl] at hkind
  cases hb : b.nodeAt l with
  | none => simp [hb] at hkind
  | some n =>
    cases n with
    | file content mode => simp [hb, Node.isDirectory] at hkind
    | directory => rfl

theorem SameTree.exists_file (h : SameTree a b) {content : Bytes} {mode : Nat}
    (hl : a.nodeAt l = some (.file content mode)) :
    ∃ content' mode', b.nodeAt l = some (.file content' mode') := by
  have hkind := h.kind l
  rw [hl] at hkind
  cases hb : b.nodeAt l with
  | none => simp [hb] at hkind
  | some n =>
    cases n with
    | file content' mode' => exact ⟨content', mode', rfl⟩
    | directory => simp [hb, Node.isDirectory] at hkind

theorem SameTree.locate (h : SameTree a b) (hl : a.locate p = .ok l) : b.locate p = .ok l := by
  obtain ⟨hname, hwalk, hask⟩ := locate_eq_ok_iff.mp hl
  refine locate_eq_ok_iff.mpr ⟨hname, by rw [h.cwd]; exact h.keeps.walk hwalk, ?_⟩
  intro content mode hnode
  obtain ⟨content', mode', hfile⟩ := h.symm.exists_file hnode
  exact hask content' mode' hfile

/-- A path means a place where a file with this content stands. -/
structure StandsAt (fs : FileSystem) (p : Text) (l : Location) (content : Bytes) : Prop where
  locate : fs.locate p = .ok l
  node : ∃ mode, fs.nodeAt l = some (.file content mode)

theorem isFile_iff : fs.isFile p = true ↔ ∃ l content, fs.StandsAt p l content := by
  rw [FileSystem.isFile, FileSystem.node]
  constructor
  · intro h
    cases hl : fs.locate p with
    | error e => simp [hl] at h
    | ok l =>
      cases hnode : fs.nodeAt l with
      | none => simp [hl, hnode] at h
      | some n =>
        cases n with
        | file content mode => exact ⟨l, content, hl, mode, hnode⟩
        | directory => simp [hl, hnode] at h
  · rintro ⟨l, content, hl, mode, hnode⟩
    simp [hl, hnode]

/-- Whether a file stands at a path does not depend on what the files hold. -/
theorem SameTree.isFile (h : SameTree a b) : b.isFile = a.isFile := by
  have hle : ∀ {a b : FileSystem}, SameTree a b → ∀ p, a.isFile p = true → b.isFile p = true := by
    intro a b h p hp
    obtain ⟨l, content, hl, mode, hnode⟩ := isFile_iff.mp hp
    obtain ⟨content', mode', hfile⟩ := h.exists_file hnode
    exact isFile_iff.mpr ⟨l, content', h.locate hl, mode', hfile⟩
  funext p
  exact Bool.eq_iff_iff.mpr ⟨hle h.symm p, hle h p⟩

/-! ## 5. Changing a file -/

section Changes

variable {content more : Bytes} {q : Text}

theorem StandsAt.ne_nil (h : fs.StandsAt p l content) : l ≠ [] := by
  obtain ⟨mode, hnode⟩ := h.node
  rintro rfl
  rw [nodeAt, if_pos rfl] at hnode
  cases hnode

theorem StandsAt.bytesOf (h : fs.StandsAt p l content) : fs.bytesOf p = .ok content := by
  obtain ⟨mode, hnode⟩ := h.node
  rw [FileSystem.bytesOf, FileSystem.node, h.locate]
  simp only [hnode]

/-- Appending changes the file that the path means, or nothing. -/
theorem appendFile_cases (fs : FileSystem) (p : Text) (more : Bytes) :
    fs.appendFile p more = fs ∨ ∃ l content mode, fs.locate p = .ok l ∧
      fs.nodeAt l = some (.file content mode) ∧
      fs.appendFile p more = fs.setNode l (.file (content ++ more) mode) := by
  rw [appendFile]
  cases hl : fs.locate p with
  | error e => exact .inl rfl
  | ok l =>
    dsimp only
    cases hnode : fs.nodeAt l with
    | none => exact .inl rfl
    | some n =>
      cases n with
      | file content mode => exact .inr ⟨l, content, mode, rfl, hnode, rfl⟩
      | directory => exact .inl rfl

theorem sameTree_appendFile (fs : FileSystem) (p : Text) (more : Bytes) :
    SameTree fs (fs.appendFile p more) := by
  rcases appendFile_cases fs p more with h | ⟨l, content, mode, -, hnode, h⟩
  · rw [h]
    exact ⟨rfl, fun _ => rfl⟩
  · rw [h]
    refine ⟨rfl, fun m => ?_⟩
    rw [nodeAt_setNode]
    split
    · rename_i hm
      rw [hm, nodeAt, if_pos rfl]
    · split
      · rename_i hm
        rw [← hm, hnode]
        rfl
      · rfl

/-- A file stays as it is where another one is appended to. -/
theorem StandsAt.appendFile_other (h : fs.StandsAt p l content)
    (hq : ∀ m, fs.locate q = .ok m → m ≠ l) : (fs.appendFile q more).StandsAt p l content := by
  refine ⟨(sameTree_appendFile fs q more).locate h.locate, ?_⟩
  obtain ⟨mode, hnode⟩ := h.node
  rcases appendFile_cases fs q more with hsame | ⟨m, old, mode', hm, -, happend⟩
  · exact ⟨mode, by rw [hsame, hnode]⟩
  · exact ⟨mode, by rw [happend, nodeAt_setNode, if_neg h.ne_nil, if_neg (hq m hm), hnode]⟩

end Changes

/-! ## 6. Temporary files -/

theorem slash_notMem_serialText (n : Nat) : Path.slash ∉ serialText n := by
  intro h
  rw [serialText, Text.padLeft, List.mem_append] at h
  rcases h with h | h
  · exact absurd (List.eq_of_mem_replicate h) (by decide)
  · exact absurd (Text.isDigit_of_mem_ofNat h) (by decide)

/-- A file can be put where no directory is and one is above. -/
theorem filePlace_eq_ok_iff :
    fs.filePlace p = .ok l ↔ fs.locate p = .ok l ∧ fs.nodeAt l ≠ some .directory ∧
      (fs.nodeAt l = none → fs.nodeAt l.tail = some .directory) := by
  rw [filePlace]
  cases hl : fs.locate p with
  | error e => simp
  | ok m =>
    dsimp only
    rw [Except.ok.injEq]
    by_cases hml : m = l
    · subst hml
      cases hnode : fs.nodeAt m with
      | none =>
        cases habove : fs.nodeAt m.tail with
        | none => simp
        | some node => cases node <;> simp
      | some node => cases node <;> simp
    · refine iff_of_false ?_ fun h => hml h.1
      split
      · exact fun h => nomatch h
      · exact fun h => hml (Except.ok.inj h)
      · split
        · exact fun h => hml (Except.ok.inj h)
        · exact fun h => nomatch h
        · exact fun h => nomatch h

theorem filePlace_eq_ok (h : fs.filePlace p = .ok l) :
    fs.locate p = .ok l ∧ fs.nodeAt l ≠ some .directory :=
  ⟨(filePlace_eq_ok_iff.mp h).1, (filePlace_eq_ok_iff.mp h).2.1⟩

/-- A path that ends neither with a slash nor with a dot asks for no directory. -/
theorem asksDirectory_concat (front : Text) {c : CodePoint} (h : c ≠ 47 ∧ c ≠ 46) :
    asksDirectory (front ++ [c]) = false := by
  simp [asksDirectory, h.1, h.2]

/-- The place of a joined name ends with the name. -/
theorem head?_of_locate_join {d name : Text} (hname : Path.IsName name)
    (h : fs.locate (Path.join d name) = .ok l) : l.head? = some name := by
  obtain ⟨-, hwalk, -⟩ := locate_eq_ok_iff.mp h
  obtain ⟨front, hfront⟩ := Path.exists_components_join fs.cwd (Path.join d name)
  obtain ⟨front', hfront'⟩ := Path.exists_components_join d name
  rw [hfront, hfront', hname.components, ← List.append_assoc] at hwalk
  obtain ⟨above, rfl⟩ := walk_concat hname.ne_dotDot hwalk
  rfl

theorem eight_le_length_serialText (n : Nat) : 8 ≤ (serialText n).length := by
  rw [serialText, Text.padLeft, List.length_append, List.length_replicate]
  omega

theorem isName_temporary {before after : Text} (hbefore : Path.slash ∉ before)
    (hafter : Path.slash ∉ after) (n : Nat) : Path.IsName (before ++ serialText n ++ after) := by
  refine Path.isName_of_length ?_ ?_
  · simp [hbefore, hafter, slash_notMem_serialText]
  · have hserial := eight_le_length_serialText n
    simp only [List.length_append]
    omega

/-- Making a temporary file puts an empty file at a place that ends with its own
name; the path of it asks for no directory. -/
theorem makeTemporary_cases {directory before after : Text} {fs' : FileSystem} {path : Text}
    (hbefore : Path.slash ∉ before) (hafter : Path.slash ∉ after)
    (hlast : ∃ c, after.getLast? = some c ∧ c ≠ 47 ∧ c ≠ 46)
    (h : fs.makeTemporary directory before after = .ok (fs', path)) :
    ∃ n l, n = fs.freeSerial (fun n => Path.join (Path.absolute fs.cwd directory)
        (before ++ serialText n ++ after)) (fs.nodes.length + 1) fs.serial ∧
      path = Path.join (Path.absolute fs.cwd directory) (before ++ serialText n ++ after) ∧
      fs.filePlace path = .ok l ∧ l.head? = some (before ++ serialText n ++ after) ∧
      asksDirectory path = false ∧
      fs' = { fs.setNode l (.file [] 0o600) with serial := n + 1 } := by
  unfold makeTemporary at h
  extract_lets name n at h
  split at h
  · cases h
  · rename_i l hplace
    obtain ⟨rfl, rfl⟩ := Prod.mk.inj (Except.ok.inj h)
    obtain ⟨hlocate, -⟩ := filePlace_eq_ok hplace
    have hhead := head?_of_locate_join (isName_temporary hbefore hafter n) hlocate
    refine ⟨n, l, rfl, rfl, hplace, hhead, ?_, rfl⟩
    obtain ⟨front, hfront⟩ := Path.exists_join_eq_append (Path.absolute fs.cwd directory)
      (before ++ serialText n ++ after)
    obtain ⟨c, hc, hletter⟩ := hlast
    obtain ⟨rest, rfl⟩ := List.getLast?_eq_some_iff.mp hc
    rw [show name n = _ from hfront, ← List.append_assoc, ← List.append_assoc]
    exact asksDirectory_concat _ hletter

end FileSystem

end LineTrace
