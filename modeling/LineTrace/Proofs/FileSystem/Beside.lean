/-
LineTrace.Proofs.FileSystem.Beside — files that are made beside others, and are
gone again.

A piece of work that makes files of its own, fills them and takes some of them
away has changed nothing else. `Beside` says this of the whole work at once: `made`
tells for each place whether a file was made there and what it holds now, if it is
still there. Each operation on such a file changes `made` at its place
(`Beside.make`, `Beside.appendFile`, `Beside.remove`), so a piece of work is followed
by following `made`.

No directory comes or goes, so a path that asks for none means the same place
throughout (`Beside.locate_iff`), and every file from before stands as it did
(`Beside.standsAt`).
-/
import LineTrace.Proofs.FileSystem.Replacing
import Mathlib.Logic.Function.Basic

namespace LineTrace.FileSystem

/-- Where files were made, and what each of them holds, if it is still there. -/
abbrev Made := Location → Option (Option Bytes)

/-- No file made. -/
def Made.nothing : Made := fun _ => none

/-- A path by which a file can be made at a place. -/
structure Names (fs : FileSystem) (path : Text) (l : Location) : Prop where
  locate : fs.locate path = .ok l
  isFile : asksDirectory path = false

/-- Where a file was made there was nothing before, and is that file now or nothing
again; every other place is as it was. -/
structure Beside (before after : FileSystem) (made : Made) : Prop where
  cwd : after.cwd = before.cwd
  nothing : ∀ l content, made l = some content → before.nodeAt l = none
  node : ∀ l, after.nodeAt l =
    match made l with
    | some content => content.map fun bytes => .file bytes 0o600
    | none => before.nodeAt l

theorem beside_nothing (fs : FileSystem) : Beside fs fs Made.nothing :=
  ⟨rfl, by simp [Made.nothing], fun _ => rfl⟩

/-- One new file, as `IsNew` tells of it. -/
theorem Beside.make {before middle after : FileSystem} {made : Made} {path : Text} {l : Location}
    {content : Bytes} (h : Beside before middle made) (hnew : IsNew middle after path l content) :
    Beside before after (Function.update made l (some (some content))) := by
  refine ⟨hnew.keeps.cwd.trans h.cwd, fun m c hm => ?_, fun m => ?_⟩
  · by_cases hml : m = l
    · subst hml
      have hnothing := hnew.nothing
      rw [h.node] at hnothing
      cases hmade : made m with
      | some c' => exact h.nothing m c' hmade
      | none => rwa [hmade] at hnothing
    · rw [Function.update_of_ne hml] at hm
      exact h.nothing m c hm
  · rw [hnew.node]
    by_cases hml : m = l
    · subst hml
      simp
    · rw [if_neg hml, h.node, Function.update_of_ne hml]

section

variable {before after : FileSystem} {made : Made} (h : Beside before after made)

include h

theorem Beside.directory_iff (l : Location) :
    after.nodeAt l = some .directory ↔ before.nodeAt l = some .directory := by
  rw [h.node]
  cases hmade : made l with
  | none => exact Iff.rfl
  | some content => cases content <;> simp [h.nothing l _ hmade]

theorem Beside.keeps : Keeps before after := ⟨h.cwd, fun l => (h.directory_iff l).mpr⟩

/-- A path that asks for no directory means the same place as before. -/
theorem Beside.locate_iff {path : Text} (hpath : asksDirectory path = false) {l : Location} :
    after.locate path = .ok l ↔ before.locate path = .ok l := by
  have hback : Keeps after before := ⟨h.cwd.symm, fun l => (h.directory_iff l).mp⟩
  exact ⟨hback.locate hpath, h.keeps.locate hpath⟩

/-- A file from before stands as it did. -/
theorem Beside.standsAt {path : Text} {l : Location} {content : Bytes}
    (hfile : before.StandsAt path l content) : after.StandsAt path l content := by
  obtain ⟨mode, hnode⟩ := hfile.node
  have hpath := (locate_eq_ok_iff.mp hfile.locate).2.2 content mode hnode
  refine ⟨(h.locate_iff hpath).mpr hfile.locate, mode, ?_⟩
  rw [h.node]
  cases hmade : made l with
  | none => exact hnode
  | some c =>
    rw [h.nothing l c hmade] at hnode
    cases hnode

variable {path : Text} {l : Location} (hpath : Names before path l)

include hpath

/-- What is at the place of a file that was made. -/
theorem Beside.bytesOf {content : Bytes} (hl : made l = some (some content)) :
    after.bytesOf path = .ok content := by
  rw [FileSystem.bytesOf, FileSystem.node, (h.locate_iff hpath.isFile).mpr hpath.locate]
  simp [h.node, hl]

theorem Beside.isFile_iff {content : Option Bytes} (hl : made l = some content) :
    after.isFile path = true ↔ content.isSome := by
  rw [FileSystem.isFile, FileSystem.node, (h.locate_iff hpath.isFile).mpr hpath.locate]
  cases content <;> simp [h.node, hl]

theorem Beside.isFile_before {content : Option Bytes} (hl : made l = some content) :
    before.isFile path = false := by
  rw [FileSystem.isFile, FileSystem.node, hpath.locate]
  simp [h.nothing l content hl]

theorem Beside.appendFile {content : Bytes} (hl : made l = some (some content)) (more : Bytes) :
    Beside before (after.appendFile path more)
      (Function.update made l (some (some (content ++ more)))) := by
  have hfile : after.nodeAt l = some (.file content 0o600) := by simp [h.node, hl]
  have happend : after.appendFile path more = after.setNode l (.file (content ++ more) 0o600) := by
    rw [FileSystem.appendFile, (h.locate_iff hpath.isFile).mpr hpath.locate]
    simp only [hfile]
  have hne : l ≠ [] := by
    rintro rfl
    rw [nodeAt, if_pos rfl] at hfile
    cases hfile
  refine ⟨(sameTree_appendFile after path more).cwd.trans h.cwd, fun m c hm => ?_, fun m => ?_⟩
  · by_cases hml : m = l
    · subst hml
      exact h.nothing m _ hl
    · rw [Function.update_of_ne hml] at hm
      exact h.nothing m c hm
  · rw [happend, nodeAt_setNode_of_ne_nil hne]
    by_cases hml : m = l
    · subst hml
      simp
    · rw [if_neg hml, h.node, Function.update_of_ne hml]

/-- A file that was made can be taken away. -/
theorem Beside.remove {content : Bytes} (hl : made l = some (some content)) :
    ∃ gone, after.remove path = .ok gone ∧
      Beside before gone (Function.update made l (some none)) := by
  have hfile : after.nodeAt l = some (.file content 0o600) := by simp [h.node, hl]
  have hne : l ≠ [] := by
    rintro rfl
    rw [nodeAt, if_pos rfl] at hfile
    cases hfile
  refine ⟨after.unsetNode l, ?_, h.cwd, fun m c hm => ?_, fun m => ?_⟩
  · rw [FileSystem.remove, (h.locate_iff hpath.isFile).mpr hpath.locate]
    simp only [hfile]
  · by_cases hml : m = l
    · subst hml
      exact h.nothing m _ hl
    · rw [Function.update_of_ne hml] at hm
      exact h.nothing m c hm
  · rw [nodeAt_unsetNode_of_ne_nil hne]
    by_cases hml : m = l
    · subst hml
      simp
    · rw [if_neg hml, h.node, Function.update_of_ne hml]

theorem Beside.node_gone (hl : made l = some none) : after.node path = .error .notFound := by
  have hnothing : after.nodeAt l = none := by simp [h.node, hl]
  rw [FileSystem.node, (h.locate_iff hpath.isFile).mpr hpath.locate]
  simp only [hnothing]

/-- A file that is gone cannot be taken away again. -/
theorem Beside.remove_gone (hl : made l = some none) :
    after.remove path = .error ⟨.notFound, [path]⟩ := by
  have hnothing : after.nodeAt l = none := by simp [h.node, hl]
  rw [FileSystem.remove, (h.locate_iff hpath.isFile).mpr hpath.locate]
  simp only [hnothing]

theorem Beside.bytesOf_gone (hl : made l = some none) :
    after.bytesOf path = .error ⟨.notFound, [path]⟩ := by
  rw [FileSystem.bytesOf, h.node_gone hpath hl]

theorem Beside.pathExists_gone (hl : made l = some none) : after.pathExists path = false := by
  rw [FileSystem.pathExists, h.node_gone hpath hl]
  rfl

/-- What is written to a file that is gone leads nowhere. -/
theorem Beside.appendFile_gone (hl : made l = some none) (more : Bytes) :
    after.appendFile path more = after := by
  have hnothing : after.nodeAt l = none := by simp [h.node, hl]
  rw [FileSystem.appendFile, (h.locate_iff hpath.isFile).mpr hpath.locate]
  simp only [hnothing]

end

end LineTrace.FileSystem
