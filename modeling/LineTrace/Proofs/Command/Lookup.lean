/-
LineTrace.Proofs.Command.Lookup — the file that was checked and the file that is
started.

A command's name with a slash is a path. It is made tidy, the tidy path is checked, and
the tidy path is what is started. A system opens a word with a slash as it stands and
looks any other up on the search path (`candidatesOf`), so the file that was checked is
the one that is started only as long as the tidy path has a slash. `./x` has one and its
tidy path has none. Nor has the name to mean a file itself: `d/x/` asks for a directory,
and its tidy path does not.

`resolve_same_iff` says of every name with a slash that is accepted when it is started as
what was checked, and when it means the same file. That its tidy path is what was checked
holds always.
-/
import LineTrace.Proofs.Path.Tidy
import LineTrace.Shell.Machine

namespace LineTrace

open FileSystem

namespace Path

/-- A path and its tidy form mean the same file exactly where the path can be named and
asks for no directory. -/
theorem locate_tidy_iff {fs : FileSystem} {p : Text} {l : Location} {content : Bytes}
    (h : fs.StandsAt (tidy p) l content) :
    fs.locate p = .ok l ↔ Nameable p ∧ asksDirectory p = false := by
  obtain ⟨mode, hnode⟩ := h.node
  obtain ⟨-, hwalk, -⟩ := locate_eq_ok_iff.mp h.locate
  rw [components_join_tidy] at hwalk
  rw [locate_eq_ok_iff]
  constructor
  · rintro ⟨hname, -, hask⟩
    exact ⟨hname, hask content mode hnode⟩
  · rintro ⟨hname, hask⟩
    exact ⟨hname, hwalk, fun _ _ _ => hask⟩

end Path

namespace Command

/-- The file that a system starts for a word: the first that may be executed of those
that the word may mean. -/
def startedPath? (fs : FileSystem) (environment : Environment) (word : Text) : Option Text :=
  (Shell.candidatesOf environment word).find? (isCommand fs)

theorem startedPath?_of_slash {fs : FileSystem} {word : Text} (environment : Environment)
    (hslash : Path.slash ∈ word) (h : isCommand fs word = true) :
    startedPath? fs environment word = some word := by
  rw [startedPath?, Shell.candidatesOf, if_pos hslash]
  simp [h]

/-- A search path whose only directory cannot be named. -/
def namelessSearch : Environment := [(searchVariable, [0])]

/-- A word without a slash is looked up, so it need not be found. -/
theorem startedPath?_of_no_slash (fs : FileSystem) {word : Text} (hslash : Path.slash ∉ word) :
    startedPath? fs namelessSearch word = none := by
  have hrelative : Path.isAbsolute word = false := by
    cases word with
    | nil => rfl
    | cons c rest =>
      have hc : c ≠ Path.slash := fun hc => hslash (by simp [hc])
      simp [Path.isAbsolute, hc]
  have hjoin : Path.join [0] word = 0 :: Path.slash :: word := by
    rw [Path.join, hrelative]
    rfl
  have hcandidates : Shell.candidatesOf namelessSearch word = [0 :: Path.slash :: word] := by
    rw [Shell.candidatesOf, if_neg hslash, ← hjoin]
    rfl
  have hnot : isCommand fs (0 :: Path.slash :: word) = false := by
    rw [isCommand, FileSystem.isFile, FileSystem.node, FileSystem.locate]
    simp
  rw [startedPath?, hcandidates]
  simp [hnot]

theorem isCommand_iff {fs : FileSystem} {p : Text} :
    isCommand fs p = true ↔
      ∃ l content, fs.StandsAt p l content ∧ fs.isExecutable p = true := by
  rw [isCommand, Bool.and_eq_true, isFile_iff]
  constructor
  · rintro ⟨⟨l, content, h⟩, hx⟩
    exact ⟨l, content, h, hx⟩
  · rintro ⟨l, content, h, hx⟩
    exact ⟨⟨l, content, h⟩, hx⟩

/-- A name with a slash that is accepted gives its tidy path, which was checked. -/
theorem resolve_eq_ok_of_slash {fs : FileSystem} {searchPath name path : Text}
    (hslash : Path.slash ∈ name) (h : resolve fs searchPath name = .ok path) :
    path = Path.tidy name ∧ isCommand fs path = true := by
  rw [resolve, if_pos hslash] at h
  dsimp only at h
  split at h
  · cases h
  · cases h
  · split at h
    · rename_i hcommand
      cases h
      exact ⟨rfl, hcommand⟩
    · cases h

/-- What is accepted of a name with a slash is the path of an executable file that was
checked. It is started as that file, whatever the search path, exactly where the name is
absolute or has two components, since only then a slash is left in the path; and the name
means the same file exactly where it can be named itself and asks for no directory. -/
theorem resolve_same_iff {fs : FileSystem} {searchPath name path : Text}
    (hslash : Path.slash ∈ name) (h : resolve fs searchPath name = .ok path) :
    isCommand fs path = true ∧
      (Path.slash ∈ path ↔
        Path.isAbsolute name = true ∨ 2 ≤ (Path.components name).length) ∧
      ((∀ environment, startedPath? fs environment path = some path) ↔ Path.slash ∈ path) ∧
      ((∃ l, fs.locate name = .ok l ∧ fs.locate path = .ok l) ↔
        Nameable name ∧ asksDirectory name = false) := by
  obtain ⟨rfl, hcommand⟩ := resolve_eq_ok_of_slash hslash h
  obtain ⟨l, content, hstands, -⟩ := isCommand_iff.mp hcommand
  refine ⟨hcommand, Path.slash_mem_tidy_iff name, ⟨fun hall => ?_, fun hleft environment =>
    startedPath?_of_slash environment hleft hcommand⟩, ⟨?_, fun hname => ?_⟩⟩
  · by_contra hnone
    have hlookup := hall namelessSearch
    rw [startedPath?_of_no_slash fs hnone] at hlookup
    cases hlookup
  · rintro ⟨m, hm, hpath⟩
    rw [hstands.locate] at hpath
    cases hpath
    exact (Path.locate_tidy_iff hstands).mp hm
  · exact ⟨l, (Path.locate_tidy_iff hstands).mpr hname, hstands.locate⟩

/-- An executable file of the working directory, asked for as such. -/
theorem resolve_same_iff_dot :
    let fs : FileSystem := ⟨[(["x"], .file [] 0o755)], "/", "/tmp", 0⟩
    Path.slash ∈ ("./x" : Text) ∧ resolve fs "/bin" "./x" = .ok "x" ∧
      Path.slash ∉ ("x" : Text) ∧ ¬ ∀ environment, startedPath? fs environment "x" = some "x" := by
  intro fs
  have hslash : Path.slash ∈ ("./x" : Text) := by decide
  have hresolve : resolve fs "/bin" "./x" = .ok "x" := by rfl
  have hnone : Path.slash ∉ ("x" : Text) := by decide
  exact ⟨hslash, hresolve, hnone, fun hall =>
    hnone ((resolve_same_iff hslash hresolve).2.2.1.mp hall)⟩

end Command

end LineTrace
