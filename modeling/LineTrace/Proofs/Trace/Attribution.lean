/-
LineTrace.Proofs.Trace.Attribution — what a group is without the groups before
it.

Following a trace carries a stack of directories and remembers where sources
were found, so what is written before a record could decide which file it is
counted for. `Follower.Coherent` is what every trace keeps to: what is
remembered is what would be found out again. A relative source is then looked
for in the record's own directory before any other, since entering a directory
puts it on top.

`SelfLocated` asks that the source is found there, or needs no directory. Such
a record is the same outcome behind every trace (`Follower.step_alone`), and
`Outcome.alone` says which, from the record's own fields. All that still depends
on the trace is how the record moved the stack; `Outcome.still` leaves that out,
and nothing that is counted looks at it.
-/
import LineTrace.Proofs.Coverage.Accumulation
import LineTrace.Proofs.Trace.Directories
import LineTrace.Proofs.Trace.Outcomes
import LineTrace.Run.Drain

namespace LineTrace

/-! ## 1. Records by themselves -/

/-- A hit without what it did to the stack. -/
def Hit.still (h : Hit) : Hit := { h with event := .hit }

/-- An outcome without what it did to the stack. -/
def Outcome.still : Outcome → Outcome
  | .hit h => .hit h.still
  | o => o

/-- The path of a source seen from the record's own directory. -/
def Record.place (r : Record) : Text := Path.normalize (Path.join r.pwd r.source)

/-- A group whose record, if it is one, has no source, or an absolute one, or
one that its own directory holds. -/
def SelfLocated (isFile : Text → Bool) (fields : List Text) : Prop :=
  ∀ r, Record.ofFields fields = .ok (.ok r) →
    r.source = [] ∨ Path.isAbsolute r.source = true ∨ isFile (Path.join r.pwd r.source) = true

/-- What a group is by itself. -/
def Outcome.alone (fields : List Text) : Except LineTooLong Outcome :=
  match Record.ofFields fields with
  | .error e => .error e
  | .ok (.error reason) => .ok (.malformed reason fields)
  | .ok (.ok r) =>
    .ok (if r.source = [] then .unattributed r.line else .hit ⟨r.place, r.line, .hit⟩)

/-! ## 2. Following -/

namespace Follower

variable {isFile : Text → Bool} {cwd : Text}

/-- What is remembered is what would be found out again. -/
structure Coherent (isFile : Text → Bool) (cwd : Text) (f : Follower) : Prop where
  directories : f.directories.Fresh
  resolved : ∀ source dirs, ∀ path ∈ Table.get? (source, dirs) f.resolved,
    path = (placeOf isFile cwd source dirs).1

theorem coherent_start : (start Directories.empty).Coherent isFile cwd where
  directories := Directories.fresh_of_known_eq_none rfl
  resolved := fun _ _ _ h => by cases h

/-- A source that the first candidate holds lies there. -/
theorem placeOf_cons {d source : Text} (h : isFile (Path.join d source) = true)
    (dirs : List Text) :
    (placeOf isFile cwd source (d :: dirs)).1 = Path.normalize (Path.join d source) := by
  simp [placeOf, firstFile, h]

/-- A self-located source lies where its record says, if the record's directory
is on top. -/
theorem place_of_top {r : Record} (hpwd : r.pwd ≠ [])
    (hl : Path.isAbsolute r.source = true ∨ isFile (Path.join r.pwd r.source) = true)
    {top : DirFrame} (htop : top.pwd = r.pwd) {rest : List DirFrame} :
    (if Path.isAbsolute r.source then Path.normalize r.source
      else (placeOf isFile cwd r.source (Directories.freshCandidates (top :: rest))).1) =
        r.place := by
  by_cases habs : Path.isAbsolute r.source = true
  · rw [if_pos habs, Record.place, Path.join, if_pos habs]
  · have hfile : isFile (Path.join top.pwd r.source) = true := by
      rw [htop]
      exact hl.resolve_left habs
    obtain ⟨more, hmore⟩ := Directories.freshCandidates_cons (htop ▸ hpwd) rest
    rw [if_neg habs, hmore, placeOf_cons hfile, htop, Record.place]

/-- With or without its memory a coherent follower gives the same path. -/
theorem resolve_of_coherent {f : Follower} (hf : f.Coherent isFile cwd) (source : Text) :
    (resolve isFile cwd f source).1.Coherent isFile cwd ∧
      (resolve isFile cwd f source).2 =
        if Path.isAbsolute source then Path.normalize source
        else (placeOf isFile cwd source (Directories.freshCandidates f.directories.frames)).1 := by
  have hcandidates := Directories.candidates_of_fresh hf.directories
  have hfresh := Directories.fresh_candidates hf.directories
  rw [hcandidates] at hfresh
  rw [resolve, hcandidates]
  split
  · exact ⟨hf, rfl⟩
  · dsimp only
    cases hget : Table.get? (source, Directories.freshCandidates f.directories.frames)
      f.resolved with
    | some path => exact ⟨⟨hfresh, hf.resolved⟩, hf.resolved _ _ path hget⟩
    | none =>
      refine ⟨⟨hfresh, fun s dirs path hpath => ?_⟩, rfl⟩
      rw [Option.mem_def, Table.get?_put] at hpath
      split at hpath
      · rename_i hkey
        cases hkey
        cases hpath
        rfl
      · exact hf.resolved s dirs path hpath

/-- A self-located group is behind any trace what it is by itself. -/
theorem step_alone {f f' : Follower} (hf : f.Coherent isFile cwd) {fields : List Text}
    (hl : SelfLocated isFile fields) {o : Outcome}
    (h : f.step isFile cwd fields = .ok (f', o)) :
    f'.Coherent isFile cwd ∧ Outcome.alone fields = .ok o.still := by
  rw [Outcome.alone]
  cases hparsed : Record.ofFields fields with
  | error e =>
    rw [step, stepWith, hparsed] at h
    cases h
  | ok parsed =>
    cases parsed with
    | error reason =>
      rw [step_malformed f hparsed] at h
      cases h
      exact ⟨hf, rfl⟩
    | ok r =>
      obtain ⟨moved, hframes, hfresh, hstep⟩ := f.step_record hparsed
      have hmoved : Coherent isFile cwd { f with directories := moved } :=
        ⟨hfresh hf.directories, hf.resolved⟩
      rw [hstep] at h
      dsimp only
      by_cases hsource : r.source = []
      · rw [if_pos hsource] at h ⊢
        cases h
        exact ⟨hmoved, rfl⟩
      · rw [if_neg hsource] at h ⊢
        cases h
        obtain ⟨hcoherent, hpath⟩ := resolve_of_coherent hmoved r.source
        obtain ⟨top, rest, htop, hpwd⟩ :=
          Directories.entered_eq_cons f.directories.frames r.pwd r.oldpwd
        refine ⟨hcoherent, ?_⟩
        rw [hframes, htop, place_of_top (Record.pwd_ne_of_ofFields hparsed)
          ((hl r hparsed).resolve_left hsource) hpwd] at hpath
        rw [Outcome.still, Hit.still, hpath]

/-- Self-located groups are one by one what they are by themselves. -/
theorem Follows.alone {f f' : Follower} {groups : List (List Text)} {os : List Outcome}
    (h : Follows isFile cwd f groups os f') (hf : f.Coherent isFile cwd)
    (hl : ∀ g ∈ groups, SelfLocated isFile g) :
    os.map Outcome.still = groups.filterMap fun g => (Outcome.alone g).toOption := by
  induction h with
  | nil f => rfl
  | @cons f f₁ f₂ fields rest o os hstep _ ih =>
    obtain ⟨hf₁, hfields⟩ := step_alone hf (hl fields (by simp)) hstep
    rw [List.map_cons, ih hf₁ (fun g hg => hl g (by simp [hg])), List.filterMap_cons, hfields]
    rfl

end Follower

/-! ## 3. What is counted -/

theorem Outcome.reason?_still (o : Outcome) : o.still.reason? = o.reason? := by
  cases o <;> rfl

theorem Outcome.isUnattributed_still (o : Outcome) : o.still.isUnattributed = o.isUnattributed := by
  cases o <;> rfl

theorem Outcome.hit?_still (o : Outcome) : o.still.hit? = o.hit?.map Hit.still := by
  cases o <;> rfl

theorem Coverage.occurrences_map_still (path : Text) (line : Int) (hits : List Hit) :
    occurrences path line (hits.map Hit.still) = occurrences path line hits := by
  rw [occurrences, List.countP_map]
  rfl

/-- Drained logs of the same coverage and the same counts. -/
structure Drained.Agrees (d d' : Drained) : Prop where
  coverage : d.coverage.same d'.coverage = true
  skipped : d.tally.skipped = d'.tally.skipped
  unattributed : d.tally.unattributed = d'.tally.unattributed
  reasons : ∀ heading, Table.get? heading d.tally.reasons = Table.get? heading d'.tally.reasons

section

variable {os os' : List Outcome} (h : (os.map Outcome.still).Perm (os'.map Outcome.still))

include h

theorem reasons_perm_of_still :
    (os.filterMap Outcome.reason?).Perm (os'.filterMap Outcome.reason?) := by
  have hreasons := h.filterMap Outcome.reason?
  simpa only [List.filterMap_map, Function.comp_def, Outcome.reason?_still] using hreasons

theorem countP_isUnattributed_of_still :
    os.countP Outcome.isUnattributed = os'.countP Outcome.isUnattributed := by
  have hcount := h.countP_eq Outcome.isUnattributed
  simpa only [List.countP_map, Function.comp_def, Outcome.isUnattributed_still] using hcount

theorem occurrences_of_still (path : Text) (line : Int) :
    Coverage.occurrences path line (os.filterMap Outcome.hit?) =
      Coverage.occurrences path line (os'.filterMap Outcome.hit?) := by
  have hhits := (h.filterMap Outcome.hit?).countP_eq
    fun x => decide (x.path = path ∧ (x.line : Int) = line)
  simp only [List.filterMap_map, Function.comp_def, Outcome.hit?_still] at hhits
  simp only [← List.map_filterMap] at hhits
  have hx := Coverage.occurrences_map_still path line (os.filterMap Outcome.hit?)
  have hy := Coverage.occurrences_map_still path line (os'.filterMap Outcome.hit?)
  rw [← hx, ← hy]
  exact hhits

end

end LineTrace
