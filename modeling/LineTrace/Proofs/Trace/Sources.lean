/-
LineTrace.Proofs.Trace.Sources — which file a source is.

A relative source is looked for in the directories of the stack, and what it was found
to be is remembered together with those directories. Two things could go stale here, the
list of directories that is kept with the stack and the paths that are remembered.
Neither does: `Follower.Coherent` holds after any calls (`coherent_after`), so a
follower that drops all it remembers before every call (`Follower.forget`) gives the
same outcomes and the same frames (`shown_forget_step`, `frames_after_forgetting`). What a
source is can then be read off the frames alone (`placeOf_eq`).

What memory is for is said by the paths that are asked about. A call asks only where no
earlier call has resolved the same source among the same directories, since a key that is
remembered stays so (`keys_after`), and it asks once for each directory up to the first
that holds the source (`resolve_relative`).
-/
import LineTrace.Proofs.Trace.Attribution
import LineTrace.Proofs.Trace.Calls

namespace LineTrace

/-! ## 1. Directories to look in -/

namespace Directories

/-- The working directories on the stack from the top, then those before them that are
not empty, each once. -/
def places (frames : List DirFrame) : List Text :=
  Text.dedup (frames.map DirFrame.pwd ++ (frames.map DirFrame.oldpwd).filter (· ≠ []))

theorem freshCandidates_eq_places {frames : List DirFrame} (h : ∀ f ∈ frames, f.pwd ≠ []) :
    freshCandidates frames = places frames := by
  have hkept : (frames.map DirFrame.pwd).filter (· ≠ []) = frames.map DirFrame.pwd := by
    rw [List.filter_eq_self]
    intro p hp
    obtain ⟨f, hf, rfl⟩ := List.mem_map.mp hp
    exact decide_eq_true (h f hf)
  rw [freshCandidates, places, List.filter_append, hkept]

theorem pwd_ne_of_walked {rs : List Record} (h : ∀ r ∈ rs, r.pwd ≠ []) :
    ∀ f ∈ walked [] rs, f.pwd ≠ [] := by
  intro f hf
  obtain ⟨r, hr, rfl⟩ := (mem_walked hf).resolve_left List.not_mem_nil
  exact h r hr

/-- What a record means for the stack depends on its frames alone. -/
theorem classify_snd_congr {d d' : Directories} (h : d.frames = d'.frames) (pwd oldpwd : Text) :
    (d.classify pwd oldpwd).2 = (d'.classify pwd oldpwd).2 := by
  unfold classify
  rw [h]
  split
  · rfl
  · split
    · rfl
    · split <;> rfl

end Directories

theorem Record.pwd_ne_of_mem_among {groups : List (List Text)} {r : Record}
    (h : r ∈ among groups) : r.pwd ≠ [] := by
  obtain ⟨fields, -, hfields⟩ := List.mem_filterMap.mp h
  exact Record.pwd_ne_of_ofFields (ofFields_eq_of_read hfields)

namespace Follower

variable {isFile : Text → Bool} {cwd : Text}

/-- The directories in which a follower looks for a source. -/
def places (f : Follower) : List Text := Directories.places f.directories.frames

/-- After any calls the kept directories name no empty one. -/
theorem freshCandidates_after (groups : List (List Text)) :
    let f := (start Directories.empty).after (step isFile cwd) groups
    Directories.freshCandidates f.directories.frames = f.places := by
  refine Directories.freshCandidates_eq_places ?_
  rw [frames_after_start]
  exact Directories.pwd_ne_of_walked fun r hr => Record.pwd_ne_of_mem_among hr

/-! ## 2. Paths -/

/-- The file that is found is the first among the paths, and nothing is asked about
behind it. -/
theorem firstFile_eq (isFile : Text → Bool) (asked paths : List Text) :
    ∃ probes, probes <+: paths ∧
      firstFile isFile asked paths = (paths.find? isFile, probes.reverse ++ asked) := by
  induction paths generalizing asked with
  | nil => exact ⟨[], List.prefix_refl [], rfl⟩
  | cons p paths ih =>
    rw [firstFile]
    by_cases hp : isFile p = true
    · exact ⟨[p], List.prefix_append [p] paths, by rw [if_pos hp, List.find?_cons_of_pos hp]; rfl⟩
    · obtain ⟨probes, hprefix, hrest⟩ := ih (p :: asked)
      refine ⟨p :: probes, (List.prefix_cons_inj p).mpr hprefix, ?_⟩
      rw [if_neg hp, hrest, List.find?_cons_of_neg hp]
      simp

/-- A source lies in the first directory that holds it, else in the first one. -/
theorem placeOf_eq (source d : Text) (dirs : List Text) :
    (placeOf isFile cwd source (d :: dirs)).1 = Path.normalize (Path.join
      (((d :: dirs).find? fun dir => isFile (Path.join dir source)).getD d) source) := by
  obtain ⟨probes, -, hfirst⟩ := firstFile_eq isFile []
    ((d :: dirs).map fun dir => Path.join dir source)
  rw [placeOf, hfirst, List.find?_map]
  dsimp only
  cases hfound : (d :: dirs).find? (isFile ∘ fun dir => Path.join dir source) with
  | none =>
    have hnone : (d :: dirs).find? (fun dir => isFile (Path.join dir source)) = none := hfound
    rw [hnone]
    rfl
  | some dir =>
    have hsome : (d :: dirs).find? (fun dir => isFile (Path.join dir source)) = some dir := hfound
    rw [hsome]
    rfl

/-! ## 3. Memory -/

section

variable {f : Follower} (hf : f.directories.Fresh) {source : Text}
  (hrelative : Path.isAbsolute source = false)

include hf hrelative

theorem resolve_of_remembered {path : Text}
    (h : Table.get? (source, Directories.freshCandidates f.directories.frames) f.resolved =
      some path) :
    resolve isFile cwd f source =
      ({ f with directories :=
          ⟨f.directories.frames, some (Directories.freshCandidates f.directories.frames)⟩ },
        path) := by
  rw [resolve, if_neg (by simp [hrelative]), Directories.candidates_of_fresh hf]
  dsimp only
  rw [h]

theorem resolve_of_new
    (h : Table.get? (source, Directories.freshCandidates f.directories.frames) f.resolved =
      none) :
    let dirs := Directories.freshCandidates f.directories.frames
    resolve isFile cwd f source =
      (⟨⟨f.directories.frames, some dirs⟩,
        Table.put (source, dirs) (placeOf isFile cwd source dirs).1 f.resolved,
        (placeOf isFile cwd source dirs).2 ++ f.asked⟩, (placeOf isFile cwd source dirs).1) := by
  rw [resolve, if_neg (by simp [hrelative]), Directories.candidates_of_fresh hf]
  dsimp only
  rw [h]

/-- A relative source is remembered with the directories once it is resolved, nothing
that is remembered is dropped, and paths are asked about only where the source was not
resolved among these directories before. -/
theorem resolve_relative (isFile : Text → Bool) (cwd : Text) :
    let dirs := Directories.freshCandidates f.directories.frames
    let found := (resolve isFile cwd f source).1
    (source, dirs) ∈ Table.keys found.resolved ∧
      Table.keys f.resolved ⊆ Table.keys found.resolved ∧
      ∃ probes, found.asked = probes.reverse ++ f.asked ∧
        probes <+: dirs.map (fun dir => Path.join dir source) ∧
        (probes ≠ [] → (source, dirs) ∉ Table.keys f.resolved) := by
  intro dirs found
  cases hget : Table.get? (source, dirs) f.resolved with
  | some path =>
    have hmem : (source, dirs) ∈ Table.keys f.resolved :=
      Table.isSome_get?_iff.mp (by simp [hget])
    have hfound : found = { f with directories := ⟨f.directories.frames, some dirs⟩ } :=
      congrArg Prod.fst (resolve_of_remembered hf hrelative hget)
    rw [hfound]
    exact ⟨hmem, fun key => id, [], rfl, List.nil_prefix, fun h => absurd rfl h⟩
  | none =>
    have hnew : (source, dirs) ∉ Table.keys f.resolved := fun hmem => by
      have := Table.isSome_get?_iff.mpr hmem
      simp [hget] at this
    have hfound : found = ⟨⟨f.directories.frames, some dirs⟩,
        Table.put (source, dirs) (placeOf isFile cwd source dirs).1 f.resolved,
        (placeOf isFile cwd source dirs).2 ++ f.asked⟩ :=
      congrArg Prod.fst (resolve_of_new hf hrelative hget)
    obtain ⟨probes, hprefix, hfirst⟩ := firstFile_eq isFile []
      (dirs.map fun dir => Path.join dir source)
    have hasked : (placeOf isFile cwd source dirs).2 = probes.reverse := by
      rw [placeOf, hfirst, List.append_nil]
    rw [hfound, hasked]
    exact ⟨Table.mem_keys_put.mpr (.inl rfl), fun key h => Table.mem_keys_put.mpr (.inr h),
      probes, rfl, hprefix, fun _ => hnew⟩

end

/-! ## 4. Calls -/

/-- What a call for a record with a source finds: the path is that of the first
directory that holds it. -/
theorem step_source {f : Follower} (hf : f.Coherent isFile cwd) {fields : List Text}
    {r : Record} (h : Record.ofFields fields = .ok (.ok r)) (hsource : r.source ≠ []) :
    ∃ f', f.step isFile cwd fields = .ok (f', .hit
      ⟨if Path.isAbsolute r.source then Path.normalize r.source
        else Path.normalize (Path.join (((Directories.freshCandidates f'.directories.frames).find?
          fun dir => isFile (Path.join dir r.source)).getD r.pwd) r.source),
        r.line, (f.directories.classify r.pwd r.oldpwd).2⟩) := by
  obtain ⟨moved, hframes, hfresh, hstep⟩ := f.step_record h
  have hmoved : Coherent isFile cwd { f with directories := moved } :=
    ⟨hfresh hf.directories, hf.resolved⟩
  obtain ⟨-, hpath⟩ := resolve_of_coherent hmoved r.source
  refine ⟨(resolve isFile cwd { f with directories := moved } r.source).1, ?_⟩
  rw [hstep, if_neg hsource]
  dsimp only
  rw [hpath, frames_resolve]
  dsimp only
  split
  · rfl
  · -- The record's own directory is on top, so it is the one to fall back to.
    obtain ⟨top, rest, htop, hpwd⟩ :=
      Directories.entered_eq_cons f.directories.frames r.pwd r.oldpwd
    obtain ⟨more, hmore⟩ := Directories.freshCandidates_cons
      (hpwd ▸ Record.pwd_ne_of_ofFields h : top.pwd ≠ []) rest
    rw [hframes, htop, hmore, placeOf_eq, hpwd]

/-- A record whose source has to be looked for. -/
def NeedsPlace (fields : List Text) (r : Record) : Prop :=
  Record.ofFields fields = .ok (.ok r) ∧ r.source ≠ [] ∧ Path.isAbsolute r.source = false

/-- A call resolves the source of such a record, and any other call leaves the memory as
it is. -/
theorem step_cases {f f' : Follower} (hf : f.Coherent isFile cwd) {fields : List Text}
    {o : Outcome} (hstep : f.step isFile cwd fields = .ok (f', o)) :
    f'.Coherent isFile cwd ∧
      ((f'.resolved = f.resolved ∧ f'.asked = f.asked ∧ ∀ r, ¬ NeedsPlace fields r) ∨
        ∃ r moved, NeedsPlace fields r ∧ moved.Fresh ∧
          f' = (resolve isFile cwd { f with directories := moved } r.source).1) := by
  cases hparsed : Record.ofFields fields with
  | error e =>
    rw [step, stepWith, hparsed] at hstep
    cases hstep
  | ok parsed =>
    cases parsed with
    | error reason =>
      rw [step_malformed f hparsed] at hstep
      cases hstep
      refine ⟨hf, .inl ⟨rfl, rfl, fun r h => ?_⟩⟩
      rw [h.1] at hparsed
      cases hparsed
    | ok r =>
      have hrecord : ∀ s, NeedsPlace fields s → s = r := fun s h => by
        rw [h.1] at hparsed
        cases hparsed
        rfl
      obtain ⟨moved, -, hfresh, hstep'⟩ := f.step_record hparsed
      have hmoved : Coherent isFile cwd { f with directories := moved } :=
        ⟨hfresh hf.directories, hf.resolved⟩
      rw [hstep'] at hstep
      by_cases hsource : r.source = []
      · rw [if_pos hsource] at hstep
        cases hstep
        refine ⟨hmoved, .inl ⟨rfl, rfl, fun s h => ?_⟩⟩
        exact h.2.1 (hrecord s h ▸ hsource)
      · rw [if_neg hsource] at hstep
        cases hstep
        refine ⟨(resolve_of_coherent hmoved r.source).1, ?_⟩
        cases habsolute : Path.isAbsolute r.source with
        | true =>
          have hsame : (resolve isFile cwd { f with directories := moved } r.source).1 =
              { f with directories := moved } := by
            rw [resolve, if_pos habsolute]
          rw [hsame]
          refine .inl ⟨rfl, rfl, fun s h => ?_⟩
          have hrelative := h.2.2
          rw [hrecord s h, habsolute] at hrelative
          cases hrelative
        | false => exact .inr ⟨r, moved, ⟨hparsed, hsource, habsolute⟩, hmoved.directories, rfl⟩

/-- What a call does to the memory: it drops nothing, a source that has to be looked for
is remembered with the directories, and paths are asked about only for a source that was
not resolved among these directories before. -/
theorem step_memory {f f' : Follower} (hf : f.Coherent isFile cwd) {fields : List Text}
    {o : Outcome} (hstep : f.step isFile cwd fields = .ok (f', o)) :
    let dirs := Directories.freshCandidates f'.directories.frames
    Table.keys f.resolved ⊆ Table.keys f'.resolved ∧
      (∀ r, NeedsPlace fields r → (r.source, dirs) ∈ Table.keys f'.resolved) ∧
      ∃ probes, f'.asked = probes.reverse ++ f.asked ∧
        (probes ≠ [] → ∃ r, NeedsPlace fields r ∧
          probes <+: dirs.map (fun dir => Path.join dir r.source) ∧
          (r.source, dirs) ∉ Table.keys f.resolved) := by
  intro dirs
  obtain ⟨-, hquiet | ⟨r, moved, hneeds, hfresh, rfl⟩⟩ := step_cases hf hstep
  · obtain ⟨hresolved, hasked, hnone⟩ := hquiet
    rw [hresolved]
    exact ⟨List.Subset.refl _, fun r h => absurd h (hnone r), [], hasked, fun h => absurd rfl h⟩
  · obtain ⟨hremembered, hkeeps, probes, hasked, hprefix, hnew⟩ :=
      resolve_relative (f := { f with directories := moved }) hfresh hneeds.2.2 isFile cwd
    have hdirs : dirs = Directories.freshCandidates moved.frames :=
      congrArg Directories.freshCandidates (frames_resolve _ _)
    rw [hdirs]
    refine ⟨hkeeps, fun s hs => ?_, probes, hasked, fun h => ⟨r, hneeds, hprefix, hnew h⟩⟩
    have hsame : Record.ofFields fields = .ok (.ok s) := hs.1
    rw [hneeds.1] at hsame
    cases hsame
    exact hremembered

/-! ## 5. Histories -/

/-- After any calls what is remembered is what would be found out again. -/
theorem coherent_after (isFile : Text → Bool) (cwd : Text) (groups : List (List Text)) :
    ((start Directories.empty).after (step isFile cwd) groups).Coherent isFile cwd :=
  after_induction coherent_start (fun _ _ _ _ hf hstep => (step_cases hf hstep).1) groups

/-- What is remembered once stays so. -/
theorem keys_after {f : Follower} (hf : f.Coherent isFile cwd) (groups : List (List Text)) :
    Table.keys f.resolved ⊆ Table.keys (f.after (step isFile cwd) groups).resolved := by
  have hboth : (f.after (step isFile cwd) groups).Coherent isFile cwd ∧
      Table.keys f.resolved ⊆ Table.keys (f.after (step isFile cwd) groups).resolved :=
    after_induction (P := fun f' => f'.Coherent isFile cwd ∧
        Table.keys f.resolved ⊆ Table.keys f'.resolved)
      ⟨hf, List.Subset.refl _⟩ (fun _ _ _ _ hf' hstep =>
        ⟨(step_cases hf'.1 hstep).1, List.Subset.trans hf'.2 (step_memory hf'.1 hstep).1⟩) groups
  exact hboth.2

/-- The working directory is nothing to calls. -/
theorem after_cwd_congr (isFile : Text → Bool) {rs : List Record} {groups : List (List Text)}
    (h : ∀ g ∈ groups, ∀ r, Record.ofFields g = .ok (.ok r) → r ∈ rs) (cwd cwd' : Text) :
    (start Directories.empty).after (step isFile cwd) groups =
        (start Directories.empty).after (step isFile cwd') groups ∧
      ((start Directories.empty).after (step isFile cwd) groups).Among rs := by
  induction groups using List.reverseRecOn with
  | nil => exact ⟨rfl, among_start rs⟩
  | append_singleton groups fields ih =>
    obtain ⟨hsame, hamong⟩ := ih fun g hg => h g (List.mem_append_left _ hg)
    obtain ⟨hcall, hnext⟩ := step_congr (fun _ _ => rfl) cwd cwd' hamong (h fields (by simp))
    cases hstep : step isFile cwd ((start Directories.empty).after (step isFile cwd) groups)
      fields with
    | error e =>
      rw [after_concat_of_error hstep]
      rw [hcall, hsame] at hstep
      rw [after_concat_of_error hstep]
      exact ⟨hsame, hamong⟩
    | ok next =>
      have hafter := hnext _ _ hstep
      rw [after_concat_of_ok hstep]
      rw [hcall, hsame] at hstep
      rw [after_concat_of_ok hstep]
      exact ⟨rfl, hafter⟩

/-! ## 6. Forgetting -/

/-- The follower with its frames and nothing else that it has learnt. -/
def forget (f : Follower) : Follower := start (Directories.ofFrames f.directories.frames)

/-- What a call shows: the frames after it and the outcome, or the complaint. -/
def shown (result : Except LineTooLong (Follower × Outcome)) :
    Except LineTooLong (List DirFrame × Outcome) :=
  result.map fun (f, o) => (f.directories.frames, o)

theorem coherent_forget (isFile : Text → Bool) (cwd : Text) (f : Follower) :
    f.forget.Coherent isFile cwd where
  directories := Directories.fresh_of_known_eq_none rfl
  resolved := fun _ _ _ h => by cases h

/-- A call on a follower that has forgotten everything shows the same. -/
theorem shown_forget_step {f : Follower} (hf : f.Coherent isFile cwd) (fields : List Text) :
    shown (f.forget.step isFile cwd fields) = shown (f.step isFile cwd fields) := by
  cases hparsed : Record.ofFields fields with
  | error e => rw [step, step, stepWith, stepWith, hparsed]
  | ok parsed =>
    cases parsed with
    | error reason =>
      rw [step_malformed _ hparsed, step_malformed _ hparsed]
      rfl
    | ok r =>
      obtain ⟨moved, hframes, hfresh, hstep⟩ := f.step_record hparsed
      obtain ⟨moved', hframes', hfresh', hstep'⟩ := f.forget.step_record hparsed
      have hsame : moved'.frames = moved.frames := hframes'.trans hframes.symm
      have hclassify : (f.forget.directories.classify r.pwd r.oldpwd).2 =
          (f.directories.classify r.pwd r.oldpwd).2 :=
        have hkept : f.forget.directories.frames = f.directories.frames := rfl
        Directories.classify_snd_congr hkept r.pwd r.oldpwd
      rw [hstep, hstep']
      by_cases hsource : r.source = []
      · rw [if_pos hsource, if_pos hsource]
        simp only [shown, Except.map, hsame]
      · obtain ⟨-, hpath⟩ := resolve_of_coherent
          (⟨hfresh hf.directories, hf.resolved⟩ :
            Coherent isFile cwd { f with directories := moved }) r.source
        obtain ⟨-, hpath'⟩ := resolve_of_coherent
          (⟨hfresh' (coherent_forget isFile cwd f).directories,
            fun _ _ _ h => by cases h⟩ :
            Coherent isFile cwd { f.forget with directories := moved' }) r.source
        rw [if_neg hsource, if_neg hsource]
        simp only [shown, Except.map, frames_resolve, hpath, hpath', hsame, hclassify]

/-- The frames after one more call are those that it shows. -/
theorem frames_after_concat
    (call : Follower → List Text → Except LineTooLong (Follower × Outcome)) (f : Follower)
    (groups : List (List Text)) (fields : List Text) :
    (f.after call (groups ++ [fields])).directories.frames =
      ((shown (call (f.after call groups) fields)).toOption.map Prod.fst).getD
        (f.after call groups).directories.frames := by
  cases hcall : call (f.after call groups) fields with
  | error e =>
    rw [after_concat_of_error hcall]
    rfl
  | ok next =>
    rw [after_concat_of_ok hcall]
    rfl

/-- Forgetting before every call leads to the same frames. -/
theorem frames_after_forgetting (isFile : Text → Bool) (cwd : Text) (groups : List (List Text)) :
    ((start Directories.empty).after (fun f fields => f.forget.step isFile cwd fields)
        groups).directories.frames =
      ((start Directories.empty).after (step isFile cwd) groups).directories.frames := by
  induction groups using List.reverseRecOn with
  | nil => rfl
  | append_singleton groups fields ih =>
    have hforget : ((start Directories.empty).after
          (fun f fields => f.forget.step isFile cwd fields) groups).forget =
        ((start Directories.empty).after (step isFile cwd) groups).forget := by
      rw [forget, forget, ih]
    rw [frames_after_concat, frames_after_concat, hforget,
      shown_forget_step (coherent_after isFile cwd groups), ih]

/-! ## 7. Sources -/

/-- What was resolved before is remembered, with the directories it was looked for in
then. -/
theorem mem_keys_of_earlier (isFile : Text → Bool) (cwd : Text)
    {groups earlier later : List (List Text)} {g : List Text} {s : Record}
    (hgroups : groups = earlier ++ g :: later) (h : NeedsPlace g s) :
    (s.source, ((start Directories.empty).after (step isFile cwd) (earlier ++ [g])).places) ∈
      Table.keys ((start Directories.empty).after (step isFile cwd) groups).resolved := by
  obtain ⟨next, o, hstep⟩ : ∃ next o, ((start Directories.empty).after (step isFile cwd)
      earlier).step isFile cwd g = .ok (next, o) := exists_step _ h.1
  have hremembered := (step_memory (coherent_after isFile cwd earlier) hstep).2.1 s h
  rw [← after_concat_of_ok hstep, freshCandidates_after] at hremembered
  have hend : groups = (earlier ++ [g]) ++ later := by rw [hgroups]; simp
  rw [hend, after_append _ (earlier ++ [g])]
  exact keys_after (coherent_after isFile cwd _) later hremembered

/-- Paths are asked about once for each directory at most, and only where the source was
not looked for among the same directories before. -/
theorem asked_after (isFile : Text → Bool) (cwd : Text) (groups : List (List Text))
    (fields : List Text) :
    let follower (groups : List (List Text)) :=
      (start Directories.empty).after (step isFile cwd) groups
    let f' := follower (groups ++ [fields])
    ∃ probes, f'.asked = probes.reverse ++ (follower groups).asked ∧
      (probes ≠ [] → ∃ r, NeedsPlace fields r ∧
        probes <+: f'.places.map (fun d => Path.join d r.source) ∧
        ∀ earlier g later s, groups = earlier ++ g :: later → NeedsPlace g s →
          s.source = r.source → (follower (earlier ++ [g])).places ≠ f'.places) := by
  intro follower f'
  cases hstep : (follower groups).step isFile cwd fields with
  | error e => exact ⟨[], congrArg asked (after_concat_of_error hstep), fun h => absurd rfl h⟩
  | ok next =>
    have hnext : f' = next.1 := after_concat_of_ok hstep
    obtain ⟨-, -, probes, hasked, hprobes⟩ :=
      step_memory (coherent_after isFile cwd groups) hstep
    rw [← hnext] at hasked hprobes
    refine ⟨probes, hasked, fun hne => ?_⟩
    obtain ⟨r, hneeds, hprefix, hnew⟩ := hprobes hne
    have hdirs : Directories.freshCandidates f'.directories.frames = f'.places :=
      freshCandidates_after (groups ++ [fields])
    rw [hdirs] at hprefix hnew
    refine ⟨r, hneeds, hprefix, fun earlier g later s hgroups hg hsource hsame => ?_⟩
    have hremembered : (s.source, (follower (earlier ++ [g])).places) ∈
        Table.keys (follower groups).resolved := mem_keys_of_earlier isFile cwd hgroups hg
    rw [hsource, hsame] at hremembered
    exact hnew hremembered

/-- After any groups a record's source is the file of its own path, or the one in the
first directory of the stack that holds it, or else in the record's own directory. That
is so in whatever working directory, and as if nothing were remembered: with everything
but the frames forgotten before every call, the outcomes and frames are the same. Paths
are asked about once for each directory at most, and only where the source was not looked
for among the same directories before. -/
theorem after_sources (isFile : Text → Bool) (cwd : Text) (groups : List (List Text))
    (fields : List Text) :
    let follower (groups : List (List Text)) :=
      (start Directories.empty).after (step isFile cwd) groups
    let f := follower groups
    let f' := follower (groups ++ [fields])
    let plain := (start Directories.empty).after
      (fun f fields => f.forget.step isFile cwd fields) groups
    (∀ r, Record.ofFields fields = .ok (.ok r) → r.source ≠ [] →
        f.step isFile cwd fields = .ok (f', .hit
          ⟨if Path.isAbsolute r.source then Path.normalize r.source
            else Path.normalize (Path.join
              ((f'.places.find? fun d => isFile (Path.join d r.source)).getD r.pwd) r.source),
            r.line, (f.directories.classify r.pwd r.oldpwd).2⟩)) ∧
      (∀ cwd', (start Directories.empty).after (step isFile cwd') groups = f ∧
        f.step isFile cwd' fields = f.step isFile cwd fields) ∧
      plain.directories.frames = f.directories.frames ∧
      shown (plain.forget.step isFile cwd fields) = shown (f.step isFile cwd fields) ∧
      f'.places.Nodup ∧
      ∃ probes, f'.asked = probes.reverse ++ f.asked ∧
        (probes ≠ [] → ∃ r, NeedsPlace fields r ∧
          probes <+: f'.places.map (fun d => Path.join d r.source) ∧
          ∀ earlier g later s, groups = earlier ++ g :: later → NeedsPlace g s →
            s.source = r.source → (follower (earlier ++ [g])).places ≠ f'.places) := by
  intro follower f f' plain
  have hf : f.Coherent isFile cwd := coherent_after isFile cwd groups
  have hplain : plain.directories.frames = f.directories.frames :=
    frames_after_forgetting isFile cwd groups
  refine ⟨fun r hr hsource => ?_, fun cwd' => ?_, hplain, ?_, Text.nodup_dedup _,
    asked_after isFile cwd groups fields⟩
  · obtain ⟨next, hstep⟩ := step_source hf hr hsource
    have hnext : f' = next := after_concat_of_ok hstep
    have hdirs : Directories.freshCandidates next.directories.frames = f'.places := by
      rw [← hnext]
      exact freshCandidates_after (groups ++ [fields])
    rw [hstep, hdirs, hnext]
  · have hgroups : ∀ g ∈ groups, ∀ r, Record.ofFields g = .ok (.ok r) →
        r ∈ Record.among (groups ++ [fields]) :=
      fun g hg r hr => Record.mem_among (List.mem_append_left _ hg) hr
    obtain ⟨hsame, hamong⟩ := after_cwd_congr isFile hgroups cwd cwd'
    have hcall : f.step isFile cwd fields = f.step isFile cwd' fields :=
      (step_congr (fun _ _ => rfl) cwd cwd' hamong fun r hr =>
        Record.mem_among (by simp) hr).1
    exact ⟨hsame.symm, hcall.symm⟩
  · have hforget : plain.forget = f.forget := by rw [forget, forget, hplain]
    rw [hforget]
    exact shown_forget_step hf fields

end Follower

end LineTrace
