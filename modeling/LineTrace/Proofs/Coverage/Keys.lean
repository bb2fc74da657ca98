/-
LineTrace.Proofs.Coverage.Keys — the files of a map are absolute normal paths.

Where every directory that a trace names is absolute, so is every directory that a source
is looked for in, since all of them were named by records. What is credited is the normal
form of the source as it is seen from one of them, and so it is a path of one or two
leading slashes and names, however the source is spelled. That needs no more than that what
is remembered was found in this way once (`Follower.Rooted`), so it holds also where files
come and go between the calls (`Rooted.path_of_mem_hitsOf`). Where they do not, it is known
which directory the source is seen from, its `home` (`Credited.path_eq`).

A file of a map is one text among others, and a map does nothing to it but compare it. So
what is true of the paths of hits is true of the files of every map that is made of them,
and two spellings are one file wherever their normal forms are one.
-/
import LineTrace.Proofs.Coverage.Merging
import LineTrace.Proofs.Path.Normal
import LineTrace.Proofs.Trace.Sources

namespace LineTrace

/-! ## 1. Absolute directories -/

/-- A frame with an absolute directory, and with another one before it, if with any. -/
def DirFrame.IsRooted (frame : DirFrame) : Prop :=
  Path.isAbsolute frame.pwd = true ∧ (frame.oldpwd ≠ [] → Path.isAbsolute frame.oldpwd = true)

/-- A record whose directories are absolute. -/
def Record.IsRooted (r : Record) : Prop := DirFrame.IsRooted ⟨r.pwd, r.oldpwd⟩

namespace Directories

variable {frames : List DirFrame} (h : ∀ frame ∈ frames, frame.IsRooted)

include h

theorem isRooted_of_mem_entered {r : Record} (hr : r.IsRooted) :
    ∀ frame ∈ entered frames r.pwd r.oldpwd, frame.IsRooted := by
  intro frame hframe
  rcases mem_entered hframe with rfl | hframe
  · exact hr
  · exact h frame hframe

theorem isAbsolute_of_mem_freshCandidates {d : Text} (hd : d ∈ freshCandidates frames) :
    Path.isAbsolute d = true := by
  obtain ⟨⟨frame, hframe, rfl | rfl⟩, hne⟩ := mem_freshCandidates.mp hd
  · exact (h frame hframe).1
  · exact (h frame hframe).2 hne

end Directories

namespace Follower

variable {isFile : Text → Bool} {cwd : Text}

/-! ## 2. Rooted followers -/

/-- A source's path is its normal form as it is seen from an absolute directory. -/
def IsPlaced (source path : Text) : Prop :=
  ∃ d, Path.isAbsolute d = true ∧ path = Path.normalize (Path.join d source)

theorem IsPlaced.isNormal {source path : Text} (h : IsPlaced source path) :
    Path.IsNormal path := by
  obtain ⟨d, hd, rfl⟩ := h
  exact Path.isNormal_normalize (Path.isAbsolute_join hd source)

/-- A follower whose directories are absolute and that remembers nothing but what was found
in absolute directories. -/
structure Rooted (f : Follower) : Prop where
  frames : ∀ frame ∈ f.directories.frames, frame.IsRooted
  fresh : f.directories.Fresh
  resolved : ∀ e ∈ f.resolved, IsPlaced e.1.1 e.2

theorem rooted_start : (start Directories.empty).Rooted where
  frames := fun _ h => by cases h
  fresh := Directories.fresh_of_known_eq_none rfl
  resolved := fun _ h => by cases h

/-- Whatever is a file, a source is found in an absolute directory. -/
theorem Rooted.isPlaced_placeOf {f : Follower} (hf : f.Rooted) (hne : f.directories.frames ≠ [])
    (isFile : Text → Bool) (cwd source : Text) :
    IsPlaced source (placeOf isFile cwd source
      (Directories.freshCandidates f.directories.frames)).1 := by
  obtain ⟨top, rest, htop⟩ := List.exists_cons_of_ne_nil hne
  have hpwd : Path.isAbsolute top.pwd = true := (hf.frames top (by simp [htop])).1
  have hnonempty : top.pwd ≠ [] := fun hnil => by
    rw [hnil] at hpwd
    cases hpwd
  obtain ⟨more, hmore⟩ := Directories.freshCandidates_cons hnonempty rest
  rw [← htop] at hmore
  rw [hmore, placeOf_eq]
  refine ⟨_, ?_, rfl⟩
  cases hfound : (top.pwd :: more).find? fun dir => isFile (Path.join dir source) with
  | none => exact hpwd
  | some d =>
    exact Directories.isAbsolute_of_mem_freshCandidates hf.frames
      (hmore ▸ List.mem_of_find?_eq_some hfound)

/-- What is remembered was found so at some time, whatever is a file by now. -/
theorem Rooted.resolve {f : Follower} (hf : f.Rooted) (hne : f.directories.frames ≠ [])
    (isFile : Text → Bool) (cwd source : Text) :
    (resolve isFile cwd f source).1.Rooted ∧
      IsPlaced source (resolve isFile cwd f source).2 := by
  cases habsolute : Path.isAbsolute source with
  | true =>
    obtain ⟨top, htop⟩ := List.exists_mem_of_ne_nil _ hne
    rw [Follower.resolve, if_pos habsolute]
    exact ⟨hf, top.pwd, (hf.frames top htop).1, by rw [Path.join, if_pos habsolute]⟩
  | false =>
    have hfresh : Directories.Fresh
        ⟨f.directories.frames, some (Directories.freshCandidates f.directories.frames)⟩ :=
      fun dirs hdirs => (Option.some.inj hdirs).symm
    cases hget : Table.get? (source, Directories.freshCandidates f.directories.frames)
      f.resolved with
    | some path =>
      rw [resolve_of_remembered hf.fresh habsolute hget]
      exact ⟨⟨hf.frames, hfresh, hf.resolved⟩, hf.resolved _ (Table.mem_of_get? hget)⟩
    | none =>
      have hplaced := hf.isPlaced_placeOf hne isFile cwd source
      rw [resolve_of_new hf.fresh habsolute hget]
      refine ⟨⟨hf.frames, hfresh, fun e he => ?_⟩, hplaced⟩
      rcases Table.mem_put he with rfl | he
      · exact hplaced
      · exact hf.resolved e he

/-- What one call keeps, and what its hit is. -/
theorem Rooted.step {f f' : Follower} (hf : f.Rooted) {fields : List Text}
    (hrooted : ∀ r, Record.ofFields fields = .ok (.ok r) → r.IsRooted) {o : Outcome}
    (hstep : f.step isFile cwd fields = .ok (f', o)) :
    f'.Rooted ∧ ∀ h, o = .hit h → ∃ r, Record.ofFields fields = .ok (.ok r) ∧
      IsPlaced r.source h.path := by
  cases hparsed : Record.ofFields fields with
  | error e =>
    rw [Follower.step, stepWith, hparsed] at hstep
    cases hstep
  | ok parsed =>
    cases parsed with
    | error reason =>
      rw [step_malformed f hparsed] at hstep
      cases hstep
      exact ⟨hf, fun h hh => by cases hh⟩
    | ok r =>
      obtain ⟨moved, hframes, hfresh, hrecord⟩ := f.step_record hparsed
      have hmoved : Rooted { f with directories := moved } :=
        ⟨hframes ▸ Directories.isRooted_of_mem_entered hf.frames (hrooted r hparsed),
          hfresh hf.fresh, hf.resolved⟩
      rw [hrecord] at hstep
      split at hstep
      · cases hstep
        exact ⟨hmoved, fun h hh => by cases hh⟩
      · obtain ⟨top, rest, htop, -⟩ :=
          Directories.entered_eq_cons f.directories.frames r.pwd r.oldpwd
        have hne : moved.frames ≠ [] := by
          rw [hframes, htop]
          exact List.cons_ne_nil top rest
        obtain ⟨hnext, hplaced⟩ := hmoved.resolve hne isFile cwd r.source
        cases hstep
        refine ⟨hnext, fun h hh => ⟨r, rfl, ?_⟩⟩
        cases hh
        exact hplaced

/-! ## 3. The hits of calls -/

/-- The hits of calls in turn, each with its own answers to what is a file; a call that ends
in a complaint has none. -/
def hitsOf (cwd : Text) : Follower → List ((Text → Bool) × List Text) → List Hit
  | _, [] => []
  | f, (isFile, fields) :: rest =>
    match f.step isFile cwd fields with
    | .error _ => hitsOf cwd f rest
    | .ok (next, o) => o.hit?.toList ++ hitsOf cwd next rest

/-- Over all calls hits are credited to paths in absolute directories. -/
theorem Rooted.path_of_mem_hitsOf {f : Follower} (hf : f.Rooted)
    {calls : List ((Text → Bool) × List Text)}
    (hrooted : ∀ r ∈ Record.among (calls.map Prod.snd), r.IsRooted) {h : Hit}
    (hh : h ∈ hitsOf cwd f calls) :
    ∃ r ∈ Record.among (calls.map Prod.snd), IsPlaced r.source h.path := by
  induction calls generalizing f with
  | nil => cases hh
  | cons call rest ih =>
    obtain ⟨isFile, fields⟩ := call
    have hmem : ∀ r, Record.ofFields fields = .ok (.ok r) →
        r ∈ Record.among (fields :: rest.map Prod.snd) := fun r hr =>
      Record.mem_among (List.mem_cons_self ..) hr
    have hrest : ∀ r ∈ Record.among (rest.map Prod.snd),
        r ∈ Record.among (fields :: rest.map Prod.snd) := fun r hr =>
      ((List.sublist_cons_self fields _).filterMap _).subset hr
    have hlater : ∀ next : Follower, next.Rooted → h ∈ hitsOf cwd next rest →
        ∃ r ∈ Record.among (fields :: rest.map Prod.snd), IsPlaced r.source h.path := by
      intro next hnext hh
      obtain ⟨r, hr, hplaced⟩ := ih hnext (fun r hr => hrooted r (hrest r hr)) hh
      exact ⟨r, hrest r hr, hplaced⟩
    rw [hitsOf] at hh
    cases hstep : f.step isFile cwd fields with
    | error e =>
      rw [hstep] at hh
      exact hlater f hf hh
    | ok result =>
      obtain ⟨next, o⟩ := result
      obtain ⟨hnext, hhit⟩ := hf.step (fun r hr => hrooted r (hmem r hr)) hstep
      rw [hstep] at hh
      rcases List.mem_append.mp hh with hh | hh
      · cases o <;> simp only [Outcome.hit?, Option.toList_none, Option.toList_some,
          List.not_mem_nil, List.mem_singleton] at hh
        obtain ⟨r, hr, hplaced⟩ := hhit h (hh ▸ rfl)
        exact ⟨r, hmem r hr, hplaced⟩
      · exact hlater next hnext hh

/-! ## 4. Answers that do not change -/

/-- A list is split at its head or behind it. -/
theorem exists_eq_append_cons_iff {α : Type} {p : List α → α → Prop} {x : α} {xs : List α} :
    (∃ before y later, x :: xs = before ++ y :: later ∧ p before y) ↔
      p [] x ∨ ∃ before y later, xs = before ++ y :: later ∧ p (x :: before) y := by
  constructor
  · rintro ⟨before, y, later, hsplit, hy⟩
    rcases List.cons_eq_append_iff.mp hsplit with ⟨rfl, hcons⟩ | ⟨before, rfl, hxs⟩
    · cases hcons
      exact .inl hy
    · exact .inr ⟨before, y, later, hxs, hy⟩
  · rintro (hx | ⟨before, y, later, rfl, hy⟩)
    · exact ⟨[], x, xs, rfl, hx⟩
    · exact ⟨x :: before, y, later, rfl, hy⟩

/-- Each hit is the outcome of the call for one group. -/
theorem mem_hitsOf {f : Follower} {groups : List (List Text)} {h : Hit} :
    h ∈ hitsOf cwd f (groups.map fun g => (isFile, g)) ↔
      ∃ before fields later, groups = before ++ fields :: later ∧
        ∃ next, (f.after (step isFile cwd) before).step isFile cwd fields =
          .ok (next, .hit h) := by
  induction groups generalizing f with
  | nil => simp [hitsOf]
  | cons fields rest ih =>
    have hafter : ∀ before, f.after (step isFile cwd) (fields :: before) =
        (((f.step isFile cwd fields).toOption.map Prod.fst).getD f).after (step isFile cwd)
          before := fun before => rfl
    rw [exists_eq_append_cons_iff, List.map_cons, hitsOf]
    simp only [hafter]
    cases hcall : f.step isFile cwd fields with
    | error e =>
      refine ih.trans (or_iff_right ?_).symm
      rintro ⟨next, hstep⟩
      cases hcall.symm.trans hstep
    | ok result =>
      obtain ⟨next, o⟩ := result
      rw [List.mem_append, ih]
      refine or_congr_left ?_
      rw [show f.after (step isFile cwd) [] = f from rfl, hcall]
      cases o <;> simp [Outcome.hit?, eq_comm]

/-- A run has these hits, as far as it goes. -/
theorem hits_run_prefix (isFile : Text → Bool) (cwd : Text) (f : Follower)
    (groups : List (List Text)) :
    (f.run isFile cwd groups).2.1.hits <+: hitsOf cwd f (groups.map fun g => (isFile, g)) := by
  have hrun : ∀ (groups : List (List Text)) (f : Follower) (t : Tally),
      ∃ hits, hits <+: hitsOf cwd f (groups.map fun g => (isFile, g)) ∧
        (f.runWith Directories.classify isFile cwd t groups).2.1.hits = t.hits.reverse ++ hits := by
    intro groups
    induction groups with
    | nil => exact fun f t => ⟨[], List.prefix_refl _, (List.append_nil _).symm⟩
    | cons fields rest ih =>
      intro f t
      rw [runWith, List.map_cons, hitsOf, step]
      cases hcall : f.stepWith Directories.classify isFile cwd fields with
      | error e => exact ⟨[], List.nil_prefix, (List.append_nil _).symm⟩
      | ok result =>
        obtain ⟨next, o⟩ := result
        obtain ⟨hits, hprefix, hhits⟩ := ih next (t.add o)
        refine ⟨o.hit?.toList ++ hits, (List.prefix_append_right_inj _).mpr hprefix, ?_⟩
        dsimp only
        rw [hhits]
        cases o <;> simp [Tally.add, Outcome.hit?]
  obtain ⟨hits, hprefix, hhits⟩ := hrun groups f Tally.empty
  rw [run, hhits]
  exact hprefix

/-- The directory that a record's source is seen from: the first one that holds it, and
else the record's own. -/
def home (isFile : Text → Bool) (f : Follower) (r : Record) : Text :=
  (f.places.find? fun d => isFile (Path.join d r.source)).getD r.pwd

/-- A hit of the groups is credited for a source as it is seen from a directory. -/
def Credited (isFile : Text → Bool) (cwd : Text) (groups : List (List Text)) (d source : Text)
    (h : Hit) : Prop :=
  ∃ before fields next r, before ++ [fields] <+: groups ∧
    ((start Directories.empty).after (step isFile cwd) before).step isFile cwd fields =
      .ok (next, .hit h) ∧
    Record.ofFields fields = .ok (.ok r) ∧ source = r.source ∧ d = next.home isFile r

/-- Only records with a source are hits. -/
theorem exists_record_of_hit {f next : Follower} {fields : List Text} {h : Hit}
    (hstep : f.step isFile cwd fields = .ok (next, .hit h)) :
    ∃ r, Record.ofFields fields = .ok (.ok r) ∧ r.source ≠ [] := by
  cases hparsed : Record.ofFields fields with
  | error e =>
    rw [step, stepWith, hparsed] at hstep
    cases hstep
  | ok parsed =>
    cases parsed with
    | error reason =>
      rw [step_malformed f hparsed] at hstep
      cases hstep
    | ok r =>
      refine ⟨r, rfl, fun hsource => ?_⟩
      obtain ⟨moved, -, -, hrecord⟩ := f.step_record hparsed
      rw [hrecord, if_pos hsource] at hstep
      cases hstep

/-- What is credited is the normal form of the source as it is seen from its home. -/
theorem path_of_step {groups : List (List Text)} {fields : List Text} {next : Follower} {h : Hit}
    {r : Record} (hr : Record.ofFields fields = .ok (.ok r))
    (hstep : ((start Directories.empty).after (step isFile cwd) groups).step isFile cwd fields =
      .ok (next, .hit h)) :
    h.path = Path.normalize (Path.join (next.home isFile r) r.source) := by
  obtain ⟨s, hs, hsource⟩ := exists_record_of_hit hstep
  obtain rfl : r = s := by simpa [hr] using hs
  have hplaces : Directories.freshCandidates next.directories.frames = next.places := by
    rw [← after_concat_of_ok hstep]
    exact freshCandidates_after (groups ++ [fields])
  obtain ⟨found, hfound⟩ := step_source (coherent_after isFile cwd groups) hr hsource
  rw [hstep] at hfound
  cases hfound
  dsimp only
  rw [hplaces, home]
  split
  · rw [Path.join, if_pos ‹_›]
  · rfl

theorem Credited.path_eq {groups : List (List Text)} {d source : Text} {h : Hit}
    (hcredited : Credited isFile cwd groups d source h) :
    h.path = Path.normalize (Path.join d source) := by
  obtain ⟨before, fields, next, r, -, hstep, hr, rfl, rfl⟩ := hcredited
  exact path_of_step hr hstep

theorem exists_credited {groups : List (List Text)} {h : Hit}
    (hh : h ∈ hitsOf cwd (start Directories.empty) (groups.map fun g => (isFile, g))) :
    ∃ d source, Credited isFile cwd groups d source h := by
  obtain ⟨before, fields, later, rfl, next, hstep⟩ := mem_hitsOf.mp hh
  obtain ⟨r, hr, -⟩ := exists_record_of_hit hstep
  exact ⟨_, _, before, fields, next, r, by simp, hstep, hr, rfl, rfl⟩

end Follower

/-! ## 5. Files of maps -/

namespace Coverage

/-- What is written out of a map names each of its files once. -/
theorem sortedHits_files_perm (c : Coverage) :
    (c.sortedHits.map Prod.fst).Perm c.files.keys := by
  rw [sortedHits, List.map_map]
  exact (List.map_id c.paths).symm ▸ List.mergeSort_perm _ _

/-- Where all records of a trace name absolute directories, every hit is credited to an
absolute normal path, that of its source as it is seen from an absolute directory; that is
so even if files come and go between the calls. Where they do not, sources of one normal
form that are seen from one directory, and absolute sources wherever they are seen from, are
credited to one path. The files of a map of the hits are those paths, and no two of them are
spellings of one. They are its files as they are: a merge with any map has the files of
both, of the files below a directory each is one of them, and what is written out is they
in order. -/
theorem files_of_hits {calls : List ((Text → Bool) × List Text)}
    (hrooted : ∀ r ∈ Record.among (calls.map Prod.snd), r.IsRooted) (cwd : Text)
    (countHits : Bool) :
    let begin := Follower.start Directories.empty
    let hits := begin.hitsOf cwd calls
    let c := (empty countHits).addHits hits
    (∀ h ∈ hits, Path.isAbsolute h.path = true ∧ Path.normalize h.path = h.path ∧
        Path.IsNormal h.path) ∧
      (∀ isFile groups, calls = groups.map (fun g => (isFile, g)) →
        (begin.run isFile cwd groups).2.1.hits <+: hits ∧
        (∀ h ∈ hits, ∃ d source, Follower.Credited isFile cwd groups d source h) ∧
        ∀ h h' d d' source source', Follower.Credited isFile cwd groups d source h →
          Follower.Credited isFile cwd groups d' source' h' →
          (Path.normalize (Path.join d source) = Path.normalize (Path.join d' source') ∨
            Path.normalize source = Path.normalize source' ∧
              (d = d' ∨ Path.isAbsolute source = true)) → h.path = h'.path) ∧
      (c.files.keys.Nodup ∧ (∀ p, p ∈ c.files.keys ↔ ∃ h ∈ hits, h.path = p) ∧
        ∀ p ∈ c.files.keys, ∀ q ∈ c.files.keys, Path.normalize p = Path.normalize q → p = q) ∧
      (∀ (other : Coverage) p,
        (p ∈ (other.merge c).files.keys ↔ p ∈ other.files.keys ∨ p ∈ c.files.keys) ∧
        (p ∈ (c.merge other).files.keys ↔
          p ∈ c.files.keys ∨ (p ∈ other.files.keys ∧ other.lines p ≠ []))) ∧
      (∀ root, (c.restrictTo root).files.keys =
        c.files.keys.filter fun p => (below root).isPrefixOf p) ∧
      (c.sortedHits.map Prod.fst).Perm c.files.keys := by
  intro begin hits c
  have hwell : WellCounted c := (WellCounted.empty countHits).addHits hits
  have hnormal : ∀ h ∈ hits, Path.IsNormal h.path := by
    intro h hh
    obtain ⟨r, -, hplaced⟩ := Follower.rooted_start.path_of_mem_hitsOf hrooted hh
    exact hplaced.isNormal
  have hfiles : ∀ p, p ∈ c.files.keys ↔ ∃ h ∈ hits, h.path = p := fun p =>
    mem_paths.symm.trans mem_paths_addHits
  have hfixed : ∀ p ∈ c.files.keys, Path.normalize p = p := by
    intro p hp
    obtain ⟨h, hh, rfl⟩ := (hfiles p).mp hp
    exact (Path.isNormal_iff.mp (hnormal h hh)).2
  refine ⟨fun h hh => ?_, fun isFile groups hcalls => ⟨?_, fun h hh => ?_, ?_⟩,
    ⟨hwell.proper.files, hfiles, fun p hp q hq heq => ?_⟩,
    fun other p => ⟨?_, mem_files_merge⟩, keys_restrictTo c, sortedHits_files_perm c⟩
  · obtain ⟨habsolute, hpath⟩ := Path.isNormal_iff.mp (hnormal h hh)
    exact ⟨habsolute, hpath, hnormal h hh⟩
  · subst hcalls
    exact Follower.hits_run_prefix isFile cwd begin groups
  · subst hcalls
    exact Follower.exists_credited hh
  · intro h h' d d' source source' hh hh' hsame
    rw [hh.path_eq, hh'.path_eq]
    rcases hsame with hspelled | ⟨hsource, rfl | habsolute⟩
    · exact hspelled
    · exact Path.normalize_join_congr d hsource
    · have habsolute' : Path.isAbsolute source' = true := by
        rw [← Path.isAbsolute_normalize, ← hsource, Path.isAbsolute_normalize, habsolute]
      rwa [Path.join, if_pos habsolute, Path.join, if_pos habsolute']
  · rw [← hfixed p hp, heq, hfixed q hq]
  · rw [mem_files_merge]
    exact or_congr_right ⟨And.left, fun hp => ⟨hp, hwell.lines_ne_nil hp⟩⟩

/-- Two spellings from one directory that climb above the root, the second one with another
answer to what is a file, and an absolute one with more slashes and one at its end. -/
theorem files_of_hits_spelled :
    let calls : List ((Text → Bool) × List Text) :=
      [(fun _ => false, ["1", "../../../a//b.sh", "/p/q", ""]), (fun _ => true, ["2"]),
        (fun _ => true, ["2", "./.././../x/.././../a/b.sh/", "/p/q", ""]),
        (fun _ => false, ["3", "///a/./c/../b.sh/", "/r", "/p/q"])]
    let hits := (Follower.start Directories.empty).hitsOf "/" calls
    let c := (empty true).addHits hits
    (∀ r ∈ Record.among (calls.map Prod.snd), r.IsRooted) ∧
      hits.map Hit.path = (["/a/b.sh", "/a/b.sh", "/a/b.sh"] : List Text) ∧
      (∀ h ∈ hits, Path.IsNormal h.path) ∧ c.files.keys = (["/a/b.sh"] : List Text) ∧
      (c.restrictTo "/a").files.keys = (["/a/b.sh"] : List Text) := by
  intro calls hits c
  have hrooted : ∀ r ∈ Record.among (calls.map Prod.snd), r.IsRooted := by
    unfold Record.IsRooted DirFrame.IsRooted
    decide
  have hkeys : c.files.keys = (["/a/b.sh"] : List Text) := by rfl
  obtain ⟨hnormal, -, -, -, hrestrict, -⟩ := files_of_hits hrooted "/" true
  refine ⟨hrooted, by rfl, fun h hh => (hnormal h hh).2.2, hkeys, ?_⟩
  rw [hrestrict, hkeys]
  rfl

end Coverage

end LineTrace
