/-
LineTrace.Proofs.Trace.Mentions — what a trace asks of the files around it.

Following a trace asks of some paths whether they are files, and learns nothing else
that is not in the trace. The paths can be told beforehand: a relative source of one
record, seen from a directory of the same record or of another (`mentionedBy`). So
where the same of them are files, the same is drained (`drain_congr`), in whatever
working directory.

A candidate directory is always that of a record, since a frame is only ever made from
one. `Roams` says this of the stack; it is what one group keeps to
(`Follower.step_congr`), and the whole trace by induction (`Follower.runWith_congr`).

Reads that fail too early, or ask for nothing that can be had, still give a beginning of
the log (`bytesRead_limited_beginning`, `bytesRead_readsBy_beginning`), and a beginning mentions
nothing that the whole log does not.
-/
import LineTrace.Proofs.Trace.Prefixes

namespace LineTrace

/-! ## 1. Paths of records -/

/-- The records among groups. -/
def Record.among (groups : List (List Text)) : List Record :=
  groups.filterMap fun fields => (Record.ofFields fields).toOption.bind Except.toOption

/-- The directories that records name. -/
def Record.directories (rs : List Record) : List Text :=
  (rs.flatMap fun r => [r.pwd, r.oldpwd]).filter (· ≠ [])

/-- The paths at which sources of records may be looked for. -/
def Record.mentionedBy (rs : List Record) : List Text :=
  (rs.filter fun r => r.source ≠ [] ∧ Path.isAbsolute r.source = false).flatMap fun r =>
    (directories rs).map fun d => Path.join d r.source

theorem Record.mem_among {groups : List (List Text)} {fields : List Text} {r : Record}
    (hfields : fields ∈ groups) (h : Record.ofFields fields = .ok (.ok r)) : r ∈ among groups :=
  List.mem_filterMap.mpr ⟨fields, hfields, by rw [h]; rfl⟩

theorem Record.mem_mentionedBy {rs : List Record} {r : Record} (hr : r ∈ rs)
    (hsource : r.source ≠ []) (hrelative : Path.isAbsolute r.source = false) {d : Text}
    (hd : d ∈ directories rs) : Path.join d r.source ∈ mentionedBy rs :=
  List.mem_flatMap.mpr ⟨r, List.mem_filter.mpr ⟨hr, by simp [hsource, hrelative]⟩,
    List.mem_map.mpr ⟨d, hd, rfl⟩⟩

/-! ## 2. Candidates -/

namespace Directories

theorem mem_entered {frames : List DirFrame} {pwd oldpwd : Text} {frame : DirFrame}
    (h : frame ∈ entered frames pwd oldpwd) : frame = ⟨pwd, oldpwd⟩ ∨ frame ∈ frames := by
  rw [entered] at h
  split at h
  · exact .inr ((List.dropWhile_sublist _).subset h)
  · exact List.mem_cons.mp h

/-- The directories to look in are those of the frames, but for an empty one. -/
theorem mem_freshCandidates {frames : List DirFrame} {d : Text} :
    d ∈ freshCandidates frames ↔
      (∃ frame ∈ frames, frame.pwd = d ∨ frame.oldpwd = d) ∧ d ≠ [] := by
  rw [freshCandidates, Text.mem_dedup, List.mem_filter, List.mem_append, List.mem_map,
    List.mem_map, decide_eq_true_iff, ← exists_or]
  simp only [and_or_left]

/-- The stack was made from records. -/
def Roams (rs : List Record) (d : Directories) : Prop :=
  ∀ frame ∈ d.frames, ∃ r ∈ rs, frame = ⟨r.pwd, r.oldpwd⟩

theorem Roams.mem_directories {rs : List Record} {d : Directories} (h : d.Roams rs) {dir : Text}
    (hdir : dir ∈ freshCandidates d.frames) : dir ∈ Record.directories rs := by
  obtain ⟨⟨frame, hmem, hframe⟩, hne⟩ := mem_freshCandidates.mp hdir
  obtain ⟨r, hr, rfl⟩ := h frame hmem
  refine List.mem_filter.mpr ⟨List.mem_flatMap.mpr ⟨r, hr, ?_⟩, decide_eq_true hne⟩
  rcases hframe with rfl | rfl <;> simp

theorem Roams.entered {rs : List Record} {d moved : Directories} (h : d.Roams rs) {r : Record}
    (hr : r ∈ rs) (hframes : moved.frames = entered d.frames r.pwd r.oldpwd) :
    moved.Roams rs := by
  intro frame hframe
  rw [hframes] at hframe
  rcases mem_entered hframe with rfl | hframe
  · exact ⟨r, hr, rfl⟩
  · exact h frame hframe

end Directories

/-! ## 3. Following -/

namespace Follower

variable {isFile isFile' : Text → Bool}

theorem firstFile_congr {paths : List Text} (h : ∀ p ∈ paths, isFile p = isFile' p)
    (asked : List Text) : firstFile isFile asked paths = firstFile isFile' asked paths := by
  induction paths generalizing asked with
  | nil => rfl
  | cons p paths ih =>
    rw [firstFile, firstFile, h p (by simp), ih fun q hq => h q (by simp [hq])]

/-- Where there is a candidate, the working directory is nothing to a source. -/
theorem placeOf_congr (cwd cwd' : Text) {source d : Text} {dirs : List Text}
    (h : ∀ dir ∈ d :: dirs, isFile (Path.join dir source) = isFile' (Path.join dir source)) :
    placeOf isFile cwd source (d :: dirs) = placeOf isFile' cwd' source (d :: dirs) := by
  have hpaths : ∀ p ∈ (d :: dirs).map fun dir => Path.join dir source, isFile p = isFile' p := by
    intro p hp
    obtain ⟨dir, hdir, rfl⟩ := List.mem_map.mp hp
    exact h dir hdir
  simp only [placeOf, firstFile_congr hpaths]
  split <;> simp_all

/-- What a follower has to do with records: its stack is made from them, and what is
kept with the stack is up to date. -/
structure Among (rs : List Record) (f : Follower) : Prop where
  fresh : f.directories.Fresh
  roams : f.directories.Roams rs

theorem among_start (rs : List Record) : (start Directories.empty).Among rs :=
  ⟨Directories.fresh_of_known_eq_none rfl, by simp [start, Directories.empty, Directories.Roams]⟩

/-- A source is resolved alike where the same paths are files. -/
theorem resolve_congr {rs : List Record} (h : ∀ p ∈ Record.mentionedBy rs, isFile p = isFile' p)
    (cwd cwd' : Text) {f : Follower} (hf : f.Among rs) {r : Record} (hr : r ∈ rs)
    (hsource : r.source ≠ []) {top : DirFrame} {rest : List DirFrame}
    (hframes : f.directories.frames = top :: rest) (htop : top.pwd ≠ []) :
    resolve isFile cwd f r.source = resolve isFile' cwd' f r.source ∧
      (resolve isFile cwd f r.source).1.Among rs := by
  have hcandidates := Directories.candidates_of_fresh hf.fresh
  have hfresh := Directories.fresh_candidates hf.fresh
  rw [hcandidates] at hfresh
  -- The top of the stack names a directory, so there is a candidate, and the working
  -- directory is not asked about.
  obtain ⟨more, hmore⟩ := Directories.freshCandidates_cons htop rest
  rw [resolve, resolve, hcandidates]
  split
  · exact ⟨rfl, hf⟩
  · rename_i hrelative
    have hplace : placeOf isFile cwd r.source (Directories.freshCandidates f.directories.frames) =
        placeOf isFile' cwd' r.source (Directories.freshCandidates f.directories.frames) := by
      have hdirs : ∀ dir ∈ Directories.freshCandidates f.directories.frames,
          isFile (Path.join dir r.source) = isFile' (Path.join dir r.source) := fun dir hdir =>
        h _ (Record.mem_mentionedBy hr hsource (Bool.eq_false_iff.mpr hrelative)
          (hf.roams.mem_directories hdir))
      rw [hframes, hmore] at hdirs ⊢
      exact placeOf_congr cwd cwd' hdirs
    dsimp only
    rw [hplace]
    split
    · exact ⟨rfl, hfresh, hf.roams⟩
    · exact ⟨rfl, hfresh, hf.roams⟩

/-- A group is the same outcome where the same paths are files. -/
theorem step_congr {rs : List Record} (h : ∀ p ∈ Record.mentionedBy rs, isFile p = isFile' p)
    (cwd cwd' : Text) {f : Follower} (hf : f.Among rs) {fields : List Text}
    (hfields : ∀ r, Record.ofFields fields = .ok (.ok r) → r ∈ rs) :
    f.step isFile cwd fields = f.step isFile' cwd' fields ∧
      ∀ f' o, f.step isFile cwd fields = .ok (f', o) → f'.Among rs := by
  cases hparsed : Record.ofFields fields with
  | error e =>
    simp [step, stepWith, hparsed]
  | ok parsed =>
    cases parsed with
    | error reason =>
      rw [step_malformed f hparsed, step_malformed f hparsed]
      refine ⟨rfl, fun f' o hstep => ?_⟩
      cases hstep
      exact hf
    | ok r =>
      obtain ⟨moved, hframes, hfresh, hstep⟩ := f.step_record hparsed
      have hr := hfields r hparsed
      have hmoved : Among rs { f with directories := moved } :=
        ⟨hfresh hf.fresh, hf.roams.entered hr hframes⟩
      rw [hstep, hstep]
      by_cases hsource : r.source = []
      · rw [if_pos hsource, if_pos hsource]
        refine ⟨rfl, fun f' o hstep => ?_⟩
        cases hstep
        exact hmoved
      · obtain ⟨top, rest, htop, hpwd⟩ :=
          Directories.entered_eq_cons f.directories.frames r.pwd r.oldpwd
        obtain ⟨hresolve, hfound⟩ := resolve_congr h cwd cwd' hmoved hr hsource
          (hframes.trans htop) (by rw [hpwd]; exact Record.pwd_ne_of_ofFields hparsed)
        rw [if_neg hsource, if_neg hsource, ← hresolve]
        refine ⟨rfl, fun f' o hstep => ?_⟩
        cases hstep
        exact hfound

/-- A whole trace has the same outcomes where the same paths are files. -/
theorem runWith_congr {rs : List Record} (h : ∀ p ∈ Record.mentionedBy rs, isFile p = isFile' p)
    (cwd cwd' : Text) {groups : List (List Text)}
    (hgroups : ∀ fields ∈ groups, ∀ r, Record.ofFields fields = .ok (.ok r) → r ∈ rs)
    {f : Follower} (hf : f.Among rs) (t : Tally) :
    f.runWith Directories.classify isFile cwd t groups =
      f.runWith Directories.classify isFile' cwd' t groups := by
  induction groups generalizing f t with
  | nil => rfl
  | cons fields groups ih =>
    -- Both runs take the same step, and what it leaves is made from these records again.
    obtain ⟨hstep, hnext⟩ := step_congr h cwd cwd' hf (hgroups fields (by simp))
    rw [step, step] at hstep
    rw [runWith, runWith, ← hstep]
    split
    · rfl
    · rename_i f' o hok
      exact ih (fun x hx => hgroups x (by simp [hx])) (hnext f' o hok) _

end Follower

/-! ## 4. Reads of a log -/

/-- Where a whole number is to be asked for, it is above zero. -/
theorem readSize_pos {v : Setting} {n : Int} (h : readSize v = .ok (some n)) : 0 < n := by
  unfold readSize at h
  dsimp only at h
  split at h
  · split at h
    · rename_i hpos
      cases h
      exact hpos
    · cases h
  · split at h
    · cases h
      exact Int.one_pos
    · cases h
  · split at h <;> cases h
  · cases h

/-- Reads of which only some succeed give a beginning of what all of them give. -/
theorem bytesRead_limited_beginning (limit : Option (Nat × Fault))
    (reads : List (Except Fault Bytes)) :
    bytesRead (limited limit reads) <+: bytesRead reads := by
  have htake : ∀ (n : Nat) (e : Fault) (reads : List (Except Fault Bytes)),
      bytesRead (reads.take n ++ [.error e]) <+: bytesRead reads := by
    intro n e reads
    induction reads generalizing n with
    | nil => simp [bytesRead]
    | cons read reads ih =>
      cases n with
      | zero => simp [bytesRead]
      | succ n =>
        rw [List.take_succ_cons, List.cons_append]
        cases read with
        | error e' => simp [bytesRead]
        | ok chunk =>
          rw [bytesRead, bytesRead]
          split
          · exact List.prefix_refl _
          · exact (List.prefix_append_right_inj chunk).mpr (ih n)
  rcases limit with _ | ⟨n, e⟩
  · exact List.prefix_refl _
  · rw [limited]
    split
    · exact htake n e reads
    · exact List.prefix_refl _

/-- However much is asked for at a time, reads give a beginning of the log. -/
theorem bytesRead_readsBy_beginning (room : Nat) (size : Option Int) (log : Bytes) :
    bytesRead (readsBy room size log) <+: log := by
  cases size with
  | none => simp [readsBy, bytesRead]
  | some n =>
    rw [readsBy]
    split
    · simp [bytesRead]
    · by_cases hpos : 0 < n.toNat
      · simp only [(bytesRead_readsOf hpos log).1, List.prefix_rfl]
      · rw [readsOf, chunks, dif_neg (by omega)]
        simp [bytesRead]

theorem readFailure?_limited_error (limit : Option (Nat × Fault)) (e : Fault) :
    readFailure? (limited limit [.error e]) ≠ none := by
  rcases limit with _ | ⟨n, e'⟩
  · exact Option.some_ne_none e
  · rw [limited]
    split
    · rename_i hn
      rw [List.length_singleton, Nat.lt_one_iff] at hn
      rw [hn]
      exact Option.some_ne_none e'
    · exact Option.some_ne_none e

/-- Reads of which none fails give the log. -/
theorem bytesRead_of_not_failing {v : Setting} {size : Option Int} (hsize : readSize v = .ok size)
    {room : Nat} {limit : Option (Nat × Fault)} {log : Bytes}
    (h : readFailure? (limited limit (readsBy room size log)) = none) :
    bytesRead (limited limit (readsBy room size log)) = log := by
  cases size with
  | none => exact absurd h (readFailure?_limited_error limit _)
  | some n =>
    have hpos := readSize_pos hsize
    rw [readsBy] at h ⊢
    split at h
    · exact absurd h (readFailure?_limited_error limit _)
    · rcases bytesRead_limited (Int.pos_iff_toNat_pos.mp hpos) limit log with
        ⟨-, hlog⟩ | ⟨k, e, -, hfailure, -⟩
      · exact hlog
      · rw [h] at hfailure
        cases hfailure

namespace TraceFormat

variable {f : TraceFormat}

/-- Where reads give a beginning, there is a beginning of the groups. -/
theorem groups_scan_prefix {ε : Type} {reads reads' : List (Except ε Bytes)}
    (h : bytesRead reads <+: bytesRead reads') :
    (f.scan reads).groups <+: (f.scan reads').groups := by
  cases hseparator : f.separatorBytes with
  | error e =>
    rw [scan, hseparator]
    exact List.nil_prefix
  | ok separator =>
    cases hdelimiter : f.delimiterBytes with
    | error e =>
      rw [scan, hseparator, hdelimiter]
      exact List.nil_prefix
    | ok delimiter =>
      have hf := isAscii_of_bytes hseparator hdelimiter
      rw [scan_eq hf, scan_eq hf]
      exact Wire.groups_prefix h

/-- The groups of a log that is read at once. -/
def groupsOf (f : TraceFormat) (log : Bytes) : List (List Text) :=
  (f.scan [(.ok log : Except LineTrace.Fault Bytes)]).groups.map Group.fields

/-- The paths that a log mentions. -/
def mentioned (f : TraceFormat) (log : Bytes) : List Text :=
  Record.mentionedBy (Record.among (f.groupsOf log))

end TraceFormat

/-! ## 5. Draining -/

section Drains

variable {f : TraceFormat} {isFile isFile' : Text → Bool} {log : Bytes}
  {reads : List (Except Fault Bytes)}

/-- What is drained of a log, or of a beginning of it, depends only on which of the paths
are files that the log mentions. -/
theorem drain_congr (h : ∀ p ∈ f.mentioned log, isFile p = isFile' p)
    (hreads : bytesRead reads <+: log) (cwd cwd' : Text) (countHits : Bool) :
    drain f isFile cwd countHits reads = drain f isFile' cwd' countHits reads := by
  have hlog : bytesRead [(.ok log : Except Fault Bytes)] = log := by
    rw [bytesRead]
    split
    · rename_i hnil
      exact hnil.symm
    · exact List.append_nil log
  have hgroups : (f.scan reads).groups <+: (f.scan [(.ok log : Except Fault Bytes)]).groups :=
    TraceFormat.groups_scan_prefix (by rwa [hlog])
  -- The reads may end early, so there may be fewer records than the log mentions.
  have hrecords : ∀ fields ∈ (f.scan reads).groups.map Group.fields, ∀ r,
      Record.ofFields fields = .ok (.ok r) → r ∈ Record.among (f.groupsOf log) :=
    fun fields hfields _ => Record.mem_among ((hgroups.map Group.fields).subset hfields)
  have hrun : (Follower.start Directories.empty).run isFile cwd
        ((f.scan reads).groups.map Group.fields) =
      (Follower.start Directories.empty).run isFile' cwd'
        ((f.scan reads).groups.map Group.fields) :=
    Follower.runWith_congr h cwd cwd' hrecords (Follower.among_start _) Tally.empty
  rw [drain, drain]
  simp only [hrun]

/-- What is drained of reads depends on what they give and how they end. -/
theorem drain_of_same_bytes {reads' : List (Except Fault Bytes)}
    (hbytes : bytesRead reads = bytesRead reads')
    (hfailure : readFailure? reads = readFailure? reads') (cwd : Text) (countHits : Bool) :
    drain f isFile cwd countHits reads = drain f isFile cwd countHits reads' := by
  rw [drain, drain, TraceFormat.scan_congr hbytes hfailure]

end Drains

end LineTrace
