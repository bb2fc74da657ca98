/-
LineTrace.Proofs.Config.Usable — what is loaded can be used.

A setting comes from the defaults, from a file or from the environment, and may be of any
kind until it is checked. Two things must not come out of that: a fault that is not put as
bad input, and a setting that passes the check and fails a run.

Each step on the way either goes on with what it gives or ends in a fault, and `Gives`
says both at once. So there is one lemma for each step, and they are put together as the
steps are (`Gives.bind`).

The check has faults that are no bad input, for paths that are neither texts nor nothing.
They cannot happen: a path is read leniently wherever it comes from, and is one of the two
from then on (`Draft.HasPaths`). That rests on tables that name nothing twice
(`Setting.Distinct`), so that the entry that was read is the one that is taken over. A
draft that passes writes down the settings that come out of it (`gives_check`), so it has
nothing of another kind in it than they have.

`Draft.settle_ofTable` puts this together for any table. A file is the case of a table
that was read from a text (`Config.gives_load_of_read`).
-/
import LineTrace.Config.Load
import LineTrace.Proofs.Config.Distinct
import LineTrace.Proofs.Coverage.Format
import LineTrace.Proofs.Run.Draining
import LineTrace.Proofs.Table

namespace LineTrace

/-! ## 1. Steps that may end in a fault -/

/-- A result is of a kind, or its fault is of another. -/
def Gives {α : Type} (Bad : Fault → Prop) (r : Except Fault α) (P : α → Prop) : Prop :=
  match r with
  | .ok a => P a
  | .error e => Bad e

namespace Gives

variable {α β : Type} {Bad Bad' : Fault → Prop} {P P' : α → Prop} {Q : β → Prop}
  {r : Except Fault α}

theorem of_ok {a : α} (h : Gives Bad r P) (hr : r = .ok a) : P a := by
  rw [hr] at h
  exact h

theorem of_error {e : Fault} (h : Gives Bad r P) (hr : r = .error e) : Bad e := by
  rw [hr] at h
  exact h

theorem mono (h : Gives Bad r P) (hbad : ∀ e, Bad e → Bad' e) (hP : ∀ a, P a → P' a) :
    Gives Bad' r P' := by
  cases r with
  | error e => exact hbad e h
  | ok a => exact hP a h

theorem bind {f : α → Except Fault β} (h : Gives Bad r P)
    (hf : ∀ a, P a → Gives Bad (f a) Q) : Gives Bad (r >>= f) Q := by
  cases r with
  | error e => exact h
  | ok a => exact hf a h

theorem map {f : α → β} (h : Gives Bad r P) (hf : ∀ a, P a → Q (f a)) :
    Gives Bad (r.map f) Q := by
  cases r with
  | error e => exact h
  | ok a => exact hf a h

end Gives

/-! ## 2. Reading -/

/-- A setting that is a path or nothing. -/
def Setting.IsPath (v : Setting) : Prop := ∃ p, v = pathSetting p

/-- Both paths of a draft are paths or nothing. -/
structure Draft.HasPaths (d : Draft) : Prop where
  tmpDir : d.trace.tmpDir.IsPath
  rootDirectory : d.coverage.rootDirectory.IsPath

theorem Draft.hasPaths_default : Draft.default.HasPaths := ⟨⟨none, rfl⟩, ⟨none, rfl⟩⟩

theorem gives_lenientFlag (name : Text) (v : Setting) :
    Gives Fault.IsBadInput (lenientFlag name v) fun _ => True := by
  unfold lenientFlag
  split
  · trivial
  · split
    · trivial
    · exact ⟨_, rfl⟩
  · exact ⟨_, rfl⟩

theorem gives_lenientPath (name : Text) (v : Setting) :
    Gives Fault.IsBadInput (lenientPath name v) Setting.IsPath := by
  unfold lenientPath
  split
  · exact ⟨none, rfl⟩
  · exact ⟨_, rfl⟩
  · exact ⟨_, rfl⟩

theorem gives_sectionOf {data : List (Text × Setting)} (h : (Setting.table data).Distinct)
    (name : Text) :
    Gives Fault.IsBadInput (sectionOf name data) fun es => (Table.keys es).Nodup := by
  unfold sectionOf
  split
  · exact List.nodup_nil
  · rename_i es hes
    exact (Setting.distinct_table_iff.mp (h.get? hes)).1
  · exact ⟨_, rfl⟩

/-- Of entries that name nothing twice, the one that is read leniently is what it was
read as. -/
theorem gives_lenient {read : Text → Setting → Except Fault Setting} {P : Setting → Prop}
    (hread : ∀ name v, Gives Fault.IsBadInput (read name v) P) (section_ name : Text)
    {es : List (Text × Setting)} (hes : (Table.keys es).Nodup) :
    Gives Fault.IsBadInput (lenient read section_ name es) fun es' =>
      (Table.keys es').Nodup ∧ ∀ v, (name, v) ∈ es' → P v := by
  unfold lenient
  split
  · rename_i hnone
    refine ⟨hes, fun v hv => ?_⟩
    rw [Table.get?_of_mem hes hv] at hnone
    cases hnone
  · refine (hread _ _).map fun v hv => ⟨Table.nodup_keys_put name v hes, fun w hw => ?_⟩
    have hget := Table.get?_of_mem (Table.nodup_keys_put name v hes) hw
    rw [Table.get?_put, if_pos rfl] at hget
    cases hget
    exact hv

/-- What every entry keeps holds once all are taken over. -/
theorem assignAll_induction {δ : Type} {section_ : Text} {set? : δ → Text → Setting → Option δ}
    {P : δ → Prop} {es : List (Text × Setting)}
    (hset : ∀ d d' name v, (name, v) ∈ es → P d → set? d name v = some d' → P d')
    {d d' : δ} (hd : P d) (h : assignAll section_ set? d es = .ok d') : P d' := by
  induction es generalizing d with
  | nil =>
    cases h
    exact hd
  | cons entry es ih =>
    obtain ⟨name, v⟩ := entry
    rw [assignAll] at h
    split at h
    · rename_i next hnext
      exact ih (fun d d' name v hmem => hset d d' name v (List.mem_cons_of_mem _ hmem))
        (hset d next name v (List.mem_cons_self ..) hd hnext) h
    · cases h

theorem TraceDraft.isPath_of_set? {d d' : TraceDraft} {name : Text} {v : Setting}
    (h : d.set? name v = some d') (hd : d.tmpDir.IsPath) (hv : name = "tmp_dir" → v.IsPath) :
    d'.tmpDir.IsPath := by
  unfold TraceDraft.set? at h
  split_ifs at h with _ _ _ _ _ hname
  all_goals cases h
  · exact hd
  · exact hd
  · exact hd
  · exact hd
  · exact hd
  · exact hv hname

theorem CoverageDraft.isPath_of_set? {d d' : CoverageDraft} {name : Text} {v : Setting}
    (h : d.set? name v = some d') (hd : d.rootDirectory.IsPath)
    (hv : name = "root_directory" → v.IsPath) : d'.rootDirectory.IsPath := by
  unfold CoverageDraft.set? at h
  split_ifs at h with _ hname
  all_goals cases h
  · exact hd
  · exact hv hname

theorem Draft.hasPaths_of_ofSections {trace coverage : List (Text × Setting)} {d : Draft}
    (h : Draft.ofSections trace coverage = .ok d)
    (htrace : ∀ v, (("tmp_dir" : Text), v) ∈ trace → v.IsPath)
    (hcoverage : ∀ v, (("root_directory" : Text), v) ∈ coverage → v.IsPath) : d.HasPaths := by
  unfold Draft.ofSections at h
  cases ht : assignAll "TracePolicy" TraceDraft.set? TraceDraft.default trace with
  | error e =>
    rw [ht] at h
    cases h
  | ok t =>
    rw [ht] at h
    cases hc : assignAll "CoveragePolicy" CoverageDraft.set? CoverageDraft.default coverage with
    | error e =>
      rw [hc] at h
      cases h
    | ok c =>
      rw [hc] at h
      cases h
      refine ⟨assignAll_induction (P := fun t => t.tmpDir.IsPath) ?_ ⟨none, rfl⟩ ht,
        assignAll_induction (P := fun c => c.rootDirectory.IsPath) ?_ ⟨none, rfl⟩ hc⟩
      · intro d d' name v hmem hd hset
        exact TraceDraft.isPath_of_set? hset hd fun hname => htrace v (hname ▸ hmem)
      · intro d d' name v hmem hd hset
        exact CoverageDraft.isPath_of_set? hset hd fun hname => hcoverage v (hname ▸ hmem)

/-- A table gives a draft with paths, or is bad input. -/
theorem gives_ofTable {data : List (Text × Setting)} (h : (Setting.table data).Distinct) :
    Gives Fault.IsBadInput (Draft.ofTable data) Draft.HasPaths := by
  unfold Draft.ofTable
  refine (gives_sectionOf h "trace").bind fun trace htrace => ?_
  refine (gives_sectionOf h "coverage").bind fun coverage hcoverage => ?_
  refine (gives_lenient gives_lenientFlag "trace" "mute" htrace).bind fun trace htrace => ?_
  refine (gives_lenient gives_lenientFlag "trace" "keep_log" htrace.1).bind fun trace htrace => ?_
  refine (gives_lenient gives_lenientPath "trace" "tmp_dir" htrace.1).bind fun trace htrace => ?_
  refine (gives_lenient gives_lenientFlag "coverage" "count_hits" hcoverage).bind
    fun coverage hcoverage => ?_
  refine (gives_lenient gives_lenientPath "coverage" "root_directory" hcoverage.1).bind
    fun coverage hcoverage => ?_
  cases hsections : Draft.ofSections trace coverage with
  | error complaint => exact ⟨_, rfl⟩
  | ok d => exact Draft.hasPaths_of_ofSections hsections htrace.2 hcoverage.2

/-! ## 3. The environment -/

theorem hasPaths_of_override {o : Override} (ho : o ∈ overrides) {raw : Text} {d d' : Draft}
    (hd : d.HasPaths) (h : o.apply raw d = some d') : d'.HasPaths := by
  simp only [overrides, List.mem_cons, List.not_mem_nil, or_false] at ho
  rcases ho with rfl | rfl | rfl | rfl | rfl | rfl | rfl | rfl
  · cases h
    exact ⟨hd.tmpDir, hd.rootDirectory⟩
  · obtain ⟨v, -, rfl⟩ := Option.map_eq_some_iff.mp h
    exact ⟨hd.tmpDir, hd.rootDirectory⟩
  · obtain ⟨v, -, rfl⟩ := Option.map_eq_some_iff.mp h
    exact ⟨hd.tmpDir, hd.rootDirectory⟩
  · obtain ⟨v, -, rfl⟩ := Option.map_eq_some_iff.mp h
    exact ⟨hd.tmpDir, hd.rootDirectory⟩
  · obtain ⟨v, -, rfl⟩ := Option.map_eq_some_iff.mp h
    exact ⟨hd.tmpDir, hd.rootDirectory⟩
  · cases h
    exact ⟨⟨_, rfl⟩, hd.rootDirectory⟩
  · obtain ⟨v, -, rfl⟩ := Option.map_eq_some_iff.mp h
    exact ⟨hd.tmpDir, hd.rootDirectory⟩
  · cases h
    exact ⟨hd.tmpDir, ⟨_, rfl⟩⟩

/-- The environment leaves a draft with paths, whatever stops it is bad input. -/
theorem overrideBy_hasPaths (env : Environment) {os : List Override} (hos : os ⊆ overrides)
    {d : Draft} (hd : d.HasPaths) :
    (d.overrideBy env os).1.HasPaths ∧
      ∀ e, (d.overrideBy env os).2 = .error e → e.IsBadInput := by
  induction os generalizing d with
  | nil => exact ⟨hd, fun e h => by cases h⟩
  | cons o os ih =>
    have hrest : os ⊆ overrides := fun x hx => hos (List.mem_cons_of_mem o hx)
    rw [Draft.overrideBy]
    split
    · exact ih hrest hd
    · split
      · rename_i d' hd'
        exact ih hrest (hasPaths_of_override (hos (List.mem_cons_self ..)) hd hd')
      · refine ⟨hd, fun e he => ?_⟩
        cases he
        exact ⟨_, rfl⟩

/-! ## 4. The check -/

/-- Settings that a run can be made with: the shell has a name, the delimiter has from 2
to 16 bytes, something is read at a time, and the directories are there and absolute. -/
structure Settings.Usable (fs : FileSystem) (s : Settings) : Prop where
  bashPath : s.bashPath ≠ []
  delimiterBytes : 2 ≤ s.delimiterBytes ∧ s.delimiterBytes ≤ 16
  chunkSize : 0 < s.chunkSize
  tmpDir : ∀ p ∈ s.tmpDir, fs.isDirectory (Path.tidy p) = true
  rootDirectory : ∀ p ∈ s.rootDirectory, Path.isAbsolute p = true

/-- Whether a directory stands where the setting says can be answered, yes or no. -/
def Setting.Probed (fs : FileSystem) (v : Setting) : Prop :=
  ∀ p, v = .text p → ∃ answer, fs.probeDirectory (Path.tidy p) = .ok answer

/-- A fault of the check: bad input, unless a path is of another kind or the question for
a directory has no answer. -/
def Draft.Refusal (fs : FileSystem) (d : Draft) (e : Fault) : Prop :=
  e.IsBadInput ∨ ¬ d.HasPaths ∨ ¬ d.trace.tmpDir.Probed fs

section

variable (name : Text) (v : Setting)

theorem gives_needText :
    Gives Fault.IsBadInput (needText name v) fun t => v = .text t ∧ t ≠ [] := by
  unfold needText
  split
  · exact ⟨rfl, List.cons_ne_nil _ _⟩
  · exact ⟨_, rfl⟩

theorem gives_needInt : Gives Fault.IsBadInput (needInt name v) fun i => v = .int i := by
  unfold needInt
  split
  · exact rfl
  · exact ⟨_, rfl⟩

theorem gives_needFlag : Gives Fault.IsBadInput (needFlag name v) fun b => v = .flag b := by
  unfold needFlag
  split
  · exact rfl
  · exact ⟨_, rfl⟩

theorem gives_needWithin (least most i : Int) :
    Gives Fault.IsBadInput (needWithin name least most i) fun _ => least ≤ i ∧ i ≤ most := by
  unfold needWithin
  split
  · assumption
  · exact ⟨_, rfl⟩

theorem gives_needPositive (i : Int) :
    Gives Fault.IsBadInput (needPositive name i) fun _ => 0 < i := by
  unfold needPositive
  split
  · assumption
  · exact ⟨_, rfl⟩

theorem isDirectory_of_probeDirectory {fs : FileSystem} {p : Text}
    (h : fs.probeDirectory p = .ok true) : fs.isDirectory p = true := by
  unfold FileSystem.probeDirectory at h
  unfold FileSystem.isDirectory
  split at h
  · rename_i hnode
    rw [hnode]
  · cases h
  · cases h

theorem gives_needDirectory (fs : FileSystem) :
    Gives (fun e => e.IsBadInput ∨ ¬ v.IsPath ∨ ¬ v.Probed fs)
      (needDirectory fs name v) fun path =>
        v = pathSetting path ∧ ∀ p ∈ path, fs.isDirectory (Path.tidy p) = true := by
  unfold needDirectory
  split
  · exact ⟨rfl, by simp⟩
  · rename_i p
    split
    · rename_i e he
      refine .inr (.inr fun hprobed => ?_)
      obtain ⟨answer, hanswer⟩ := hprobed p rfl
      rw [hanswer] at he
      cases he
    · rename_i htrue
      refine ⟨rfl, fun q hq => ?_⟩
      cases hq
      exact isDirectory_of_probeDirectory htrue
    · exact .inl ⟨_, rfl⟩
  · rename_i habsent htext
    refine .inr (.inl ?_)
    rintro ⟨_ | p, rfl⟩
    · exact habsent rfl
    · exact htext p rfl

theorem gives_needAbsolute :
    Gives (fun e => e.IsBadInput ∨ ¬ v.IsPath) (needAbsolute name v) fun path =>
      v = pathSetting path ∧ ∀ p ∈ path, Path.isAbsolute p = true := by
  unfold needAbsolute
  split
  · exact ⟨rfl, by simp⟩
  · rename_i p
    split
    · rename_i habsolute
      refine ⟨rfl, fun q hq => ?_⟩
      cases hq
      exact habsolute
    · exact .inl ⟨_, rfl⟩
  · rename_i habsent htext
    refine .inr ?_
    rintro ⟨_ | p, rfl⟩
    · exact habsent rfl
    · exact htext p rfl

end

/-- A draft that passes the check writes down usable settings. -/
theorem gives_check (fs : FileSystem) (d : Draft) :
    Gives (d.Refusal fs) (d.check fs) fun s => d = s.draft ∧ s.Usable fs := by
  have hbad : ∀ e, e.IsBadInput → d.Refusal fs e := fun e => .inl
  unfold Draft.check
  refine ((gives_needText _ _).mono hbad fun _ => id).bind fun bashPath hbash => ?_
  refine ((gives_needInt _ _).mono hbad fun _ => id).bind fun delimiterBytes hdelimiter => ?_
  refine ((gives_needWithin _ 2 16 _).mono hbad fun _ => id).bind fun _ hwithin => ?_
  refine ((gives_needInt _ _).mono hbad fun _ => id).bind fun chunkSize hchunk => ?_
  refine ((gives_needPositive _ _).mono hbad fun _ => id).bind fun _ hpositive => ?_
  refine ((gives_needFlag _ _).mono hbad fun _ => id).bind fun mute hmute => ?_
  refine ((gives_needFlag _ _).mono hbad fun _ => id).bind fun keepLog hkeep => ?_
  refine ((gives_needDirectory _ _ fs).mono (fun e => ?_) fun _ => id).bind fun tmpDir htmp => ?_
  · rintro (h | h | h)
    · exact .inl h
    · exact .inr (.inl fun hpaths => h hpaths.tmpDir)
    · exact .inr (.inr h)
  refine ((gives_needFlag _ _).mono hbad fun _ => id).bind fun countHits hcount => ?_
  refine ((gives_needAbsolute _ _).mono (fun e => ?_) fun _ => id).bind fun root hroot => ?_
  · rintro (h | h)
    · exact .inl h
    · exact .inr (.inl fun hpaths => h hpaths.rootDirectory)
  obtain ⟨⟨shell, delimiter, chunk, silent, keep, tmp⟩, ⟨count, rootDirectory⟩⟩ := d
  dsimp only at hbash hdelimiter hchunk hmute hkeep htmp hcount hroot
  obtain ⟨rfl, hshell⟩ := hbash
  obtain ⟨rfl, hthere⟩ := htmp
  obtain ⟨rfl, habsolute⟩ := hroot
  subst hdelimiter hchunk hmute hkeep hcount
  exact ⟨rfl, hshell, hwithin, hpositive, hthere, habsolute⟩

/-! ## 5. Settling -/

/-- The settings of a draft, the environment taken over. -/
def Draft.settle (fs : FileSystem) (env : Environment) (d : Draft) : Except Fault Settings :=
  match d.override env with
  | (_, .error e) => .error e
  | (d, .ok ()) => d.check fs

/-- A draft with paths is settled, or is bad input. -/
theorem gives_settle (fs : FileSystem) (env : Environment) {d : Draft} (hd : d.HasPaths)
    (hprobe : ∀ d', d.override env = (d', .ok ()) → d'.trace.tmpDir.Probed fs) :
    Gives Fault.IsBadInput (d.settle fs env) fun s =>
      d.override env = (s.draft, .ok ()) ∧ s.Usable fs := by
  obtain ⟨hpaths, hbad⟩ := overrideBy_hasPaths env (List.Subset.refl overrides) hd
  rw [← Draft.override] at hpaths hbad
  unfold Draft.settle
  split
  · rename_i d' e hoverride
    exact hbad e (by rw [hoverride])
  · rename_i d' hoverride
    rw [hoverride] at hpaths
    refine (gives_check fs d').mono (fun e he => ?_) fun s hs => ?_
    · exact he.resolve_right fun h => h.elim (· hpaths) (· (hprobe d' hoverride))
    · exact ⟨by rw [hoverride, hs.1], hs.2⟩

/-- What is loaded is the draft of the file, or the one without a file, settled. -/
theorem Config.load_eq (fs : FileSystem) (env : Environment) (path : Option Text) :
    Config.load fs env path =
      (match path with
        | some (c :: cs) => Config.ofFile fs (c :: cs)
        | _ => .ok Draft.default) >>= Draft.settle fs env := by
  rcases path with _ | _ | ⟨c, cs⟩ <;> rfl

/-- Without a file the defaults are settled. -/
theorem Config.gives_load_none (fs : FileSystem) (env : Environment)
    (hprobe : ∀ d, Draft.default.override env = (d, .ok ()) → d.trace.tmpDir.Probed fs) :
    Gives Fault.IsBadInput (Config.load fs env none) (Settings.Usable fs) := by
  rw [Config.load_eq]
  exact (gives_settle fs env Draft.hasPaths_default hprobe).mono (fun _ => id) fun _ => And.right

/-- With a file that is read, its table is settled: what is read from a text names nothing
twice. -/
theorem Config.gives_load_of_read (fs : FileSystem) (env : Environment) {path t : Text}
    {data : List (Text × Setting)} (hpath : path ≠ []) (ht : Resultset.readText fs path = .ok t)
    (hdata : Toml.read t = .ok data)
    (hprobe : ∀ d d', Draft.ofTable data = .ok d → d.override env = (d', .ok ()) →
      d'.trace.tmpDir.Probed fs) :
    Gives Fault.IsBadInput (Config.load fs env (some path)) (Settings.Usable fs) := by
  obtain ⟨c, cs, rfl⟩ := List.exists_cons_of_ne_nil hpath
  have hfile : Config.ofFile fs (c :: cs) = Draft.ofTable data := by
    simp only [Config.ofFile, ht, hdata]
  rw [Config.load_eq]
  dsimp only
  rw [hfile]
  have hgives := gives_ofTable (Toml.distinct_read hdata)
  cases hd : Draft.ofTable data with
  | error e => exact hgives.of_error hd
  | ok d =>
    exact (gives_settle fs env (hgives.of_ok hd) fun d' => hprobe d d' hd).mono (fun _ => id)
      fun _ => And.right

/-! ## 6. Using -/

/-- A source of random digits: as many as are asked for, and hexadecimal. -/
structure HexSource (hex : Nat → Text) : Prop where
  length (n : Nat) : (hex n).length = n
  digits (n : Nat) : ∀ c ∈ hex n, (Text.hexValue? c).isSome

/-- A delimiter of hexadecimal digits can be made, of two for each byte. -/
theorem HexSource.exists_generate {hex : Nat → Text} (hhex : HexSource hex) {count : Int}
    (hcount : 0 < count) :
    ∃ f, TraceFormat.generate hex count = .ok f ∧ (f.delimiter.length : Int) = 2 * count := by
  have hlength := hhex.length (2 * count.toNat)
  have hne : hex (2 * count.toNat) ≠ [] := by
    intro hnil
    rw [hnil, List.length_nil] at hlength
    omega
  have hplain : ∀ c ∈ hex (2 * count.toNat), c ∉ reservedIn unitSeparator := by
    intro c hc hreserved
    have hreserved : c = 39 ∨ c = 92 ∨ c = 36 ∨ c = 43 ∨ c = 31 := by
      simpa [reservedIn, marker, unitSeparator] using hreserved
    have hdigit := hhex.digits _ c hc
    rcases hreserved with rfl | rfl | rfl | rfl | rfl <;> exact absurd hdigit (by decide)
  refine ⟨⟨hex (2 * count.toNat), unitSeparator, hne, hplain⟩, ?_, ?_⟩
  · rw [TraceFormat.generate, if_neg (by omega), TraceFormat.make, dif_neg hne]
    exact dif_pos hplain
  · dsimp only
    omega

/-- Of any table and any environment come usable settings, or bad input and no other
fault. The settings are what the draft says once the environment is taken over; a format
can be made with them of whatever digits are drawn, and a log read. -/
theorem Draft.settle_ofTable (fs : FileSystem) (env : Environment)
    {data : List (Text × Setting)} (hdata : (Setting.table data).Distinct)
    (hprobe : ∀ d d', Draft.ofTable data = .ok d → d.override env = (d', .ok ()) →
      d'.trace.tmpDir.Probed fs) :
    (∃ e, (Draft.ofTable data >>= Draft.settle fs env) = .error e ∧ e.IsBadInput) ∨
      ∃ s, (Draft.ofTable data >>= Draft.settle fs env) = .ok s ∧
        (∃ d, Draft.ofTable data = .ok d ∧ d.override env = (s.draft, .ok ())) ∧
        s.Usable fs ∧
        (∀ hex, HexSource hex → ∃ f, TraceFormat.generate hex s.delimiterBytes = .ok f ∧
          (f.delimiter.length : Int) = 2 * s.delimiterBytes) ∧
        readSize s.plan.chunkSize = .ok (some s.chunkSize) := by
  have htable := gives_ofTable hdata
  cases hd : Draft.ofTable data with
  | error e => exact .inl ⟨e, rfl, htable.of_error hd⟩
  | ok d =>
    have hsettle := gives_settle fs env (htable.of_ok hd) fun d' => hprobe d d' hd
    change (∃ e, d.settle fs env = .error e ∧ _) ∨ ∃ s, d.settle fs env = .ok s ∧ _
    cases hs : d.settle fs env with
    | error e => exact .inl ⟨e, rfl, hsettle.of_error hs⟩
    | ok s =>
      obtain ⟨hoverride, husable⟩ := hsettle.of_ok hs
      have hbytes : 0 < s.delimiterBytes := by have := husable.delimiterBytes.1; omega
      exact .inr ⟨s, rfl, ⟨d, rfl, hoverride⟩, husable,
        fun hex hhex => hhex.exists_generate hbytes, readSize_int husable.chunkSize⟩

/-- A number out of bounds is put right by the environment; words stand for a truth value,
a path and no path. -/
theorem Draft.settle_ofTable_overridden :
    let data : List (Text × Setting) := [
      ("trace", .table [("delimiter_bytes", .int 99), ("mute", .text " Yes "),
        ("tmp_dir", .text " /work ")]),
      ("coverage", .table [("root_directory", .text "NONE")]),
      ("note", .list [.int 1])]
    let env : Environment := [("SHELLCOV_DELIMITER_BYTES", "16")]
    let fs : FileSystem := ⟨[(["work"], .directory)], "/", "/tmp", 0⟩
    let s : Settings := ⟨"bash", 16, 65536, true, false, some "/work", false, none⟩
    (Setting.table data).Distinct ∧ (Draft.ofTable data >>= Draft.settle fs env) = .ok s ∧
      s.Usable fs ∧
      (∀ hex, HexSource hex → ∃ f, TraceFormat.generate hex s.delimiterBytes = .ok f ∧
        (f.delimiter.length : Int) = 2 * s.delimiterBytes) ∧
      readSize s.plan.chunkSize = .ok (some 65536) := by
  intro data env fs s
  have hdata : (Setting.table data).Distinct := by
    refine .table (by decide) ?_
    simp only [data, List.forall_mem_cons, List.not_mem_nil, false_imp_iff, implies_true, and_true]
    refine ⟨.table (by decide) ?_, .table (by decide) ?_, .list ?_⟩
    · simp only [List.forall_mem_cons, List.not_mem_nil, false_imp_iff, implies_true, and_true]
      exact ⟨.int 99, .text _, .text _⟩
    · simpa using Setting.Distinct.text _
    · simpa using Setting.Distinct.int 1
  have hsettled : (Draft.ofTable data >>= Draft.settle fs env) = .ok s := by rfl
  have hprobe : ∀ d d', Draft.ofTable data = .ok d → d.override env = (d', .ok ()) →
      d'.trace.tmpDir.Probed fs := by
    intro d d' hd hd' p hp
    cases hd
    cases hd'
    cases hp
    exact ⟨true, by rfl⟩
  rcases Draft.settle_ofTable fs env hdata hprobe with ⟨e, he, -⟩ | ⟨s', hs', -, h⟩
  · rw [hsettled] at he
    cases he
  · rw [hsettled] at hs'
    cases hs'
    exact ⟨hdata, hsettled, h⟩

end LineTrace
