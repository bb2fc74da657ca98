/-
LineTrace.Proofs.Coverage.Scope — the files below a directory.

Which files are kept is decided by how their paths begin. The beginning that is compared
is the normal form of the directory with a slash at its end, which the root has already
(`below_eq`). On normal paths this is the same as comparing components: a path begins so
if and only if its components go on where those of the directory end
(`isPrefixOf_below_iff`). Without the slash at the end a sibling would be kept whose name
only begins as that of the directory does.

What is kept is decided for each path alone. So it does not matter whether files are left
out before or after lines are recorded (`restrictTo_record`), and everything that is made
by recording, a map of hits or a merge, can be restricted in its parts.
-/
import LineTrace.Proofs.Coverage.Store
import LineTrace.Proofs.Path.Normal

namespace LineTrace

/-! ## 1. Below a directory -/

namespace Path

theorem append_slash_prefix_iff {c d p q : Text} (hc : slash ∉ c) (hd : slash ∉ d) :
    c ++ slash :: p <+: d ++ slash :: q ↔ c = d ∧ p <+: q := by
  induction c generalizing d with
  | nil =>
    cases d with
    | nil => simp [List.cons_prefix_cons]
    | cons y d =>
      have hne : slash ≠ y := fun h => hd (h ▸ List.mem_cons_self ..)
      simp [List.cons_prefix_cons, hne]
  | cons x c ih =>
    rw [List.mem_cons, not_or] at hc
    cases d with
    | nil => simp [List.cons_prefix_cons, Ne.symm hc.1]
    | cons y d =>
      rw [List.mem_cons, not_or] at hd
      rw [List.cons_append, List.cons_append, List.cons_prefix_cons, ih hc.2 hd.2,
        List.cons.injEq, and_assoc]

/-- Names with a slash behind each of them begin a path if its components go on behind
those names. -/
theorem flatMap_prefix_joinWith_iff {names parts : List Text} (hnames : ∀ c ∈ names, slash ∉ c)
    (hparts : ∀ c ∈ parts, slash ∉ c) (hne : parts ≠ []) :
    (names.flatMap fun c => c ++ [slash]) <+: Text.joinWith [slash] parts ↔
      names <+: parts ∧ names ≠ parts := by
  induction names generalizing parts with
  | nil => simp [Ne.symm hne]
  | cons c names ih =>
    have hc : slash ∉ c := hnames c (List.mem_cons_self ..)
    match parts, hne with
    | [d], _ =>
      -- The last component has no slash behind it.
      have hd : slash ∉ d := hparts d (List.mem_cons_self ..)
      have hslash : ¬ (((c :: names).flatMap fun c => c ++ [slash]) <+: d) := fun hbegin =>
        hd (hbegin.subset (by simp))
      simp only [Text.joinWith, hslash, List.cons_prefix_cons, List.prefix_nil, false_iff]
      rintro ⟨⟨rfl, rfl⟩, hdiffer⟩
      exact hdiffer rfl
    | d :: e :: rest, _ =>
      have hd : slash ∉ d := hparts d (List.mem_cons_self ..)
      have hrest := ih (fun x hx => hnames x (List.mem_cons_of_mem _ hx))
        (fun x hx => hparts x (List.mem_cons_of_mem _ hx)) (List.cons_ne_nil e rest)
      have hjoin : Text.joinWith [slash] (d :: e :: rest) =
          d ++ slash :: Text.joinWith [slash] (e :: rest) := by
        rw [Text.joinWith, List.append_assoc, List.singleton_append]
        exact List.cons_ne_nil e rest
      rw [hjoin, List.flatMap_cons, List.append_assoc, List.singleton_append,
        append_slash_prefix_iff hc hd, hrest, List.cons_prefix_cons, and_assoc]
      constructor
      · rintro ⟨rfl, hprefix, hdiffer⟩
        exact ⟨rfl, hprefix, fun h => hdiffer (List.cons.inj h).2⟩
      · rintro ⟨rfl, hprefix, hdiffer⟩
        exact ⟨rfl, hprefix, fun h => hdiffer (congrArg _ h)⟩

/-- A slash at the end of every name, or between them and one at the end. -/
theorem joinWith_append_slash {names : List Text} (h : names ≠ []) :
    Text.joinWith [slash] names ++ [slash] = names.flatMap fun c => c ++ [slash] := by
  induction names with
  | nil => exact absurd rfl h
  | cons c names ih =>
    cases names with
    | nil => simp [Text.joinWith]
    | cons d names =>
      rw [List.flatMap_cons, ← ih (List.cons_ne_nil d names), Text.joinWith, List.append_assoc]
      exact List.cons_ne_nil d names

/-- A path does not end in a slash if it has components. -/
theorem getLast?_joinWith_ne {names : List Text} (hnames : ∀ c ∈ names, IsName c)
    (h : names ≠ []) (slashes : Nat) :
    (List.replicate slashes slash ++ Text.joinWith [slash] names).getLast? ≠ some slash := by
  have hname := hnames _ (List.getLast_mem h)
  obtain ⟨front, hfront⟩ := exists_joinWith_eq_append (List.getLast?_eq_some_getLast h)
  rw [hfront, ← List.append_assoc, List.getLast?_append_of_ne_nil _ hname.ne_nil]
  exact fun hslash => hname.slash_notMem (List.mem_of_getLast? hslash)

/-- An absolute path that is normal is its slashes and its components. -/
theorem eq_of_isNormal {p : Text} (h : IsNormal p) :
    p = List.replicate (rootSlashes p) slash ++ Text.joinWith [slash] (components p) := by
  obtain ⟨slashes, names, hslashes, hnames, rfl⟩ := h
  obtain ⟨hroot, hparts⟩ := parts_of_isNormal hslashes hnames
  rw [hroot, hparts]

end Path

namespace Coverage

theorem below_eq_append_slash {root : Text} (h : Path.isAbsolute root = true)
    (hnames : Path.components (Path.normalize root) ≠ []) :
    below root = Path.normalize root ++ [Path.slash] := by
  have hnormal := Path.eq_of_isNormal (Path.isNormal_normalize h)
  have hlast : (Path.normalize root).getLast? ≠ some Path.slash := by
    rw [hnormal]
    exact Path.getLast?_joinWith_ne (fun _ => Path.isName_of_mem_components_normalize h) hnames _
  have hne : Path.normalize root ≠ [] := fun hnil => hnames (by rw [hnil]; rfl)
  rw [below, Path.join, if_neg (by simp [Path.isAbsolute]), if_neg (by simp [hne, hlast])]

/-- The beginning that the paths below an absolute directory share. -/
theorem below_eq {root : Text} (h : Path.isAbsolute root = true) :
    below root = List.replicate (Path.rootSlashes root) Path.slash ++
      (Path.components (Path.normalize root)).flatMap fun c => c ++ [Path.slash] := by
  have hnormal := Path.eq_of_isNormal (Path.isNormal_normalize h)
  rw [Path.rootSlashes_normalize] at hnormal
  by_cases hnames : Path.components (Path.normalize root) = []
  · obtain ⟨n, hn⟩ := Nat.exists_eq_succ_of_ne_zero (Path.isAbsolute_iff.mp h).ne'
    rw [hnames] at hnormal ⊢
    have hlast : (Path.normalize root).getLast? = some Path.slash := by
      rw [hnormal, hn]
      simp [Text.joinWith, List.getLast?_replicate]
    rw [below, Path.join, if_neg (by simp [Path.isAbsolute]), if_pos (.inr hlast), List.append_nil]
    exact hnormal
  · rw [below_eq_append_slash h hnames, ← Path.joinWith_append_slash hnames, ← List.append_assoc,
      ← hnormal]

/-- The files below a directory are those whose components go on where its components
end. -/
theorem isPrefixOf_below_iff {root p : Text} (hroot : Path.rootSlashes (Path.normalize root) = 1)
    (hp : Path.normalize p = p) (hslash : Path.rootSlashes p = 1) (hne : p ≠ [Path.slash]) :
    (below root).isPrefixOf p = true ↔
      Path.components (Path.normalize root) <+: Path.components p ∧
        Path.components (Path.normalize root) ≠ Path.components p := by
  rw [Path.rootSlashes_normalize] at hroot
  have habsolute : Path.isAbsolute root = true := Path.isAbsolute_iff.mpr (by omega)
  have hnormal : Path.IsNormal p := Path.isNormal_iff.mpr ⟨Path.isAbsolute_iff.mpr (by omega), hp⟩
  have hparts := Path.eq_of_isNormal hnormal
  rw [hslash] at hparts
  have hnames : Path.components p ≠ [] := fun hnil => hne (by rw [hparts, hnil]; rfl)
  have hbelow : below root <+: p ↔
      ((Path.components (Path.normalize root)).flatMap fun c => c ++ [Path.slash]) <+:
        Text.joinWith [Path.slash] (Path.components p) := by
    conv_lhs => rw [hparts, below_eq habsolute, hroot]
    exact List.prefix_append_right_inj _
  rw [List.isPrefixOf_iff_prefix, hbelow]
  exact Path.flatMap_prefix_joinWith_iff (fun c hc => (Path.of_mem_components hc).1)
    (fun c hc => (Path.of_mem_components hc).1) hnames

/-- What only begins with the same letters as a directory is not below it. -/
theorem not_isPrefixOf_below {root t : Text}
    (hroot : Path.rootSlashes (Path.normalize root) = 1) (hne : Path.normalize root ≠ [Path.slash])
    (ht : Path.isAbsolute t = false) :
    (below root).isPrefixOf (Path.normalize root ++ t) = false := by
  rw [Path.rootSlashes_normalize] at hroot
  have habsolute : Path.isAbsolute root = true := Path.isAbsolute_iff.mpr (by omega)
  have hnormal := Path.eq_of_isNormal (Path.isNormal_normalize habsolute)
  rw [Path.rootSlashes_normalize, hroot] at hnormal
  have hnames : Path.components (Path.normalize root) ≠ [] := fun hnil =>
    hne (by rw [hnormal, hnil]; rfl)
  rw [← Bool.not_eq_true, List.isPrefixOf_iff_prefix, below_eq_append_slash habsolute hnames,
    List.prefix_append_right_inj]
  rintro ⟨rest, rfl⟩
  cases ht

/-- A directory below another has a longer beginning. -/
theorem below_prefix_below {root dir : Text} (hroot : Path.isAbsolute root = true)
    (hslashes : Path.rootSlashes root = Path.rootSlashes dir)
    (hbelow : Path.components (Path.normalize root) <+: Path.components (Path.normalize dir)) :
    below root <+: below dir := by
  have hdir : Path.isAbsolute dir = true := by
    rw [Path.isAbsolute_iff, ← hslashes]
    exact Path.isAbsolute_iff.mp hroot
  obtain ⟨rest, hrest⟩ := hbelow
  rw [below_eq hroot, below_eq hdir, hslashes, ← hrest, List.flatMap_append]
  exact (List.prefix_append_right_inj _).mpr (List.prefix_append _ _)

/-! ## 2. Restricting what is made -/

/-- A file that is kept is kept as it is. -/
theorem get?_files_restrictTo {root path : Text} (h : (below root).isPrefixOf path = true)
    (c : Coverage) : Table.get? path (c.restrictTo root).files = Table.get? path c.files := by
  rw [restrictTo, Table.get?_filter fun p => (below root).isPrefixOf p, if_pos h]

theorem lineHits_restrictTo {root path : Text} (h : (below root).isPrefixOf path = true)
    (c : Coverage) : (c.restrictTo root).lineHits path = c.lineHits path := by
  simp only [lineHits, lines, hits, get?_files_restrictTo h]

/-- What is recorded in a file that is left out is left out with it. -/
theorem restrictTo_record (c : Coverage) (root path : Text) (line : Int) (hits : Count) :
    (c.record path line hits).restrictTo root =
      if (below root).isPrefixOf path then (c.restrictTo root).record path line hits
      else c.restrictTo root := by
  have hfiles := Table.filter_put (fun p => (below root).isPrefixOf p) path
    (recordLine c.countHits line hits ((Table.get? path c.files).getD [])) c.files
  split
  · rename_i hkept
    rw [if_pos hkept] at hfiles
    rw [record, record, Table.modify, Table.modify, get?_files_restrictTo hkept]
    exact congrArg (Coverage.mk c.countHits) hfiles
  · rename_i hkept
    rw [if_neg hkept] at hfiles
    exact congrArg (Coverage.mk c.countHits) hfiles

theorem restrictTo_addHits (c : Coverage) (root : Text) (hits : List Hit) :
    (c.addHits hits).restrictTo root =
      (c.restrictTo root).addHits (hits.filter fun h => (below root).isPrefixOf h.path) := by
  induction hits generalizing c with
  | nil => rfl
  | cons h hits ih =>
    have hstep := ih (c.addHit h)
    rw [addHit, restrictTo_record] at hstep
    rw [addHits, List.foldl_cons, ← addHits, addHit, hstep]
    split
    · rw [List.filter_cons_of_pos ‹_›]
      rfl
    · rw [List.filter_cons_of_neg ‹_›]

theorem restrictTo_recordLines (c : Coverage) (root path : Text) (lines : Table Int Count) :
    (c.recordLines path lines).restrictTo root =
      if (below root).isPrefixOf path then (c.restrictTo root).recordLines path lines
      else c.restrictTo root := by
  induction lines generalizing c with
  | nil => simp [recordLines]
  | cons entry lines ih =>
    rw [recordLines_cons, ih, restrictTo_record, recordLines_cons]
    split <;> rfl

theorem restrictTo_recordAll (c : Coverage) (root : Text)
    (files : Table Text (Table Int Count)) :
    (c.recordAll files).restrictTo root =
      (c.restrictTo root).recordAll (files.filter fun e => (below root).isPrefixOf e.1) := by
  induction files generalizing c with
  | nil => rfl
  | cons entry files ih =>
    rw [recordAll_cons, ih, restrictTo_recordLines]
    split
    · rw [List.filter_cons_of_pos ‹_›, recordAll_cons]
    · rw [List.filter_cons_of_neg ‹_›]

theorem linesOf_restrictTo (c : Coverage) (root : Text) :
    (c.restrictTo root).linesOf (c.restrictTo root).files.keys =
      (c.linesOf c.files.keys).filter fun e => (below root).isPrefixOf e.1 := by
  rw [linesOf, linesOf, keys_restrictTo, List.filter_map]
  refine List.map_congr_left fun path hpath => ?_
  rw [lineHits_restrictTo (List.mem_filter.mp hpath).2]

/-- A merge is restricted by restricting both maps. -/
theorem restrictTo_merge (c other : Coverage) (root : Text) :
    (c.merge other).restrictTo root = (c.restrictTo root).merge (other.restrictTo root) := by
  rw [merge_eq, restrictTo_recordAll, merge_eq, linesOf_restrictTo]

/-- The files below a directory are among those below every directory above it. -/
theorem restrictTo_restrictTo {root dir : Text} (h : below root <+: below dir) (c : Coverage) :
    (c.restrictTo root).restrictTo dir = c.restrictTo dir := by
  simp only [restrictTo, List.filter_filter]
  refine congrArg (Coverage.mk c.countHits) (List.filter_congr fun e _ => ?_)
  cases hkept : (below dir).isPrefixOf e.1 with
  | false => rfl
  | true =>
    have habove : (below root).isPrefixOf e.1 = true :=
      List.isPrefixOf_iff_prefix.mpr (h.trans (List.isPrefixOf_iff_prefix.mp hkept))
    simp [habove]

/-! ## 3. Scopes -/

/-- On normal paths with one leading slash, restricting a map to a directory keeps the
files whose components go on where those of the directory end: everything below the root
directory, and never a path that only begins with the same letters. Files that are kept
are kept as they are. It does not matter whether a map of hits, a merge or a restricted map
is restricted at the end or in its parts, nor whether a directory above was restricted to
before. The restricted map is a new one, and neither changes with the other. -/
theorem restrictTo_scope {root p : Text} (hroot : Path.rootSlashes (Path.normalize root) = 1)
    (hp : Path.normalize p = p) (hslash : Path.rootSlashes p = 1) (hne : p ≠ [Path.slash])
    (a b c : Coverage) (countHits : Bool) (xs : List Hit) {s : Store} (hs : s.Made) (m n : Nat) :
    ((p ∈ (c.restrictTo root).files.keys ↔ p ∈ c.files.keys ∧
        Path.components (Path.normalize root) <+: Path.components p ∧
        Path.components (Path.normalize root) ≠ Path.components p) ∧
      (Path.normalize root = [Path.slash] → p ∈ c.files.keys →
        p ∈ (c.restrictTo root).files.keys) ∧
      (Path.normalize root ≠ [Path.slash] → ∀ t, Path.isAbsolute t = false →
        Path.normalize root ++ t ∉ (c.restrictTo root).files.keys)) ∧
    ((∀ r path, path ∈ (c.restrictTo r).files.keys ↔
        path ∈ c.files.keys ∧ (below r).isPrefixOf path = true) ∧
      (∀ r, ∀ path ∈ (c.restrictTo r).files.keys,
        Table.get? path (c.restrictTo r).files = Table.get? path c.files ∧
        (c.restrictTo r).lines path = c.lines path ∧
        ∀ line, (c.restrictTo r).hits path line = c.hits path line) ∧
      ∀ r, (c.restrictTo r).countHits = c.countHits) ∧
    ((∀ r, ((empty countHits).addHits xs).restrictTo r =
        (empty countHits).addHits (xs.filter fun h => (below r).isPrefixOf h.path)) ∧
      (∀ r, (a.merge b).restrictTo r = (a.restrictTo r).merge (b.restrictTo r)) ∧
      (∀ r, (c.restrictTo r).restrictTo r = c.restrictTo r) ∧
      ∀ r dir, Path.isAbsolute r = true → Path.rootSlashes r = Path.rootSlashes dir →
        Path.components (Path.normalize r) <+: Path.components (Path.normalize dir) →
        (c.restrictTo r).restrictTo dir = c.restrictTo dir) ∧
    (∀ k, (s.restrictTo m root n).view k =
        if n = k then (s.view m).restrictTo root else s.view k) ∧
    (n ≠ m → ((s.restrictTo m root n).addHits n xs).view m = s.view m ∧
      ((s.restrictTo m root n).addHits m xs).view n = (s.view m).restrictTo root) := by
  have hkept := isPrefixOf_below_iff hroot hp hslash hne
  have hnew := Store.changed_restrictTo hs.separate m root n
  refine ⟨⟨?_, fun hall hmem => ?_, fun hother t ht hmem => ?_⟩,
    ⟨fun _ _ => mem_files_restrictTo, fun r path hmem => ?_, fun _ => rfl⟩,
    ⟨fun r => restrictTo_addHits (empty countHits) r xs, restrictTo_merge a b,
      fun r => restrictTo_restrictTo (List.prefix_refl _) c,
      fun r dir hr hslashes hbelow =>
        restrictTo_restrictTo (below_prefix_below hr hslashes hbelow) c⟩,
    hnew.view, fun hnm => ⟨?_, ?_⟩⟩
  · rw [mem_files_restrictTo, hkept]
  · rw [mem_files_restrictTo, hkept, hall]
    refine ⟨hmem, List.nil_prefix, fun hnil => hne ?_⟩
    rw [← hp, Path.normalize_eq, hslash, ← hnil]
    rfl
  · rw [mem_files_restrictTo, not_isPrefixOf_below hroot hother ht] at hmem
    cases hmem.2
  · have hget := get?_files_restrictTo (mem_files_restrictTo.mp hmem).2 c
    exact ⟨hget, by simp only [lines, hget], fun line => by simp only [hits, hget]⟩
  · rw [(Store.changed_addHits hnew.separate n xs).view, if_neg hnm, hnew.view, if_neg hnm]
  · rw [(Store.changed_addHits hnew.separate m xs).view, if_neg hnm.symm, hnew.view, if_pos rfl]

/-- A directory that is spelled with more slashes, a dot and a way back, a file below it
and one below a sibling; the restricted map goes on recording. -/
theorem restrictTo_scope_sibling :
    let root : Text := "/p/./q/..//"
    let p : Text := "/p/x"
    let c := ((empty true).record p 3 (.whole 2)).record "/pp/x" 3 (.whole 1)
    let s := (Store.start.create 0 true).record 0 p 3 (.whole 2)
    (Path.rootSlashes (Path.normalize root) = 1 ∧ Path.normalize p = p ∧
        Path.rootSlashes p = 1 ∧ p ≠ [Path.slash] ∧ s.Made) ∧
      p ∈ (c.restrictTo root).files.keys ∧ ("/pp/x" : Text) ∉ (c.restrictTo root).files.keys ∧
      (c.merge c).restrictTo root = (c.restrictTo root).merge (c.restrictTo root) ∧
      (c.restrictTo "/").restrictTo root = c.restrictTo root ∧
      (s.restrictTo 0 root 1).view 1 = (s.view 0).restrictTo root ∧
      ((s.restrictTo 0 root 1).addHits 1 [⟨p, 4, .hit⟩]).view 0 = s.view 0 := by
  intro root p c s
  have hs : s.Made := .record (.create .start 0 true) 0 p 3 ⟨2, by decide, rfl⟩
  have hroot : Path.rootSlashes (Path.normalize root) = 1 := by rfl
  have hp : Path.normalize p = p := by rfl
  have hslash : Path.rootSlashes p = 1 := by rfl
  have hne : p ≠ [Path.slash] := by decide
  obtain ⟨⟨hkeeps, -, hsibling⟩, -, ⟨-, hmerge, -, hnested⟩, hview, hapart⟩ :=
    restrictTo_scope hroot hp hslash hne c c c true [⟨p, 4, .hit⟩] hs 0 1
  refine ⟨⟨hroot, hp, hslash, hne, hs⟩, hkeeps.mpr ⟨by decide, by decide, by decide⟩,
    hsibling (by decide) "p/x" rfl, hmerge root, ?_, hview 1, (hapart (by decide)).1⟩
  exact hnested "/" root rfl rfl (by decide)

end Coverage

end LineTrace
