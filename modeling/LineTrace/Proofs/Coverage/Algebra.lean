/-
LineTrace.Proofs.Coverage.Algebra — the algebra of coverage maps.

A map of hits is a multiset of them, or a set: that is what `hits_addHits` and
`mem_paths_addHits` say, and it is why hits may come in any order or in two parts. Maps
that count alike are merged as multisets are added and as sets are united. Where one of two
maps counts and the other does not, the map that is written decides: it takes a line that
the other only knows as hit once, and of a line that the other has counted it takes that it
was hit.

Maps are changed where they are. So a merge has to be right also where the two maps are
one, and where they are not it must leave the other as it was; that is what
`Store.changed_merge` is for.
-/
import LineTrace.Proofs.Coverage.Store

namespace LineTrace.Coverage

/-- A map of hits says how often each line occurs, or that it does, whatever their order,
and parts of the hits may be recorded apart and merged. Merging recorded maps is
commutative and associative and has the map of nothing as identity, where they count alike;
it adds counts, unites lines and does the latter twice as once. In a map that counts, a
merge with one that does not counts each line of it once, and in a map that does not count
every line of the other is there. All this holds of maps changed in place: the one that is
written becomes the merge of what both were, be they one and the same, and no other
changes. -/
theorem recorded_algebra (countHits : Bool) (xs ys : List Hit) {a b c : Coverage}
    (ha : Recorded a) (hb : Recorded b) (hc : Recorded c) {s : Store} (hs : s.Made)
    (m other : Nat) :
    ((∀ path line, ((empty countHits).addHits xs).hits path line =
        .whole (if countHits then occurrences path line xs
          else if occurrences path line xs = 0 then 0 else 1)) ∧
      (∀ path, path ∈ ((empty countHits).addHits xs).paths ↔ ∃ h ∈ xs, h.path = path) ∧
      (∀ zs, xs.Perm zs →
        ((empty countHits).addHits xs).same ((empty countHits).addHits zs) = true) ∧
      ((empty countHits).addHits (xs ++ ys)).same
        (((empty countHits).addHits xs).merge ((empty countHits).addHits ys)) = true) ∧
    ((a.countHits = b.countHits → (a.merge b).same (b.merge a) = true) ∧
      (a.countHits = b.countHits → b.countHits = c.countHits →
        ((a.merge b).merge c).same (a.merge (b.merge c)) = true) ∧
      a.merge (empty a.countHits) = a ∧ ((empty a.countHits).merge a).same a = true ∧
      (a.countHits = false → (a.merge a).same a = true)) ∧
    ((a.merge b).countHits = a.countHits ∧
      (∀ path, path ∈ (a.merge b).paths ↔ path ∈ a.paths ∨ path ∈ b.paths) ∧
      (∀ path line, line ∈ (a.merge b).lines path ↔ line ∈ a.lines path ∨ line ∈ b.lines path) ∧
      (a.countHits = true → ∀ path line, ∃ i j : Int,
        a.hits path line = .whole i ∧ b.hits path line = .whole j ∧
          (a.merge b).hits path line = .whole (i + j) ∧
          (b.countHits = false → j = if line ∈ b.lines path then 1 else 0)) ∧
      (a.countHits = false → ∀ path line, (a.merge b).hits path line =
        .whole (if line ∈ a.lines path ∨ line ∈ b.lines path then 1 else 0))) ∧
    (a.merge a).files.keys = a.files.keys ∧
    (∀ k, (s.view k).Recorded) ∧
    ∀ k, (s.merge m other).view k =
      if m = k then (s.view m).merge (s.view other) else s.view k := by
  have hab := ha.wellCounted.merge hb.wellCounted
  have hlines : ∀ path line,
      line ∈ (a.merge b).lines path ↔ line ∈ a.lines path ∨ line ∈ b.lines path :=
    fun _ _ => hb.wellCounted.proper.mem_lines_merge
  refine ⟨⟨hits_addHits countHits xs, fun _ => mem_paths_addHits, fun zs hperm => ?_,
      same_addHits_append countHits xs ys⟩,
    ⟨same_merge_comm ha.wellCounted hb.wellCounted,
      same_merge_assoc ha.wellCounted hb.wellCounted hc.wellCounted, merge_empty a _,
      same_empty_merge ha.wellCounted, same_merge_self ha.wellCounted⟩,
    ⟨countHits_merge a b, fun path => ?_, hlines, fun hmode path line => ?_,
      fun hmode path line => ?_⟩,
    keys_merge_self a, hs.recorded,
    (Store.changed_merge hs.separate (hs.recorded m).wellCounted.proper other).view⟩
  · exact same_addHits fun path line => hperm.countP_eq _
  · rw [mem_paths, mem_paths, mem_paths, mem_files_merge]
    exact or_congr_right ⟨And.left, fun hpath => ⟨hpath, hb.wellCounted.lines_ne_nil hpath⟩⟩
  · obtain ⟨i, hi⟩ := ha.wellCounted.exists_hits path line
    obtain ⟨j, hj⟩ := hb.wellCounted.exists_hits path line
    refine ⟨i, j, hi, hj, ?_, fun hknown => ?_⟩
    · rw [hits_merge_of_counted ha.wellCounted hb.wellCounted hmode, hi, hj]
      rfl
    · have hone := hits_of_known hb.wellCounted hknown path line
      rw [hj] at hone
      exact Count.whole.inj hone
  · rw [hits_of_known hab ((countHits_merge a b).trans hmode)]
    simp only [hlines]

/-- Two maps of a file that count and one that does not. The first one is merged with each
of them, the last one with the first, and a map held in place with itself. -/
theorem recorded_algebra_mixed :
    let file : Text := "/x"
    let a := (empty true).record file 3 (.whole 2)
    let b := (empty true).record file 5 (.whole 4)
    let c := (empty false).record file 3 (.whole 7)
    let s := ((Store.start.create 0 true).record 0 file 3 (.whole 2)).create 1 false
    (a.Recorded ∧ b.Recorded ∧ c.Recorded ∧ s.Made) ∧
      (a.merge b).same (b.merge a) = true ∧
      ((a.merge b).merge a).same (a.merge (b.merge a)) = true ∧
      (a.merge c).hits file 3 = .whole 3 ∧ (c.merge a).hits file 3 = .whole 1 ∧
      (c.merge c).same c = true ∧
      (s.merge 0 0).view 0 = (s.view 0).merge (s.view 0) ∧
      (s.merge 0 0).view 1 = s.view 1 := by
  intro file a b c s
  have ha : a.Recorded := .record (.empty true) file 3 ⟨2, by decide, rfl⟩
  have hb : b.Recorded := .record (.empty true) file 5 ⟨4, by decide, rfl⟩
  have hc : c.Recorded := .record (.empty false) file 3 ⟨7, by decide, rfl⟩
  have hs : s.Made := .create (.record (.create .start 0 true) 0 file 3 ⟨2, by decide, rfl⟩) 1 false
  obtain ⟨-, ⟨hcomm, hassoc, -⟩, -, -, -, hview⟩ := recorded_algebra true [] [] ha hb ha hs 0 0
  obtain ⟨-, -, ⟨-, -, -, hgains, -⟩, -⟩ := recorded_algebra true [] [] ha hc ha hs 0 0
  obtain ⟨-, ⟨-, -, -, -, hself⟩, ⟨-, -, -, -, hknows⟩, -⟩ :=
    recorded_algebra false [] [] hc ha hc hs 0 0
  obtain ⟨i, j, hi, hj, hsum, -⟩ := hgains rfl file 3
  obtain rfl : i = 2 := (Count.whole.inj hi).symm
  obtain rfl : j = 1 := (Count.whole.inj hj).symm
  have hknown := hknows rfl file 3
  rw [if_pos (.inl (mem_lines.mpr rfl))] at hknown
  exact ⟨⟨ha, hb, hc, hs⟩, hcomm rfl, hassoc rfl rfl, hsum, hknown, hself rfl, hview 0, hview 1⟩

end LineTrace.Coverage
