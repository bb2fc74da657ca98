/-
LineTrace.Proofs.Trace.Stack — the stack of directories as a walk without its loops.

Entering a directory that is stacked takes the frames above it away, and any other
directory goes on top. Read from the bottom, the directories on the stack are therefore
the directories of the records with every loop left out (`pwds_walked`). `loopErasure`
says what that is without a stack: from each place go on behind its last visit.

That a directory is stacked once, and that the stack is no deeper than the number of
directories seen, is then a fact about loop erasures. What it says nothing about is the
other half of a frame. A frame is made by the record that pushes it and stands untouched
until it is taken away (`pushed_of_walked`), so the bottom one, which is never taken
away, is that of the first record (`getLast?_walked`).

`Follower.after_stack` says all of this of a follower that starts with no frames, after
any groups.
-/
import Mathlib.Data.List.DropRight
import LineTrace.Proofs.Coverage.Conservation
import LineTrace.Proofs.Trace.Calls

namespace LineTrace

/-! ## 1. Loop erasure -/

section LoopErasure

variable {α : Type} [DecidableEq α]

/-- The chronological loop erasure of a walk: from its first place it goes on with what
is behind the last visit there. -/
def loopErasure : List α → List α
  | [] => []
  | x :: xs => x :: loopErasure (xs.rtakeWhile (· ≠ x))
termination_by xs => xs.length
decreasing_by exact Nat.lt_succ_of_le (List.rtakeWhile_suffix _ xs).length_le

@[simp] theorem loopErasure_nil : loopErasure ([] : List α) = [] := by
  rw [loopErasure]

theorem loopErasure_cons (x : α) (xs : List α) :
    loopErasure (x :: xs) = x :: loopErasure (xs.rtakeWhile (· ≠ x)) := by
  rw [loopErasure]

/-- One more place ends the erased walk where it has been before, or goes on from its
end. -/
theorem loopErasure_concat (xs : List α) (v : α) :
    loopErasure (xs ++ [v]) = (loopErasure xs).takeWhile (· ≠ v) ++ [v] := by
  fun_induction loopErasure xs with
  | case1 => simp [loopErasure_cons]
  | case2 x xs ih =>
    rw [List.cons_append, loopErasure_cons]
    by_cases hx : v = x
    · rw [List.rtakeWhile_concat_neg _ _ v (by simp [hx]), loopErasure_nil,
        List.takeWhile_cons_of_neg (by simp [hx]), hx, List.nil_append]
    · rw [List.rtakeWhile_concat_pos _ _ v (by simp [hx]), ih,
        List.takeWhile_cons_of_pos (by simpa using Ne.symm hx), List.cons_append]

/-- The second visit to 2 takes out what was between, the one to 4 likewise. -/
example : loopErasure [1, 2, 3, 2, 4, 5, 4] = [1, 2, 4] := by cbv

theorem nodup_loopErasure (xs : List α) : (loopErasure xs).Nodup := by
  induction xs using List.reverseRecOn with
  | nil => simp
  | append_singleton xs v ih =>
    rw [loopErasure_concat, List.nodup_append]
    refine ⟨ih.sublist (List.takeWhile_sublist _), List.nodup_singleton v, ?_⟩
    intro x hx y hy
    rw [List.mem_singleton] at hy
    rw [hy]
    simpa using List.mem_takeWhile_imp hx

theorem loopErasure_subset (xs : List α) : loopErasure xs ⊆ xs := by
  induction xs using List.reverseRecOn with
  | nil => simp
  | append_singleton xs v ih =>
    rw [loopErasure_concat]
    intro x hx
    rcases List.mem_append.mp hx with hx | hx
    · exact List.mem_append_left _ (ih ((List.takeWhile_sublist _).subset hx))
    · exact List.mem_append_right _ hx

end LoopErasure

/-! ## 2. Frames of records -/

/-- The frame that a record makes. -/
def Record.frame (r : Record) : DirFrame := ⟨r.pwd, r.oldpwd⟩

/-- Records among groups lie behind each other as their groups do. -/
theorem Record.exists_of_among_eq {groups : List (List Text)} {rs ss : List Record} {r : Record}
    (h : among groups = rs ++ r :: ss) :
    ∃ before fields later, groups = before ++ fields :: later ∧
      Record.ofFields fields = .ok (.ok r) ∧ among before = rs ∧ among later = ss := by
  obtain ⟨front, back, rfl, hfront, hback⟩ := List.filterMap_eq_append_iff.mp h
  obtain ⟨skipped, fields, later, rfl, hskipped, hfields, hlater⟩ :=
    List.filterMap_eq_cons_iff.mp hback
  refine ⟨front ++ skipped, fields, later, by simp, ?_, ?_, hlater⟩
  · exact ofFields_eq_of_read hfields
  · have hnone : among skipped = [] := List.filterMap_eq_nil_iff.mpr hskipped
    rw [among_append, hnone, List.append_nil]
    exact hfront

namespace Directories

/-- Entering a directory takes away what lies above its frame. -/
theorem entered_append_cons {above below : List DirFrame} {frame : DirFrame}
    (h : ∀ f ∈ above, f.pwd ≠ frame.pwd) (oldpwd : Text) :
    entered (above ++ frame :: below) frame.pwd oldpwd = frame :: below := by
  rw [entered, if_pos ⟨frame, by simp, rfl⟩,
    List.dropWhile_append_of_pos (by simpa using h), List.dropWhile_cons_of_neg (by simp)]

/-- Seen from the bottom, entering a directory goes up to it or puts it on top. -/
theorem pwds_entered {frames : List DirFrame} (h : (frames.map DirFrame.pwd).Nodup)
    (pwd oldpwd : Text) :
    ((entered frames pwd oldpwd).map DirFrame.pwd).reverse =
      (frames.map DirFrame.pwd).reverse.takeWhile (· ≠ pwd) ++ [pwd] := by
  by_cases hstacked : ∃ f ∈ frames, f.pwd = pwd
  · obtain ⟨frame, hmem, rfl⟩ := hstacked
    obtain ⟨above, below, rfl⟩ := List.append_of_mem hmem
    rw [List.map_append, List.map_cons, List.nodup_append, List.nodup_cons] at h
    obtain ⟨-, ⟨hbelow, -⟩, habove⟩ := h
    have hdistinct : ∀ f ∈ above, f.pwd ≠ frame.pwd := fun f hf =>
      habove f.pwd (List.mem_map_of_mem hf) frame.pwd (List.mem_cons_self ..)
    have hfree : ∀ p ∈ (below.map DirFrame.pwd).reverse, decide (p ≠ frame.pwd) = true := by
      intro p hp
      rw [List.mem_reverse] at hp
      exact decide_eq_true fun heq => hbelow (heq ▸ hp)
    rw [entered_append_cons hdistinct, List.map_append, List.map_cons, List.reverse_append,
      List.reverse_cons, List.append_assoc, List.takeWhile_append_of_pos hfree,
      List.singleton_append, List.takeWhile_cons_of_neg (by simp), List.append_nil]
  · have hfree : ∀ p ∈ (frames.map DirFrame.pwd).reverse, decide (p ≠ pwd) = true := by
      intro p hp
      obtain ⟨f, hf, rfl⟩ := List.mem_map.mp (List.mem_reverse.mp hp)
      exact decide_eq_true fun heq => hstacked ⟨f, hf, heq⟩
    rw [entered, if_neg hstacked, List.takeWhile_eq_self_iff.mpr hfree, List.map_cons,
      List.reverse_cons]

/-! ## 3. Stacks of records -/

/-- From the bottom the stack is the walk of the records without its loops. -/
theorem pwds_walked (rs : List Record) :
    ((walked [] rs).map DirFrame.pwd).reverse = loopErasure (rs.map Record.pwd) := by
  induction rs using List.reverseRecOn with
  | nil => simp [walked]
  | append_singleton rs r ih =>
    have hnodup : ((walked [] rs).map DirFrame.pwd).Nodup := by
      rw [← List.nodup_reverse, ih]
      exact nodup_loopErasure _
    rw [walked_concat, pwds_entered hnodup, ih, List.map_append, List.map_singleton,
      loopErasure_concat]

/-- No directory is stacked twice. -/
theorem nodup_walked (rs : List Record) : ((walked [] rs).map DirFrame.pwd).Nodup := by
  rw [← List.nodup_reverse, pwds_walked]
  exact nodup_loopErasure _

/-- The stack is no deeper than the number of directories seen. -/
theorem length_walked_le (rs : List Record) :
    (walked [] rs).length ≤ (rs.map Record.pwd).toFinset.card := by
  have hsubset : ((walked [] rs).map DirFrame.pwd).toFinset ⊆ (rs.map Record.pwd).toFinset := by
    intro pwd hpwd
    rw [List.mem_toFinset, ← List.mem_reverse, pwds_walked] at hpwd
    exact List.mem_toFinset.mpr (loopErasure_subset _ hpwd)
  calc (walked [] rs).length
      = ((walked [] rs).map DirFrame.pwd).toFinset.card := by
        rw [List.toFinset_card_of_nodup (nodup_walked rs), List.length_map]
    _ ≤ (rs.map Record.pwd).toFinset.card := Finset.card_le_card hsubset

/-- The last record's directory is on top. -/
theorem head?_walked (rs : List Record) :
    (walked [] rs).head?.map DirFrame.pwd = rs.getLast?.map Record.pwd := by
  induction rs using List.reverseRecOn with
  | nil => rfl
  | append_singleton rs r _ =>
    obtain ⟨top, rest, htop, hpwd⟩ := entered_eq_cons (walked [] rs) r.pwd r.oldpwd
    rw [walked_concat, htop, List.head?_cons, List.getLast?_concat, Option.map_some, hpwd,
      Option.map_some]

theorem getLast?_entered {frames : List DirFrame} (h : frames ≠ []) (pwd oldpwd : Text) :
    (entered frames pwd oldpwd).getLast? = frames.getLast? := by
  obtain ⟨top, rest, htop, -⟩ := entered_eq_cons frames pwd oldpwd
  have hne : entered frames pwd oldpwd ≠ [] := by simp [htop]
  rw [entered] at hne ⊢
  split at hne
  · rename_i hstacked
    rw [if_pos hstacked]
    conv_rhs => rw [← List.takeWhile_append_dropWhile (p := (·.pwd ≠ pwd)) (l := frames)]
    rw [List.getLast?_append_of_ne_nil _ hne]
  · rename_i hstacked
    rw [if_neg hstacked, List.getLast?_cons_of_ne_nil h]

/-- The first record's frame is at the bottom. -/
theorem getLast?_walked (rs : List Record) :
    (walked [] rs).getLast? = rs.head?.map Record.frame := by
  induction rs using List.reverseRecOn with
  | nil => rfl
  | append_singleton rs r ih =>
    rw [walked_concat]
    cases rs with
    | nil => rfl
    | cons first rs =>
      have hne : walked [] (first :: rs) ≠ [] := by
        intro hnil
        rw [hnil] at ih
        cases ih
      rw [getLast?_entered hne, ih]
      rfl

/-- A frame was pushed by a record that holds it onto what lies below it, and has not
been taken away since. -/
theorem pushed_of_walked {rs : List Record} {above below : List DirFrame} {frame : DirFrame}
    (h : walked [] rs = above ++ frame :: below) :
    ∃ before r later, rs = before ++ r :: later ∧ frame = r.frame ∧ walked [] before = below ∧
      walked [] (before ++ [r]) = frame :: below ∧
      ∀ more, more <+: later → frame :: below <:+ walked [] (before ++ r :: more) := by
  induction rs using List.reverseRecOn generalizing above with
  | nil => simp [walked] at h
  | append_singleton rs r ih =>
    rw [walked_concat] at h
    -- What was on the stack before and is on it now has the record that pushed it then.
    have hkept : ∀ above', walked [] rs = above' ++ frame :: below →
        ∃ before s later, rs ++ [r] = before ++ s :: later ∧ frame = s.frame ∧
          walked [] before = below ∧ walked [] (before ++ [s]) = frame :: below ∧
          ∀ more, more <+: later → frame :: below <:+ walked [] (before ++ s :: more) := by
      intro above' habove
      obtain ⟨before, s, later, rfl, hframe, hbelow, hpushed, hstays⟩ := ih habove
      refine ⟨before, s, later ++ [r], by simp, hframe, hbelow, hpushed, fun more hmore => ?_⟩
      rcases List.prefix_concat_iff.mp hmore with rfl | hmore
      · have hend : before ++ s :: (later ++ [r]) = (before ++ s :: later) ++ [r] := by simp
        rw [hend, walked_concat, h]
        exact List.suffix_append above _
      · exact hstays more hmore
    rw [entered] at h
    split at h
    · refine hkept ((walked [] rs).takeWhile (·.pwd ≠ r.pwd) ++ above) ?_
      rw [List.append_assoc, ← h, List.takeWhile_append_dropWhile]
    · rename_i hstacked
      cases above with
      | nil =>
        rw [List.nil_append, List.cons.injEq] at h
        have hpushed : walked [] (rs ++ [r]) = frame :: below := by
          rw [walked_concat, entered, if_neg hstacked, h.1, h.2]
        refine ⟨rs, r, [], rfl, h.1.symm, h.2, hpushed, fun more hmore => ?_⟩
        rw [List.prefix_nil.mp hmore, hpushed]
      | cons top above =>
        rw [List.cons_append, List.cons.injEq] at h
        exact hkept above h.2

end Directories

/-! ## 4. Underflow -/

/-- What is no record is not so for an underflow. -/
theorem Malformation.message_ne_of_ofFields {fields : List Text} {reason : Malformation}
    (h : Record.ofFields fields = .ok (.error reason)) :
    reason.message ≠ Underflow.mk.message := by
  intro hmessage
  have hheading : reason.heading = Malformation.underflow.heading := by
    rw [heading, hmessage, heading, message]
  have hmem := Malformation.heading_mem h
  rw [hheading] at hmem
  exact absurd hmem (by decide)

/-! ## 5. Stacks of groups -/

namespace Follower

/-- A frame was pushed by a group that is a record and holds it onto what lies below it,
and has not been taken away by any group since. -/
theorem pushed_of_after {isFile : Text → Bool} {cwd : Text} {groups : List (List Text)}
    {above below : List DirFrame} {frame : DirFrame} :
    let frames (groups : List (List Text)) :=
      ((start Directories.empty).after (step isFile cwd) groups).directories.frames
    frames groups = above ++ frame :: below →
      ∃ before fields r later, groups = before ++ fields :: later ∧
        Record.ofFields fields = .ok (.ok r) ∧ frame = r.frame ∧ frames before = below ∧
        frames (before ++ [fields]) = frame :: below ∧
        ∀ more, more <+: later → frame :: below <:+ frames (before ++ fields :: more) := by
  intro frames hsplit
  have hframes : ∀ gs, frames gs = Directories.walked [] (Record.among gs) :=
    frames_after_start isFile cwd
  rw [hframes] at hsplit
  obtain ⟨rs, r, ss, hrecords, hframe, hbelow, hpushed, hstays⟩ :=
    Directories.pushed_of_walked hsplit
  obtain ⟨before, fields, later, rfl, hfields, rfl, rfl⟩ := Record.exists_of_among_eq hrecords
  have hbehind : ∀ more, Record.among (before ++ fields :: more) =
      Record.among before ++ r :: Record.among more := fun more => by
    rw [← List.singleton_append, Record.among_append, Record.among_append,
      Record.among_singleton hfields, List.singleton_append]
  refine ⟨before, fields, r, later, rfl, hfields, hframe, ?_, ?_, fun more hmore => ?_⟩
  · rw [hframes, hbelow]
  · rw [hframes, hbehind, Record.among_nil, hpushed]
  · rw [hframes, hbehind]
    exact hstays _ (hmore.filterMap _)

/-- After any groups no directory is stacked twice. The bottom frame is that of the first
record, the top one has the directory of the last record, and each frame is that of a
record that pushed it onto what is below it, where it has stayed since. The directories
from the bottom are those of the records without their loops, so there are no more than
the records name; groups without an overlong one are run through to the same end. And no
follower whatever reports a popping that fails. -/
theorem after_stack (isFile : Text → Bool) (cwd : Text) (groups : List (List Text)) :
    let follower (groups : List (List Text)) :=
      (start Directories.empty).after (step isFile cwd) groups
    let frames (groups : List (List Text)) := (follower groups).directories.frames
    let records := Record.among groups
    ((frames groups).map DirFrame.pwd).Nodup ∧
      (frames groups).getLast? = records.head?.map Record.frame ∧
      (frames groups).head?.map DirFrame.pwd = records.getLast?.map Record.pwd ∧
      (∀ above frame below, frames groups = above ++ frame :: below →
        ∃ before fields r later, groups = before ++ fields :: later ∧
          Record.ofFields fields = .ok (.ok r) ∧ frame = r.frame ∧ frames before = below ∧
          frames (before ++ [fields]) = frame :: below ∧
          ∀ more, more <+: later → frame :: below <:+ frames (before ++ fields :: more)) ∧
      ((frames groups).map DirFrame.pwd).reverse = loopErasure (records.map Record.pwd) ∧
      (frames groups).length ≤ (records.map Record.pwd).toFinset.card ∧
      ((∀ g ∈ groups, LineFits g) →
        ∃ t, (start Directories.empty).run isFile cwd groups = (follower groups, t, none)) ∧
      ∀ (f f' : Follower) fields reason shown,
        f.step isFile cwd fields = .ok (f', .malformed reason shown) →
          reason.message ≠ "directory stack underflow" := by
  intro follower frames records
  have hframes : ∀ gs, frames gs = Directories.walked [] (Record.among gs) :=
    frames_after_start isFile cwd
  refine ⟨?_, ?_, ?_, fun above frame below => pushed_of_after, ?_, ?_, ?_, ?_⟩
  · rw [hframes]
    exact Directories.nodup_walked records
  · rw [hframes]
    exact Directories.getLast?_walked records
  · rw [hframes]
    exact Directories.head?_walked records
  · rw [hframes]
    exact Directories.pwds_walked records
  · rw [hframes]
    exact Directories.length_walked_le records
  · intro hfits
    exact run_of_not_overlong _ fun g hg => not_overlong_of_lineFits fun _ => hfits g hg
  · intro f f' fields reason shown hstep
    exact Malformation.message_ne_of_ofFields (ofFields_of_malformed hstep)

end Follower

end LineTrace
