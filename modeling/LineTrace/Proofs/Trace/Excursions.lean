/-
LineTrace.Proofs.Trace.Excursions — a stack that is left and come back to.

A command goes into other directories, and its subshells and children into others again,
and at last it stands where it started. Nothing of that has to be balanced: one record
may take any number of frames away, directories come back in any order, and what is no
record does nothing. As long as no record names a directory from below the one where it
all began, the frames from there down are only ever covered and laid bare
(`exists_walked_above`). No directory is stacked twice, so a record back in that
directory lays bare exactly them.
-/
import LineTrace.Proofs.Trace.Stack

namespace LineTrace

namespace Directories

variable {top : DirFrame} {below : List DirFrame}

/-- Entering a directory that is not below a frame leaves the stack from that frame down
as it is. -/
theorem exists_entered_above {pwd : Text} (h : ∀ f ∈ below, pwd ≠ f.pwd) (oldpwd : Text)
    (above : List DirFrame) :
    ∃ above', entered (above ++ top :: below) pwd oldpwd = above' ++ top :: below := by
  rw [entered]
  split
  · rename_i hstacked
    by_cases habove : ∃ f ∈ above, f.pwd = pwd
    · obtain ⟨f, hf, hpwd⟩ := habove
      have hne : ¬ (above.dropWhile (·.pwd ≠ pwd)).isEmpty := by
        rw [List.isEmpty_iff, List.dropWhile_eq_nil_iff]
        intro hall
        exact of_decide_eq_true (hall f hf) hpwd
      exact ⟨above.dropWhile (·.pwd ≠ pwd), by rw [List.dropWhile_append, if_neg hne]⟩
    · have hdropped : ∀ f ∈ above, decide (f.pwd ≠ pwd) = true := fun f hf =>
        decide_eq_true fun hpwd => habove ⟨f, hf, hpwd⟩
      have htop : top.pwd = pwd := by
        obtain ⟨f, hf, hpwd⟩ := hstacked
        rcases List.mem_append.mp hf with hf | hf
        · exact absurd ⟨f, hf, hpwd⟩ habove
        · rcases List.mem_cons.mp hf with rfl | hf
          · exact hpwd
          · exact absurd hpwd.symm (h f hf)
      refine ⟨[], ?_⟩
      rw [List.dropWhile_append_of_pos hdropped, List.dropWhile_cons_of_neg (by simpa using htop),
        List.nil_append]
  · exact ⟨⟨pwd, oldpwd⟩ :: above, rfl⟩

/-- So do any records in directories that are not below it. -/
theorem exists_walked_above {rs : List Record} (h : ∀ r ∈ rs, ∀ f ∈ below, r.pwd ≠ f.pwd) :
    ∃ above, walked (top :: below) rs = above ++ top :: below := by
  induction rs using List.reverseRecOn with
  | nil => exact ⟨[], rfl⟩
  | append_singleton rs r ih =>
    obtain ⟨above, habove⟩ := ih fun s hs => h s (List.mem_append_left _ hs)
    rw [walked_concat, habove]
    exact exists_entered_above (h r (by simp)) r.oldpwd above

/-- Records that end in the top directory of a stack, and go to none below it, leave the
stack as it was. -/
theorem walked_excursion {earlier rs : List Record} (hstack : walked [] earlier = top :: below)
    (h : ∀ r ∈ rs, ∀ f ∈ below, r.pwd ≠ f.pwd)
    (hback : rs.getLast?.map Record.pwd = some top.pwd) :
    walked (top :: below) rs = top :: below := by
  obtain ⟨last, hlast, hpwd⟩ := Option.map_eq_some_iff.mp hback
  obtain ⟨rs, rfl⟩ := List.getLast?_eq_some_iff.mp hlast
  obtain ⟨above, habove⟩ : ∃ above, walked (top :: below) rs = above ++ top :: below :=
    exists_walked_above fun r hr => h r (List.mem_append_left _ hr)
  have hnodup := nodup_walked (earlier ++ rs)
  rw [walked_append, hstack, habove, List.map_append, List.map_cons, List.nodup_append] at hnodup
  have hdistinct : ∀ f ∈ above, f.pwd ≠ top.pwd := fun f hf =>
    hnodup.2.2 f.pwd (List.mem_map_of_mem hf) top.pwd (List.mem_cons_self ..)
  rw [walked_concat, habove, hpwd, entered_append_cons hdistinct]

end Directories

namespace Follower

/-- Wherever any groups have led to, further groups whose records go to no directory
below the top one, and of which the last record is back in it, leave every frame as it
was. -/
theorem after_excursion {isFile : Text → Bool} {cwd : Text} {groups excursion : List (List Text)}
    {top : DirFrame} {below : List DirFrame}
    (hstack : ((start Directories.empty).after (step isFile cwd) groups).directories.frames =
      top :: below)
    (hbelow : ∀ r ∈ Record.among excursion, ∀ frame ∈ below, r.pwd ≠ frame.pwd)
    (hback : (Record.among excursion).getLast?.map Record.pwd = some top.pwd) :
    (((start Directories.empty).after (step isFile cwd) groups).after (step isFile cwd)
      excursion).directories.frames = top :: below := by
  have hwalked : Directories.walked [] (Record.among groups) = top :: below :=
    (frames_after_start isFile cwd groups).symm.trans hstack
  rw [frames_after, hstack]
  exact Directories.walked_excursion hwalked hbelow hback

/-- An excursion that is not nested, with a group that is no record and a return that
takes two frames away at once; the directory is come back to from another one than at
first. -/
theorem after_excursion_unbalanced :
    let record (pwd oldpwd : Text) : List Text := ["1", "", pwd, oldpwd]
    let groups : List (List Text) := [record "/" "", record "/w" "/"]
    let excursion : List (List Text) :=
      [record "/x" "/w", record "/y" "/x", ["", "a.sh", "/", "/y"], record "/x" "/y",
        record "/z" "/x", record "/w" "/z", record "/y" "/w", record "/z" "/y", record "/w" "/z"]
    ((start Directories.empty).after (step (fun _ => false) "/") groups).directories.frames =
        [⟨"/w", "/"⟩, ⟨"/", ""⟩] ∧
      (∀ r ∈ Record.among excursion, ∀ frame ∈ ([⟨"/", ""⟩] : List DirFrame),
        r.pwd ≠ frame.pwd) ∧
      (Record.among excursion).getLast?.map Record.pwd = some ("/w" : Text) ∧
      (((start Directories.empty).after (step (fun _ => false) "/") groups).after
        (step (fun _ => false) "/") excursion).directories.frames =
          [⟨"/w", "/"⟩, ⟨"/", ""⟩] := by
  intro record groups excursion
  have hstack : ((start Directories.empty).after (step (fun _ => false) "/")
      groups).directories.frames = [⟨"/w", "/"⟩, ⟨"/", ""⟩] := by rfl
  have hbelow : ∀ r ∈ Record.among excursion, ∀ frame ∈ ([⟨"/", ""⟩] : List DirFrame),
      r.pwd ≠ frame.pwd := by decide
  have hback : (Record.among excursion).getLast?.map Record.pwd = some ("/w" : Text) := by rfl
  exact ⟨hstack, hbelow, hback, after_excursion hstack hbelow hback⟩

end Follower

end LineTrace
