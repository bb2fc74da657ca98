/-
LineTrace.Proofs.Trace.Calls — a follower that is given its groups one at a time.

A run over a whole trace ends at the first overlong group. Whoever gives a follower
its groups in calls of their own can go on behind such a group, since the complaint
about it leaves the follower as it was. `Follower.after` is the follower after such
calls; where no group is overlong it is the one that a run ends with
(`run_of_not_overlong`).

Of all groups only the records move the stack, each of them into the directory that it
names. So the frames after any calls are those that the records among the groups walk
through (`frames_after`), and what is to be known of a stack is a matter of lists of
records.
-/
import LineTrace.Proofs.Trace.Mentions

namespace LineTrace

/-! ## 1. Records among groups -/

namespace Record

@[simp] theorem among_nil : among [] = [] := rfl

theorem among_append (gs hs : List (List Text)) : among (gs ++ hs) = among gs ++ among hs :=
  List.filterMap_append

theorem ofFields_eq_of_read {fields : List Text} {r : Record}
    (h : (Record.ofFields fields).toOption.bind Except.toOption = some r) :
    Record.ofFields fields = .ok (.ok r) := by
  rcases hparsed : Record.ofFields fields with e | reason | s
  all_goals rw [hparsed] at h; cases h
  rfl

theorem among_singleton {fields : List Text} {r : Record}
    (h : Record.ofFields fields = .ok (.ok r)) : among [fields] = [r] := by
  simp [among, h, Except.toOption]

theorem among_singleton_of_malformed {fields : List Text} {reason : Malformation}
    (h : Record.ofFields fields = .ok (.error reason)) : among [fields] = [] := by
  simp [among, h, Except.toOption]

theorem among_singleton_of_error {fields : List Text} {e : LineTooLong}
    (h : Record.ofFields fields = .error e) : among [fields] = [] := by
  simp [among, h, Except.toOption]

end Record

/-! ## 2. Walking -/

namespace Directories

/-- The frames after records. -/
def walked (frames : List DirFrame) (rs : List Record) : List DirFrame :=
  rs.foldl (fun frames r => entered frames r.pwd r.oldpwd) frames

theorem walked_append (frames : List DirFrame) (rs ss : List Record) :
    walked frames (rs ++ ss) = walked (walked frames rs) ss :=
  List.foldl_append

theorem walked_concat (frames : List DirFrame) (rs : List Record) (r : Record) :
    walked frames (rs ++ [r]) = entered (walked frames rs) r.pwd r.oldpwd :=
  walked_append frames rs [r]

/-- Every frame is that of a record, if it was not there before. -/
theorem mem_walked {frames : List DirFrame} {rs : List Record} {frame : DirFrame}
    (h : frame ∈ walked frames rs) : frame ∈ frames ∨ ∃ r ∈ rs, frame = ⟨r.pwd, r.oldpwd⟩ := by
  induction rs generalizing frames with
  | nil => exact .inl h
  | cons r rs ih =>
    rcases ih h with hframe | ⟨s, hs, hframe⟩
    · rcases mem_entered hframe with rfl | hframe
      · exact .inr ⟨r, List.mem_cons_self .., rfl⟩
      · exact .inl hframe
    · exact .inr ⟨s, List.mem_cons_of_mem _ hs, hframe⟩

end Directories

/-! ## 3. Calls -/

namespace Follower

/-- The follower after calls for groups in turn; a call that ends in a complaint
leaves it as it was. -/
def after (call : Follower → List Text → Except LineTooLong (Follower × Outcome))
    (f : Follower) (groups : List (List Text)) : Follower :=
  groups.foldl (fun f fields => ((call f fields).toOption.map Prod.fst).getD f) f

section

variable {call : Follower → List Text → Except LineTooLong (Follower × Outcome)}

theorem after_append (f : Follower) (gs hs : List (List Text)) :
    f.after call (gs ++ hs) = (f.after call gs).after call hs :=
  List.foldl_append

theorem after_concat_of_ok {f next : Follower} {gs : List (List Text)} {fields : List Text}
    {o : Outcome} (h : call (f.after call gs) fields = .ok (next, o)) :
    f.after call (gs ++ [fields]) = next := by
  rw [after_append, after, List.foldl_cons, List.foldl_nil, h]
  rfl

theorem after_concat_of_error {f : Follower} {gs : List (List Text)} {fields : List Text}
    {e : LineTooLong} (h : call (f.after call gs) fields = .error e) :
    f.after call (gs ++ [fields]) = f.after call gs := by
  rw [after_append, after, List.foldl_cons, List.foldl_nil, h]
  rfl

/-- What every call keeps holds after all of them. -/
theorem after_induction {P : Follower → Prop} {f : Follower} (hf : P f)
    (hcall : ∀ f f' fields o, P f → call f fields = .ok (f', o) → P f')
    (groups : List (List Text)) : P (f.after call groups) := by
  induction groups using List.reverseRecOn with
  | nil => exact hf
  | append_singleton groups fields ih =>
    cases hstep : call (f.after call groups) fields with
    | error e =>
      rw [after_concat_of_error hstep]
      exact ih
    | ok next =>
      rw [after_concat_of_ok hstep]
      exact hcall _ _ _ _ ih hstep

end

variable {isFile : Text → Bool} {cwd : Text}

/-- What can be followed leaves the follower that the calls leave. -/
theorem Follows.after_eq {f f' : Follower} {groups : List (List Text)} {os : List Outcome}
    (h : Follows isFile cwd f groups os f') : f.after (step isFile cwd) groups = f' := by
  induction h with
  | nil f => rfl
  | @cons f next f' fields rest o os hstep _ ih =>
    rw [after, List.foldl_cons, hstep]
    exact ih

/-- A run over groups of which none is overlong does what the calls do, and nothing
stops it. -/
theorem run_of_not_overlong (f : Follower) {groups : List (List Text)}
    (h : ∀ g ∈ groups, ¬ Overlong g) :
    ∃ t, f.run isFile cwd groups = (f.after (step isFile cwd) groups, t, none) := by
  obtain ⟨os, f', hfollows⟩ := exists_follows_of_not_overlong isFile cwd f h
  exact ⟨Tally.ofOutcomes os, by rw [hfollows.run, hfollows.after_eq]⟩

theorem frames_resolve (f : Follower) (source : Text) :
    (resolve isFile cwd f source).1.directories.frames = f.directories.frames := by
  unfold resolve
  split
  · rfl
  · dsimp only
    split <;> exact f.directories.frames_candidates

/-- A call for a record enters the record's directory. -/
theorem frames_step {f f' : Follower} {fields : List Text} {r : Record} {o : Outcome}
    (h : Record.ofFields fields = .ok (.ok r)) (hstep : f.step isFile cwd fields = .ok (f', o)) :
    f'.directories.frames = Directories.entered f.directories.frames r.pwd r.oldpwd := by
  obtain ⟨moved, hframes, -, hrecord⟩ := f.step_record h
  rw [hrecord] at hstep
  split at hstep
  · cases hstep
    exact hframes
  · cases hstep
    rw [frames_resolve]
    exact hframes

/-- The frames after calls are those of the records among the groups. -/
theorem frames_after (f : Follower) (groups : List (List Text)) :
    (f.after (step isFile cwd) groups).directories.frames =
      Directories.walked f.directories.frames (Record.among groups) := by
  induction groups using List.reverseRecOn with
  | nil => rfl
  | append_singleton groups fields ih =>
    rw [Record.among_append, Directories.walked_append, ← ih]
    cases hparsed : Record.ofFields fields with
    | error e =>
      have hstep : (f.after (step isFile cwd) groups).step isFile cwd fields = .error e := by
        rw [step, stepWith, hparsed]
      rw [after_concat_of_error hstep, Record.among_singleton_of_error hparsed]
      rfl
    | ok parsed =>
      cases parsed with
      | error reason =>
        rw [after_concat_of_ok (step_malformed _ hparsed),
          Record.among_singleton_of_malformed hparsed]
        rfl
      | ok r =>
        obtain ⟨next, o, hstep⟩ : ∃ next o,
            (f.after (step isFile cwd) groups).step isFile cwd fields = .ok (next, o) :=
          exists_step _ hparsed
        rw [after_concat_of_ok hstep, Record.among_singleton hparsed]
        exact frames_step hparsed hstep

/-- From no frames on, the records alone make the stack. -/
theorem frames_after_start (isFile : Text → Bool) (cwd : Text) (groups : List (List Text)) :
    ((start Directories.empty).after (step isFile cwd) groups).directories.frames =
      Directories.walked [] (Record.among groups) :=
  frames_after _ groups

end Follower

end LineTrace
