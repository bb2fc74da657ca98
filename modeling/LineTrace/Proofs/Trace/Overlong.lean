/-
LineTrace.Proofs.Trace.Overlong — the one thing that stops a trace.

Whatever its fields, a group has an outcome: malformed, unattributed or a hit.
There is one exception. A line number is converted once its digits and the
record's directory have been looked at, and one of more digits than can be
converted stops the trace there. `Overlong` is the shape of such a group and
`Follower.exists_step_iff` says that there is no other.

So a trace without overlong groups is followed to its end, one in particular whose
line numbers all fit (`Follower.exists_follows`), and any other as far as the first
of them (`exists_first_overlong`). Draining a log gives what the
outcomes add up to (`drain_of_follows`) or only the complaint about that line
number (`drain_of_overlong`), whatever the reads were.
-/
import LineTrace.Proofs.Trace.Outcomes
import LineTrace.Proofs.Trace.Reading

namespace LineTrace

/-! ## 1. Groups -/

/-- A record but for its line number, which has more digits than can be
converted. -/
def Overlong : List Text → Prop
  | [line, _, pwd, _] => line.all Text.isDigit ∧ pwd ≠ [] ∧ Text.digitLimit < line.length
  | _ => False

/-- The complaint about the line number of a group. -/
def overlongOf (fields : List Text) : LineTooLong := ⟨(fields.headD []).length⟩

theorem Record.ofFields_of_overlong {fields : List Text} (h : Overlong fields) :
    Record.ofFields fields = .error (overlongOf fields) := by
  unfold Overlong at h
  split at h
  · rename_i line source pwd oldpwd
    obtain ⟨hdigits, hpwd, hlong⟩ := h
    have hne : line ≠ [] := by
      rintro rfl
      simp at hlong
    have hds := lineDigits?_eq_some_iff.mpr ⟨⟨hne, hdigits⟩, rfl⟩
    simp [Record.ofFields, hds, hpwd, hlong, overlongOf]
  · exact h.elim

theorem Record.exists_of_not_overlong {fields : List Text} (h : ¬ Overlong fields) :
    ∃ parsed, Record.ofFields fields = .ok parsed := by
  unfold Record.ofFields
  split
  · rename_i line source pwd oldpwd
    cases hds : lineDigits? line with
    | none => exact ⟨_, rfl⟩
    | some ds =>
      obtain ⟨⟨-, hdigits⟩, rfl⟩ := lineDigits?_eq_some_iff.mp hds
      by_cases hpwd : pwd = []
      · exact ⟨_, if_pos hpwd⟩
      · refine ⟨_, (if_neg hpwd).trans (if_neg ?_)⟩
        rw [List.length_map]
        exact fun hlong => h ⟨hdigits, hpwd, hlong⟩
  · exact ⟨_, rfl⟩

theorem not_overlong_of_lineFits {fields : List Text}
    (h : fields.length = TraceFormat.fieldCount → LineFits fields) : ¬ Overlong fields := by
  intro hlong
  unfold Overlong at hlong
  split at hlong
  · rename_i line source pwd oldpwd
    obtain ⟨hdigits, -, hlimit⟩ := hlong
    have hne : line ≠ [] := by
      rintro rfl
      simp at hlimit
    have hds := lineDigits?_eq_some_iff.mpr ⟨⟨hne, hdigits⟩, rfl⟩
    have hle := h rfl line (by simp) _ hds
    rw [List.length_map] at hle
    omega
  · exact hlong

/-- Groups some of which are overlong have a first one. -/
theorem exists_first_overlong {groups : List (List Text)} (h : ¬ ∀ g ∈ groups, ¬ Overlong g) :
    ∃ before g after, groups = before ++ g :: after ∧ (∀ x ∈ before, ¬ Overlong x) ∧
      Overlong g := by
  induction groups with
  | nil => simp at h
  | cons g groups ih =>
    by_cases hg : Overlong g
    · exact ⟨[], g, groups, rfl, by simp, hg⟩
    · have hmore : ¬ ∀ x ∈ groups, ¬ Overlong x := fun hx =>
        h (List.forall_mem_cons.mpr ⟨hg, hx⟩)
      obtain ⟨before, g', after, rfl, hbefore, hg'⟩ := ih hmore
      exact ⟨g :: before, g', after, rfl, List.forall_mem_cons.mpr ⟨hg, hbefore⟩, hg'⟩

/-! ## 2. Traces -/

namespace Follower

variable {isFile : Text → Bool} {cwd : Text}

theorem step_of_overlong (f : Follower) {fields : List Text} (h : Overlong fields) :
    f.step isFile cwd fields = .error (overlongOf fields) := by
  rw [step, stepWith, Record.ofFields_of_overlong h]

/-- Only an overlong group has no outcome. -/
theorem exists_step_iff (f : Follower) (fields : List Text) :
    (∃ f' o, f.step isFile cwd fields = .ok (f', o)) ↔ ¬ Overlong fields := by
  constructor
  · rintro ⟨f', o, hstep⟩ h
    rw [step_of_overlong f h] at hstep
    cases hstep
  · intro h
    obtain ⟨parsed, hparsed⟩ := Record.exists_of_not_overlong h
    exact f.exists_step hparsed

/-- A trace without overlong groups is followed to its end. -/
theorem exists_follows_of_not_overlong (isFile : Text → Bool) (cwd : Text) (f : Follower)
    {groups : List (List Text)} (h : ∀ g ∈ groups, ¬ Overlong g) :
    ∃ os f', Follows isFile cwd f groups os f' := by
  induction groups generalizing f with
  | nil => exact ⟨[], f, .nil f⟩
  | cons g groups ih =>
    obtain ⟨f₁, o, hstep⟩ : ∃ f₁ o, f.step isFile cwd g = .ok (f₁, o) :=
      (f.exists_step_iff g).mpr (h g (by simp))
    obtain ⟨os, f', hmore⟩ := ih f₁ fun x hx => h x (by simp [hx])
    exact ⟨o :: os, f', .cons hstep hmore⟩

/-- Every trace is followed to its end if the line numbers of its records fit. -/
theorem exists_follows (isFile : Text → Bool) (cwd : Text) {groups : List (List Text)}
    (h : ∀ g ∈ groups, g.length = TraceFormat.fieldCount → LineFits g) (f : Follower) :
    ∃ os f', Follows isFile cwd f groups os f' :=
  exists_follows_of_not_overlong isFile cwd f fun g hg => not_overlong_of_lineFits (h g hg)

/-- A run stops at an overlong group with what came before. -/
theorem Follows.runWith_overlong {f f' : Follower} {before after : List (List Text)}
    {g : List Text} {os : List Outcome} (h : Follows isFile cwd f before os f')
    (hg : Overlong g) (t : Tally) :
    f.runWith Directories.classify isFile cwd t (before ++ g :: after) =
      (f', (os.foldl Tally.add t).inOrder, some (overlongOf g)) := by
  induction h generalizing t with
  | nil f =>
    have hstep : f.stepWith Directories.classify isFile cwd g = .error (overlongOf g) :=
      step_of_overlong f hg
    rw [List.nil_append, Follower.runWith, hstep]
    rfl
  | cons hstep _ ih =>
    rw [step] at hstep
    rw [List.cons_append, Follower.runWith, hstep]
    exact ih _

end Follower

/-! ## 3. Drains -/

section Drains

variable {f : TraceFormat} {isFile : Text → Bool} {cwd : Text} {reads : List (Except Fault Bytes)}
  {groups : List Group} (stop : Option Fault) {dropped : Nat}

/-- What is drained of reads whose groups can be followed, and the failure that
ended them. -/
theorem drain_of_follows (countHits : Bool)
    (hscan : f.scan reads = ⟨groups, stop.map .unreadable, dropped⟩) {os : List Outcome}
    {follower : Follower}
    (h : Follower.Follows isFile cwd (Follower.start Directories.empty)
      (groups.map Group.fields) os follower) :
    drain f isFile cwd countHits reads =
      .ok (⟨(Coverage.empty countHits).addHits (os.filterMap Outcome.hit?),
        ⟨groups.length, groups.countP Group.torn⟩, Tally.ofOutcomes os, follower, dropped⟩,
        stop) := by
  rw [drain, hscan]
  cases stop <;>
    simp [h.run, Tally.hits_ofOutcomes, StreamCounts.afterPass]

/-- A log whose groups can be followed is drained, whatever the size of the
chunks, and nothing stops the reading. -/
theorem drain_readsOf (hf : f.IsAscii) (countHits : Bool) {size : Nat} (hs : 0 < size)
    {log : Bytes} {os : List Outcome} {follower : Follower}
    (h : Follower.Follows isFile cwd (Follower.start Directories.empty)
      (((f.wire hf).groups log).map Group.fields) os follower) :
    ∃ d : Drained, drain f isFile cwd countHits (readsOf size log) = .ok (d, none) ∧
      d.coverage = (Coverage.empty countHits).addHits (os.filterMap Outcome.hit?) ∧
      d.tally = Tally.ofOutcomes os ∧
      d.counts = ⟨((f.wire hf).groups log).length, ((f.wire hf).groups log).countP Group.torn⟩ :=
  ⟨_, drain_of_follows none countHits (TraceFormat.scan_readsOf hf hs log) h, rfl, rfl, rfl⟩

/-- Of reads with an overlong group nothing is drained. -/
theorem drain_of_overlong (countHits : Bool)
    (hscan : f.scan reads = ⟨groups, stop.map .unreadable, dropped⟩)
    {before after : List (List Text)} {g : List Text} {os : List Outcome} {follower : Follower}
    (hgroups : groups.map Group.fields = before ++ g :: after) (hg : Overlong g)
    (h : Follower.Follows isFile cwd (Follower.start Directories.empty) before os follower) :
    drain f isFile cwd countHits reads = .error (overlongOf g).fault := by
  rw [drain, hscan]
  cases stop <;>
    simp [hgroups, Follower.run, h.runWith_overlong hg]

/-- What is drained was followed to its end, as far as the reads went. -/
theorem follows_of_drain {countHits : Bool} {d : Drained} {stop : Option Fault}
    (h : drain f isFile cwd countHits reads = .ok (d, stop)) :
    ∃ groups dropped os follower, f.scan reads = ⟨groups, stop.map .unreadable, dropped⟩ ∧
      Follower.Follows isFile cwd (Follower.start Directories.empty) (groups.map Group.fields) os
        follower := by
  obtain ⟨stop', hstopped⟩ | ⟨e, hstopped⟩ :
      (∃ stop' : Option Fault, (f.scan reads).stopped = stop'.map .unreadable) ∨
        ∃ e, (f.scan reads).stopped = some (.noBytes e) := by
    rcases (f.scan reads).stopped with _ | ⟨e | e⟩
    · exact .inl ⟨none, rfl⟩
    · exact .inr ⟨e, rfl⟩
    · exact .inl ⟨some e, rfl⟩
  · have hscan : f.scan reads =
        ⟨(f.scan reads).groups, stop'.map .unreadable, (f.scan reads).dropped⟩ := by
      rw [← hstopped]
    by_cases hfits : ∀ g ∈ (f.scan reads).groups.map Group.fields, ¬ Overlong g
    · obtain ⟨os, follower, hfollows⟩ := Follower.exists_follows_of_not_overlong isFile cwd
        (Follower.start Directories.empty) hfits
      rw [drain_of_follows stop' countHits hscan hfollows] at h
      cases h
      exact ⟨_, _, os, follower, hscan, hfollows⟩
    · obtain ⟨before, g, after, hgroups, hbefore, hg⟩ := exists_first_overlong hfits
      obtain ⟨os, follower, hfollows⟩ := Follower.exists_follows_of_not_overlong isFile cwd
        (Follower.start Directories.empty) hbefore
      rw [drain_of_overlong stop' countHits hscan hgroups hg hfollows] at h
      cases h
  · rw [drain, hstopped] at h
    cases h

end Drains

end LineTrace
