/-
LineTrace.Proofs.Trace.Candidates — the candidates that are kept with the stack.

The list of candidates is worked out when it is asked for and kept until the stack changes.
What could go wrong is a change that leaves the list there. None does: a call leaves
everything as it is, or drops the list, or is the one that asks for it (`afterCall_cases`).
The calls that can fail are the ones to look at. A popping that fails has changed nothing,
so it may keep the list; an unwinding that fails in the middle has popped frames already,
and the first of them took the list with it (`popTo_cases`). So the list is that of the
frames after any calls (`Fresh.after`).

What the list should be is said apart from how it is made: of the directories that the
frames name, in order (`named`), the first occurrences (`Text.FirstsOf`). There is one such
list, and it is what `candidates_after` says is given.
-/
import LineTrace.Proofs.Trace.Unwinding

namespace LineTrace.Directories

/-! ## 1. What a call does to the list -/

/-- A popping that fails has changed nothing, and one that does not drops the list. -/
theorem pop_cases (d : Directories) : d.pop.1 = d ∨ d.pop.1.known = none := by
  obtain ⟨frames, known⟩ := d
  match frames with
  | [] => exact .inl rfl
  | [f] => exact .inl rfl
  | f :: g :: rest => exact .inr rfl

theorem known_popTo_eq_none {d : Directories} (h : d.known = none) (pwd : Text) :
    (d.popTo pwd).1.known = none := by
  simp [popTo, h]

/-- Unwinding keeps the list where no frame goes, and otherwise drops it, also where a later
popping fails. -/
theorem popTo_cases (d : Directories) (pwd : Text) :
    (d.popTo pwd).1 = d ∨ (d.popTo pwd).1.known = none := by
  rw [popTo_eq]
  obtain ⟨frames, known⟩ := d
  cases frames with
  | nil => exact .inl rfl
  | cons f frames =>
    by_cases hf : f.pwd = pwd
    · left
      simp [hf]
    · cases frames with
      | nil =>
        -- The root is not popped, so the unwinding fails before anything has changed.
        left
        simp [hf, pop]
      | cons g rest =>
        right
        simpa [hf, pop] using known_popTo_eq_none rfl pwd

/-- Judging a record changes the stack where it makes the root frame only. -/
theorem classify_cases (d : Directories) (pwd oldpwd : Text) :
    (d.classify pwd oldpwd).1 = d ∨ (d.classify pwd oldpwd).1.known = none := by
  by_cases hnil : d.frames = []
  · right
    rw [classify, hnil]
    rfl
  · exact .inl (classify_of_ne_nil hnil pwd oldpwd)

/-- A call leaves everything as it is, drops the list, or asks for it. -/
theorem afterCall_cases (d : Directories) (c : Call) :
    d.afterCall c = d ∨ (d.afterCall c).known = none ∨ d.afterCall c = d.candidates.1 := by
  cases c with
  | reseed pwd oldpwd => exact .inr (.inl rfl)
  | push pwd oldpwd => exact .inr (.inl rfl)
  | pop => exact (pop_cases d).imp_right .inl
  | popTo pwd => exact (popTo_cases d pwd).imp_right .inl
  | classify pwd oldpwd => exact (classify_cases d pwd oldpwd).imp_right .inl
  | candidates => exact .inr (.inr rfl)

/-! ## 2. Any calls -/

theorem Fresh.afterCall {d : Directories} (h : d.Fresh) (c : Call) : (d.afterCall c).Fresh := by
  rcases afterCall_cases d c with hsame | hdropped | hasked
  · rw [hsame]
    exact h
  · exact fresh_of_known_eq_none hdropped
  · rw [hasked]
    exact fresh_candidates h

theorem Fresh.after {d : Directories} (h : d.Fresh) (calls : List Call) :
    (d.after calls).Fresh := by
  induction calls generalizing d with
  | nil => exact h
  | cons c calls ih => exact ih (h.afterCall c)

/-! ## 3. What the list should be -/

/-- The directories that frames name from the top: those of the frames, then those before
them. Empty ones are left out, and one that is named again is there again. -/
def named (frames : List DirFrame) : List Text :=
  (frames.map DirFrame.pwd).filter (· ≠ []) ++ (frames.map DirFrame.oldpwd).filter (· ≠ [])

theorem freshCandidates_eq_iff {frames : List DirFrame} {dirs : List Text} :
    freshCandidates frames = dirs ↔ Text.FirstsOf (named frames) dirs := by
  rw [freshCandidates, List.filter_append, ← named, Text.dedup_eq_iff]

theorem head?_freshCandidates {frames : List DirFrame} {top : DirFrame}
    (htop : frames.head? = some top) (h : top.pwd ≠ []) :
    (freshCandidates frames).head? = some top.pwd := by
  obtain ⟨below, rfl⟩ := List.head?_eq_some_iff.mp htop
  obtain ⟨more, hmore⟩ := freshCandidates_cons h below
  rw [hmore, List.head?_cons]

/-- Whatever frames a stack is made of and whatever is done with it, failing calls and earlier
questions included, to ask for the candidates gives what its frames say then: each directory
that they name, once and where it is named first. The top frame's directory comes first,
unless it is empty. -/
theorem candidates_after (frames : List DirFrame) (calls : List Call) :
    let d := (ofFrames frames).after calls
    (∀ dirs, d.candidates.2 = dirs ↔ Text.FirstsOf (named d.frames) dirs) ∧
      ∀ top, d.top? = some top → top.pwd ≠ [] → d.candidates.2.head? = some top.pwd := by
  intro d
  have hfresh : d.Fresh := Fresh.after (fresh_of_known_eq_none rfl) calls
  have hlist : d.candidates.2 = freshCandidates d.frames := by rw [candidates_of_fresh hfresh]
  rw [hlist]
  exact ⟨fun dirs => freshCandidates_eq_iff, fun top => head?_freshCandidates⟩

/-- Frames with an empty directory, and with one that is on them twice. -/
def scattered : List DirFrame :=
  [⟨"/b", "/a"⟩, ⟨[], "/d"⟩, ⟨"/a", []⟩, ⟨"/b", "/c"⟩]

/-- The list was asked for before an unwinding that failed in the middle. -/
theorem candidates_after_underflow :
    let d := (ofFrames scattered).after [.candidates, .popTo "/x", .candidates, .push "/c" "/b"]
    (((ofFrames scattered).after [.candidates]).popTo "/x").2 = .error .mk ∧
      d.frames = [⟨"/c", "/b"⟩, ⟨"/b", "/c"⟩] ∧
      d.candidates.2 = (["/c", "/b"] : List Text) ∧ d.candidates.2.head? = some ("/c" : Text) := by
  intro d
  obtain ⟨hlist, hhead⟩ :=
    candidates_after scattered [.candidates, .popTo "/x", .candidates, .push "/c" "/b"]
  have hnamed : named d.frames = (["/c", "/b", "/b", "/c"] : List Text) := by decide
  have hfirsts : Text.FirstsOf (named d.frames) ["/c", "/b"] := by
    rw [hnamed]
    refine ⟨fun x => ?_, by decide⟩
    simp only [List.mem_cons]
    tauto
  have htop : d.top? = some ⟨"/c", "/b"⟩ := by decide
  exact ⟨by decide, by decide, (hlist _).mpr hfirsts, hhead _ htop (by decide)⟩

end LineTrace.Directories
