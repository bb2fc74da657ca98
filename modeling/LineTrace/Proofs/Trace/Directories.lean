/-
LineTrace.Proofs.Trace.Directories — what a record does to the stack of
directories.

Judging a record and moving the stack are two steps in the follower. Together
they are one function of the frames, `entered`: where the record's directory is
stacked, the frames above its topmost frame go, and otherwise it is pushed
(`move_classify`). No popping fails after a judgement, so a trace never reports
an underflow.

The list of candidates is kept with the stack. `Fresh` says that what is kept is
what would be worked out, and every change of the stack keeps to that; what the
candidates start with is then read off the frames (`freshCandidates_cons`).
-/
import LineTrace.Proofs.Text.FirstOccurrences
import LineTrace.Trace.Hits

namespace LineTrace.Directories

/-! ## 1. Entering a directory -/

/-- Where the directory is stacked, unwinding stops at its topmost frame. -/
theorem unwind_of_stacked {pwd : Text} : ∀ {frames : List DirFrame},
    (∃ f ∈ frames, f.pwd = pwd) →
      unwind pwd frames =
        (frames.dropWhile (·.pwd ≠ pwd), frames.takeWhile (·.pwd ≠ pwd), true)
  | [], h => by simp at h
  | [f], h => by
      have hf : f.pwd = pwd := by simpa using h
      simp [unwind, hf]
  | f :: g :: rest, h => by
      by_cases hf : f.pwd = pwd
      · simp [unwind, hf]
      · have hkeep : decide (f.pwd ≠ pwd) = true := by simpa using hf
        have hrest : ∃ x ∈ g :: rest, x.pwd = pwd := by
          obtain ⟨x, hx, hpwd⟩ := h
          rcases List.mem_cons.mp hx with rfl | hx
          · exact absurd hpwd hf
          · exact ⟨x, hx, hpwd⟩
        have hdrop : (f :: g :: rest).dropWhile (·.pwd ≠ pwd) =
            (g :: rest).dropWhile (·.pwd ≠ pwd) := List.dropWhile_cons_of_pos hkeep
        have htake : (f :: g :: rest).takeWhile (·.pwd ≠ pwd) =
            f :: (g :: rest).takeWhile (·.pwd ≠ pwd) := List.takeWhile_cons_of_pos hkeep
        rw [unwind, if_neg hf, unwind_of_stacked hrest, hdrop, htake]

/-- The frames after a record in a directory. -/
def entered (frames : List DirFrame) (pwd oldpwd : Text) : List DirFrame :=
  if ∃ f ∈ frames, f.pwd = pwd then frames.dropWhile (·.pwd ≠ pwd) else ⟨pwd, oldpwd⟩ :: frames

/-- The directory that was entered is on top. -/
theorem entered_eq_cons (frames : List DirFrame) (pwd oldpwd : Text) :
    ∃ f rest, entered frames pwd oldpwd = f :: rest ∧ f.pwd = pwd := by
  rw [entered]
  split
  · rename_i h
    induction frames with
    | nil => simp at h
    | cons f frames ih =>
      by_cases hf : f.pwd = pwd
      · rw [List.dropWhile_cons_of_neg (by simpa using hf)]
        exact ⟨f, frames, rfl, hf⟩
      · rw [List.dropWhile_cons_of_pos (by simpa using hf)]
        obtain ⟨x, hx, hpwd⟩ := h
        rcases List.mem_cons.mp hx with rfl | hx
        · exact absurd hpwd hf
        · exact ih ⟨x, hx, hpwd⟩
  · exact ⟨_, _, rfl, rfl⟩

/-! ## 2. Candidates -/

theorem frames_candidates (d : Directories) : d.candidates.1.frames = d.frames := by
  unfold candidates
  split <;> rfl

/-- The candidates that are kept, if any are, are those of the frames. -/
def Fresh (d : Directories) : Prop := ∀ dirs ∈ d.known, dirs = freshCandidates d.frames

theorem fresh_of_known_eq_none {d : Directories} (h : d.known = none) : d.Fresh := by
  intro dirs hdirs
  rw [h] at hdirs
  cases hdirs

theorem candidates_of_fresh {d : Directories} (h : d.Fresh) :
    d.candidates = (⟨d.frames, some (freshCandidates d.frames)⟩, freshCandidates d.frames) := by
  obtain ⟨frames, known⟩ := d
  cases known with
  | none => rfl
  | some dirs =>
    have hdirs : dirs = freshCandidates frames := h dirs rfl
    rw [hdirs]
    rfl

theorem fresh_candidates {d : Directories} (h : d.Fresh) : d.candidates.1.Fresh := by
  rw [candidates_of_fresh h]
  intro dirs hdirs
  cases hdirs
  rfl

/-- The top directory is the first candidate. -/
theorem freshCandidates_cons {f : DirFrame} (h : f.pwd ≠ []) (frames : List DirFrame) :
    ∃ more, freshCandidates (f :: frames) = f.pwd :: more := by
  have hfront : [f.pwd] <+: freshCandidates (f :: frames) := by
    rw [freshCandidates, List.map_cons, List.cons_append,
      List.filter_cons_of_pos (by simpa using h)]
    exact Text.dedup_prefix_append [f.pwd] _
  obtain ⟨more, hmore⟩ := hfront
  exact ⟨more, hmore.symm⟩

/-! ## 3. A record -/

/-- A judged record enters its directory, and no popping fails. -/
theorem move_classify (d : Directories) (pwd oldpwd : Text) :
    ∃ moved, Follower.move (d.classify pwd oldpwd).1 (d.classify pwd oldpwd).2 pwd oldpwd =
        (moved, .ok ()) ∧
      moved.frames = entered d.frames pwd oldpwd ∧ (d.Fresh → moved.Fresh) := by
  obtain ⟨frames, known⟩ := d
  cases frames with
  | nil => exact ⟨⟨[⟨pwd, oldpwd⟩], none⟩, rfl, rfl, fun _ => fresh_of_known_eq_none rfl⟩
  | cons f below =>
    by_cases htop : pwd = f.pwd
    · refine ⟨⟨f :: below, known⟩, ?_, ?_, id⟩
      · simp [classify, htop, Follower.move]
      · simp [entered, htop]
    · have hf : ¬ f.pwd = pwd := fun h => htop h.symm
      by_cases hbelow : ∃ g ∈ below, g.pwd = pwd
      · have hstacked : ∃ g ∈ f :: below, g.pwd = pwd := by
          obtain ⟨g, hg, hpwd⟩ := hbelow
          exact ⟨g, List.mem_cons_of_mem f hg, hpwd⟩
        have hany : below.any (fun g => g.pwd = pwd) = true := by simpa using hbelow
        refine ⟨⟨(f :: below).dropWhile (·.pwd ≠ pwd), none⟩, ?_, ?_,
          fun _ => fresh_of_known_eq_none rfl⟩
        · simp [classify, htop, hany, Follower.move, popTo, unwind_of_stacked hstacked, hf]
        · rw [entered, if_pos hstacked]
      · have hstacked : ¬ ∃ g ∈ f :: below, g.pwd = pwd := by
          rintro ⟨g, hg, hpwd⟩
          rcases List.mem_cons.mp hg with rfl | hg
          · exact hf hpwd
          · exact hbelow ⟨g, hg, hpwd⟩
        have hany : below.any (fun g => g.pwd = pwd) = false := by simpa using hbelow
        refine ⟨⟨⟨pwd, oldpwd⟩ :: f :: below, none⟩, ?_, ?_, fun _ => fresh_of_known_eq_none rfl⟩
        · simp [classify, htop, hany, Follower.move, push]
        · rw [entered, if_neg hstacked]

end LineTrace.Directories
