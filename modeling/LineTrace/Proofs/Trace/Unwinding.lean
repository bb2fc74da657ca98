/-
LineTrace.Proofs.Trace.Unwinding — popping until a directory is on top.

Unwinding pops one frame at a time and has two ends: the directory is on top, or no frame
is left that may be popped (`popTo_eq`). A popping can fail in the middle, when frames are
gone already. `Unwound` says for each end what was popped and what is left, of stacks of
any depth, with any directory on them more than once; the induction is on the frames and
follows the poppings.

Of all the calls on a stack only a reseeding puts another frame at the bottom
(`getLast?_after`). A follower reseeds where unwinding fails, so it does not go on from what
was left in the middle (`stepWith_of_missing`).
-/
import LineTrace.Proofs.Trace.Directories
import Mathlib.Data.List.Basic

namespace LineTrace.Directories

/-! ## 1. One popping at a time -/

/-- Unwinding ends where nothing is stacked or the directory is on top, and otherwise pops
a frame and goes on, unless the popping fails. -/
theorem popTo_eq (d : Directories) (pwd : Text) :
    d.popTo pwd =
      match d.frames with
      | [] => (d, .ok [])
      | f :: _ =>
        if f.pwd = pwd then (d, .ok [])
        else
          match d.pop with
          | (d', .error e) => (d', .error e)
          | (d', .ok g) =>
            let (left, popped) := d'.popTo pwd
            (left, popped.map (g :: ·)) := by
  obtain ⟨frames, known⟩ := d
  match frames with
  | [] => rfl
  | [f] =>
    by_cases hf : f.pwd = pwd
    · simp [popTo, unwind, hf]
    · simp [popTo, unwind, pop, hf]
  | f :: g :: rest =>
    by_cases hf : f.pwd = pwd
    · simp [popTo, unwind, hf]
    · cases hfound : (unwind pwd (g :: rest)).2.2 <;>
        simp [popTo, unwind, pop, hf, hfound, Except.map]

/-- The frames that unwinding leaves, and the frames that it gives back, the top one first,
or that it fails. -/
inductive Unwound (pwd : Text) :
    List DirFrame → List DirFrame → Except Underflow (List DirFrame) → Prop where
  | empty : Unwound pwd [] [] (.ok [])
  | found {popped : List DirFrame} {f : DirFrame} (below : List DirFrame)
    (hpopped : ∀ g ∈ popped, g.pwd ≠ pwd) (hf : f.pwd = pwd) :
    Unwound pwd (popped ++ f :: below) (f :: below) (.ok popped)
  | missing (above : List DirFrame) {root : DirFrame}
    (h : ∀ g ∈ above ++ [root], g.pwd ≠ pwd) :
    Unwound pwd (above ++ [root]) [root] (.error .mk)

namespace Unwound

variable {pwd : Text} {frames left : List DirFrame}

/-- One more frame on top that has another directory. -/
theorem cons {popped : Except Underflow (List DirFrame)} (h : Unwound pwd frames left popped)
    (hne : frames ≠ []) {f : DirFrame} (hf : f.pwd ≠ pwd) :
    Unwound pwd (f :: frames) left (popped.map (f :: ·)) := by
  cases h with
  | empty => exact absurd rfl hne
  | found below hpopped hg => exact .found below (List.forall_mem_cons.mpr ⟨hf, hpopped⟩) hg
  | missing above h => exact .missing (f :: above) (List.forall_mem_cons.mpr ⟨hf, h⟩)

theorem getLast?_eq {popped : Except Underflow (List DirFrame)}
    (h : Unwound pwd frames left popped) : left.getLast? = frames.getLast? := by
  cases h with
  | empty => rfl
  | found below _ _ => exact (List.getLast?_append_of_ne_nil _ (List.cons_ne_nil _ _)).symm
  | missing above _ => simp

theorem of_stacked {popped : Except Underflow (List DirFrame)}
    (h : Unwound pwd frames left popped) (hstacked : ∃ f ∈ frames, f.pwd = pwd) :
    ∃ gone f below, popped = .ok gone ∧ frames = gone ++ left ∧ left = f :: below ∧
      f.pwd = pwd ∧ ∀ g ∈ gone, g.pwd ≠ pwd := by
  obtain ⟨x, hx, hpwd⟩ := hstacked
  cases h with
  | empty => cases hx
  | found below hpopped hf => exact ⟨_, _, below, rfl, rfl, rfl, hf, hpopped⟩
  | missing _ hmissing => exact absurd hpwd (hmissing x hx)

theorem of_missing {popped : Except Underflow (List DirFrame)}
    (h : Unwound pwd frames left popped) (hne : frames ≠ [])
    (hmissing : ∀ f ∈ frames, f.pwd ≠ pwd) :
    ∃ root, popped = .error .mk ∧ left = [root] ∧ frames.getLast? = some root := by
  cases h with
  | empty => exact absurd rfl hne
  | found below _ hf => exact absurd hf (hmissing _ (by simp))
  | missing above _ => exact ⟨_, rfl, rfl, List.getLast?_concat⟩

end Unwound

/-- What unwinding does, whatever is stacked. -/
theorem unwound_popTo (d : Directories) (pwd : Text) :
    Unwound pwd d.frames (d.popTo pwd).1.frames (d.popTo pwd).2 := by
  obtain ⟨frames, known⟩ := d
  induction frames generalizing known with
  | nil => exact .empty
  | cons f frames ih =>
    rw [popTo_eq]
    by_cases hf : f.pwd = pwd
    · simpa [hf] using Unwound.found frames (List.forall_mem_nil _) hf
    · cases frames with
      | nil => simpa [hf, pop] using Unwound.missing [] (by simpa using hf)
      | cons g rest =>
        -- Popping drops the candidates that are kept, hence `none`.
        simpa [hf, pop] using (ih none).cons (List.cons_ne_nil g rest) hf

/-! ## 2. The bottom frame -/

/-- A call on the stack. -/
inductive Call where
  | reseed (pwd oldpwd : Text)
  | push (pwd oldpwd : Text)
  | pop
  | popTo (pwd : Text)
  | classify (pwd oldpwd : Text)
  | candidates

/-- The stack after a call, one that fails included. -/
def afterCall (d : Directories) : Call → Directories
  | .reseed pwd oldpwd => d.reseed pwd oldpwd
  | .push pwd oldpwd => d.push pwd oldpwd
  | .pop => d.pop.1
  | .popTo pwd => (d.popTo pwd).1
  | .classify pwd oldpwd => (d.classify pwd oldpwd).1
  | .candidates => d.candidates.1

/-- The stack after calls. -/
def after (d : Directories) (calls : List Call) : Directories := calls.foldl afterCall d

/-- Judging a record changes nothing where there are frames. -/
theorem classify_of_ne_nil {d : Directories} (h : d.frames ≠ []) (pwd oldpwd : Text) :
    (d.classify pwd oldpwd).1 = d := by
  obtain ⟨frames, known⟩ := d
  cases frames with
  | nil => exact absurd rfl h
  | cons f below =>
    simp only [classify]
    split
    · rfl
    · split <;> rfl

theorem getLast?_pop (d : Directories) : d.pop.1.frames.getLast? = d.frames.getLast? := by
  obtain ⟨frames, known⟩ := d
  match frames with
  | [] => rfl
  | [f] => rfl
  | f :: g :: rest => exact List.getLast?_cons_cons.symm

theorem getLast?_popTo (d : Directories) (pwd : Text) :
    (d.popTo pwd).1.frames.getLast? = d.frames.getLast? :=
  (unwound_popTo d pwd).getLast?_eq

/-- The frame at the bottom stays there in every call but a reseeding. -/
theorem getLast?_afterCall {d : Directories} {root : DirFrame}
    (h : d.frames.getLast? = some root) {c : Call} (hc : ∀ pwd oldpwd, c ≠ .reseed pwd oldpwd) :
    (d.afterCall c).frames.getLast? = some root := by
  cases c with
  | reseed pwd oldpwd => exact absurd rfl (hc pwd oldpwd)
  | push pwd oldpwd =>
    obtain ⟨f, below, hframes⟩ : ∃ f below, d.frames = f :: below :=
      List.exists_cons_of_ne_nil (by rintro hnil; simp [hnil] at h)
    rw [afterCall, push, hframes, List.getLast?_cons_cons, ← hframes, h]
  | pop => exact (getLast?_pop d).trans h
  | popTo pwd => exact (getLast?_popTo d pwd).trans h
  | classify pwd oldpwd =>
    have hne : d.frames ≠ [] := by
      intro hnil
      simp [hnil] at h
    rw [afterCall, classify_of_ne_nil hne, h]
  | candidates => rw [afterCall, frames_candidates, h]

theorem getLast?_after {d : Directories} {root : DirFrame} (h : d.frames.getLast? = some root)
    {calls : List Call} (hcalls : ∀ c ∈ calls, ∀ pwd oldpwd, c ≠ .reseed pwd oldpwd) :
    (d.after calls).frames.getLast? = some root := by
  induction calls generalizing d with
  | nil => exact h
  | cons c calls ih =>
    obtain ⟨hc, hcalls⟩ := List.forall_mem_cons.mp hcalls
    exact ih (getLast?_afterCall h hc) hcalls

/-! ## 3. Unwinding -/

/-- Popping until a directory is on top gives back exactly the frames above the topmost one
that has it and leaves the others, whatever else is stacked. Where no frame has it popping
fails and leaves the root alone; where nothing is stacked it does nothing. The frame at the
bottom stays there, however often frames are pushed and popped and directories are judged. -/
theorem popTo_unwinds (d : Directories) (pwd : Text) :
    ((∃ f ∈ d.frames, f.pwd = pwd) → ∃ popped f below,
      (d.popTo pwd).2 = .ok popped ∧ (∀ g ∈ popped, g.pwd ≠ pwd) ∧
      (d.popTo pwd).1.frames = f :: below ∧ f.pwd = pwd ∧
      d.frames = popped ++ (d.popTo pwd).1.frames ∧
      (d.popTo pwd).1.frames.reverse ++ popped.reverse = d.frames.reverse) ∧
    (d.frames ≠ [] → (∀ f ∈ d.frames, f.pwd ≠ pwd) → ∃ root,
      (d.popTo pwd).2 = .error .mk ∧ (d.popTo pwd).1.frames = [root] ∧
      d.frames.getLast? = some root) ∧
    (d.frames = [] → d.popTo pwd = (d, .ok [])) ∧
    ∀ (calls : List Call) (root : DirFrame),
      (∀ c ∈ calls, ∀ pwd oldpwd, c ≠ .reseed pwd oldpwd) → d.frames.getLast? = some root →
        (d.after calls).frames.getLast? = some root := by
  refine ⟨fun hstacked => ?_, fun hne hmissing => ?_, fun hnil => ?_,
    fun calls root hcalls h => getLast?_after h hcalls⟩
  · obtain ⟨popped, f, below, hpopped, hframes, hleft, hf, hothers⟩ :=
      (unwound_popTo d pwd).of_stacked hstacked
    refine ⟨popped, f, below, hpopped, hothers, hleft, hf, hframes, ?_⟩
    rw [← List.reverse_append, ← hframes]
  · exact (unwound_popTo d pwd).of_missing hne hmissing
  · rw [popTo_eq, hnil]

/-- A stack that one directory is on twice, once at the bottom. -/
def repeated : Directories :=
  ofFrames [⟨"/c", "/a"⟩, ⟨"/a", "/b"⟩, ⟨"/b", "/a"⟩, ⟨"/a", []⟩]

theorem popTo_unwinds_repeated :
    (∃ popped, (repeated.popTo "/a").2 = .ok popped ∧
      repeated.frames = popped ++ (repeated.popTo "/a").1.frames) ∧
    (repeated.popTo "/x").2 = .error .mk ∧ (repeated.popTo "/x").1.frames = [⟨"/a", []⟩] ∧
    (repeated.after [.pop, .push "/d" "/a", .popTo "/x", .pop]).frames.getLast? =
      some ⟨"/a", []⟩ := by
  obtain ⟨hstacked, -, -, hbottom⟩ := popTo_unwinds repeated "/a"
  obtain ⟨-, hmissing, -, -⟩ := popTo_unwinds repeated "/x"
  obtain ⟨popped, _, _, hpopped, -, -, -, hframes, -⟩ := hstacked (by decide)
  obtain ⟨root, hfails, hleft, hroot⟩ := hmissing (by decide) (by decide)
  obtain rfl : root = ⟨"/a", []⟩ := by
    cases hroot
    rfl
  exact ⟨⟨popped, hpopped, hframes⟩, hfails, hleft, hbottom _ _ (by simp) hroot⟩

/-! ## 4. Starting anew -/

/-- Where a directory to return to is not stacked, what the unwinding left is given up for a
stack of that directory alone. -/
theorem move_pop_of_missing {d : Directories} {pwd : Text} (hne : d.frames ≠ [])
    (hmissing : ∀ f ∈ d.frames, f.pwd ≠ pwd) (oldpwd : Text) :
    Follower.move d .pop pwd oldpwd = (d.reseed pwd oldpwd, .error .mk) := by
  obtain ⟨root, hfails, -⟩ := (unwound_popTo d pwd).of_missing hne hmissing
  rw [Follower.move]
  cases hpopTo : d.popTo pwd with
  | mk left popped =>
    rw [hpopTo] at hfails
    cases hfails
    rfl

/-- Whoever judges the directories: a record that returns to one that is not stacked is
malformed, and the next record finds the stack that its directory makes. -/
theorem stepWith_of_missing {judge : Follower.Judge} {isFile : Text → Bool} {cwd : Text}
    {f : Follower} {fields : List Text} {r : Record} {d : Directories}
    (hrecord : Record.ofFields fields = .ok (.ok r))
    (hjudged : judge f.directories r.pwd r.oldpwd = (d, .pop)) (hne : d.frames ≠ [])
    (hmissing : ∀ frame ∈ d.frames, frame.pwd ≠ r.pwd) :
    f.stepWith judge isFile cwd fields =
      .ok ({ f with directories := d.reseed r.pwd r.oldpwd }, .malformed .underflow fields) := by
  rw [Follower.stepWith, hrecord]
  simp only [hjudged, move_pop_of_missing hne hmissing]

end LineTrace.Directories
