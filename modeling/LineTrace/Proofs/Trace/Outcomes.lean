/-
LineTrace.Proofs.Trace.Outcomes — a trace followed group by group.

`Follower.run` folds the outcomes of the groups into a tally while it goes.
`Follower.Follows` keeps them apart: it relates a follower and groups to the
outcome of each group and the follower after all. What a tally holds is then
said of the list of outcomes (`Tally.ofOutcomes` and the lemmas on it), and what
a run does is said one group at a time.

A group stops a run only where it is a record and its line number has more
digits than can be converted. `LineFits` excludes that.

What one group can do to a follower is said by `Follower.step_malformed` and
`Follower.step_record`; nothing below opens the step again. A group of another
number of fields than a record has is malformed and leaves the follower as it
is. Leaving out such groups, or malformed ones of any kind, changes only what is
counted about them (`Follower.Follows.filter`).
-/
import Mathlib.Data.List.Induction
import LineTrace.Proofs.Table
import LineTrace.Proofs.Trace.Directories

namespace LineTrace

/-! ## 1. Groups -/

/-- A group whose line number, if it has one, can be converted. -/
def LineFits (fields : List Text) : Prop :=
  ∀ line ∈ fields.head?, ∀ digits ∈ lineDigits? line, digits.length ≤ Text.digitLimit

theorem lineFits_of_length_le {fields : List Text} {line : Text} (h : fields.head? = some line)
    (hle : line.length ≤ Text.digitLimit) : LineFits fields := by
  intro x hx digits hdigits
  rw [h, Option.mem_some_iff] at hx
  subst hx
  unfold lineDigits? at hdigits
  split at hdigits
  · cases hdigits
    rwa [List.length_map]
  · cases hdigits

theorem lineDigits?_eq_some_iff {t : Text} {ds : List Nat} :
    lineDigits? t = some ds ↔ (t ≠ [] ∧ t.all Text.isDigit) ∧ ds = t.map (· - 48) := by
  unfold lineDigits?
  split
  · rename_i h
    rw [Option.some.injEq]
    constructor
    · intro hds
      exact ⟨h, hds.symm⟩
    · intro hds
      exact hds.2.symm
  · rename_i h
    constructor
    · intro hds
      cases hds
    · intro hds
      exact absurd hds.1 h

/-- What a group is that is a record, field by field. -/
theorem Record.ofFields_eq_ok {fields : List Text} {r : Record}
    (h : Record.ofFields fields = .ok (.ok r)) :
    ∃ line, fields = [line, r.source, r.pwd, r.oldpwd] ∧ (line ≠ [] ∧ line.all Text.isDigit) ∧
      r.pwd ≠ [] ∧ line.length ≤ Text.digitLimit ∧
      r.line = Text.decimalValue (line.map (· - 48)) := by
  unfold Record.ofFields at h
  split at h
  · rename_i line source pwd oldpwd
    cases hds : lineDigits? line with
    | none =>
      rw [hds] at h
      cases h
    | some ds =>
      obtain ⟨hline, rfl⟩ := lineDigits?_eq_some_iff.mp hds
      rw [hds] at h
      dsimp only at h
      split at h
      · cases h
      · rename_i hpwd
        split at h
        · cases h
        · rename_i hfits
          cases h
          rw [List.length_map] at hfits
          exact ⟨line, rfl, hline, hpwd, Nat.le_of_not_lt hfits, rfl⟩
  · cases h

theorem Record.pwd_ne_of_ofFields {fields : List Text} {r : Record}
    (h : Record.ofFields fields = .ok (.ok r)) : r.pwd ≠ [] := by
  obtain ⟨-, -, -, hpwd, -⟩ := Record.ofFields_eq_ok h
  exact hpwd

theorem Record.ofFields_of_length_ne {fields : List Text}
    (h : fields.length ≠ TraceFormat.fieldCount) :
    Record.ofFields fields = .ok (.error (.fieldCount fields.length)) := by
  unfold Record.ofFields
  split
  · exact absurd rfl h
  · rfl

/-! ## 2. Outcomes -/

/-- The hit of an outcome, if it is one. -/
def Outcome.hit? : Outcome → Option Hit
  | .hit h => some h
  | _ => none

/-- What an outcome is malformed for, if it is. -/
def Outcome.reason? : Outcome → Option Malformation
  | .malformed reason _ => some reason
  | _ => none

/-- Whether an outcome is a record without a source. -/
def Outcome.isUnattributed : Outcome → Bool
  | .unattributed _ => true
  | _ => false

/-- The tally of outcomes in the order of the trace. -/
def Tally.ofOutcomes (outcomes : List Outcome) : Tally :=
  (outcomes.foldl Tally.add Tally.empty).inOrder

namespace Follower

variable {isFile : Text → Bool} {cwd : Text}

/-- Each group has its outcome, and the last one leaves the follower. -/
inductive Follows (isFile : Text → Bool) (cwd : Text) :
    Follower → List (List Text) → List Outcome → Follower → Prop where
  | nil (f : Follower) : Follows isFile cwd f [] [] f
  | cons {f f' f'' : Follower} {fields : List Text} {rest : List (List Text)} {o : Outcome}
      {os : List Outcome} (step : f.step isFile cwd fields = .ok (f', o))
      (more : Follows isFile cwd f' rest os f'') :
      Follows isFile cwd f (fields :: rest) (o :: os) f''

/-- A malformed group leaves the follower as it is. -/
theorem step_malformed (f : Follower) {fields : List Text} {reason : Malformation}
    (h : Record.ofFields fields = .ok (.error reason)) :
    f.step isFile cwd fields = .ok (f, .malformed reason fields) := by
  rw [step, stepWith, h]

/-- A record enters its directory, and then it is unattributed or a hit. -/
theorem step_record (f : Follower) {fields : List Text} {r : Record}
    (h : Record.ofFields fields = .ok (.ok r)) :
    ∃ moved : Directories,
      moved.frames = Directories.entered f.directories.frames r.pwd r.oldpwd ∧
      (f.directories.Fresh → moved.Fresh) ∧
      ∀ isFile cwd, f.step isFile cwd fields = .ok
        (if r.source = [] then ({ f with directories := moved }, .unattributed r.line)
        else
          let found := resolve isFile cwd { f with directories := moved } r.source
          (found.1, .hit ⟨found.2, r.line, (f.directories.classify r.pwd r.oldpwd).2⟩)) := by
  obtain ⟨moved, hmove, hframes, hfresh⟩ := f.directories.move_classify r.pwd r.oldpwd
  refine ⟨moved, hframes, hfresh, fun isFile cwd => ?_⟩
  rw [step, stepWith, h]
  simp only [hmove]
  split <;> rfl

theorem exists_step (f : Follower) {fields : List Text} {parsed : Except Malformation Record}
    (h : Record.ofFields fields = .ok parsed) :
    ∃ f' o, f.step isFile cwd fields = .ok (f', o) := by
  cases parsed with
  | error reason => exact ⟨f, _, step_malformed f h⟩
  | ok r =>
    obtain ⟨moved, -, -, hstep⟩ := f.step_record h
    exact ⟨_, _, hstep isFile cwd⟩

theorem Follows.runWith {f f' : Follower} {groups : List (List Text)} {os : List Outcome}
    (h : Follows isFile cwd f groups os f') (t : Tally) :
    f.runWith Directories.classify isFile cwd t groups =
      (f', (os.foldl Tally.add t).inOrder, none) := by
  induction h generalizing t with
  | nil f => rfl
  | cons hstep _ ih =>
    rw [step] at hstep
    rw [Follower.runWith, hstep]
    exact ih _

/-- A run gives the tally of the outcomes. -/
theorem Follows.run {f f' : Follower} {groups : List (List Text)} {os : List Outcome}
    (h : Follows isFile cwd f groups os f') :
    f.run isFile cwd groups = (f', Tally.ofOutcomes os, none) :=
  h.runWith Tally.empty

end Follower

/-! ## 3. Tallies -/

namespace Tally

/-- The table of reasons with one more malformed group in it. -/
def countReason (reasons : Table Text Nat) (reason : Malformation) : Table Text Nat :=
  Table.modify reason.heading (fun n => n.getD 0 + 1) reasons

/-- Each heading has the number of malformed groups under it, and none where
there are none. -/
theorem get?_foldl_countReason (reasons : List Malformation) (heading : Text) :
    Table.get? heading (reasons.foldl countReason []) =
      if reasons.countP (·.heading = heading) = 0 then none
      else some (reasons.countP (·.heading = heading)) := by
  induction reasons using List.reverseRecOn with
  | nil => rfl
  | append_singleton reasons reason ih =>
    rw [List.foldl_append, List.foldl_cons, List.foldl_nil, countReason, Table.get?_modify, ih,
      List.countP_append]
    by_cases h : reason.heading = heading
    · rw [if_pos h, List.countP_singleton, decide_eq_true h, if_pos rfl,
        if_neg (Nat.succ_ne_zero _)]
      split
      · rename_i hzero
        rw [hzero]
        rfl
      · rfl
    · rw [if_neg h, List.countP_singleton, decide_eq_false h, if_neg Bool.false_ne_true,
        Nat.add_zero]

theorem foldl_add (os : List Outcome) (t : Tally) :
    (os.foldl add t).hits = (os.filterMap Outcome.hit?).reverse ++ t.hits ∧
      (os.foldl add t).skipped = t.skipped + (os.filterMap Outcome.reason?).length ∧
      (os.foldl add t).unattributed = t.unattributed + os.countP Outcome.isUnattributed ∧
      (os.foldl add t).reasons = (os.filterMap Outcome.reason?).foldl countReason t.reasons := by
  induction os generalizing t with
  | nil => exact ⟨rfl, rfl, rfl, rfl⟩
  | cons o os ih =>
    obtain ⟨hhits, hskipped, hnone, hreasons⟩ := ih (t.add o)
    rw [List.foldl_cons, hhits, hskipped, hnone, hreasons]
    cases o with
    | hit h =>
      simp [add, Outcome.hit?, Outcome.reason?, Outcome.isUnattributed, List.filterMap_cons]
    | malformed reason fields =>
      refine ⟨rfl, ?_, rfl, rfl⟩
      simp only [add, Outcome.reason?, List.filterMap_cons, List.length_cons]
      omega
    | unattributed line =>
      refine ⟨rfl, rfl, ?_, rfl⟩
      simp only [add, Outcome.isUnattributed, List.countP_cons, if_true]
      omega

variable (os : List Outcome)

theorem hits_ofOutcomes : (ofOutcomes os).hits = os.filterMap Outcome.hit? := by
  simp [ofOutcomes, inOrder, foldl_add, empty]

theorem skipped_ofOutcomes :
    (ofOutcomes os).skipped = (os.filterMap Outcome.reason?).length := by
  simp [ofOutcomes, inOrder, foldl_add, empty]

theorem unattributed_ofOutcomes :
    (ofOutcomes os).unattributed = os.countP Outcome.isUnattributed := by
  simp [ofOutcomes, inOrder, foldl_add, empty]

theorem reasons_ofOutcomes :
    (ofOutcomes os).reasons = (os.filterMap Outcome.reason?).foldl countReason [] := by
  simp [ofOutcomes, inOrder, foldl_add, empty]

end Tally

/-! ## 4. Malformed groups -/

/-- Without malformed groups, or some of them, everything is as it was, but for their
being skipped. -/
theorem Follower.Follows.filter {isFile : Text → Bool} {cwd : Text} {f f' : Follower}
    {groups : List (List Text)} {os : List Outcome} (h : Follows isFile cwd f groups os f')
    (keep : List Text → Bool)
    (hkeep : ∀ g ∈ groups, keep g = false → ∃ reason, Record.ofFields g = .ok (.error reason)) :
    ∃ os', Follows isFile cwd f (groups.filter keep) os' f' ∧
      os'.filterMap Outcome.hit? = os.filterMap Outcome.hit? ∧
      os'.countP Outcome.isUnattributed = os.countP Outcome.isUnattributed ∧
      (os.filterMap Outcome.reason?).length = (os'.filterMap Outcome.reason?).length +
        groups.countP (!keep ·) := by
  induction h with
  | nil f => exact ⟨[], .nil f, rfl, rfl, rfl⟩
  | @cons f f₁ f₂ fields rest o os hstep _ ih =>
    obtain ⟨os', hfollows, hhits, hnone, hreasons⟩ :=
      ih fun g hg => hkeep g (List.mem_cons_of_mem _ hg)
    cases hfields : keep fields with
    | true =>
      refine ⟨o :: os', ?_, ?_, ?_, ?_⟩
      · rw [List.filter_cons_of_pos hfields]
        exact .cons hstep hfollows
      · rw [List.filterMap_cons, List.filterMap_cons, hhits]
      · rw [List.countP_cons, List.countP_cons, hnone]
      · rw [List.countP_cons_of_neg (by simp [hfields]), List.filterMap_cons,
          List.filterMap_cons]
        cases o.reason? with
        | none => exact hreasons
        | some reason =>
          simp only [List.length_cons, hreasons]
          omega
    | false =>
      obtain ⟨reason, hreason⟩ := hkeep fields (List.mem_cons_self ..) hfields
      rw [step_malformed f hreason, Except.ok.injEq, Prod.mk.injEq] at hstep
      obtain ⟨rfl, rfl⟩ := hstep
      refine ⟨os', ?_, hhits, hnone, ?_⟩
      · rwa [List.filter_cons_of_neg (by simp [hfields])]
      · rw [List.countP_cons_of_pos (by simp [hfields])]
        simp only [Outcome.reason?, List.filterMap_cons, List.length_cons, hreasons]
        omega

/-- Without the groups that cannot be records everything is as it was, but for
their being skipped. -/
theorem Follower.Follows.filter_whole {isFile : Text → Bool} {cwd : Text} {f f' : Follower}
    {groups : List (List Text)} {os : List Outcome} (h : Follows isFile cwd f groups os f') :
    ∃ os', Follows isFile cwd f (groups.filter (·.length = TraceFormat.fieldCount)) os' f' ∧
      os'.filterMap Outcome.hit? = os.filterMap Outcome.hit? ∧
      os'.countP Outcome.isUnattributed = os.countP Outcome.isUnattributed ∧
      (os.filterMap Outcome.reason?).length = (os'.filterMap Outcome.reason?).length +
        groups.countP (·.length ≠ TraceFormat.fieldCount) := by
  obtain ⟨os', hfollows, hhits, hnone, hreasons⟩ :=
    h.filter (·.length = TraceFormat.fieldCount) fun g _ hg =>
      ⟨_, Record.ofFields_of_length_ne (of_decide_eq_false hg)⟩
  refine ⟨os', hfollows, hhits, hnone, hreasons.trans ?_⟩
  simp only [decide_not]

end LineTrace
