/-
LineTrace.Proofs.Failure.Telling — which failures are told in one line.

A failure is told with texts that come from anywhere: names of commands, paths, texts of
other faults. None of them ends the line early, since the text of a value has no controls
(`notMem_compact`), and each is read as it was written (`read_compact`), so that the line
says of a failure what `Tells` lists and nothing else.

The class that it is told as is the first in a fixed order that it belongs to. That this is
a most specific one rests on one property of the order: no class is derived from one that
stands before it (`inOrder_pairwise`).

What can spoil the line is an integer of its context alone. The counts of a failed drain
come from the program, yet nothing keeps them below the bound of `Text.hasNumeral`. Beyond
it the failure is not told at all, and the command ends with another fault.
-/
import LineTrace.Failure.Report
import LineTrace.Proofs.Json.Compact

namespace LineTrace

open Json (ReadsBack depthLimit)

/-! ## 1. Classes -/

namespace FailureClass

theorem mem_inOrder (c : FailureClass) : c ∈ inOrder := by
  cases c <;> decide

/-- No class is derived from one that stands before it. -/
theorem inOrder_pairwise : inOrder.Pairwise fun c d => c ∉ d.ancestors := by
  decide

end FailureClass

namespace Envelope

/-- A class that the failure belongs to, with no other of its classes derived from it. -/
def IsMostSpecific (e : Envelope) (c : FailureClass) : Prop :=
  c ∈ e.classes ∧ ∀ d ∈ e.classes, c ∈ d.ancestors → d = c

/-- The label and the exit status of a failure: those of a most specific class, where it
has any that is listed. -/
inductive Classified (e : Envelope) : Text → Int → Prop where
  | spawn (h : e.IsMostSpecific .spawn) : Classified e "Spawn" 2
  | traceLog (h : e.IsMostSpecific .traceLog) : Classified e "TraceLog" 5
  | badInput (h : e.IsMostSpecific .badInput) : Classified e "BadInput" 2
  | invariant (h : e.IsMostSpecific .invariant) : Classified e "Invariant" 3
  | policy (h : e.IsMostSpecific .policy) : Classified e "Policy" 4
  | fileSystem (h : e.IsMostSpecific .fileSystem) : Classified e "IO" 5
  | unlisted (h : e.classes = []) : Classified e "UnhandledEnvelope" 4

theorem isMostSpecific_of_toldAs? {e : Envelope} {c : FailureClass} (h : e.toldAs? = some c) :
    e.IsMostSpecific c := by
  obtain ⟨hmem, before, after, horder, hbefore⟩ := List.find?_eq_some_iff_append.mp h
  refine ⟨of_decide_eq_true hmem, fun d hd hderived => ?_⟩
  have hpairwise := FailureClass.inOrder_pairwise
  have hplace := FailureClass.mem_inOrder d
  rw [horder] at hpairwise hplace
  rcases List.mem_append.mp hplace with hearlier | hhere
  · -- The order would have been left before `c` was reached.
    exact absurd hd (by simpa using hbefore d hearlier)
  · rcases List.mem_cons.mp hhere with hsame | hlater
    · exact hsame
    · have hunrelated := (List.pairwise_cons.mp (List.pairwise_append.mp hpairwise).2.1).1
      exact absurd hderived (hunrelated d hlater)

theorem classes_eq_nil_of_toldAs? {e : Envelope} (h : e.toldAs? = none) : e.classes = [] := by
  refine List.eq_nil_iff_forall_not_mem.mpr fun c hc => ?_
  exact List.find?_eq_none.mp h c c.mem_inOrder (decide_eq_true hc)

theorem classified (e : Envelope) : e.Classified e.label e.status := by
  cases h : e.toldAs? with
  | none =>
    rw [label, status, h]
    exact .unlisted (classes_eq_nil_of_toldAs? h)
  | some c =>
    have hspecific := isMostSpecific_of_toldAs? h
    rw [label, status, h]
    cases c with
    | spawn => exact .spawn hspecific
    | traceLog => exact .traceLog hspecific
    | badInput => exact .badInput hspecific
    | invariant => exact .invariant hspecific
    | policy => exact .policy hspecific
    | fileSystem => exact .fileSystem hspecific

end Envelope

/-! ## 2. Members of the line -/

theorem Report.mem_hintEntry {hint : Option Text} {x : Text × Json} :
    x ∈ hintEntry hint ↔ ∃ t, hint = some t ∧ t ≠ [] ∧ x = (("hint" : Text), Json.str t) := by
  rcases hint with _ | _ | ⟨c, t⟩ <;> simp [hintEntry]

theorem Report.mem_contextEntry {context : Option (List (Text × Json))} {x : Text × Json} :
    x ∈ contextEntry (context.map .obj) ↔
      ∃ facts, context = some facts ∧ facts ≠ [] ∧
        x = (("context" : Text), Json.obj facts) := by
  rcases context with _ | _ | ⟨c, facts⟩ <;> simp [contextEntry]

namespace Envelope

/-- What the line of a failure says, by name. -/
inductive Tells (e : Envelope) (label : Text) : Text → Json → Prop where
  | error : Tells e label "error" (.str label)
  | detail : Tells e label "detail" (.str e.message)
  | hint {t : Text} (h : e.hint = some t) (hne : t ≠ []) : Tells e label "hint" (.str t)
  | context {facts : List (Text × Json)} (h : e.context = some facts) (hne : facts ≠ []) :
    Tells e label "context" (.obj facts)

/-- The entries of the line of a failure. -/
def entries (e : Envelope) : List (Text × Json) :=
  ("error", .str e.label) :: ("detail", .str e.message) ::
    (Report.hintEntry e.hint ++ Report.contextEntry (e.context.map .obj))

theorem mem_entries {e : Envelope} {name : Text} {v : Json} :
    (name, v) ∈ e.entries ↔ e.Tells e.label name v := by
  simp only [entries, List.mem_cons, List.mem_append, Report.mem_hintEntry,
    Report.mem_contextEntry, Prod.mk.injEq]
  constructor
  · rintro (⟨rfl, rfl⟩ | ⟨rfl, rfl⟩ | ⟨t, h, hne, rfl, rfl⟩ | ⟨facts, h, hne, rfl, rfl⟩)
    · exact .error
    · exact .detail
    · exact .hint h hne
    · exact .context h hne
  · rintro (_ | _ | ⟨h, hne⟩ | ⟨h, hne⟩)
    · exact .inl ⟨rfl, rfl⟩
    · exact .inr (.inl ⟨rfl, rfl⟩)
    · exact .inr (.inr (.inl ⟨_, h, hne, rfl, rfl⟩))
    · exact .inr (.inr (.inr ⟨_, h, hne, rfl, rfl⟩))

theorem nodup_keys_entries (e : Envelope) : (Table.keys e.entries).Nodup := by
  have hhint : (Table.keys (Report.hintEntry e.hint)).Sublist ["hint"] := by
    rcases e.hint with _ | _ | ⟨c, t⟩ <;> simp [Report.hintEntry]
  have hcontext : (Table.keys (Report.contextEntry (e.context.map .obj))).Sublist ["context"] := by
    rcases e.context with _ | _ | ⟨c, facts⟩ <;> simp [Report.contextEntry]
  have hnames : (["error", "detail", "hint", "context"] : List Text).Nodup := by decide
  refine hnames.sublist ?_
  rw [entries, Table.keys_cons, Table.keys_cons, Table.keys, List.map_append]
  exact ((hhint.append hcontext).cons_cons _).cons_cons _

theorem get?_entries {e : Envelope} {name : Text} {v : Json} :
    Table.get? name e.entries = some v ↔ e.Tells e.label name v :=
  (Table.get?_eq_some_iff e.nodup_keys_entries).trans mem_entries

/-! ## 3. Lines -/

/-- The line of a failure is read as it was written if its context is. -/
theorem readsBack_entries {e : Envelope}
    (hcontext : ∀ facts ∈ e.context, ReadsBack (depthLimit - 1) (.obj facts)) :
    ReadsBack depthLimit (.obj e.entries) := by
  refine ReadsBack.obj e.nodup_keys_entries fun (name, v) hmem => ?_
  cases mem_entries.mp hmem with
  | error => exact .str _
  | detail => exact .str _
  | hint => exact .str _
  | context h => exact hcontext _ h

/-- The line of a failure can be written exactly if its context can. -/
theorem hasNumerals_entries {e : Envelope} :
    (Json.obj e.entries).hasNumerals = true ↔
      ∀ facts ∈ e.context, (Json.obj facts).hasNumerals = true := by
  rw [Json.hasNumerals_obj]
  constructor
  · intro h facts hfacts
    by_cases hne : facts = []
    · rw [hne]
      rfl
    · exact h _ (mem_entries.mpr (.context hfacts hne))
  · rintro h ⟨name, v⟩ hmem
    cases mem_entries.mp hmem with
    | error => rfl
    | detail => rfl
    | hint => rfl
    | context hfacts => exact h _ hfacts

variable {α : Type}

theorem guarded_of_hasNumerals {e : Envelope}
    (h : ∀ facts ∈ e.context, (Json.obj facts).hasNumerals = true) :
    (e.guarded : Guarded α) = .failed false ((Json.obj e.entries).compact ++ [10]) e.status := by
  have hline : e.report.line = .ok ((Json.obj e.entries).compact ++ [10]) :=
    congrArg (Except.map (· ++ [10])) (if_pos (hasNumerals_entries.mpr h))
  rw [guarded, Report.guarded, hline]

theorem guarded_eq_escaped_iff {e : Envelope} :
    (e.guarded : Guarded α) = .escaped .unwritableInteger ↔
      ∃ facts ∈ e.context, (Json.obj facts).hasNumerals = false := by
  by_cases h : ∀ facts ∈ e.context, (Json.obj facts).hasNumerals = true
  · rw [guarded_of_hasNumerals h]
    refine iff_of_false nofun ?_
    rintro ⟨facts, hfacts, hlong⟩
    rw [h facts hfacts] at hlong
    cases hlong
  · have hline : e.report.line = .error .unwritableInteger :=
      congrArg (Except.map (· ++ [10])) (if_neg fun hentries => h (hasNumerals_entries.mp hentries))
    rw [guarded, Report.guarded, hline]
    simp only [not_forall, Bool.not_eq_true] at h
    obtain ⟨facts, hfacts, hlong⟩ := h
    exact iff_of_true rfl ⟨facts, hfacts, hlong⟩

/-- The end of a command that tells of a failure: one line, with no control in it but the
line feed that ends it. The line is read as an object that says what `Tells` lists and
nothing else, under the label of a most specific class, whose exit status the command ends
with. -/
def IsTold (e : Envelope) (ending : Guarded α) : Prop :=
  ∃ status label text entries,
    ending = .failed false (text ++ [10]) status ∧ ending.errors = text ++ [10] ∧
    (∀ c ∈ text, 32 ≤ c) ∧
    Json.read (text ++ [10]) = .ok (.obj entries) ∧ (Table.keys entries).Nodup ∧
    (∀ name v, Table.get? name entries = some v ↔ e.Tells label name v) ∧
    e.Classified label status

theorem isTold_of_readsBack {e : Envelope}
    (hcontext : ∀ facts ∈ e.context, ReadsBack (depthLimit - 1) (.obj facts)) :
    e.IsTold (e.guarded : Guarded α) := by
  have hguarded := guarded_of_hasNumerals (α := α) fun facts h => (hcontext facts h).hasNumerals
  refine ⟨e.status, e.label, (Json.obj e.entries).compact, e.entries, hguarded, ?_, fun c hc => ?_,
    Json.read_compact (readsBack_entries hcontext), e.nodup_keys_entries,
    fun name v => get?_entries, e.classified⟩
  · rw [hguarded, Guarded.errors]
  · by_contra hlt
    exact Json.notMem_compact (Nat.lt_of_not_le hlt) _ hc

theorem not_isTold_escaped {e : Envelope} {fault : Fault} :
    ¬ e.IsTold (.escaped fault : Guarded α) := by
  rintro ⟨status, label, text, entries, hending, -⟩
  cases hending

end Envelope

/-! ## 4. Counts -/

/-- A number of things in memory can be written. -/
theorem Coverage.hasNumeral_of_le {n : Nat} (h : n ≤ addressBound) :
    Text.hasNumeral n = true := by
  have hbound : addressBound < 10 ^ 20 := by decide
  have hpow : (10 : Nat) ^ 20 ≤ 10 ^ Text.digitLimit := Nat.pow_le_pow_right (by decide) (by decide)
  rw [Text.hasNumeral_iff, Int.natAbs_natCast]
  exact h.trans_lt (hbound.trans_le hpow)

namespace PartialRun

/-- What a failed drain had gathered can be written: the status of the child, if there is
one, and the number of groups that were skipped have few enough digits. -/
structure HasNumerals (p : PartialRun) : Prop where
  returncode : ∀ n ∈ p.returncode, Text.hasNumeral n = true
  skipped : Text.hasNumeral p.skipped = true

/-- The counts are read as they were written. -/
theorem HasNumerals.readsBack {p : PartialRun} (h : p.HasNumerals) (room : Nat) :
    ReadsBack (room + 1) (.obj p.context) := by
  have hnames : (["returncode", "skipped", "partial_files"] : List Text).Nodup := by decide
  refine .obj hnames fun e he => ?_
  simp only [context, List.mem_cons, List.not_mem_nil, or_false] at he
  rcases he with rfl | rfl | rfl
  · cases hcode : p.returncode with
    | none => exact .null
    | some n => exact .int (h.returncode n hcode)
  · exact .int h.skipped
  · cases p.coverage with
    | none => exact .int (Text.hasNumeral_of_lt_ten (by decide))
    | some c => exact .int (Coverage.hasNumeral_of_le (Nat.min_le_right _ _))

theorem hasNumerals_context {p : PartialRun} :
    (Json.obj p.context).hasNumerals = true ↔ p.HasNumerals := by
  refine ⟨fun h => ?_, fun h => (h.readsBack 0).hasNumerals⟩
  have hentries := Json.hasNumerals_obj.mp h
  refine ⟨fun n hn => ?_, hentries ("skipped", .int p.skipped) (by simp [context])⟩
  exact hentries ("returncode", .int n) (by simp [context, Option.mem_def.mp hn])

end PartialRun

/-- A failure whose context is read as it was written is told in one line (`IsTold`). So is
the failure of a drain, whatever its texts, exactly if the counts that it carries can be
written; where an integer of a context has too many digits, and only there, nothing is
written and the command ends with the fault of writing it. A command that succeeds gives its
value and writes nothing. -/
theorem guarded_tells {α : Type} (e : Envelope) :
    ((∀ facts ∈ e.context, ReadsBack (depthLimit - 1) (.obj facts)) →
      e.IsTold (e.guarded : Guarded α)) ∧
    (∀ p : PartialRun, e.context = some p.context →
      (e.IsTold (e.guarded : Guarded α) ↔ p.HasNumerals)) ∧
    ((e.guarded : Guarded α) = .escaped .unwritableInteger ↔
      ∃ facts ∈ e.context, (Json.obj facts).hasNumerals = false) ∧
    ((e.guarded : Guarded α) = .escaped .unwritableInteger → (e.guarded : Guarded α).errors = []) ∧
    (∀ f : Failure, f.envelope = e →
      (guarded (.error (.failure f)) : Guarded α) = e.guarded) ∧
    ∀ a : α, guarded (.ok a) = .done a ∧ (guarded (.ok a)).errors = [] := by
  refine ⟨Envelope.isTold_of_readsBack, fun p hp => ⟨fun htold => ?_, fun h => ?_⟩,
    Envelope.guarded_eq_escaped_iff, fun h => ?_, ?_, fun a => ⟨rfl, rfl⟩⟩
  · rw [← PartialRun.hasNumerals_context]
    by_contra hlong
    rw [Bool.not_eq_true] at hlong
    rw [Envelope.guarded_eq_escaped_iff.mpr ⟨_, hp, hlong⟩] at htold
    exact Envelope.not_isTold_escaped htold
  · refine Envelope.isTold_of_readsBack fun facts hfacts => ?_
    cases hp.symm.trans hfacts
    exact h.readsBack _
  · rw [h]
    rfl
  · rintro f rfl
    rfl

/-- A trace log that could not be read back, with quotes and a line break in the texts. -/
def Failure.unreadable (skipped : Int) : Failure :=
  ⟨.traceLog ⟨none, skipped, some (-9)⟩, "cannot read \"a\nb\"", some "see \\log"⟩

theorem guarded_tells_unreadable :
    (∃ text entries,
      (guarded (.error (.failure (.unreadable 3))) : Guarded Unit) =
        .failed false (text ++ [10]) 5 ∧
      10 ∉ text ∧ Json.read (text ++ [10]) = .ok (.obj entries) ∧
      Table.get? ("detail" : Text) entries = some (.str "cannot read \"a\nb\"") ∧
      Table.get? ("hint" : Text) entries = some (.str "see \\log") ∧
      Table.get? ("context" : Text) entries = some (.obj
        [("returncode", .int (-9)), ("skipped", .int 3), ("partial_files", .int 0)])) ∧
    (guarded (.error (.failure (.unreadable (10 ^ Text.digitLimit : Nat)))) : Guarded Unit) =
      .escaped .unwritableInteger := by
  have hcode : Text.hasNumeral (-9) = true := Text.hasNumeral_of_lt_ten (by decide)
  constructor
  · have hcounts : (⟨none, 3, some (-9)⟩ : PartialRun).HasNumerals :=
      ⟨by simpa using hcode, Text.hasNumeral_of_lt_ten (by decide)⟩
    obtain ⟨-, htold, -, -, hfailure, -⟩ :=
      guarded_tells (α := Unit) (Failure.unreadable 3).envelope
    obtain ⟨status, _, text, entries, hguarded, -, hcontrols, hread, -, htells, hclassified⟩ :=
      (htold _ rfl).mpr hcounts
    have hstatus : status = 5 := by
      cases hclassified with
      | traceLog => rfl
      | fileSystem => rfl
      | unlisted h => exact absurd h (by decide)
      | _ h => exact absurd h.1 (by decide)
    refine ⟨text, entries, ?_, fun hmem => absurd (hcontrols 10 hmem) (by decide), hread,
      (htells _ _).mpr .detail, (htells _ _).mpr (.hint rfl (by decide)),
      (htells _ _).mpr (.context rfl (by decide))⟩
    rw [hfailure _ rfl, hguarded, hstatus]
  · obtain ⟨-, -, hescaped, -, hfailure, -⟩ :=
      guarded_tells (α := Unit) (Failure.unreadable (10 ^ Text.digitLimit : Nat)).envelope
    rw [hfailure _ rfl, hescaped]
    refine ⟨_, rfl, Bool.eq_false_iff.mpr fun h => ?_⟩
    have hskipped := Text.hasNumeral_iff.mp (PartialRun.hasNumerals_context.mp h).skipped
    rw [Int.natAbs_natCast] at hskipped
    exact Nat.lt_irrefl _ hskipped

end LineTrace
