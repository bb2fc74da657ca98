/-
LineTrace.Proofs.Run.StartupFile — when a startup file outlives its run.

A startup file is made for each run and ought to be gone with it. It is, on every way
out of a run but one: the file is made before its text is known to have bytes, and the
run hears of it only when it is written. So a startup file of before whose path cannot
be encoded leaves an empty file behind. The command is never launched then.

`run_leavesStartup_iff` says that this is the only case among files as `FileSystem` has
them, where a file that could be made can be written and closed. A device that is full when
the text is written would leave its file behind in the same way, and is not spoken of here.

The text of a startup file has bytes exactly where the path that it reads in has
(`exists_encode_preamble_iff`): everything else in it is ASCII, and quoting a word for
the shell neither adds nor takes away any other code point.
-/
import LineTrace.Proofs.Json.Writing
import LineTrace.Proofs.Run.Ending
import LineTrace.Proofs.Run.Interruption

namespace LineTrace

/-! ## 1. The text of a startup file -/

/-- Quoting a word adds ASCII only. -/
theorem Text.forall_mem_shellWord {P : CodePoint → Prop} (hplain : ∀ c < 128, P c) (t : Text) :
    (∀ c ∈ shellWord t, P c) ↔ ∀ c ∈ t, P c := by
  have hquote : ∀ c ∈ ("'\"'\"'" : Text), P c := by
    have hascii : ∀ c ∈ ("'\"'\"'" : Text), c < 128 := by decide
    exact fun c hc => hplain c (hascii c hc)
  rw [shellWord]
  split
  · rename_i hnil
    subst hnil
    have hascii : ∀ c ∈ ("''" : Text), c < 128 := by decide
    simpa using fun c hc => hplain c (hascii c hc)
  · split
    · exact Iff.rfl
    · simp only [List.forall_mem_append, List.forall_mem_cons, List.forall_mem_flatMap]
      constructor
      · rintro ⟨⟨-, ht⟩, -⟩ c hc
        by_cases h39 : c = 39
        · rw [h39]
          exact hplain 39 (by decide)
        · exact ht c hc c (by simp [h39])
      · intro ht
        refine ⟨⟨hplain 39 (by decide), fun c hc => ?_⟩, hplain 39 (by decide), by simp⟩
        split
        · exact hquote
        · simpa using ht c hc

theorem Text.isSome_bytes?_of_lt {c : CodePoint} (h : c < 128) :
    (Encoding.utf8Escaped.bytes? c).isSome := by
  have hlow : ¬ (0xDC80 ≤ c ∧ c ≤ 0xDCFF) := fun hc => absurd (Nat.lt_of_le_of_lt hc.1 h) (by decide)
  rw [Encoding.bytes?, if_neg hlow, if_pos (isScalar_of_lt h)]
  rfl

namespace TraceFormat

/-- What stands behind the line that reads another file in. -/
def ownText (f : TraceFormat) : Text :=
  "PS4=$'" ++ marker :: f.delimiter ++ Text.joinWith f.separatorEscape fields ++ f.delimiter ++
    "'\nset -x\n"

theorem preamble_none (f : TraceFormat) : f.preamble none = f.ownText := by
  simp [preamble, ownText]

theorem preamble_some (f : TraceFormat) {path : Text} (h : path ≠ []) :
    f.preamble (some path) = chainLine path ++ f.ownText := by
  obtain ⟨c, cs, rfl⟩ := List.exists_cons_of_ne_nil h
  simp [preamble, ownText]

theorem lt_of_mem_ownText {f : TraceFormat} (hf : f.IsAscii) : ∀ c ∈ f.ownText, c < 128 := by
  have hescape : ∀ c ∈ f.separatorEscape, c < 128 := by
    have hplain : Text.IsPlain (Text.padLeft 2 48 (Text.numeral 16 f.separator)) :=
      (Text.isPlain_numeral (by decide) (by decide) f.separator).padLeft (by decide)
    rw [separatorEscape, List.forall_mem_append]
    exact ⟨by decide, fun c hc => (hplain c hc).2⟩
  have hfields : ∀ field ∈ fields, ∀ c ∈ field, c < 128 := by decide
  simp only [fields, List.forall_mem_cons] at hfields
  obtain ⟨hline, hsource, hpwd, holdpwd, -⟩ := hfields
  simp only [ownText, fields, Text.joinWith, List.forall_mem_append, List.forall_mem_cons]
  exact ⟨⟨⟨⟨by decide, by decide, hf.delimiter⟩, ⟨⟨hline, hescape⟩, ⟨hsource, hescape⟩,
    ⟨hpwd, hescape⟩, holdpwd⟩⟩, hf.delimiter⟩, by decide⟩

/-- The text of a startup file has bytes exactly where the path that it reads in has. -/
theorem exists_encode_preamble_iff {f : TraceFormat} (hf : f.IsAscii) (chain : Option Text) :
    (∃ bytes, Text.encode .utf8Escaped (f.preamble chain) = .ok bytes) ↔
      ∀ path, chain = some path → ∃ bytes, Text.encode .utf8Escaped path = .ok bytes := by
  have hplain : ∀ c < 128, (Text.Encoding.utf8Escaped.bytes? c).isSome :=
    fun _ => Text.isSome_bytes?_of_lt
  have hascii : ∀ {t : Text}, (∀ c ∈ t, c < 128) →
      ∀ c ∈ t, (Text.Encoding.utf8Escaped.bytes? c).isSome :=
    fun ht c hc => hplain c (ht c hc)
  have hown := hascii (lt_of_mem_ownText hf)
  simp only [Text.exists_encode_iff]
  cases chain with
  | none => simpa [preamble_none] using hown
  | some path =>
    simp only [Option.some.injEq, forall_eq']
    by_cases hnil : path = []
    · rw [hnil, show f.preamble (some []) = f.preamble none from rfl, preamble_none]
      simpa using hown
    · have hif := hascii (t := "if [ -r ") (by decide)
      have hthen := hascii (t := " ]; then . ") (by decide)
      have hfi := hascii (t := "; fi\n") (by decide)
      rw [preamble_some f hnil, chainLine]
      simp only [List.forall_mem_append, Text.forall_mem_shellWord hplain]
      exact ⟨fun h => h.1.1.2, fun h => ⟨⟨⟨⟨⟨hif, h⟩, hthen⟩, h⟩, hfi⟩, hown⟩⟩

end TraceFormat

/-! ## 2. Files that are left -/

/-- A startup file is there after a run that was not there before. -/
def TracedRun.LeavesStartup (r : TracedRun) (before : FileSystem) : Prop :=
  ∃ n l, l.head? = some (TraceFormat.startupName n) ∧ before.nodeAt l = none ∧
    (r.progress.files.nodeAt l).isSome

/-- What is left are the files that were made and are still there. -/
theorem TracedRun.Opened.leavesStartup_iff {r : TracedRun} {before : FileSystem} {path : Text}
    {l : Location} {made : FileSystem.Made} (h : r.Opened before path l made) :
    r.LeavesStartup before ↔
      ∃ n m bytes, m.head? = some (TraceFormat.startupName n) ∧ m ≠ l ∧
        made m = some (some bytes) := by
  have hbeside := h.logged.beside
  obtain ⟨k, hk⟩ := h.name
  constructor
  · rintro ⟨n, m, hname, hnothing, hthere⟩
    rw [hbeside.node] at hthere
    cases hmade : made m with
    | none => simp [hmade, hnothing] at hthere
    | some content =>
      cases content with
      | none => simp [hmade] at hthere
      | some bytes =>
        refine ⟨n, m, bytes, hname, ?_, hmade⟩
        rintro rfl
        rw [hk, Option.some.injEq] at hname
        exact TraceFormat.startupName_ne n k hname.symm
  · rintro ⟨n, m, bytes, hname, -, hmade⟩
    refine ⟨n, m, hname, hbeside.nothing m _ hmade, ?_⟩
    rw [hbeside.node, hmade]
    rfl

/-- A run that leaves a startup file behind could not encode its text; any other had no
log, could not make the file, or wrote it. -/
theorem TracedRun.Outcome.leavesStartup_cases {t : Tracer} {w : Surroundings} {fs : FileSystem}
    {words : List Text} {own : Environment} {r : TracedRun} (h : r.Outcome t w fs words own) :
    (r.LeavesStartup fs ∧ r.progress.log.path.isSome ∧ r.launched = none ∧
      ∃ f e, w.format t.plan.delimiterBytes = .ok f ∧ r.result = .error (.encode e) ∧
        Text.encode .utf8Escaped (f.preamble (chainOf w.environment own)) = .error e) ∨
    ¬ r.LeavesStartup fs ∧ (r.progress.log.path = none ∨ (∃ e, r.result = .error (.file e)) ∨
      ∃ f bytes, w.format t.plan.delimiterBytes = .ok f ∧
        Text.encode .utf8Escaped (f.preamble (chainOf w.environment own)) = .ok bytes) := by
  cases h with
  | unopened states files log launched result cause =>
    refine .inr ⟨?_, .inl (by rw [log]; rfl)⟩
    rintro ⟨n, l, -, hnone, hsome⟩
    simp [files, hnone] at hsome
  | unmade format opened states launched result =>
    refine .inr ⟨?_, .inr (.inl ⟨_, result⟩)⟩
    rw [opened.leavesStartup_iff]
    rintro ⟨n, m, bytes, -, hne, hmade⟩
    rw [Function.update_of_ne hne] at hmade
    cases hmade
  | @unwritten f path l l' n e format name preamble opened states launched result =>
    refine .inl ⟨?_, by rw [opened.logged.log]; rfl, launched, f, e, format, result, preamble⟩
    have hne : l' ≠ l := by
      obtain ⟨k, hk⟩ := opened.name
      rintro rfl
      rw [name, Option.some.injEq] at hk
      exact TraceFormat.startupName_ne n k hk
    rw [opened.leavesStartup_iff]
    refine ⟨n, l', [], name, hne, ?_⟩
    rw [Function.update_of_ne hne, Function.update_self]
  | @started f path l l' n bytes c files more content format name preamble opened states launched
      ending answered =>
    refine .inr ⟨?_, .inr (.inr ⟨f, bytes, format, preamble⟩)⟩
    rw [opened.leavesStartup_iff]
    rintro ⟨k, m, bytes', -, hne, hmade⟩
    rw [Function.update_of_ne hne, Function.update_apply] at hmade
    split at hmade <;> cases hmade

/-- Whether a run ended because a file could not be made. -/
def TracedRun.lacksFile (r : TracedRun) : Bool :=
  match r.result with
  | .error (.file _) => true
  | _ => false

namespace Tracer

/-- A run leaves a startup file behind exactly where it had a log and could make such a
file, but the path of the startup file of before has no bytes. Then nothing was launched,
and the run ends with the complaint about that path's code points. -/
theorem run_leavesStartup_iff (t : Tracer) (w : Surroundings)
    (hdigits : ∀ n text, w.digits n = .ok text → ∀ c ∈ text, (Text.hexValue? c).isSome)
    (fs : FileSystem) (words : List Text) (own : Environment) :
    let r := (t.run w fs words own).2
    (r.LeavesStartup fs ↔
        r.progress.log.path.isSome ∧ (∀ e, r.result ≠ .error (.file e)) ∧
          ∃ path, chainOf w.environment own = some path ∧
            ∀ bytes, Text.encode .utf8Escaped path ≠ .ok bytes) ∧
      (r.LeavesStartup fs → r.launched = none ∧ ∃ e, r.result = .error (.encode e)) := by
  intro r
  by_cases hwords : words = []
  · have hr : r = ⟨.error refusal, ⟨fs, TraceLog.new t.plan.tmpDir, [], [], []⟩, none⟩ := by
      simp only [r, hwords, run]
    have hnot : ¬ r.LeavesStartup fs := by
      rintro ⟨n, l, -, hnone, hsome⟩
      simp [hr, hnone] at hsome
    exact ⟨iff_of_false hnot (by simp [hr, TraceLog.new]), fun h => absurd h hnot⟩
  have hencode : ∀ {f}, w.format t.plan.delimiterBytes = .ok f →
      ((∃ bytes, Text.encode .utf8Escaped (f.preamble (chainOf w.environment own)) = .ok bytes) ↔
        ∀ path, chainOf w.environment own = some path →
          ∃ bytes, Text.encode .utf8Escaped path = .ok bytes) :=
    fun hf => TraceFormat.exists_encode_preamble_iff (Surroundings.isAscii_of_format hdigits hf) _
  rcases (run_outcome t w fs hwords own).leavesStartup_cases with
    ⟨hleaves, hlog, hlaunched, f, e, hformat, hresult, hpreamble⟩ | ⟨hnot, hwhy⟩
  · refine ⟨iff_of_true hleaves ⟨hlog, ?_, ?_⟩, fun _ => ⟨hlaunched, e, hresult⟩⟩
    · intro e' he'
      rw [hresult] at he'
      cases he'
    · by_contra hall
      have hchain : ∀ path, chainOf w.environment own = some path →
          ∃ bytes, Text.encode .utf8Escaped path = .ok bytes := fun path hpath => by
        by_contra hno
        exact hall ⟨path, hpath, fun bytes hbytes => hno ⟨bytes, hbytes⟩⟩
      obtain ⟨bytes, hbytes⟩ := (hencode hformat).mpr hchain
      rw [hpreamble] at hbytes
      cases hbytes
  · refine ⟨iff_of_false hnot ?_, fun h => absurd h hnot⟩
    rintro ⟨hlog, hfile, path, hpath, hno⟩
    rcases hwhy with hnone | ⟨e, he⟩ | ⟨f, bytes, hformat, hbytes⟩
    · rw [show r.progress.log.path = none from hnone] at hlog
      cases hlog
    · exact hfile e he
    · obtain ⟨bytes', hbytes'⟩ := (hencode hformat).mp ⟨bytes, hbytes⟩ path hpath
      exact hno bytes' hbytes'

/-- A startup file of before whose name is a lone surrogate. -/
theorem run_leavesStartup_iff_surrogate :
    let w : Surroundings := ⟨[(Command.startupVariable, [0xD800])],
      fun n => .ok (List.replicate n 97), 64, fun _ _ => .error .noRoom,
      fun _ _ => (.ok ⟨[], .ok 0, .never, none⟩, [])⟩
    let t := Tracer.new ⟨.text "bash", .int 1, .int 20, false, false, none, true, none⟩ false
    let fs : FileSystem := ⟨[(["tmp"], .directory)], "/", "/tmp", 0⟩
    let r := (t.run w fs ["true"] []).2
    r.LeavesStartup fs ∧ r.launched = none := by
  have hleaves : ∀ (t : Tracer) (w : Surroundings) (fs : FileSystem) (words : List Text),
      (∀ n text, w.digits n = .ok text → ∀ c ∈ text, (Text.hexValue? c).isSome) →
      chainOf w.environment [] = some [0xD800] →
      (t.run w fs words []).2.progress.log.path.isSome →
      (t.run w fs words []).2.lacksFile = false →
      (t.run w fs words []).2.LeavesStartup fs ∧ (t.run w fs words []).2.launched = none := by
    intro t w fs words hdigits hchain hlog hresult
    obtain ⟨hiff, hthen⟩ := run_leavesStartup_iff t w hdigits fs words []
    have hleft := hiff.mpr ⟨hlog, fun e he => ?_, [0xD800], hchain, fun _ h => nomatch h⟩
    · exact ⟨hleft, (hthen hleft).1⟩
    · simp [TracedRun.lacksFile, he] at hresult
  intro w t fs
  refine hleaves t w fs ["true"] (fun n text htext c hc => ?_) (by decide +kernel)
    (by decide +kernel) (by decide +kernel)
  cases htext
  rw [List.eq_of_mem_replicate hc]
  decide

end Tracer

end LineTrace
