/-
LineTrace.Proofs.Trace.StartupText — the startup text means what it should.

The startup text quotes twice: the path of another startup file as a word of its own, and
the template between `$'` and `'`, where the separator is written as an escape right
before a dollar sign. `tokens_preamble` says that a shell reads it, whatever the path and
the delimiter are, as the condition on that path, the one assignment of the template to
`PS4`, and the command that turns tracing on, in this order and nothing else. The path
is one literal word both times, so nothing in it is executed.

It is enough that the separator has two hexadecimal digits and is ASCII. That the
delimiter has neither quotes nor backslashes is what a format has been checked for.
-/
import LineTrace.Proofs.Run.StartupFile
import LineTrace.Proofs.Shell.Quoting

namespace LineTrace.TraceFormat

open Shell

/-! ## 1. The template -/

theorem escaped_append {t s t' s' : Text} (h : Escaped t s) (h' : Escaped t' s') :
    Escaped (t ++ t') (s ++ s') := by
  induction h with
  | nil => exact h'
  | char quote backslash _ ih => exact .char quote backslash ih
  | hex first second _ ih => exact .hex first second ih

theorem escaped_of_plain {t : Text} (h : ∀ c ∈ t, c ≠ 39 ∧ c ≠ 92) : Escaped t t := by
  induction t with
  | nil => exact .nil
  | cons c t ih =>
    obtain ⟨hc, ht⟩ := List.forall_mem_cons.mp h
    exact .char hc.1 hc.2 (ih ht)

/-- Joined texts say what they say, joined. -/
theorem escaped_joinWith {between said : Text} (h : Escaped between said) {ts : List Text}
    (hts : ∀ t ∈ ts, ∀ c ∈ t, c ≠ 39 ∧ c ≠ 92) :
    Escaped (Text.joinWith between ts) (Text.joinWith said ts) := by
  induction ts with
  | nil => exact .nil
  | cons t ts ih =>
    obtain ⟨ht, hmore⟩ := List.forall_mem_cons.mp hts
    cases ts with
    | nil => exact escaped_of_plain ht
    | cons u ts => exact escaped_append (escaped_append (escaped_of_plain ht) h) (ih hmore)

theorem escaped_separatorEscape {f : TraceFormat} (hsep : f.separator < 128) :
    Escaped f.separatorEscape [f.separator] := by
  have hvalue : 16 * (f.separator / 16) + f.separator % 16 = f.separator := Nat.div_add_mod ..
  have hhigh : f.separator / 16 < 16 := Nat.div_lt_of_lt_mul (Nat.lt_trans hsep (by decide))
  have hescape : f.separatorEscape =
      [92, 120, Text.digit (f.separator / 16), Text.digit (f.separator % 16)] := by
    rw [separatorEscape, Text.padLeft_numeral (Nat.lt_trans hsep (by decide)) (by decide)]
    rfl
  have h := Escaped.hex (Text.hexValue?_digit hhigh)
    (Text.hexValue?_digit (Nat.mod_lt f.separator (by decide))) .nil
  rwa [hvalue, ← hescape] at h

/-- The template stands in the startup text as it is, but for the separators. -/
theorem escaped_template {f : TraceFormat} (hsep : f.separator < 128) :
    Escaped (marker :: f.delimiter ++ Text.joinWith f.separatorEscape fields ++ f.delimiter)
      f.template := by
  have hdelimiter : Escaped f.delimiter f.delimiter := by
    refine escaped_of_plain fun c hc => ?_
    have hplain := f.delimiter_plain c hc
    simp only [reservedIn, List.mem_cons, not_or] at hplain
    exact ⟨hplain.1, hplain.2.1⟩
  have hfields := escaped_joinWith (escaped_separatorEscape hsep)
    (show ∀ t ∈ fields, ∀ c ∈ t, c ≠ 39 ∧ c ≠ 92 by decide)
  exact escaped_append (escaped_append (.char (by decide) (by decide) hdelimiter) hfields)
    hdelimiter

/-! ## 2. The text -/

/-- The tokens of a line that reads in the file that a word names, if it can be read. -/
def chainTokens (w : Word) : List Token :=
  [.word [.loose "if"], .word [.loose "["], .word [.loose "-r"], .word w, .word [.loose "]"],
    .operator ";", .word [.loose "then"], .word [.loose "."], .word w, .operator ";",
    .word [.loose "fi"], .operator "\n"]

/-- The tokens that assign the template and turn tracing on. -/
def ownTokens (f : TraceFormat) : List Token :=
  [.word [.loose "PS4=", .fixed f.template], .operator "\n", .word [.loose "set"],
    .word [.loose "-x"], .operator "\n"]

/-- A word of bare characters and what follows it. -/
theorem lists_bare (x : Text) (hne : x ≠ []) (h : ∀ d ∈ x, isBare d ∧ d ≠ 35) {c : CodePoint}
    (hc : c = 32 ∨ c = 10 ∨ c = 59) {t : Text} {ts : List Token} (hrest : Lists (c :: t) ts) :
    Lists (x ++ c :: t) (.word [.loose x] :: ts) :=
  .word (spells_bare hne fun d hd => (h d hd).1) hne
    (fun hhead => (h 35 (List.mem_of_head? hhead)).2 rfl) hc hrest

theorem lists_ownText {f : TraceFormat} (hsep : f.separator < 128) :
    Lists f.ownText f.ownTokens := by
  have hon := lists_bare "-x" (by decide) (by decide) (.inr (.inl rfl)) (.lineBreak .nil)
  have hset := lists_bare "set" (by decide) (by decide) (.inl rfl) (.blank hon)
  have hvalue := Spells.dollar (escaped_template hsep) .nil
  have hname : Spells ("PS4=" ++ _) [.loose "PS4=", .fixed f.template] :=
    .bare (by decide) (.bare (by decide) (.bare (by decide) (.bare (by decide) hvalue)))
  have hown := Lists.word hname (List.append_ne_nil_of_left_ne_nil (by decide) _)
    (show some 80 ≠ some 35 by decide) (.inr (.inl rfl)) (.lineBreak hset)
  convert hown using 1
  · simp [ownText, Text.ofString]
  · rfl

/-- The line that reads in another file has its path as a word, twice. -/
theorem lists_chainLine {path t : Text} {w : Word} {ts : List Token}
    (hpath : Spells (Text.shellWord path) w) (hrest : Lists t ts) :
    Lists (chainLine path ++ t) (chainTokens w ++ ts) := by
  obtain ⟨hne, hhead⟩ := head?_shellWord_ne path
  -- From the end of the line to its start, since a word is listed with what follows it.
  have hfi := lists_bare "fi" (by decide) (by decide) (.inr (.inl rfl)) (.lineBreak hrest)
  have hread := Lists.word hpath hne hhead (.inr (.inr rfl)) (.semicolon (.blank hfi))
  have hdot := lists_bare "." (by decide) (by decide) (.inl rfl) (.blank hread)
  have hthen := lists_bare "then" (by decide) (by decide) (.inl rfl) (.blank hdot)
  have hclose := lists_bare "]" (by decide) (by decide) (.inr (.inr rfl))
    (.semicolon (.blank hthen))
  have hasked := Lists.word hpath hne hhead (.inl rfl) (.blank hclose)
  have hreadable := lists_bare "-r" (by decide) (by decide) (.inl rfl) (.blank hasked)
  have hopen := lists_bare "[" (by decide) (by decide) (.inl rfl) (.blank hreadable)
  have hif := lists_bare "if" (by decide) (by decide) (.inl rfl) (.blank hopen)
  convert hif using 1
  · simp [chainLine, Text.ofString]
  · rfl

/-- A shell reads the startup text as a condition on the path of another startup file,
the assignment of the template, and the command that turns tracing on. The path is a
literal word, and there is no condition without a path. -/
theorem tokens_preamble (f : TraceFormat) (hsep : f.separator < 128) (chain : Option Text) :
    ∃ w : Word, w.IsLiteral ∧ plainText? w = some (chain.getD []) ∧
      (tokens (f.preamble chain)).map (·.map Placed.token) =
        some ((if chain.getD [] = [] then [] else chainTokens w) ++ f.ownTokens) := by
  obtain ⟨w, hspelled, hliteral, hplain⟩ := exists_spells_shellWord (chain.getD [])
  refine ⟨w, hliteral, hplain, ?_⟩
  split
  · rename_i hnone
    have htext : f.preamble chain = f.ownText := by
      rcases chain with _ | path
      · exact f.preamble_none
      · rw [Option.getD_some] at hnone
        rw [hnone]
        exact f.preamble_none
    rw [htext]
    exact (lists_ownText hsep).tokens_eq
  · rename_i hsome
    obtain ⟨path, rfl⟩ : ∃ path, chain = some path := by
      cases chain with
      | none => exact absurd rfl hsome
      | some path => exact ⟨path, rfl⟩
    rw [Option.getD_some] at hsome
    rw [f.preamble_some hsome]
    exact (lists_chainLine hspelled (lists_ownText hsep)).tokens_eq

/-- The separator is a single quote, and the path has a quote, an expansion, a blank, a
line break and a substitution in it. -/
theorem tokens_preamble_quotes :
    let f : TraceFormat := ⟨[97, 35, 97], 39, by decide, by decide⟩
    let path : Text := "it's $x;\n`y`"
    f.separator < 128 ∧
      ∃ w : Word, w.IsLiteral ∧ plainText? w = some path ∧
        (tokens (f.preamble (some path))).map (·.map Placed.token) =
          some (chainTokens w ++ f.ownTokens) := by
  intro f path
  have hsep : f.separator < 128 := by decide
  exact ⟨hsep, tokens_preamble f hsep (some path)⟩

end LineTrace.TraceFormat
