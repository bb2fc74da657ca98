/-
LineTrace.Proofs.Shell.Quoting — quoted texts and what a shell reads them as.

`Spells` is a grammar of words: bare characters, text between single quotes, a single
quote between double quotes, and text between `$'` and `'` whose escapes are of two
hexadecimal digits (`Escaped`). `Lists` is the grammar of the tokens that such words
make with blanks, line breaks and semicolons between them. Both are narrower than
what a shell takes, and they are what a text that was put together with care is
written in.

The reader agrees with the grammar (`Spells.readUntil_eq`, `Lists.tokens_eq`): what is
spelled is read as just that, whatever it is and whatever follows it. And there is a
spelling for every text, of parts that nothing is ever expanded in
(`exists_spells_shellWord`).
-/
import LineTrace.Shell.Script
import LineTrace.Text.ShellWord

namespace LineTrace.Shell

/-! ## 1. Words -/

/-- A character that stands for itself in a word: it neither ends the word nor begins
a quotation or an expansion. -/
def isBare (c : CodePoint) : Bool := !endsWord c && !([39, 34, 92, 36, 96].contains c)

/-- What stands between `$'` and `'`, and what it says. -/
inductive Escaped : Text → Text → Prop where
  | nil : Escaped [] []
  | char {c : CodePoint} {t s : Text} (quote : c ≠ 39) (backslash : c ≠ 92) (rest : Escaped t s) :
      Escaped (c :: t) (c :: s)
  | hex {a b : CodePoint} {high low : Nat} {t s : Text} (first : Text.hexValue? a = some high)
      (second : Text.hexValue? b = some low) (rest : Escaped t s) :
      Escaped (92 :: 120 :: a :: b :: t) ((16 * high + low) :: s)

/-- A text and the word that it spells. -/
inductive Spells : Text → Word → Prop where
  | nil : Spells [] []
  | bare {c : CodePoint} {t : Text} {w : Word} (plain : isBare c) (rest : Spells t w) :
      Spells (c :: t) (addLoose c w)
  | single {inside t : Text} {w : Word} (open_ : 39 ∉ inside) (rest : Spells t w) :
      Spells (39 :: inside ++ 39 :: t) (.fixed inside :: w)
  | quote {t : Text} {w : Word} (rest : Spells t w) :
      Spells (34 :: 39 :: 34 :: t) (.fixed [39] :: w)
  | dollar {inside said t : Text} {w : Word} (escaped : Escaped inside said) (rest : Spells t w) :
      Spells (36 :: 39 :: inside ++ 39 :: t) (.fixed said :: w)

theorem untilQuote_append {inside : Text} (h : 39 ∉ inside) (rest : Text) :
    untilQuote (inside ++ 39 :: rest) = some (inside, rest) := by
  induction inside with
  | nil => rfl
  | cons c inside ih =>
    rw [List.mem_cons, not_or] at h
    rw [List.cons_append, untilQuote, if_neg (Ne.symm h.1), ih h.2]
    rfl

/-- Escapes are undone up to the quote. -/
theorem Escaped.untilDollarQuote_eq {t s : Text} (h : Escaped t s) (rest : Text) {fuel : Nat}
    (hfuel : (t ++ 39 :: rest).length < fuel) :
    untilDollarQuote fuel (t ++ 39 :: rest) = some (s, rest) := by
  induction h generalizing fuel with
  | nil =>
    cases fuel with
    | zero => simp at hfuel
    | succ fuel => rfl
  | char hquote hbackslash _ ih =>
    cases fuel with
    | zero => simp at hfuel
    | succ fuel =>
      rw [List.cons_append, List.length_cons] at hfuel
      rw [List.cons_append, untilDollarQuote, if_neg hquote, if_neg hbackslash,
        ih (Nat.lt_of_succ_lt_succ hfuel)]
      rfl
  | hex hfirst hsecond _ ih =>
    cases fuel with
    | zero => simp at hfuel
    | succ fuel =>
      simp only [List.cons_append, List.length_cons] at hfuel ih ⊢
      rw [untilDollarQuote, if_neg (by decide), if_pos rfl, dollarEscape, hfirst, hsecond]
      dsimp only
      rw [ih (by omega)]
      rfl

theorem endsWord_of_isBare {c : CodePoint} (h : isBare c) : endsWord c = false := by
  simp only [isBare, Bool.and_eq_true, Bool.not_eq_true'] at h
  exact h.1

/-- No spelled word begins with a character that would end it. -/
theorem Spells.endsWord_head {c : CodePoint} {t : Text} {w : Word} (h : Spells (c :: t) w) :
    endsWord c = false := by
  cases h with
  | bare plain => exact endsWord_of_isBare plain
  | single | quote | dollar => decide

theorem Spells.head_ne_backslash {c : CodePoint} {t : Text} {w : Word} (h : Spells (c :: t) w) :
    c ≠ 92 := by
  cases h with
  | bare plain =>
    rintro rfl
    exact absurd plain (by decide)
  | single | quote | dollar => decide

/-- A spelled word is read as it is spelled, up to a character that ends it. -/
theorem Spells.readUntil_eq {t : Text} {w : Word} (h : Spells t w) {c : CodePoint}
    (hc : endsWord c) (rest : Text) {fuel : Nat} (hfuel : (t ++ c :: rest).length < fuel) :
    readUntil endsWord fuel (t ++ c :: rest) = some (w, c :: rest) := by
  -- On the spelling. A quotation takes one unit of fuel for several characters, so what is
  -- left of the fuel exceeds what is left of the text.
  induction h generalizing fuel with
  | nil =>
    cases fuel with
    | zero => simp at hfuel
    | succ fuel => exact if_pos hc
  | @bare d t w plain _ ih =>
    cases fuel with
    | zero => simp at hfuel
    | succ fuel =>
      have hends := endsWord_of_isBare plain
      simp only [isBare, Bool.and_eq_true, Bool.not_eq_true', List.contains_eq_mem,
        decide_eq_false_iff_not, List.mem_cons, not_or] at plain
      obtain ⟨-, hsingle, hdouble, hbackslash, hdollar, hback, -⟩ := plain
      rw [List.cons_append, List.length_cons] at hfuel
      rw [List.cons_append, readUntil.eq_def]
      dsimp only
      rw [if_neg (by simp [hends]), if_neg hsingle, if_neg hdouble,
        if_neg hbackslash, if_neg (fun h => hdollar h.1), if_neg hdollar, if_neg hback,
        ih (Nat.lt_of_succ_lt_succ hfuel)]
      rfl
  | @single inside t w hopen _ ih =>
    cases fuel with
    | zero => simp at hfuel
    | succ fuel =>
      simp only [List.cons_append, List.append_assoc, List.length_cons, List.length_append]
        at hfuel ih ⊢
      rw [readUntil.eq_def]
      dsimp only
      rw [if_neg (by decide), if_pos rfl, untilQuote_append hopen]
      dsimp only
      rw [ih (by omega)]
      rfl
  | @quote t w _ ih =>
    cases fuel with
    | zero => simp at hfuel
    | succ fuel =>
      simp only [List.cons_append, List.length_cons] at hfuel ih ⊢
      rw [readUntil.eq_def]
      dsimp only
      rw [if_neg (by decide), if_neg (by decide), if_pos rfl]
      have hinside : ∀ n, untilDoubleQuote (n + 2) (39 :: 34 :: (t ++ c :: rest)) =
          some ([.fixed [39]], t ++ c :: rest) := fun n => rfl
      rw [show (39 :: 34 :: (t ++ c :: rest)).length + 1 = ((t ++ c :: rest).length + 1) + 2 from
        rfl, hinside]
      dsimp only
      rw [ih (by omega)]
      rfl
  | @dollar inside said t w hescaped _ ih =>
    cases fuel with
    | zero => simp at hfuel
    | succ fuel =>
      simp only [List.cons_append, List.append_assoc, List.length_cons, List.length_append]
        at hfuel ih ⊢
      rw [readUntil.eq_def]
      dsimp only
      rw [if_neg (by decide), if_neg (by decide), if_neg (by decide),
        if_neg (by decide), if_pos ⟨rfl, rfl⟩]
      have hread : untilDollarQuote (39 :: (inside ++ 39 :: (t ++ c :: rest))).length
          (inside ++ 39 :: (t ++ c :: rest)) = some (said, t ++ c :: rest) :=
        hescaped.untilDollarQuote_eq _ (by simp)
      rw [List.drop_one, List.tail_cons, hread]
      dsimp only
      rw [ih (by omega)]
      rfl

/-! ## 2. Tokens -/

/-- A text and the tokens that it lists. A word is followed by what ends it, and none
begins like a remark. -/
inductive Lists : Text → List Token → Prop where
  | nil : Lists [] []
  | blank {t : Text} {ts : List Token} (rest : Lists t ts) : Lists (32 :: t) ts
  | lineBreak {t : Text} {ts : List Token} (rest : Lists t ts) :
      Lists (10 :: t) (.operator "\n" :: ts)
  | semicolon {t : Text} {ts : List Token} (rest : Lists (32 :: t) ts) :
      Lists (59 :: 32 :: t) (.operator ";" :: ts)
  | word {x t : Text} {c : CodePoint} {w : Word} {ts : List Token} (spelled : Spells x w)
      (begun : x ≠ []) (remark : x.head? ≠ some 35) (ended : c = 32 ∨ c = 10 ∨ c = 59)
      (rest : Lists (c :: t) ts) : Lists (x ++ c :: t) (.word w :: ts)

theorem operator?_eq_none {c : CodePoint} (h : endsWord c = false) (t : Text) :
    operator? (c :: t) = none := by
  have hheads : ∀ o ∈ operators, ∃ d r, o = d :: r ∧ endsWord d = true := by
    have hall : ∀ o ∈ operators, (o.head?.any endsWord) = true := by decide
    intro o ho
    have hhead := hall o ho
    cases o with
    | nil => cases hhead
    | cons d r => exact ⟨d, r, rfl, hhead⟩
  rw [operator?, Option.map_eq_none_iff, List.find?_eq_none]
  intro o ho hbegins
  obtain ⟨d, r, rfl, hd⟩ := hheads o ho
  rw [List.isPrefixOf_iff_prefix, List.cons_prefix_cons] at hbegins
  rw [hbegins.1, h] at hd
  cases hd

theorem descriptor?_eq_none {d : CodePoint} {t : Text}
    (h : Text.isDigit d → t.head? ≠ some 60 ∧ t.head? ≠ some 62) : descriptor? (d :: t) = none := by
  cases t with
  | nil => rfl
  | cons c t =>
    refine if_neg fun hdigit => ?_
    obtain ⟨hleft, hright⟩ := h hdigit.1
    rcases hdigit.2 with rfl | rfl
    · exact hleft rfl
    · exact hright rfl

/-- No spelled word is a descriptor. -/
theorem Spells.descriptor?_eq_none {x : Text} {w : Word} (h : Spells x w) (hx : x ≠ [])
    {c : CodePoint} (hc : c = 32 ∨ c = 10 ∨ c = 59) (t : Text) :
    descriptor? (x ++ c :: t) = none := by
  cases h with
  | nil => exact absurd rfl hx
  | @bare d x w _ rest =>
    refine Shell.descriptor?_eq_none fun _ => ?_
    cases x with
    | nil => rcases hc with rfl | rfl | rfl <;> exact ⟨by simp, by simp⟩
    | cons e x =>
      have hends := rest.endsWord_head
      refine ⟨?_, ?_⟩ <;> rintro ⟨⟩ <;> exact absurd hends (by decide)
  | single | quote | dollar =>
    exact Shell.descriptor?_eq_none fun hdigit => absurd hdigit (by decide)

/-- What is listed is what is read, whatever the number of the first line. -/
theorem Lists.tokensFrom_eq {t : Text} {ts : List Token} (h : Lists t ts) {fuel line : Nat}
    (hfuel : t.length < fuel) : (tokensFrom fuel line t).map (·.map Placed.token) = some ts := by
  induction h generalizing fuel line with
  | nil =>
    cases fuel with
    | zero => simp at hfuel
    | succ fuel => rfl
  | blank _ ih =>
    cases fuel with
    | zero => simp at hfuel
    | succ fuel =>
      rw [tokensFrom, if_pos (.inl rfl)]
      exact ih (Nat.lt_of_succ_lt_succ hfuel)
  | @lineBreak t ts _ ih =>
    cases fuel with
    | zero => simp at hfuel
    | succ fuel =>
      have hstep : tokensFrom (fuel + 1) line (10 :: t) =
          (tokensFrom fuel (line + 1) t).map (⟨line, .operator "\n"⟩ :: ·) := by
        cases t <;> rfl
      rw [hstep, Option.map_map]
      obtain ⟨placed, hplaced, rfl⟩ :=
        Option.map_eq_some_iff.mp (ih (Nat.lt_of_succ_lt_succ hfuel))
      rw [hplaced]
      rfl
  | @semicolon t ts _ ih =>
    cases fuel with
    | zero => simp at hfuel
    | succ fuel =>
      have hstep : tokensFrom (fuel + 1) line (59 :: 32 :: t) =
          (tokensFrom fuel line (32 :: t)).map (⟨line, .operator ";"⟩ :: ·) := rfl
      rw [hstep, Option.map_map]
      obtain ⟨placed, hplaced, rfl⟩ :=
        Option.map_eq_some_iff.mp (ih (Nat.lt_of_succ_lt_succ hfuel))
      rw [hplaced]
      rfl
  | @word x t c w ts hspelled hbegun hremark hended _ ih =>
    obtain ⟨d, x, rfl⟩ := List.exists_cons_of_ne_nil hbegun
    cases fuel with
    | zero => simp at hfuel
    | succ fuel =>
      -- What begins so is not a blank, an escaped break, a remark, a descriptor or an operator.
      have hends : endsWord c = true := by rcases hended with rfl | rfl | rfl <;> rfl
      have hd := hspelled.endsWord_head
      have hblank : ¬ (d = 32 ∨ d = 9) := by
        rintro (rfl | rfl) <;> cases hd
      have hword : readWord (d :: x ++ c :: t) = some (w, c :: t) :=
        hspelled.readUntil_eq hends t (Nat.lt_succ_self _)
      have hdescriptor := hspelled.descriptor?_eq_none hbegun hended t
      rw [List.cons_append] at hword hdescriptor hfuel ⊢
      rw [tokensFrom, if_neg hblank, if_neg fun h => hspelled.head_ne_backslash h.1,
        if_neg fun h => hremark (by rw [h]; rfl), hdescriptor]
      dsimp only
      rw [operator?_eq_none hd, hword]
      dsimp only
      have hshorter : (c :: t).length < fuel := by
        simp only [List.length_cons, List.length_append] at hfuel ⊢
        omega
      obtain ⟨placed, hplaced, rfl⟩ := Option.map_eq_some_iff.mp (ih hshorter)
      rw [hplaced]
      rfl

/-- What is listed is what is read. -/
theorem Lists.tokens_eq {t : Text} {ts : List Token} (h : Lists t ts) :
    (tokens t).map (·.map Placed.token) = some ts :=
  h.tokensFrom_eq (Nat.lt_succ_self _)

/-! ## 3. Texts as words -/

/-- A word in which nothing is expanded: its parts are protected, or made of characters
that are safe everywhere. -/
def Word.IsLiteral (w : Word) : Prop :=
  ∀ part ∈ w, ∃ t, part = .fixed t ∨ part = .loose t ∧ t.all Text.isShellSafe

theorem isBare_of_isShellSafe {c : CodePoint} (h : Text.isShellSafe c) : isBare c := by
  have hspecial : ∀ d ∈ Text.ofString " \t\n;&|()<>" ++ [39, 34, 92, 36, 96],
      Text.isShellSafe d = false := by decide
  have hne : c ∉ Text.ofString " \t\n;&|()<>" ++ [39, 34, 92, 36, 96] := by
    intro hc
    rw [hspecial c hc] at h
    cases h
  rw [List.mem_append, not_or] at hne
  simp [isBare, endsWord, hne.1, hne.2, List.contains_eq_mem]

/-- Bare characters spell themselves. -/
theorem spells_bare {t : Text} (hne : t ≠ []) (h : ∀ c ∈ t, isBare c) : Spells t [.loose t] := by
  induction t with
  | nil => exact absurd rfl hne
  | cons c t ih =>
    obtain ⟨hc, ht⟩ := List.forall_mem_cons.mp h
    cases t with
    | nil => exact .bare hc .nil
    | cons d t => exact .bare hc (ih (by simp) ht)

/-- A text with its single quotes taken out of the quotation has a spelling. -/
theorem exists_spells_quoted (t : Text) :
    ∃ (inside rest : Text) (w : Word),
      t.flatMap (fun c => if c = 39 then ("'\"'\"'" : Text) else [c]) ++ [39] =
        inside ++ 39 :: rest ∧
      39 ∉ inside ∧ Spells rest w ∧ Word.IsLiteral w ∧
      plainText? (.fixed inside :: w) = some t := by
  induction t with
  | nil => exact ⟨[], [], [], rfl, by simp, .nil, by simp [Word.IsLiteral], rfl⟩
  | cons c t ih =>
    obtain ⟨inside, rest, w, htext, hopen, hspelled, hliteral, hplain⟩ := ih
    rw [List.flatMap_cons, List.append_assoc, htext]
    by_cases hc : c = 39
    · subst hc
      refine ⟨[], _, .fixed [39] :: .fixed inside :: w, rfl, by simp,
        .quote (.single hopen hspelled), ?_, ?_⟩
      · simp only [Word.IsLiteral, List.forall_mem_cons]
        exact ⟨⟨_, .inl rfl⟩, ⟨_, .inl rfl⟩, hliteral⟩
      · rw [plainText?, plainText?, hplain]
        rfl
    · refine ⟨c :: inside, rest, w, ?_, ?_, hspelled, hliteral, ?_⟩
      · rw [if_neg hc]
        rfl
      · rw [List.mem_cons, not_or]
        exact ⟨Ne.symm hc, hopen⟩
      · obtain ⟨more, hmore, rfl⟩ := Option.map_eq_some_iff.mp hplain
        rw [plainText?, hmore]
        rfl

/-- What a text is written as spells a word that says the text and nothing else. -/
theorem exists_spells_shellWord (t : Text) :
    ∃ w : Word, Spells (Text.shellWord t) w ∧ w.IsLiteral ∧ plainText? w = some t := by
  rw [Text.shellWord]
  split
  · rename_i hnil
    subst hnil
    have hspelled : Spells (39 :: [] ++ 39 :: []) [.fixed []] := .single (by simp) .nil
    exact ⟨[.fixed []], hspelled, by simp [Word.IsLiteral], rfl⟩
  · rename_i hne
    split
    · rename_i hsafe
      refine ⟨[.loose t], spells_bare hne fun c hc => ?_, ?_, by simp [plainText?]⟩
      · exact isBare_of_isShellSafe (List.all_eq_true.mp hsafe c hc)
      · simp only [Word.IsLiteral, List.forall_mem_singleton]
        exact ⟨t, .inr ⟨rfl, hsafe⟩⟩
    · obtain ⟨inside, rest, w, htext, hopen, hspelled, hliteral, hplain⟩ := exists_spells_quoted t
      refine ⟨.fixed inside :: w, ?_, ?_, hplain⟩
      · rw [List.cons_append, htext]
        exact .single hopen hspelled
      · simp only [Word.IsLiteral, List.forall_mem_cons]
        exact ⟨⟨_, .inl rfl⟩, hliteral⟩

/-- No such word begins a remark. -/
theorem head?_shellWord_ne (t : Text) :
    Text.shellWord t ≠ [] ∧ (Text.shellWord t).head? ≠ some 35 := by
  rw [Text.shellWord]
  split
  · decide
  · rename_i hne
    split
    · rename_i hsafe
      refine ⟨hne, fun hhead => ?_⟩
      exact absurd (List.all_eq_true.mp hsafe 35 (List.mem_of_head? hhead)) (by decide)
    · exact ⟨by simp, by simp⟩

end LineTrace.Shell
