/-
LineTrace.CommandLine.Grammar — reading the words of a command line.

A grammar has options and one positional argument: a single word, all words
that are left, or a subcommand with all words that are left. Every word up to
the first `--` is read before anything is done: it is an option as it stands,
an abbreviation of one, a cluster of short ones, or plain. Only then are the
options applied in order, and the positional argument takes its words at the
first plain one.

A word that looks like an option and is none is kept apart, and complained
about only when everything else was in order. A `--` that is attached to an
option is still no value: it leaves the option without one.
-/
import LineTrace.Text.Blank
import LineTrace.Text.Integer
import LineTrace.Text.Quoted

namespace LineTrace.CommandLine

/-! ## 1. Grammars -/

/-- Why a command line is not carried out. -/
inductive Stop where
  | help
  | misuse (program message : Text)
  deriving DecidableEq, Repr

/-- What an option does to the choices made so far. An option that has a value
may be left without it. The complaint about a value says only what is wrong
with it. -/
inductive Effect (σ : Type) where
  | help
  | flag (set : σ → σ)
  | value (set : Option Text → σ → Except Text σ)

/-- An option: its names and its effect. -/
structure CommandOption (σ : Type) where
  names : List Text
  effect : Effect σ

/-- Which words a positional argument takes. -/
inductive Arity where
  | one
  | remainder
  | subcommand
  deriving DecidableEq, Repr

/-- A grammar: the name of the program, the options, and the positional
argument, whose words are taken over by `take`; the words that a subcommand
does not know come out beside the choices. -/
structure Grammar (σ : Type) where
  program : Text
  options : List (CommandOption σ)
  positional : Text
  arity : Arity
  take : List Text → σ → Except Stop (σ × List Text)

variable {σ : Type}

/-- A complaint about an option. -/
def Grammar.complaint {α : Type} (g : Grammar σ) (o : CommandOption σ) (message : Text) :
    Except Stop α :=
  .error (.misuse g.program ("argument " ++ Text.joinWith [47] o.names ++ ": " ++ message))

/-- The option of a name. -/
def Grammar.option? (g : Grammar σ) (name : Text) : Option (CommandOption σ) :=
  g.options.find? fun o => name ∈ o.names

/-- All names with their options. -/
def Grammar.names (g : Grammar σ) : List (Text × CommandOption σ) :=
  g.options.flatMap fun o => o.names.map fun n => (n, o)

/-! ## 2. Reading one word -/

/-- The dash that options begin with. -/
def dash : CodePoint := 45

/-- The sign between an option and its value. -/
def equals : CodePoint := 61

/-- The word after which no word is an option. -/
def terminator : Text := [dash, dash]

/-- What a word is; `attached` is the text that stands in the same word as an
option, after an equals sign or at once. -/
inductive Reading (σ : Type) where
  | plain
  | terminator
  | unknown
  | option (o : CommandOption σ) (name : Text) (attached : Option Text)

/-- The part of a word before its first equals sign, and what follows that. -/
def splitEquals (w : Text) : Text × Option Text :=
  let name := w.takeWhile (· ≠ equals)
  match w.drop name.length with
  | _ :: v => (name, some v)
  | [] => (name, none)

/-- The options that a word may mean though it is none as it stands: those
whose long name it begins, or the short one that it begins with. -/
def Grammar.guesses (g : Grammar σ) (w : Text) :
    List (Text × CommandOption σ × Option Text) :=
  if terminator.isPrefixOf w then
    let (lead, attached) := splitEquals w
    g.names.filterMap fun (n, o) => if lead.isPrefixOf n then some (n, o, attached) else none
  else
    g.names.filterMap fun (n, o) =>
      if n = w.take 2 then some (n, o, some (w.drop 2))
      else if w.isPrefixOf n then some (n, o, none)
      else none

/-- Whether text is all digits, of any script, and there are some. -/
def isDigits (t : Text) : Bool := t ≠ [] && t.all fun c => (Text.digitValue? c).isSome

/-- The text without a line break at its end. -/
def withoutFinalBreak (t : Text) : Text :=
  if t.getLast? = some 10 then t.dropLast else t

/-- Whether a word that begins with a dash is a negative number. -/
def isNegativeNumber (w : Text) : Bool :=
  let body := withoutFinalBreak (w.drop 1)
  let whole := body.takeWhile (· ≠ 46)
  isDigits body ||
    ((whole = [] || isDigits whole) && isDigits ((body.drop whole.length).drop 1))

/-- The complaint about a word that may mean several options. -/
def ambiguous (w : Text) (names : List Text) : Text :=
  "ambiguous option: " ++ w ++ " could match " ++ Text.joinWith [44, 32] names

/-- What a word is before any `--`. -/
def Grammar.readWord (g : Grammar σ) (w : Text) : Except Stop (Reading σ) :=
  if w.head? ≠ some dash then .ok .plain
  else
    match g.option? w with
    | some o => .ok (.option o w none)
    | none =>
      if w.length = 1 then .ok .plain
      else
        let (lead, attached) := splitEquals w
        match attached, g.option? lead with
        | some a, some o => .ok (.option o lead (some a))
        | _, _ =>
          match g.guesses w with
          | [(n, o, a)] => .ok (.option o n a)
          | [] =>
            if isNegativeNumber w ∨ 32 ∈ w then .ok .plain else .ok .unknown
          | several => .error (.misuse g.program (ambiguous w (several.map Prod.fst)))

/-- What all words are. -/
def Grammar.readWords (g : Grammar σ) : List Text → Except Stop (List (Text × Reading σ))
  | [] => .ok []
  | w :: rest =>
    if w = terminator then .ok ((w, .terminator) :: rest.map fun v => (v, .plain))
    else
      match g.readWord w with
      | .error e => .error e
      | .ok r =>
        match readWords g rest with
        | .error e => .error e
        | .ok more => .ok ((w, r) :: more)

/-! ## 3. Clusters -/

/-- The options that one word holds: those without a value, then perhaps one
with a value, which is attached or the next word. -/
structure Cluster (σ : Type) where
  flags : List (CommandOption σ)
  valued : Option (CommandOption σ × Option Text)

/-- Whether an option has a value. -/
def CommandOption.hasValue (o : CommandOption σ) : Bool :=
  match o.effect with
  | .value _ => true
  | _ => false

/-- The value that an attached text is: a `--` is none. -/
def attachedValue? (t : Text) : Option Text := if t = terminator then none else some t

/-- The cluster of one option with nothing attached. -/
def Cluster.single (o : CommandOption σ) : Cluster σ :=
  if o.hasValue then ⟨[], some (o, none)⟩ else ⟨[o], none⟩

/-- Whether a name is a short one. -/
def isShort (name : Text) : Bool := ¬ terminator.isPrefixOf name

/-- The complaint about text attached to an option that has no value. -/
def ignored (t : Text) : Text := "ignored explicit argument " ++ Text.quoted t

/-- The cluster of a short option and the text attached to it, which is the
value of the first option that has one; the options before that are one letter
each, and a letter that is none is complained about. -/
def Grammar.clusterOf (g : Grammar σ) (o : CommandOption σ) : Text → Except Stop (Cluster σ)
  | [] => .ok (Cluster.single o)
  | c :: rest =>
    if o.hasValue then .ok ⟨[], some (o, some (c :: rest))⟩
    else
      match g.option? [dash, c] with
      | none => g.complaint o (ignored (c :: rest))
      | some next =>
        (clusterOf g next rest).map fun cluster => { cluster with flags := o :: cluster.flags }

/-- The cluster of an option and what is attached to it. Only a short option
without a value may have others attached. -/
def Grammar.cluster (g : Grammar σ) (o : CommandOption σ) (name : Text) :
    Option Text → Except Stop (Cluster σ)
  | none => .ok (Cluster.single o)
  | some t =>
    if o.hasValue then .ok ⟨[], some (o, some t)⟩
    else if isShort name ∧ t ≠ [] then g.clusterOf o t
    else g.complaint o (ignored t)

/-! ## 4. Reading a command line -/

/-- The choices made so far, whether the positional argument still has to be
found, and the words that nothing knows: of this grammar and of a
subcommand's. -/
structure Choices (σ : Type) where
  value : σ
  isOpen : Bool
  extras : List Text
  inner : List Text

/-- The choices after an option. -/
def Grammar.apply (g : Grammar σ) (s : Choices σ) (o : CommandOption σ) (v : Option Text) :
    Except Stop (Choices σ) :=
  match o.effect with
  | .help => .error .help
  | .flag set => .ok { s with value := set s.value }
  | .value set =>
    match set v s.value with
    | .ok value => .ok { s with value }
    | .error message => g.complaint o message

/-- The choices after several options without values. -/
def Grammar.applyAll (g : Grammar σ) (s : Choices σ) :
    List (CommandOption σ) → Except Stop (Choices σ)
  | [] => .ok s
  | o :: rest =>
    match g.apply s o none with
    | .ok s => applyAll g s rest
    | .error e => .error e

/-- The choices after the positional argument. -/
def Grammar.applyPositional (g : Grammar σ) (s : Choices σ) (words : List Text) :
    Except Stop (Choices σ) :=
  match g.take words s.value with
  | .ok (value, inner) => .ok { s with value, inner, isOpen := false }
  | .error e => .error e

/-- The words of a positional argument at the front, and how many words they
are, if it can stand there. A single word may have the `--` before or after
it, which is no part of it. -/
def Arity.wordsAt? (a : Arity) : List (Text × Reading σ) → Option (List Text × Nat)
  | (w, r) :: rest =>
    match a, r, rest with
    | .remainder, _, _ => some (w :: rest.map Prod.fst, rest.length + 1)
    | .one, .terminator, (v, _) :: _ => some ([v], 2)
    | .one, .terminator, [] => none
    | .one, _, (_, .terminator) :: _ => some ([w], 2)
    | .one, _, _ => some ([w], 1)
    | .subcommand, .terminator, [] => none
    | .subcommand, _, _ => some (w :: rest.map Prod.fst, rest.length + 1)
  | [] =>
    match a with
    | .remainder => some ([], 0)
    | _ => none

/-- The choices of a whole command line. -/
def Grammar.consume (g : Grammar σ) :
    List (Text × Reading σ) → Choices σ → Except Stop (Choices σ)
  | [], s =>
    if s.isOpen then
      match g.arity.wordsAt? ([] : List (Text × Reading σ)) with
      | some (words, _) => g.applyPositional s words
      | none =>
        .error (.misuse g.program ("the following arguments are required: " ++ g.positional))
    else .ok s
  | (w, .unknown) :: rest, s => consume g rest { s with extras := s.extras ++ [w] }
  | (_, .option o name attached) :: rest, s =>
    match g.cluster o name attached with
    | .error e => .error e
    | .ok c =>
      match c.valued with
      | some (last, none) =>
        match rest with
        | (v, .plain) :: rest => do
          let s ← g.applyAll s c.flags
          let s ← g.apply s last (some v)
          consume g rest s
        | _ => g.complaint last "expected one argument"
      | some (last, some v) => do
        let s ← g.applyAll s c.flags
        let s ← g.apply s last (attachedValue? v)
        consume g rest s
      | none => do
        let s ← g.applyAll s c.flags
        consume g rest s
  | (w, r) :: rest, s =>
    match if s.isOpen then g.arity.wordsAt? ((w, r) :: rest) else none with
    | some (words, n) => do
      let s ← g.applyPositional s words
      consume g (rest.drop (n - 1)) s
    | none => consume g rest { s with extras := s.extras ++ [w] }
termination_by words => words.length

/-- The choices of a command line and the words that nothing knows. -/
def Grammar.parse (g : Grammar σ) (words : List Text) (start : σ) :
    Except Stop (σ × List Text) :=
  match g.readWords words with
  | .error e => .error e
  | .ok readings =>
    match g.consume readings ⟨start, true, [], []⟩ with
    | .error e => .error e
    | .ok s => .ok (s.value, s.extras ++ s.inner)

/-- The choices of a command line in which everything is known. -/
def Grammar.parseAll (g : Grammar σ) (words : List Text) (start : σ) : Except Stop σ :=
  match g.parse words start with
  | .error e => .error e
  | .ok (value, []) => .ok value
  | .ok (_, extras) =>
    .error (.misuse g.program ("unrecognized arguments: " ++ Text.joinWith [32] extras))

end LineTrace.CommandLine
