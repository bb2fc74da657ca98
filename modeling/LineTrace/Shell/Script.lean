/-
LineTrace.Shell.Script — shell scripts as trees.

A script is read in two steps: its text into words and operators, each with
the number of its line, and these into a tree of commands. What is read is the
part of the language that probes and test scripts use: simple commands with
assignments and redirections, pipelines, lists, groups, conditions and loops.
-/
import LineTrace.Shell.Word

namespace LineTrace.Shell

/-! ## 1. Tokens -/

/-- A word or an operator. -/
inductive Token where
  | word (w : Word)
  | operator (t : Text)
  deriving DecidableEq, Repr

/-- A token and the number of its line. -/
structure Placed where
  line : Nat
  token : Token
  deriving DecidableEq, Repr

/-- The operators, longer ones before their beginnings. -/
def operators : List Text :=
  ["&&", "||", ";;", ">>", ">&", "<&", "\n", ";", "&", "|", "(", ")", "<", ">"]

/-- The operator at the front, if there is one. -/
def operator? (t : Text) : Option (Text × Text) :=
  (operators.find? fun o => o.isPrefixOf t).map fun o => (o, t.drop o.length)

/-- The number of line breaks in what lies between two texts, the second being
an end of the first. -/
def breaksBetween (whole rest : Text) : Nat :=
  (whole.take (whole.length - rest.length)).count 10

/-- The descriptor that a redirection begins with: a single digit right before
an angle bracket. -/
def descriptor? : Text → Option (Nat × Text)
  | d :: c :: rest =>
    if Text.isDigit d ∧ (c = 60 ∨ c = 62) then some (d - 48, c :: rest) else none
  | _ => none

/-- The tokens of a text; none where a quote is not closed. A descriptor before
an angle bracket is a token of its own. -/
def tokensFrom : Nat → Nat → Text → Option (List Placed)
  | 0, _, _ => some []
  | _ + 1, _, [] => some []
  | fuel + 1, line, c :: rest =>
    if c = 32 ∨ c = 9 then tokensFrom fuel line rest
    else if c = 92 ∧ rest.head? = some 10 then tokensFrom fuel (line + 1) (rest.drop 1)
    else if c = 35 then tokensFrom fuel line (rest.dropWhile (· ≠ 10))
    else
      match descriptor? (c :: rest) with
      | some (d, tail) =>
        (tokensFrom fuel line tail).map (⟨line, .operator [d + 48]⟩ :: ·)
      | none =>
        match operator? (c :: rest) with
        | some (o, tail) =>
          (tokensFrom fuel (line + o.count 10) tail).map (⟨line, .operator o⟩ :: ·)
        | none =>
          match readWord (c :: rest) with
          | none => none
          | some (w, tail) =>
            (tokensFrom fuel (line + breaksBetween (c :: rest) tail) tail).map
              (⟨line, .word w⟩ :: ·)

/-- The tokens of a script. -/
def tokens (t : Text) : Option (List Placed) := tokensFrom (t.length + 1) 1 t

/-! ## 2. Trees -/

/-- Where a stream is led to. -/
inductive Direction where
  | into
  | onto
  | from_
  | same
  deriving DecidableEq, Repr

/-- A stream led elsewhere. -/
structure Redirection where
  descriptor : Nat
  direction : Direction
  target : Word
  deriving DecidableEq, Repr

/-- A simple command: assignments, words, redirections. -/
structure Simple where
  line : Nat
  assignments : List (Text × Word)
  words : List Word
  redirections : List Redirection
  deriving DecidableEq, Repr

/-- Whether a word holds the output of another script. -/
def Word.runsOthers (w : Word) : Bool :=
  w.any fun part =>
    match part with
    | .output _ _ => true
    | _ => false

/-- Whether other scripts run before the command itself does. -/
def Simple.runsOthers (c : Simple) : Bool :=
  c.words.any Word.runsOthers || c.assignments.any fun (_, w) => Word.runsOthers w

/-- A script. -/
inductive Script where
  | nothing
  | simple (c : Simple)
  | pipe (first second : Script)
  | negated (s : Script)
  | both (first second : Script)
  | either (first second : Script)
  | sequence (first second : Script)
  | group (apart : Bool) (s : Script) (redirections : List Redirection)
  | choice (condition yes no : Script)
  | loop (until_ : Bool) (condition body : Script)
  | each (variable_ : Text) (words : List Word) (body : Script)
  deriving Repr

/-! ## 3. Reading trees -/

/-- Why a script cannot be read: at the line, with the token that was not
expected, if any was left. -/
structure Unexpected where
  line : Nat
  token : Option Token
  deriving DecidableEq, Repr

/-- The complaint about the next token. -/
def unexpected : List Placed → Unexpected
  | [] => ⟨1, none⟩
  | p :: _ => ⟨p.line, some p.token⟩

/-- Whether the next token is an operator. -/
def atOperator (o : Text) : List Placed → Bool
  | ⟨_, .operator t⟩ :: _ => t == o
  | _ => false

/-- Whether the next token is an unquoted word. -/
def atKeyword (name : Text) : List Placed → Bool
  | ⟨_, .word [.loose t]⟩ :: _ => t == name
  | _ => false

/-- The tokens after line breaks. -/
def skipBreaks : List Placed → List Placed
  | ⟨n, .operator o⟩ :: rest => if o = [10] then skipBreaks rest else ⟨n, .operator o⟩ :: rest
  | ts => ts

/-- The words that end a list of commands. -/
def closers : List Text := ["then", "else", "elif", "fi", "do", "done", "\x7d"]

/-- Whether a list of commands ends here. -/
def atEnd (ts : List Placed) : Bool :=
  ts.isEmpty || atOperator ")" ts || closers.any fun k => atKeyword k ts

/-- The assignment that a word is, if it is one: a name, an equals sign, and
the value. -/
def assignment? (w : Word) : Option (Text × Word) :=
  match w with
  | .loose t :: rest =>
    let name := t.takeWhile isNameChar
    match t.drop name.length with
    | 61 :: value =>
      if (name.head?.map beginsName).getD false then
        some (name, if value = [] then rest else .loose value :: rest)
      else none
    | _ => none
  | _ => none

/-- The direction of a redirection operator and the descriptor it is about
unless another is given. -/
def direction? (o : Text) : Option (Direction × Nat) :=
  if o = ">" then some (.into, 1)
  else if o = ">>" then some (.onto, 1)
  else if o = "<" then some (.from_, 0)
  else if o = ">&" then some (.same, 1)
  else if o = "<&" then some (.same, 0)
  else none

/-- The redirection at the front, if there is one. -/
def redirection? (ts : List Placed) : Option (Redirection × List Placed) :=
  match ts with
  | ⟨_, .operator [d]⟩ :: ⟨_, .operator o⟩ :: ⟨_, .word w⟩ :: rest =>
    match direction? o with
    | some (direction, _) =>
      if Text.isDigit d then some (⟨d - 48, direction, w⟩, rest) else none
    | none => none
  | ⟨_, .operator o⟩ :: ⟨_, .word w⟩ :: rest =>
    (direction? o).map fun (direction, d) => (⟨d, direction, w⟩, rest)
  | _ => none

/-- The redirections at the front. -/
def redirections : Nat → List Placed → List Redirection × List Placed
  | 0, ts => ([], ts)
  | fuel + 1, ts =>
    match redirection? ts with
    | some (r, rest) =>
      let (more, rest) := redirections fuel rest
      (r :: more, rest)
    | none => ([], ts)

/-- The rest of a simple command, after what stands before it. -/
def simpleFrom : Nat → Simple → List Placed → Simple × List Placed
  | 0, c, ts => (c, ts)
  | fuel + 1, c, ts =>
    match redirection? ts with
    | some (r, rest) =>
      simpleFrom fuel { c with redirections := c.redirections ++ [r] } rest
    | none =>
      match ts with
      | ⟨_, .word w⟩ :: rest =>
        match c.words, assignment? w with
        | [], some a => simpleFrom fuel { c with assignments := c.assignments ++ [a] } rest
        | _, _ => simpleFrom fuel { c with words := c.words ++ [w] } rest
      | _ => (c, ts)

/-- The words up to the end of a line or a semicolon. -/
def wordsFrom : List Placed → List Word × List Placed
  | ⟨_, .word w⟩ :: rest =>
    let (more, tail) := wordsFrom rest
    (w :: more, tail)
  | ts => ([], ts)

/-- The tokens after a semicolon and line breaks. -/
def skipEnd (ts : List Placed) : List Placed :=
  skipBreaks (if atOperator ";" ts then ts.drop 1 else ts)

mutual

/-- The list of commands at the front. -/
def readList : Nat → List Placed → Except Unexpected (Script × List Placed)
  | 0, ts => .error (unexpected ts)
  | fuel + 1, ts =>
    let ts := skipBreaks ts
    if atEnd ts then .ok (.nothing, ts)
    else do
      let (first, rest) ← readChain fuel ts
      if atOperator ";" rest ∨ atOperator "\n" rest ∨ atOperator "&" rest then
        let (second, rest) ← readList fuel (rest.drop 1)
        match second with
        | .nothing => return (first, rest)
        | _ => return (.sequence first second, rest)
      else return (first, rest)

/-- Pipelines joined by conditions. -/
def readChain : Nat → List Placed → Except Unexpected (Script × List Placed)
  | 0, ts => .error (unexpected ts)
  | fuel + 1, ts => do
    let (first, rest) ← readPipeline fuel ts
    readChainAfter fuel first rest

/-- What conditions join to a pipeline. -/
def readChainAfter : Nat → Script → List Placed → Except Unexpected (Script × List Placed)
  | 0, _, ts => .error (unexpected ts)
  | fuel + 1, first, ts =>
    if atOperator "&&" ts then do
      let (second, rest) ← readPipeline fuel (skipBreaks (ts.drop 1))
      readChainAfter fuel (.both first second) rest
    else if atOperator "||" ts then do
      let (second, rest) ← readPipeline fuel (skipBreaks (ts.drop 1))
      readChainAfter fuel (.either first second) rest
    else .ok (first, ts)

/-- A pipeline, perhaps negated. -/
def readPipeline : Nat → List Placed → Except Unexpected (Script × List Placed)
  | 0, ts => .error (unexpected ts)
  | fuel + 1, ts =>
    if atKeyword "!" ts then do
      let (s, rest) ← readPipeline fuel (ts.drop 1)
      return (.negated s, rest)
    else do
      let (first, rest) ← readCommand fuel ts
      if atOperator "|" rest then
        let (second, rest) ← readPipeline fuel (skipBreaks (rest.drop 1))
        return (.pipe first second, rest)
      else return (first, rest)

/-- One command. -/
def readCommand : Nat → List Placed → Except Unexpected (Script × List Placed)
  | 0, ts => .error (unexpected ts)
  | fuel + 1, ts =>
    if atOperator "(" ts then do
      let (s, rest) ← readList fuel (ts.drop 1)
      if atOperator ")" rest then
        let (rs, rest) := redirections fuel (rest.drop 1)
        return (.group true s rs, rest)
      else .error (unexpected rest)
    else if atKeyword "\x7b" ts then do
      let (s, rest) ← readList fuel (ts.drop 1)
      if atKeyword "\x7d" rest then
        let (rs, rest) := redirections fuel (rest.drop 1)
        return (.group false s rs, rest)
      else .error (unexpected rest)
    else if atKeyword "if" ts then readChoice fuel (ts.drop 1)
    else if atKeyword "while" ts then readLoop fuel false (ts.drop 1)
    else if atKeyword "until" ts then readLoop fuel true (ts.drop 1)
    else if atKeyword "for" ts then readEach fuel (ts.drop 1)
    else if atEnd ts then .error (unexpected ts)
    else
      let line := (ts.head?.map Placed.line).getD 1
      let (c, rest) := simpleFrom ts.length ⟨line, [], [], []⟩ ts
      if c.words = [] ∧ c.assignments = [] ∧ c.redirections = [] then .error (unexpected ts)
      else .ok (.simple c, rest)

/-- A condition and what depends on it, after `if` or `elif`. -/
def readChoice : Nat → List Placed → Except Unexpected (Script × List Placed)
  | 0, ts => .error (unexpected ts)
  | fuel + 1, ts => do
    let (condition, rest) ← readList fuel ts
    if ¬ atKeyword "then" rest then .error (unexpected rest)
    else
      let (yes, rest) ← readList fuel (rest.drop 1)
      if atKeyword "elif" rest then
        let (no, rest) ← readChoice fuel (rest.drop 1)
        return (.choice condition yes no, rest)
      else if atKeyword "else" rest then
        let (no, rest) ← readList fuel (rest.drop 1)
        if atKeyword "fi" rest then return (.choice condition yes no, rest.drop 1)
        else .error (unexpected rest)
      else if atKeyword "fi" rest then return (.choice condition yes .nothing, rest.drop 1)
      else .error (unexpected rest)

/-- A condition and a body. -/
def readLoop : Nat → Bool → List Placed → Except Unexpected (Script × List Placed)
  | 0, _, ts => .error (unexpected ts)
  | fuel + 1, until_, ts => do
    let (condition, rest) ← readList fuel ts
    if ¬ atKeyword "do" rest then .error (unexpected rest)
    else
      let (body, rest) ← readList fuel (rest.drop 1)
      if atKeyword "done" rest then return (.loop until_ condition body, rest.drop 1)
      else .error (unexpected rest)

/-- A variable, its values and a body. -/
def readEach : Nat → List Placed → Except Unexpected (Script × List Placed)
  | 0, ts => .error (unexpected ts)
  | fuel + 1, ts =>
    match ts with
    | ⟨_, .word [.loose name]⟩ :: rest => do
      let (words, rest) :=
        if atKeyword "in" rest then wordsFrom (rest.drop 1)
        else ([[.variable_ true [64] .value]], rest)
      let rest := skipEnd rest
      if ¬ atKeyword "do" rest then .error (unexpected rest)
      else
        let (body, rest) ← readList fuel (rest.drop 1)
        if atKeyword "done" rest then return (.each name words body, rest.drop 1)
        else .error (unexpected rest)
    | ts => .error (unexpected ts)

end

/-- The script of a text. Every token is met by a bounded number of calls. -/
def Script.read (t : Text) : Except Unexpected Script :=
  match tokens t with
  | none => .error ⟨1, none⟩
  | some ts =>
    match readList (8 * ts.length + 8) ts with
    | .error e => .error e
    | .ok (s, []) => .ok s
    | .ok (_, rest) => .error (unexpected rest)

end LineTrace.Shell
