/-
LineTrace.Shell.Utility — small programs that scripts are made of.

Each is a function of its arguments, its input and what it may look at, and
gives its status and what it wrote. They work on bytes, because a script may
write any.
-/
import LineTrace.FileSystem.Basic
import LineTrace.Text.Integer

namespace LineTrace.Shell

/-! ## 1. Effects -/

/-- What a program did: its status, what it wrote and how long it took. -/
structure Effect where
  status : Int
  output : Bytes
  errors : Bytes
  milliseconds : Nat
  deriving DecidableEq, Repr

/-- A status and nothing else. -/
def Effect.ofStatus (status : Int) : Effect := ⟨status, [], [], 0⟩

/-- Success with output. -/
def Effect.written (output : Bytes) : Effect := ⟨0, output, [], 0⟩

/-- Failure with a message. -/
def Effect.failed (status : Int) (message : Text) : Effect :=
  ⟨status, [], Text.encodeEscaped (message ++ [10]), 0⟩

/-- A truth value as a status. -/
def Effect.ofTruth (b : Bool) : Effect := .ofStatus (if b then 0 else 1)

/-! ## 2. Escapes -/

/-- Whether a byte is an octal digit. -/
def isOctal (b : UInt8) : Bool := 48 ≤ b && b ≤ 55

/-- The value of up to three octal digits, and the bytes after them. -/
def octalByte (bs : Bytes) : UInt8 × Bytes :=
  let digits := (bs.take 3).takeWhile isOctal
  let n := digits.foldl (fun n d => 8 * n + (d.toNat - 48)) 0
  (n.toUInt8, bs.drop digits.length)

/-- The byte that an escape's letter stands for. -/
def escapeLetter? (b : UInt8) : Option UInt8 :=
  if b = 97 then some 7
  else if b = 98 then some 8
  else if b = 102 then some 12
  else if b = 110 then some 10
  else if b = 114 then some 13
  else if b = 116 then some 9
  else if b = 118 then some 11
  else if b = 92 then some 92
  else none

/-- The bytes of one escape whose backslash is read, and what follows. -/
def escape (bs : Bytes) : Bytes × Bytes :=
  match bs with
  | [] => ([92], [])
  | b :: rest =>
    if isOctal b then
      let (v, tail) := octalByte bs
      ([v], tail)
    else
      match escapeLetter? b with
      | some v => ([v], rest)
      | none => ([92, b], rest)

/-- Bytes with escapes undone; the second part says that a `\c` ended them. A
zero may stand before the digits of an octal escape. -/
def unescaped : Nat → Bytes → Bytes × Bool
  | 0, _ => ([], false)
  | _ + 1, [] => ([], false)
  | fuel + 1, b :: rest =>
    if b = 92 then
      match rest with
      | 99 :: _ => ([], true)
      | _ =>
        let body :=
          match rest with
          | 48 :: d :: more => if isOctal d then d :: more else rest
          | _ => rest
        let (v, tail) := escape body
        let (more, ended) := unescaped fuel tail
        (v ++ more, ended)
    else
      let (more, ended) := unescaped fuel rest
      (b :: more, ended)

/-! ## 3. Writing -/

/-- The arguments with blanks between them and a line break, as they are. -/
def echoPlain (args : List Bytes) : Bytes :=
  match args with
  | [45, 110] :: rest => Text.joinWith [32] rest
  | _ => Text.joinWith [32] args ++ [10]

/-- The arguments with blanks between them and a line break, escapes
undone. -/
def echoEscaped (args : List Bytes) : Bytes :=
  let (rest, newline) : List Bytes × Bytes :=
    match args with
    | [45, 110] :: rest => (rest, [])
    | _ => (args, [10])
  let line := Text.joinWith [32] rest
  let (bytes, ended) := unescaped (line.length + 1) line
  if ended then bytes else bytes ++ newline

/-- The integer that an argument begins with: decimal, octal after a zero,
hexadecimal after `0x`, or the code of the character after a quote. -/
def numberArgument (arg : Bytes) : Int :=
  let t := Text.decodeEscaped arg
  match t with
  | 39 :: c :: _ => c
  | 34 :: c :: _ => c
  | _ =>
    let (negative, digits) := Text.signOf t
    let n : Nat :=
      match digits with
      | 48 :: 120 :: hex =>
        ((hex.takeWhile fun c => (Text.hexValue? c).isSome).filterMap Text.hexValue?).foldl
          (fun n d => 16 * n + d) 0
      | 48 :: octal =>
        ((octal.takeWhile fun c => 48 ≤ c && c ≤ 55).map (· - 48)).foldl (fun n d => 8 * n + d) 0
      | _ => Text.decimalValue ((digits.takeWhile Text.isDigit).map (· - 48))
    if negative then -n else n

/-- How a value is to be written: on the left of its width, filled with zeros,
at least so wide, at most so long. -/
structure Layout where
  left : Bool
  zeros : Bool
  width : Nat
  precision : Option Nat

/-- The number at the front, zero where there is none. -/
def widthOf (bs : Bytes) : Nat × Bytes :=
  let digits := bs.takeWhile fun b => 48 ≤ b && b ≤ 57
  (digits.foldl (fun n d => 10 * n + (d.toNat - 48)) 0, bs.drop digits.length)

/-- The layout after a percent sign, and the bytes after it. -/
def layoutOf (bs : Bytes) : Layout × Bytes :=
  let flags := bs.takeWhile fun b => b ∈ ([45, 48, 43, 32, 35] : Bytes)
  let (width, rest) := widthOf (bs.drop flags.length)
  let (precision, rest) : Option Nat × Bytes :=
    match rest with
    | 46 :: digits =>
      let (p, rest) := widthOf digits
      (some p, rest)
    | _ => (none, rest)
  (⟨45 ∈ flags, 48 ∈ flags, width, precision⟩, rest)

/-- Bytes at their width. -/
def Layout.place (l : Layout) (bs : Bytes) : Bytes :=
  let fill := List.replicate (l.width - bs.length) 32
  if l.left then bs ++ fill else fill ++ bs

/-- An integer at its width, its digits in a base. -/
def Layout.integer (l : Layout) (base : Nat) (upper : Bool) (i : Int) : Bytes :=
  let digits := Text.padLeft (l.precision.getD 1) 48 (Text.numeral base i.natAbs)
  let digits := if upper then digits.map (fun c => if 97 ≤ c then c - 32 else c) else digits
  let sign : Text := if i < 0 then [45] else []
  let body :=
    if l.zeros ∧ ¬ l.left ∧ l.precision.isNone then
      sign ++ Text.padLeft (l.width - sign.length) 48 digits
    else sign ++ digits
  l.place (Text.encodeEscaped body)

/-- One value written as its letter says. -/
def Layout.value (l : Layout) (letter : UInt8) (arg : Bytes) : Bytes :=
  let cut (bs : Bytes) : Bytes :=
    match l.precision with
    | some n => bs.take n
    | none => bs
  if letter = 115 then l.place (cut arg)
  else if letter = 98 then l.place (cut (unescaped (arg.length + 1) arg).1)
  else if letter = 99 then l.place (arg.take 1)
  else if letter = 120 then l.integer 16 false (numberArgument arg)
  else if letter = 88 then l.integer 16 true (numberArgument arg)
  else if letter = 111 then l.integer 8 false (numberArgument arg)
  else l.integer 10 false (numberArgument arg)

/-- The format gone through once: what is written and the arguments left. -/
def formatOnce : Nat → Bytes → List Bytes → Bytes × List Bytes
  | 0, _, args => ([], args)
  | _ + 1, [], args => ([], args)
  | fuel + 1, b :: rest, args =>
    if b = 92 then
      let (v, tail) := escape rest
      let (more, args) := formatOnce fuel tail args
      (v ++ more, args)
    else if b = 37 then
      let (layout, tail) := layoutOf rest
      match tail with
      | [] => ([37], args)
      | letter :: tail =>
        if letter = 37 then
          let (more, args) := formatOnce fuel tail args
          (37 :: more, args)
        else
          let (more, args') := formatOnce fuel tail (args.drop 1)
          (layout.value letter (args.headD []) ++ more, args')
    else
      let (more, args) := formatOnce fuel rest args
      (b :: more, args)

/-- The format gone through until no arguments are left, once at least. -/
def formatAll : Nat → Bytes → List Bytes → Bytes
  | 0, _, _ => []
  | fuel + 1, format, args =>
    let (out, left) := formatOnce (format.length + 1) format args
    if left = [] ∨ left.length = args.length then out else out ++ formatAll fuel format left

/-! ## 4. Conditions -/

/-- A condition on one argument. -/
def unary? (fs : FileSystem) (o p : Text) : Option Bool :=
  if o = "-n" then some (p ≠ [])
  else if o = "-z" then some (p = [])
  else if o = "-e" then some (fs.pathExists p)
  else if o = "-f" then some (fs.isFile p)
  else if o = "-d" then some (fs.isDirectory p)
  else if o = "-r" ∨ o = "-w" then some (fs.pathExists p)
  else if o = "-x" then some (fs.isExecutable p)
  else if o = "-s" then
    some (match fs.node p with
      | .ok (.file content _) => content ≠ []
      | .ok .directory => true
      | .error _ => false)
  else none

/-- A condition on two arguments. -/
def binary? (a o b : Text) : Option Bool :=
  let x := numberArgument (Text.encodeEscaped a)
  let y := numberArgument (Text.encodeEscaped b)
  if o = "=" ∨ o = "==" then some (a = b)
  else if o = "!=" then some (a ≠ b)
  else if o = "-eq" then some (x = y)
  else if o = "-ne" then some (x ≠ y)
  else if o = "-lt" then some (x < y)
  else if o = "-le" then some (x ≤ y)
  else if o = "-gt" then some (y < x)
  else if o = "-ge" then some (y ≤ x)
  else none

/-- Whether a condition holds; none where it is none. -/
def holds? (fs : FileSystem) : List Text → Option Bool
  | [] => some false
  | [a] => some (a ≠ [])
  | [o, a] => if o = "!" then some (a = []) else unary? fs o a
  | o :: a :: b :: rest =>
    if o = "!" then (holds? fs (a :: b :: rest)).map (!·)
    else
      match rest with
      | [] => binary? o a b
      | join :: more =>
        match binary? o a b with
        | none => none
        | some first =>
          if join = "-a" then (holds? fs more).map (first && ·)
          else if join = "-o" then (holds? fs more).map (first || ·)
          else none

/-! ## 5. Signals -/

/-- The signals by name. -/
def signals : List (Text × Nat) := [
  ("HUP", 1), ("INT", 2), ("QUIT", 3), ("ILL", 4), ("TRAP", 5), ("ABRT", 6), ("BUS", 7),
  ("FPE", 8), ("KILL", 9), ("USR1", 10), ("SEGV", 11), ("USR2", 12), ("PIPE", 13),
  ("ALRM", 14), ("TERM", 15)]

/-- The signal that a number or a name means. -/
def signal? (t : Text) : Option Nat :=
  if t ≠ [] ∧ t.all Text.isDigit then some (Text.decimalValue (t.map (· - 48)))
  else
    let name := if (Text.ofString "SIG").isPrefixOf t then t.drop 3 else t
    (signals.find? fun (n, _) => n = name).map Prod.snd

/-- The signal and the targets of a request to send one. -/
def killRequest (args : List Text) : Option (Nat × List Text) :=
  match args with
  | [45, 115] :: name :: targets => (signal? name).map fun n => (n, targets)
  | (45 :: name) :: targets => (signal? name).map fun n => (n, targets)
  | targets => some (15, targets)

/-! ## 6. Programs -/

/-- The thousandths of a second that a duration names, a decimal number of
seconds. -/
def thousandths (t : Text) : Nat :=
  let whole := t.takeWhile Text.isDigit
  let fraction := ((t.drop whole.length).drop 1).takeWhile Text.isDigit
  let value (ds : Text) := Text.decimalValue (ds.map (· - 48))
  1000 * value whole + value ((fraction ++ [48, 48, 48]).take 3)

/-- The number of words of a text. -/
def wordCount (bs : Bytes) : Nat :=
  let blank (b : UInt8) : Bool := b = 32 || (9 ≤ b && b ≤ 13)
  (bs.foldl (fun (n, before) b => (if before && !blank b then n + 1 else n, blank b))
    (0, true)).1

/-- The lines, words or bytes that are counted. -/
def counted (flag : Text) (bs : Bytes) : Text :=
  if flag = "-c" then Text.ofNat bs.length
  else if flag = "-l" then Text.ofNat (bs.count 10)
  else if flag = "-w" then Text.ofNat (wordCount bs)
  else
    Text.padLeft 7 32 (Text.ofNat (bs.count 10)) ++
      Text.padLeft 8 32 (Text.ofNat (wordCount bs)) ++ Text.padLeft 8 32 (Text.ofNat bs.length)

/-- The content of files one after the other, the input where none is
named. -/
def concatenated (fs : FileSystem) (input : Bytes) (names : List Text) : Effect :=
  if names = [] then .written input
  else
    names.foldl (fun (done : Effect) (name : Text) =>
      match fs.bytesOf name with
      | .ok content => { done with output := done.output ++ content }
      | .error e =>
        { done with
          status := 1
          errors := done.errors ++
            Text.encodeEscaped ("cat: " ++ name ++ ": " ++ e.cause.text ++ "\n") })
      (.ofStatus 0)

/-- What a small program does, if the name is one of theirs. `escapes` says
whether `echo` undoes escapes. -/
def utility? (fs : FileSystem) (escapes : Bool) (input : Bytes) (name : Text)
    (args : List Text) : Option Effect :=
  let raw := args.map Text.encodeEscaped
  if name = "true" ∨ name = ":" then some (.ofStatus 0)
  else if name = "false" then some (.ofStatus 1)
  else if name = "echo" then
    some (.written (if escapes then echoEscaped raw else echoPlain raw))
  else if name = "printf" then
    match raw with
    | [] => some (.failed 2 "printf: usage: printf format [arg ...]")
    | format :: rest => some (.written (formatAll (rest.length + 1) format rest))
  else if name = "test" then
    some (match holds? fs args with
      | some b => .ofTruth b
      | none => .failed 2 "test: unexpected operator")
  else if name = "[" then
    some (if args.getLast? = some [93] then
        match holds? fs args.dropLast with
        | some b => .ofTruth b
        | none => .failed 2 "[: unexpected operator"
      else .failed 2 "[: missing ]")
  else if name = "sleep" then some ⟨0, [], [], args.foldr (fun a n => thousandths a + n) 0⟩
  else if name = "pwd" then some (.written (Text.encodeEscaped (fs.cwd ++ [10])))
  else if name = "cat" then some (concatenated fs input args)
  else if name = "wc" then
    some (.written (Text.encodeEscaped (counted (args.headD []) input ++ [10])))
  else none

/-- The names of the small programs that stand in files of their own. -/
def utilityNames : List Text :=
  ["true", "false", "echo", "printf", "test", "[", "sleep", "pwd", "cat", "wc"]

end LineTrace.Shell
