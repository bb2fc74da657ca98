/-
LineTrace.CommandLine.Arguments — what can be asked for on the command line.

There are two requests, to trace a command and to check a result set, each
with a grammar of its own; before them stand the options that concern both.
The command to be traced is everything after the options of its request.
-/
import LineTrace.CommandLine.Grammar

namespace LineTrace.CommandLine

/-! ## 1. Requests -/

/-- The request to trace a command. -/
structure RunRequest where
  mute : Bool
  countHits : Bool
  root : Option Text
  keepLog : Bool
  out : Option Text
  words : List Text
  deriving DecidableEq, Repr

/-- What is asked for. -/
inductive Request where
  | run (r : RunRequest)
  | validate (path : Text)
  deriving DecidableEq, Repr

/-- A whole command line. What an option was left without is none. -/
structure Arguments where
  logJson : Bool
  logFile : Option Text
  logMaxBytes : Option Int
  logBackupCount : Option Int
  verbose : Bool
  json : Bool
  config : Option Text
  request : Option Request
  deriving DecidableEq, Repr

/-- The command line of no words. -/
def Arguments.none : Arguments :=
  ⟨false, Option.none, some 5000000, some 5, false, false, Option.none, Option.none⟩

/-- The name of the program. -/
def programName : Text := "shellcov"

/-! ## 2. Options -/

variable {σ : Type}

/-- The option that asks for help. -/
def helpOption : CommandOption σ := ⟨["-h", "--help"], .help⟩

/-- An option without a value. -/
def flagOption (names : List Text) (set : σ → σ) : CommandOption σ := ⟨names, .flag set⟩

/-- An option with a text for a value. -/
def textOption (name : Text) (set : Option Text → σ → σ) : CommandOption σ :=
  ⟨[name], .value fun v s => .ok (set v s)⟩

/-- An option with an integer for a value. -/
def integerOption (name : Text) (set : Option Int → σ → σ) : CommandOption σ :=
  ⟨[name], .value fun v s =>
    match v with
    | none => .ok (set none s)
    | some v =>
      match Text.readInteger v with
      | .ok i => .ok (set (some i) s)
      | .error _ => .error ("invalid int value: " ++ Text.quoted v)⟩

/-! ## 3. Grammars -/

/-- The grammar of the request to trace a command. -/
def runGrammar : Grammar RunRequest where
  program := programName ++ " run"
  options := [
    helpOption,
    flagOption ["--mute"] fun r => { r with mute := true },
    flagOption ["--count-hits"] fun r => { r with countHits := true },
    textOption "--root" fun v r => { r with root := v },
    flagOption ["--keep-log"] fun r => { r with keepLog := true },
    textOption "--out" fun v r => { r with out := v }]
  positional := "command"
  arity := .remainder
  take := fun words r => .ok ({ r with words }, [])

/-- The grammar of the request to check a result set. -/
def validateGrammar : Grammar Text where
  program := programName ++ " validate"
  options := [helpOption]
  positional := "resultset"
  arity := .one
  take := fun words _ => .ok (words.headD [], [])

/-- The names of the requests. -/
def requestNames : List Text := ["run", "validate"]

/-- The complaint about a request that there is not. -/
def noSuchRequest (name : Text) : Stop :=
  .misuse programName ("argument cmd: invalid choice: " ++ Text.quoted name ++
    " (choose from " ++ Text.joinWith [44, 32] (requestNames.map Text.quoted) ++ ")")

/-- The arguments with the request of its name and its words. -/
def takeRequest (words : List Text) (a : Arguments) : Except Stop (Arguments × List Text) :=
  let name := words.headD []
  if name = "run" then
    (runGrammar.parse (words.drop 1) ⟨false, false, Option.none, false, Option.none, []⟩).map
      fun (r, extras) => ({ a with request := some (.run r) }, extras)
  else if name = "validate" then
    (validateGrammar.parse (words.drop 1) []).map
      fun (path, extras) => ({ a with request := some (.validate path) }, extras)
  else .error (noSuchRequest name)

/-- The grammar of command lines. -/
def grammar : Grammar Arguments where
  program := programName
  options := [
    helpOption,
    flagOption ["--log-json"] fun a => { a with logJson := true },
    textOption "--log-file" fun v a => { a with logFile := v },
    integerOption "--log-max-bytes" fun i a => { a with logMaxBytes := i },
    integerOption "--log-backup-count" fun i a => { a with logBackupCount := i },
    flagOption ["-v", "--verbose"] fun a => { a with verbose := true },
    flagOption ["--json"] fun a => { a with json := true },
    textOption "--config" fun v a => { a with config := v }]
  positional := "cmd"
  arity := .subcommand
  take := takeRequest

/-- The arguments of a command line. -/
def Arguments.ofWords (words : List Text) : Except Stop Arguments :=
  grammar.parseAll words Arguments.none

end LineTrace.CommandLine
