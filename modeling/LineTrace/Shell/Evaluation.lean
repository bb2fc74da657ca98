/-
LineTrace.Shell.Evaluation — running scripts and programs.

`execute` does what a system does when it is asked to run a file: a script is
given to the interpreter that its first line names, a native program is one of
those modelled here. `evaluate` runs the tree of a script. The two call each
other, so both go by fuel; a script that uses it up counts as one that does not
end.

A native program's file begins with the mark of one, and its name follows.
-/
import LineTrace.Command.Lookup
import LineTrace.Shell.Session

namespace LineTrace.Shell

/-! ## 1. Files that can be run -/

/-- The beginning of a native program's file. -/
def nativeMark : Bytes := 127 :: Bytes.ofString "ELF"

/-- The file of a native program. -/
def nativeFile (program : String) : Bytes := nativeMark ++ Bytes.ofString program

/-- The beginning of a script's file. -/
def scriptMark : Bytes := Bytes.ofString "#!"

/-- The programs that run scripts, and whether their `echo` undoes escapes. -/
def interpreters : List (Text × Bool) := [("sh", true), ("dash", true), ("bash", false)]

/-- What a file is to the system that runs it. -/
inductive Executable where
  | native (program : Text)
  | script (interpreter : Text) (argument : Option Text)

/-- A blank of a first line. -/
def isLineBlank (b : UInt8) : Bool := b = 32 || b = 9

/-- The interpreter that a script's first line names, and the one argument that
may follow it. -/
def interpreterOf (content : Bytes) : Text × Option Text :=
  let line := (content.drop scriptMark.length).takeWhile (· ≠ 10)
  let line := Text.stripWhere isLineBlank line
  let name := line.takeWhile fun b => !isLineBlank b
  let argument := (line.drop name.length).dropWhile isLineBlank
  (Text.decodeEscaped name, if argument = [] then none else some (Text.decodeEscaped argument))

/-- What a path is to the system that is asked to run it, or why it cannot be
run. -/
def executableAt (fs : FileSystem) (path : Text) : Except FileCause Executable :=
  match fs.node path with
  | .error e => .error e
  | .ok .directory => .error .denied
  | .ok (.file content mode) =>
    if ¬ FileSystem.mayExecute mode then .error .denied
    else if scriptMark.isPrefixOf content then
      let (interpreter, argument) := interpreterOf content
      if interpreter = [] then .error .execFormat else .ok (.script interpreter argument)
    else if nativeMark.isPrefixOf content then
      .ok (.native (Text.decodeEscaped (content.drop nativeMark.length)))
    else .error .execFormat

/-! ## 2. Arguments of shells -/

/-- What a shell is asked to run: the text after `-c`, a file, or its input;
then the name and the parameters. -/
inductive Request where
  | text (script : Text) (arguments : List Text)
  | file (path : Text) (arguments : List Text)
  | input

/-- The request of a shell's arguments. -/
def Request.ofArguments : List Text → Request
  | [] => .input
  | a :: rest =>
    if a = "-c" then
      match rest with
      | script :: arguments => .text script arguments
      | [] => .input
    else if (Text.ofString "--").isPrefixOf a ∨ (Text.ofString "+").isPrefixOf a then
      ofArguments rest
    else
      match a with
      | 45 :: flags =>
        if 99 ∈ flags then
          match rest with
          | script :: arguments => .text script arguments
          | [] => .input
        else ofArguments rest
      | _ => .file a rest

/-- The variables and the command of an `env` program's arguments. -/
def envRequest : List Text → Environment × List Text
  | [] => ([], [])
  | a :: rest =>
    if 61 ∈ a ∧ a.head? ≠ some 45 then
      let (more, command) := envRequest rest
      ((a.takeWhile (· ≠ 61), (a.dropWhile (· ≠ 61)).drop 1) :: more, command)
    else ([], a :: rest)

/-- The lines of variables. -/
def environmentLines (env : Environment) : Bytes :=
  Text.encodeEscaped (env.flatMap fun (name, v) => name ++ "=" ++ v ++ "\n")

/-! ## 3. Commands that concern the script itself -/

/-- The status that a word means to `exit`, taken modulo 256. -/
def exitStatus? (t : Text) : Option Int :=
  if t ≠ [] ∧ t.all Text.isDigit then
    some (Text.decimalValue (t.map (· - 48)) % 256 : Nat)
  else none

/-- The session with variables declared for its children, with values or
without. -/
def exported (s : Session) (args : List Text) : Session :=
  args.foldl (fun s a =>
    let name := a.takeWhile (· ≠ 61)
    let s := if 61 ∈ a then s.set name ((a.dropWhile (· ≠ 61)).drop 1) else s
    { s with exported := s.exported ++ [name] }) s

/-- The step of a command that concerns the script itself, if the name is one
of theirs. -/
def ownCommand? (s : Session) (line : Nat) (name : Text) (args : List Text) : Option Step :=
  if name = "exit" ∨ name = "return" then
    some (match args with
      | [] => { s.ended s.status with flow := .exits }
      | a :: _ =>
        match exitStatus? a with
        | some n => { s.ended n with flow := .exits }
        | none => { s.complains line 2 (name ++ ": Illegal number: " ++ a) with flow := .exits })
  else if name = "export" then some ((exported s args).ended 0)
  else if name = "unset" then
    some ((args.foldl (fun s a => { s with vars := Table.erase a s.vars }) s).ended 0)
  else if name = "shift" then
    let n := (args.head?.map fun a => Text.decimalValue (a.map (· - 48))).getD 1
    some (({ s with parameters := s.parameters.drop n } : Session).ended 0)
  else if name = "set" then
    some (match args with
      | [45, 45] :: rest => ({ s with parameters := rest } : Session).ended 0
      | _ => s.ended 0)
  else if name = "cd" then
    let target := (args.head?).getD ((Table.get? ("HOME" : Text) s.vars).getD [])
    if s.files.isDirectory target then
      some ((({ s with files := { s.files with cwd := Path.absolute s.files.cwd target } } :
        Session).set ("PWD" : Text) (Path.absolute s.files.cwd target)).ended 0)
    else some (s.complains line 2 ("cd: can't cd to " ++ target))
  else if name = "kill" then
    some (match killRequest args with
      | some (signal, targets) =>
        if targets.contains (Text.ofNat processNumber) then
          if signal = 0 then s.ended 0 else { s.ended 0 with flow := .killed signal }
        else s.complains line 1 "kill: No such process"
      | none => s.complains line 1 "kill: invalid signal")
  else none

/-! ## 4. Evaluation -/

/-- What a run program did: its effect and the files after it. A status below
zero is the signal that ended it. -/
abbrev Run := Effect × FileSystem

/-- The status that a script sees of a program: 128 and the number of the
signal that ended it. -/
def seenStatus (status : Int) : Int := if status < 0 then 128 - status else status

/-- Bytes without the line breaks at their end, as text; null bytes are
dropped. -/
def capturedText (bytes : Bytes) : Text :=
  Text.decodeEscaped (((bytes.reverse.dropWhile (· = 10)).reverse).filter (· ≠ 0))

mutual

/-- What comes of running a file under a name, with arguments. -/
def execute : Nat → FileSystem → Environment → Bytes → Text → Text → List Text →
    Except FileCause Run
  | 0, _, _, _, _, _, _ => .error .execFormat
  | fuel + 1, fs, env, input, path, own, args =>
    match executableAt fs path with
    | .error e => .error e
    | .ok (.script interpreter argument) =>
      execute fuel fs env input interpreter interpreter (argument.toList ++ path :: args)
    | .ok (.native program) =>
      match interpreters.find? fun (name, _) => name = program with
      | some (_, escapes) => .ok (interpret fuel fs env input escapes own args)
      | none =>
        if program = "env" ∨ program = "printenv" then
          let (added, command) := envRequest args
          let env := added.foldl (fun env (name, v) => Table.put name v env) env
          match command with
          | [] => .ok (.written (environmentLines env), fs)
          | name :: rest =>
            match Command.lookUp? fs ((Table.get? Command.searchVariable env).getD []) name with
            | some p => execute fuel fs env input p name rest
            | none =>
              .ok (.failed 127 ("env: '" ++ name ++ "': No such file or directory"), fs)
        else
          match utility? fs false input program args with
          | some effect => .ok (effect, fs)
          | none => .error .execFormat

/-- What a shell called `own` does with its arguments. -/
def interpret : Nat → FileSystem → Environment → Bytes → Bool → Text → List Text → Run
  | 0, fs, _, _, _, _, _ => (.ofStatus 0, fs)
  | fuel + 1, fs, env, input, escapes, own, args =>
    let vars := Table.put ("PWD" : Text) fs.cwd env
    let session (name : Text) (parameters : List Text) : Session :=
      { files := fs, name, parameters, vars, exported := Table.keys vars,
        status := 0, escapes }
    let run (s : Session) (script input : Text) : Run :=
      let step := evaluateText fuel s (Text.encodeEscaped input) script
      let status : Int :=
        match step.flow with
        | .killed signal => -signal
        | _ => step.session.status
      (⟨status, step.output, step.errors, step.milliseconds⟩, step.session.files)
    match Request.ofArguments args with
    | .text script arguments =>
      run (session (arguments.headD own) (arguments.drop 1)) script (Text.decodeEscaped input)
    | .file file arguments =>
      match fs.bytesOf file with
      | .ok content =>
        run (session file arguments) (Text.decodeEscaped content) (Text.decodeEscaped input)
      | .error _ =>
        (.failed 2 (own ++ ": 0: cannot open " ++ file ++ ": No such file"), fs)
    | .input => run (session own []) (Text.decodeEscaped input) []

/-- What the text of a script does. -/
def evaluateText : Nat → Session → Bytes → Text → Step
  | 0, s, _, _ => s.goesOnAlways
  | fuel + 1, s, input, t =>
    match Script.read t with
    | .ok script => evaluate fuel s input script
    | .error e => { s.complains e.line 2 "Syntax error" with flow := .exits }

/-- What a script does. -/
def evaluate : Nat → Session → Bytes → Script → Step
  | 0, s, _, _ => s.goesOnAlways
  | fuel + 1, s, input, script =>
    match script with
    | .nothing => s.ended 0
    | .simple c => evaluateSimple fuel s input c
    | .pipe first second =>
      let a := evaluate fuel s input first
      match a.flow with
      | .killed _ => a
      | _ =>
        let b := evaluate fuel { s with files := a.session.files } a.output second
        let after := { s with files := b.session.files, status := b.session.status }
        let flow := match b.flow with
          | .killed n => .killed n
          | _ => .goesOn
        ⟨after, b.output, a.errors ++ b.errors, max a.milliseconds b.milliseconds, flow⟩
    | .negated inner =>
      let a := evaluate fuel s input inner
      match a.flow with
      | .goesOn =>
        { a with session := { a.session with status := if a.session.status = 0 then 1 else 0 } }
      | _ => a
    | .both first second =>
      let a := evaluate fuel s input first
      if a.flow = .goesOn ∧ a.session.status = 0 then
        a.andThen (evaluate fuel a.session input second)
      else a
    | .either first second =>
      let a := evaluate fuel s input first
      if a.flow = .goesOn ∧ a.session.status ≠ 0 then
        a.andThen (evaluate fuel a.session input second)
      else a
    | .sequence first second =>
      let a := evaluate fuel s input first
      if a.flow = .goesOn then a.andThen (evaluate fuel a.session input second) else a
    | .group apart inner rs =>
      match openStreams fuel s rs with
      | .error step => step
      | .ok (before, streams) =>
        let a := evaluate fuel before.session (streams.input.getD input) inner
        let a := streams.lead (before.andThen a)
        if apart then
          let flow := match a.flow with
            | .killed n => .killed n
            | _ => .goesOn
          { a with
            session := { s with files := { a.session.files with cwd := s.files.cwd },
                                status := a.session.status }
            flow }
        else a
    | .choice condition yes no =>
      let a := evaluate fuel s input condition
      if a.flow = .goesOn then
        let chosen := if a.session.status = 0 then yes else no
        a.andThen (evaluate fuel a.session input chosen)
      else a
    | .loop until_ condition body =>
      let a := evaluate fuel s input condition
      if a.flow = .goesOn ∧ (a.session.status = 0) ≠ until_ then
        let b := a.andThen (evaluate fuel a.session input body)
        if b.flow = .goesOn then
          b.andThen (evaluate fuel b.session input (.loop until_ condition body))
        else b
      else if a.flow = .goesOn then { a with session := { a.session with status := 0 } }
      else a
    | .each name words body =>
      let (step, fields) := expandAll fuel (s.ended s.status) words
      if fields = [] then { step with session := { step.session with status := 0 } }
      else evaluateEach fuel step input name fields body

/-- What a body does for one value after the other. -/
def evaluateEach : Nat → Step → Bytes → Text → List Text → Script → Step
  | 0, step, _, _, _, _ => step
  | _ + 1, step, _, _, [], _ => step
  | fuel + 1, step, input, name, v :: rest, body =>
    let step := step.andThen (evaluate fuel (step.session.set name v) input body)
    if step.flow = .goesOn then evaluateEach fuel step input name rest body else step

/-- What a simple command does. -/
def evaluateSimple : Nat → Session → Bytes → Simple → Step
  | 0, s, _, _ => s.goesOnAlways
  | fuel + 1, s, input, c =>
    let (expanded, fields) := expandAll fuel (s.ended s.status) c.words
    match openStreams fuel expanded.session c.redirections with
    | .error step => expanded.andThen step
    | .ok (opened, streams) =>
      let before := expanded.andThen opened
      let (before, assigned) := assignAll fuel before c.assignments
      match fields with
      | [] =>
        let session := assigned.foldl (fun s (name, v) => s.set name v) before.session
        let status := if c.runsOthers then session.status else 0
        { before with session := { session with status } }
      | name :: args =>
        let input := streams.input.getD input
        let s := { before.session with status := s.status }
        let after :=
          match ownCommand? s c.line name args with
          | some step => step
          | none => evaluateProgram fuel s assigned input c.line name args
        before.andThen (streams.lead after)

/-- What a command does that is no command of the script's own. -/
def evaluateProgram : Nat → Session → List (Text × Text) → Bytes → Nat → Text → List Text → Step
  | 0, s, _, _, _, _, _ => s.goesOnAlways
  | fuel + 1, s, assigned, input, line, name, args =>
    if name = "." ∨ name = "eval" then
      if name = "eval" then evaluateText fuel s input (Text.joinWith [32] args)
      else
        match s.files.bytesOf (args.headD []) with
        | .ok content => evaluateText fuel s input (Text.decodeEscaped content)
        | .error _ =>
          { s.complains line 2 (".: cannot open " ++ args.headD [] ++ ": No such file") with
            flow := .exits }
    else if name = "exec" then
      match args with
      | [] => s.ended 0
      | name :: args =>
        { evaluateProgram fuel s assigned input line name args with flow := .exits }
    else if name ∈ ([":", "true", "false", "echo", "printf", "test", "[", "pwd"] : List Text) then
      match utility? s.files s.escapes input name args with
      | some effect => s.did effect
      | none => s.ended 0
    else
      let env := assigned.foldl (fun env (n, v) => Table.put n v env) s.environment
      let search := (Table.get? Command.searchVariable (assigned.foldl
        (fun vs (n, v) => Table.put n v vs) s.vars)).getD []
      let path? : Option Text :=
        if Path.slash ∈ name then some name else Command.lookUp? s.files search name
      match path? with
      | none => s.complains line 127 (name ++ ": not found")
      | some path =>
        match execute fuel s.files env input path name args with
        | .ok (effect, files) =>
          ({ s with files := { files with cwd := s.files.cwd } } : Session).did
            { effect with status := seenStatus effect.status }
        | .error .execFormat =>
          let (effect, files) := interpret fuel s.files env input s.escapes path (path :: args)
          ({ s with files := { files with cwd := s.files.cwd } } : Session).did
            { effect with status := seenStatus effect.status }
        | .error .denied => s.complains line 126 (name ++ ": Permission denied")
        | .error _ => s.complains line 127 (name ++ ": not found")

/-- The streams of redirections, opened one after the other. -/
def openStreams : Nat → Session → List Redirection → Except Step (Step × Streams)
  | 0, s, _ => .ok (s.ended s.status, ⟨.output, .errors, none⟩)
  | fuel + 1, s, rs =>
    rs.foldl (fun opened r =>
      match opened with
      | .error e => .error e
      | .ok (step, streams) =>
        let (step, fields) := expandAll fuel step [r.target]
        match streams.redirect step.session.files r (Text.joinWith [32] fields) with
        | .ok (streams, files) =>
          .ok ({ step with session := { step.session with files } }, streams)
        | .error message => .error (step.andThen (step.session.complains 1 2 message)))
      (.ok (s.ended s.status, ⟨.output, .errors, none⟩))

/-- The values of assignments. -/
def assignAll : Nat → Step → List (Text × Word) → Step × List (Text × Text)
  | 0, step, _ => (step, [])
  | _ + 1, step, [] => (step, [])
  | fuel + 1, step, (name, w) :: rest =>
    let quoted : Word := w.map fun part =>
      match part with
      | .variable_ _ n form => .variable_ true n form
      | .output _ script => .output true script
      | part => part
    let (step, fields) := expandParts fuel step ⟨[], none⟩ quoted
    let (step, more) := assignAll fuel step rest
    (step, (name, Text.joinWith [32] fields.toList) :: more)

/-- The fields of words. -/
def expandAll : Nat → Step → List Word → Step × List Text
  | 0, step, _ => (step, [])
  | _ + 1, step, [] => (step, [])
  | fuel + 1, step, w :: rest =>
    let (step, fields) := expandParts fuel step ⟨[], none⟩ w
    let (step, more) := expandAll fuel step rest
    (step, fields.toList ++ more)

/-- The fields with those of a word's parts added. -/
def expandParts : Nat → Step → Fields → Word → Step × Fields
  | 0, step, fields, _ => (step, fields)
  | _ + 1, step, fields, [] => (step, fields)
  | fuel + 1, step, fields, part :: rest =>
    match part with
    | .loose t => expandParts fuel step (fields.add t) rest
    | .fixed t => expandParts fuel step (fields.add t) rest
    | .variable_ quoted name form =>
      if quoted ∧ name = "@" ∧ form = .value then
        expandParts fuel step (fields.addAll step.session.parameters) rest
      else
        let (step, v) := valueOf fuel step name form
        expandParts fuel step (if quoted then fields.add v else fields.addSplit v) rest
    | .output quoted script =>
      let inner := evaluateText fuel step.session [] script
      let v := capturedText inner.output
      let flow := match inner.flow with
        | .killed n => .killed n
        | _ => step.flow
      let step := { step with
        session := { step.session with
          files := { inner.session.files with cwd := step.session.files.cwd }
          status := inner.session.status }
        errors := step.errors ++ inner.errors
        milliseconds := step.milliseconds + inner.milliseconds
        flow }
      expandParts fuel step (if quoted then fields.add v else fields.addSplit v) rest

/-- The value of a parameter as its form asks for it. -/
def valueOf : Nat → Step → Text → Form → Step × Text
  | 0, step, _, _ => (step, [])
  | fuel + 1, step, name, form =>
    let v := step.session.value? name
    let isMissing (colon : Bool) : Bool := v.isNone || (colon && v == some [])
    let expanded (word : Text) : Step × Text :=
      let (step, fields) := expandParts fuel step ⟨[], none⟩ (asWord word)
      (step, Text.joinWith [32] fields.toList)
    match form with
    | .value => (step, v.getD [])
    | .length => (step, Text.ofNat (v.getD []).length)
    | .fallback colon word => if isMissing colon then expanded word else (step, v.getD [])
    | .replacement colon word => if isMissing colon then (step, []) else expanded word

end

end LineTrace.Shell
