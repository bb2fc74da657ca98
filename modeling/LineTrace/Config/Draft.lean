/-
LineTrace.Config.Draft — configurations, as given and as checked.

A `Draft` holds a setting of any kind in every place. It starts from the
defaults, takes over the sections of a file and then the environment, and is
checked last of all; what passes the check is a `Settings`, whose fields have
the types that a run relies on. The order of the checks decides which of two
faults is reported. A run can also be made with what was not checked.
-/
import LineTrace.Config.Setting
import LineTrace.Failure.Basic
import LineTrace.Text.Blank
import LineTrace.Text.Integer

namespace LineTrace

/-! ## 1. Drafts and settings -/

/-- The settings of tracing, of any kind. -/
structure TraceDraft where
  bashPath : Setting
  delimiterBytes : Setting
  chunkSize : Setting
  mute : Setting
  keepLog : Setting
  tmpDir : Setting

/-- The settings of coverage, of any kind. -/
structure CoverageDraft where
  countHits : Setting
  rootDirectory : Setting

/-- A configuration that is not checked. -/
structure Draft where
  trace : TraceDraft
  coverage : CoverageDraft

/-- A configuration that a run can be made with. -/
structure Settings where
  bashPath : Text
  delimiterBytes : Int
  chunkSize : Int
  mute : Bool
  keepLog : Bool
  tmpDir : Option Text
  countHits : Bool
  rootDirectory : Option Text
  deriving DecidableEq, Repr

/-- The settings of tracing unless others are given. -/
def TraceDraft.default : TraceDraft :=
  ⟨.text "bash", .int 4, .int 65536, .flag false, .flag false, .absent⟩

/-- The settings of coverage unless others are given. -/
def CoverageDraft.default : CoverageDraft := ⟨.flag false, .absent⟩

/-- The configuration unless another is given. -/
def Draft.default : Draft := ⟨TraceDraft.default, CoverageDraft.default⟩

/-! ## 2. Naming settings -/

/-- The draft with the setting of a name, if there is one of that name. -/
def TraceDraft.set? (d : TraceDraft) (name : Text) (v : Setting) : Option TraceDraft :=
  if name = "bash_path" then some { d with bashPath := v }
  else if name = "delimiter_bytes" then some { d with delimiterBytes := v }
  else if name = "chunk_size" then some { d with chunkSize := v }
  else if name = "mute" then some { d with mute := v }
  else if name = "keep_log" then some { d with keepLog := v }
  else if name = "tmp_dir" then some { d with tmpDir := v }
  else none

/-- The draft with the setting of a name, if there is one of that name. -/
def CoverageDraft.set? (d : CoverageDraft) (name : Text) (v : Setting) :
    Option CoverageDraft :=
  if name = "count_hits" then some { d with countHits := v }
  else if name = "root_directory" then some { d with rootDirectory := v }
  else none

/-- The complaint about a name that no setting of a section has. The name of
the section's own argument counts as given already. -/
def unknownName (section_ name : Text) : Text :=
  section_ ++ ".__init__() got " ++
    (if name = "self" then ("multiple values for argument" : Text)
      else "an unexpected keyword argument") ++
    " '" ++ name ++ "'"

/-- A draft with the settings of all entries, or the complaint about the first
name that is not known. -/
def assignAll {δ : Type} (section_ : Text) (set? : δ → Text → Setting → Option δ) :
    δ → List (Text × Setting) → Except Text δ
  | d, [] => .ok d
  | d, (name, v) :: rest =>
    match set? d name v with
    | some d => assignAll section_ set? d rest
    | none => .error (unknownName section_ name)

/-- The configuration of the entries of two sections, as they are. -/
def Draft.ofSections (trace coverage : List (Text × Setting)) : Except Text Draft := do
  let t ← assignAll "TracePolicy" TraceDraft.set? TraceDraft.default trace
  let c ← assignAll "CoveragePolicy" CoverageDraft.set? CoverageDraft.default coverage
  return ⟨t, c⟩

/-! ## 3. Lenient kinds -/

/-- The words for true. -/
def trueWords : List Text := ["1", "true", "yes", "on"]

/-- The words for false. -/
def falseWords : List Text := ["0", "false", "no", "off"]

/-- The words for no path. -/
def nothingWords : List Text := ["", "none", "null"]

/-- The truth value that a word stands for, blanks and case apart. Letters
outside ASCII occur in no word, whatever their case. -/
def wordFlag? (t : Text) : Option Bool :=
  let word := Text.lowerAscii (Text.strip t)
  if trueWords.contains word then some true
  else if falseWords.contains word then some false
  else none

/-- The path that a text stands for, if it stands for one. -/
def wordPath (t : Text) : Option Text :=
  let word := Text.strip t
  if nothingWords.contains (Text.lowerAscii word) then none else some word

/-- A setting of an optional path. -/
def pathSetting : Option Text → Setting
  | some p => .text p
  | none => .absent

/-- A truth value, also as a word. -/
def lenientFlag (name : Text) : Setting → Except Fault Setting
  | .flag b => .ok (.flag b)
  | .text t =>
    match wordFlag? t with
    | some b => .ok (.flag b)
    | none => .error (.failure (Failure.badInput (name ++ " must be boolean")))
  | _ => .error (.failure (Failure.badInput (name ++ " must be boolean")))

/-- A path or nothing, also as a word. -/
def lenientPath (name : Text) : Setting → Except Fault Setting
  | .absent => .ok .absent
  | .text t => .ok (pathSetting (wordPath t))
  | _ => .error (.failure (Failure.badInput (name ++ " must be a path string")))

/-! ## 4. Files -/

/-- The entries of a section; none where it is missing. -/
def sectionOf (name : Text) (data : List (Text × Setting)) :
    Except Fault (List (Text × Setting)) :=
  match Table.get? name data with
  | none => .ok []
  | some (.table es) => .ok es
  | some _ => .error (.failure (Failure.badInput ("[" ++ name ++ "] section must be a table")))

/-- The entries with one of them read leniently, if it is there. -/
def lenient (read : Text → Setting → Except Fault Setting) (section_ name : Text)
    (es : List (Text × Setting)) : Except Fault (List (Text × Setting)) :=
  match Table.get? name es with
  | none => .ok es
  | some v => (read (section_ ++ "." ++ name) v).map fun v => Table.put name v es

/-- The configuration of a table with two sections. -/
def Draft.ofTable (data : List (Text × Setting)) : Except Fault Draft := do
  let trace ← sectionOf "trace" data
  let coverage ← sectionOf "coverage" data
  let trace ← lenient lenientFlag "trace" "mute" trace
  let trace ← lenient lenientFlag "trace" "keep_log" trace
  let trace ← lenient lenientPath "trace" "tmp_dir" trace
  let coverage ← lenient lenientFlag "coverage" "count_hits" coverage
  let coverage ← lenient lenientPath "coverage" "root_directory" coverage
  match Draft.ofSections trace coverage with
  | .ok d => .ok d
  | .error complaint =>
    .error (.failure (Failure.badInput ("Unknown config key: " ++ complaint)))

/-- The configuration of a setting, which has to be such a table. -/
def Draft.ofSetting : Setting → Except Fault Draft
  | .table data => Draft.ofTable data
  | v => .error (.other "AttributeError" ("'" ++ v.kindName ++ "' object has no attribute 'get'"))

/-! ## 5. The environment -/

/-- A variable of the environment, and the draft with its value. -/
structure Override where
  variable_ : Text
  apply : Text → Draft → Option Draft

/-- The integer of a text, as a setting. -/
def integerSetting? (raw : Text) : Option Setting :=
  match Text.readInteger raw with
  | .ok i => some (.int i)
  | .error _ => none

/-- The variables in the order in which they are taken over. -/
def overrides : List Override := [
  ⟨"SHELLCOV_BASH", fun raw d => some { d with trace.bashPath := .text raw }⟩,
  ⟨"SHELLCOV_DELIMITER_BYTES", fun raw d =>
    (integerSetting? raw).map fun v => { d with trace.delimiterBytes := v }⟩,
  ⟨"SHELLCOV_CHUNK_SIZE", fun raw d =>
    (integerSetting? raw).map fun v => { d with trace.chunkSize := v }⟩,
  ⟨"SHELLCOV_MUTE", fun raw d =>
    (wordFlag? raw).map fun b => { d with trace.mute := .flag b }⟩,
  ⟨"SHELLCOV_KEEP_LOG", fun raw d =>
    (wordFlag? raw).map fun b => { d with trace.keepLog := .flag b }⟩,
  ⟨"SHELLCOV_TMP_DIR", fun raw d =>
    some { d with trace.tmpDir := pathSetting (wordPath raw) }⟩,
  ⟨"SHELLCOV_COUNT_HITS", fun raw d =>
    (wordFlag? raw).map fun b => { d with coverage.countHits := .flag b }⟩,
  ⟨"SHELLCOV_ROOT", fun raw d =>
    some { d with coverage.rootDirectory := pathSetting (wordPath raw) }⟩]

/-- The variables of a process, with their values. -/
abbrev Environment := Table Text Text

/-- The draft after the given overrides, as far as the first value that cannot
be taken over. -/
def Draft.overrideBy (env : Environment) : List Override → Draft → Draft × Except Fault Unit
  | [], d => (d, .ok ())
  | o :: rest, d =>
    match Table.get? o.variable_ env with
    | none => overrideBy env rest d
    | some raw =>
      match o.apply raw d with
      | some d => overrideBy env rest d
      | none =>
        (d, .error (.failure (Failure.badInput
          ("Invalid env override " ++ o.variable_ ++ "=" ++ Text.quoted raw))))

/-- The draft after the environment. -/
def Draft.override (env : Environment) (d : Draft) : Draft × Except Fault Unit :=
  d.overrideBy env overrides

/-! ## 6. Checks -/

/-- The complaint about an order between a setting and a number that have
none. -/
def unordered (sign : Text) (v : Setting) : Fault :=
  .badType ("'" ++ sign ++ "' not supported between instances of '" ++ v.kindName ++ "' and 'int'")


/-- A setting that must be an integer. -/
def needInt (name : Text) : Setting → Except Fault Int
  | .int i => .ok i
  | v => .error (.failure (Failure.badInput (name ++ " must be an integer, got " ++ v.kindName)))

/-- A setting that must be a truth value. -/
def needFlag (name : Text) : Setting → Except Fault Bool
  | .flag b => .ok b
  | v => .error (.failure (Failure.badInput (name ++ " must be boolean, got " ++ v.kindName)))

/-- A setting that must be a text with something in it. -/
def needText (name : Text) : Setting → Except Fault Text
  | .text (c :: cs) => .ok (c :: cs)
  | _ => .error (.failure (Failure.badInput (name ++ " must be a non-empty string")))

/-- The fault of a setting that is no path at all. -/
def noPath (v : Setting) : Fault :=
  .badType ("expected str, bytes or os.PathLike object, not " ++ v.kindName)

/-- Whether a directory stands at a path; only a name that is too long is a
fault. -/
def FileSystem.probeDirectory (fs : FileSystem) (p : Text) : Except Fault Bool :=
  match fs.node p with
  | .ok .directory => .ok true
  | .error .nameTooLong => .error (.file ⟨.nameTooLong, [p]⟩)
  | _ => .ok false

/-- A setting that must be nothing or an existing directory. -/
def needDirectory (fs : FileSystem) (name : Text) : Setting → Except Fault (Option Text)
  | .absent => .ok none
  | .text p =>
    match fs.probeDirectory (Path.tidy p) with
    | .error e => .error e
    | .ok true => .ok (some p)
    | .ok false => .error (.failure (Failure.badInput (name ++ " is not a directory: " ++ p)))
  | v => .error (noPath v)

/-- A setting that must be nothing or an absolute path. -/
def needAbsolute (name : Text) : Setting → Except Fault (Option Text)
  | .absent => .ok none
  | .text p =>
    if Path.isAbsolute p then .ok (some p)
    else .error (.failure (Failure.badInput (name ++ " must be an absolute path")))
  | v => .error (noPath v)

/-- A number of delimiter bytes that can be used. -/
def needWithin (name : Text) (least most i : Int) : Except Fault Unit :=
  if least ≤ i ∧ i ≤ most then .ok ()
  else .error (.failure (Failure.badInput
    (name ++ " must be within [" ++ Text.ofInt least ++ ", " ++ Text.ofInt most ++ "]")))

/-- A number above zero. -/
def needPositive (name : Text) (i : Int) : Except Fault Unit :=
  if 0 < i then .ok () else .error (.failure (Failure.badInput (name ++ " must be > 0")))

/-- The settings of a draft that passes every check. -/
def Draft.check (fs : FileSystem) (d : Draft) : Except Fault Settings := do
  let bashPath ← needText "trace.bash_path" d.trace.bashPath
  let delimiterBytes ← needInt "trace.delimiter_bytes" d.trace.delimiterBytes
  needWithin "trace.delimiter_bytes" 2 16 delimiterBytes
  let chunkSize ← needInt "trace.chunk_size" d.trace.chunkSize
  needPositive "trace.chunk_size" chunkSize
  let mute ← needFlag "trace.mute" d.trace.mute
  let keepLog ← needFlag "trace.keep_log" d.trace.keepLog
  let tmpDir ← needDirectory fs "trace.tmp_dir" d.trace.tmpDir
  let countHits ← needFlag "coverage.count_hits" d.coverage.countHits
  let rootDirectory ← needAbsolute "coverage.root_directory" d.coverage.rootDirectory
  return { bashPath, delimiterBytes, chunkSize, mute, keepLog, tmpDir, countHits, rootDirectory }

/-- What a run is made with. The name of the shell and the two numbers may be
of any kind: the run itself finds out what cannot be used. -/
structure RunPlan where
  bashPath : Setting
  delimiterBytes : Setting
  chunkSize : Setting
  mute : Bool
  keepLog : Bool
  tmpDir : Option Text
  countHits : Bool
  rootDirectory : Option Text

/-- The plan of settings that are checked. -/
def Settings.plan (s : Settings) : RunPlan where
  bashPath := .text s.bashPath
  delimiterBytes := .int s.delimiterBytes
  chunkSize := .int s.chunkSize
  mute := s.mute
  keepLog := s.keepLog
  tmpDir := s.tmpDir
  countHits := s.countHits
  rootDirectory := s.rootDirectory

/-- The path of a setting that is one or nothing. -/
def optionalPath? : Setting → Option (Option Text)
  | .absent => some none
  | .text p => some (some p)
  | _ => none

/-- The plan of a draft whose truth values and paths are of the right kinds,
as they are in one that was read from a table. -/
def Draft.plan? (d : Draft) : Option RunPlan :=
  match d.trace.mute, d.trace.keepLog, d.coverage.countHits with
  | .flag mute, .flag keepLog, .flag countHits =>
    match optionalPath? d.trace.tmpDir, optionalPath? d.coverage.rootDirectory with
    | some tmpDir, some rootDirectory =>
      some ⟨d.trace.bashPath, d.trace.delimiterBytes, d.trace.chunkSize, mute, keepLog, tmpDir,
        countHits, rootDirectory⟩
    | _, _ => none
  | _, _, _ => none

/-- The draft that writes settings down. -/
def Settings.draft (s : Settings) : Draft :=
  ⟨⟨.text s.bashPath, .int s.delimiterBytes, .int s.chunkSize, .flag s.mute, .flag s.keepLog,
    pathSetting s.tmpDir⟩, ⟨.flag s.countHits, pathSetting s.rootDirectory⟩⟩

end LineTrace
