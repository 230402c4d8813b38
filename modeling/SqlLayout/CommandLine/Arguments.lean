import SqlLayout.Style

/-!
Arguments are read from left to right.  An option without an attached value waits for the next
argument, and the value it gets is only judged when something else begins; so an unknown argument
is reported before the bad value in front of it.  Behind `--` every argument is a path.
-/

namespace SqlLayout.CommandLine

/-- The options without a value. -/
inductive Flag where
  | check
  | diff
  | fast
  | verbose
  | quiet
  | noProgressBar
  | forceColor
  | noColor
  | singleProcess
  deriving DecidableEq, Repr

/-- The options with a value. -/
inductive ValueOption where
  | keywordCase
  | indentKind
  | indentSize
  | delimiter
  | exclude
  | threads
  | settings
  deriving DecidableEq, Repr

/-- What an option name stands for. -/
inductive Switch where
  | flag (f : Flag)
  | value (o : ValueOption)
  | version
  | help
  deriving DecidableEq, Repr

/-- The long name of a flag. -/
def Flag.name : Flag → String
  | .check => "check"
  | .diff => "diff"
  | .fast => "fast"
  | .verbose => "verbose"
  | .quiet => "quiet"
  | .noProgressBar => "no-progressbar"
  | .forceColor => "force-color"
  | .noColor => "no-color"
  | .singleProcess => "single-process"

/-- The long name of an option with a value. -/
def ValueOption.name : ValueOption → String
  | .keywordCase => "keyword-case"
  | .indentKind => "indent-type"
  | .indentSize => "indent-size"
  | .delimiter => "delimiter"
  | .exclude => "exclude"
  | .threads => "threads"
  | .settings => "config"

/-- All options with their long names. -/
def switches : List (String × Switch) :=
  ([Flag.check, .diff, .fast, .verbose, .quiet, .noProgressBar, .forceColor, .noColor,
    .singleProcess].map fun f => (f.name, Switch.flag f)) ++
  ([ValueOption.keywordCase, .indentKind, .indentSize, .delimiter, .exclude, .threads,
    .settings].map fun o => (o.name, Switch.value o)) ++
  [("version", .version), ("help", .help)]

/-- The option with a long name. -/
def Switch.ofLong? (name : Text) : Option Switch :=
  (switches.find? fun s => s.1.toList == name).map (·.2)

/-- The option with a one-letter name. -/
def Switch.ofShort? : Char → Option Switch
  | 'v' => some (.flag .verbose)
  | 'q' => some (.flag .quiet)
  | 't' => some (.value .threads)
  | 'V' => some .version
  | 'h' => some .help
  | _ => none

/-- How messages write a flag. -/
def Flag.label (f : Flag) : Text := "--".toList ++ f.name.toList

/-- How messages write an option with a value: its name, and the name in capitals for the value. -/
def ValueOption.label (o : ValueOption) : Text :=
  "--".toList ++ o.name.toList ++ " <".toList ++
    (Text.asciiUpper o.name.toList).map (fun c => if c = '-' then '_' else c) ++ ['>']

/-- How messages write the path arguments. -/
def filesLabel : Text := "<FILES>...".toList

/-- Why the arguments are refused. -/
inductive UsageFault where
  | unexpectedArgument (argument : Text)
  | unexpectedValue (value label : Text)
  | missingValue (label : Text)
  | repeated (label : Text)
  | invalidValue (value label reason : Text)
  | missingFiles
  deriving DecidableEq, Repr

/-- The wording of a fault. -/
def UsageFault.message : UsageFault → Text
  | .unexpectedArgument argument =>
    "error: unexpected argument '".toList ++ argument ++ "' found".toList
  | .unexpectedValue value label =>
    "error: unexpected value '".toList ++ value ++ "' for '".toList ++ label ++
      "' found; no more were expected".toList
  | .missingValue label =>
    "error: a value is required for '".toList ++ label ++ "' but none was supplied".toList
  | .repeated label =>
    "error: the argument '".toList ++ label ++ "' cannot be used multiple times".toList
  | .invalidValue value label reason =>
    "error: invalid value '".toList ++ value ++ "' for '".toList ++ label ++ "': ".toList ++ reason
  | .missingFiles => "error: the following required arguments were not provided:".toList

/-- Why reading stops before there is a request. -/
inductive Stop where
  | fault (f : UsageFault)
  | version
  | help
  deriving DecidableEq, Repr

/-- What the arguments ask for. -/
structure Request where
  files : List Text := []
  flags : List Flag := []
  style : Style.Choices := {}
  exclude : List Text := []
  threads : Option Nat := none
  settings : Option Text := none
  deriving DecidableEq, Repr

/-- Whether a flag is set. -/
def Request.has (r : Request) (f : Flag) : Bool := r.flags.contains f

/-- An option or paths whose values are not judged yet. -/
inductive Pending where
  | nothing
  | option (o : ValueOption) (value : Option Text)
  | files (paths : List Text)
  deriving DecidableEq, Repr

/-- What has been read. -/
structure Reader where
  request : Request := {}
  pending : Pending := .nothing
  /-- Whether every further argument is a path. -/
  onlyFiles : Bool := false
  deriving DecidableEq, Repr

namespace Reader

/-- Stops with a fault. -/
def refuse {α : Type} (f : UsageFault) : Except Stop α := .error (.fault f)

/-- Whether the option has a value already; the globs to exclude may be given again and again. -/
def isSet (r : Request) : ValueOption → Bool
  | .keywordCase => r.style.keywordCase.isSome
  | .indentKind => r.style.indentKind.isSome
  | .indentSize => r.style.indentSize.isSome
  | .delimiter => r.style.delimiter.isSome
  | .exclude => false
  | .threads => r.threads.isSome
  | .settings => r.settings.isSome

/-- A value that is not accepted. -/
def refuseValue {α : Type} (o : ValueOption) (value reason : Text) : Except Stop α :=
  refuse (.invalidValue value o.label reason)

/-- The wording of a refused setting. -/
def optionReason (f : OptionFault) : Text := "sqltidy config error: ".toList ++ f.message

/-- Sets an option. -/
def setValue (r : Request) (o : ValueOption) (value : Text) : Except Stop Request :=
  if isSet r o then refuse (.repeated o.label)
  else
    match o with
    | .keywordCase =>
      match KeywordCase.parse value with
      | .ok k => .ok { r with style := { r.style with keywordCase := some k } }
      | .error f => refuseValue o value (optionReason f)
    | .indentKind =>
      match IndentKind.parse value with
      | .ok k => .ok { r with style := { r.style with indentKind := some k } }
      | .error f => refuseValue o value (optionReason f)
    | .indentSize =>
      match Text.readNumber value with
      | .ok n => .ok { r with style := { r.style with indentSize := some n } }
      | .error f => refuseValue o value f.message
    | .delimiter => .ok { r with style := { r.style with delimiter := some value } }
    | .exclude => .ok { r with exclude := r.exclude ++ [value] }
    | .threads =>
      match Text.readNumber value with
      | .ok n => .ok { r with threads := some n }
      | .error f => refuseValue o value f.message
    | .settings =>
      if value.isEmpty then refuse (.missingValue o.label)
      else .ok { r with settings := some value }

/-- Judges what is pending. -/
def settle (r : Reader) : Except Stop Reader :=
  match r.pending with
  | .nothing => .ok r
  | .option o none => refuse (.missingValue o.label)
  | .option o (some value) => do
    return { r with request := ← setValue r.request o value, pending := .nothing }
  | .files paths =>
    if paths.any List.isEmpty then refuse (.missingValue filesLabel)
    else
      .ok { r with
        request := { r.request with files := r.request.files ++ paths }, pending := .nothing }

/-- Sets a flag. -/
def setFlag (r : Reader) (f : Flag) : Except Stop Reader := do
  let r ← r.settle
  if r.request.has f then refuse (.repeated f.label)
  else return { r with request := { r.request with flags := r.request.flags ++ [f] } }

/-- Begins an option; a value that is attached to it is judged at once. -/
def beginOption (r : Reader) (o : ValueOption) (attached : Option Text) : Except Stop Reader := do
  let r ← r.settle
  match attached with
  | some value => return { r with request := ← setValue r.request o value }
  | none => return { r with pending := .option o none }

/-- Stops, unless what is pending is refused. -/
def stop (r : Reader) (s : Stop) : Except Stop Reader := do
  let _ ← r.settle
  .error s

/-- Splits an argument at its first `=`. -/
def cutValue (s : Text) : Text × Option Text :=
  match s.dropWhile (· != '=') with
  | [] => (s, none)
  | _ :: value => (s.takeWhile (· != '='), some value)

/-- An argument that starts with two hyphens, without them. -/
def readLong (r : Reader) (argument : Text) : Except Stop Reader :=
  let (name, attached) := cutValue argument
  match Switch.ofLong? name, attached with
  | none, _ => refuse (.unexpectedArgument ("--".toList ++ name))
  | some (.value o), attached => r.beginOption o attached
  | some (.flag f), none => r.setFlag f
  | some .version, none => r.stop .version
  | some .help, none => r.stop .help
  | some _, some value => refuse (.unexpectedValue value ("--".toList ++ name))

/-- The letters behind one hyphen.  The rest of the argument is the value of an option. -/
def readShort (r : Reader) : Text → Except Stop Reader
  | [] => .ok r
  | c :: cs =>
    match Switch.ofShort? c with
    | none => refuse (.unexpectedArgument ['-', c])
    | some (.flag f) => do (← r.setFlag f).readShort cs
    | some (.value o) =>
      r.beginOption o
        (match cs with
          | [] => none
          | '=' :: value => some value
          | value => some value)
    | some .version => r.stop .version
    | some .help => r.stop .help

/-- An argument that is no option: the value an option waits for, or a path. -/
def readPlain (r : Reader) (argument : Text) : Except Stop Reader :=
  match r.pending, r.onlyFiles with
  | .option o none, false => .ok { r with pending := .option o (some argument) }
  | .files paths, _ => .ok { r with pending := .files (paths ++ [argument]) }
  | _, _ => do
    let r ← r.settle
    return { r with pending := .files [argument] }

/-- Reads one argument. -/
def readArgument (r : Reader) (argument : Text) : Except Stop Reader :=
  if r.onlyFiles then r.readPlain argument
  else
    match argument with
    | ['-', '-'] => .ok { r with onlyFiles := true }
    | '-' :: '-' :: cs => r.readLong cs
    | '-' :: c :: cs => r.readShort (c :: cs)
    | argument => r.readPlain argument

end Reader

/-- What the arguments ask for; at least one path is needed. -/
def Request.parse (arguments : List Text) : Except Stop Request := do
  let r ← arguments.foldlM Reader.readArgument {}
  let r ← r.settle
  if r.request.files.isEmpty then Reader.refuse .missingFiles else return r.request

end SqlLayout.CommandLine
