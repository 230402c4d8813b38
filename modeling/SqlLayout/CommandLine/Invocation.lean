import SqlLayout.CommandLine.Arguments
import SqlLayout.Run
import SqlLayout.Settings

/-!
An invocation combines the settings that it finds with the arguments, which win, and then lays out
either the standard input or the files that the arguments name.
-/

namespace SqlLayout.CommandLine

/-- What surrounds an invocation. -/
structure Surroundings where
  workspace : Workspace
  /-- The bytes of the standard input. -/
  input : ByteArray
  /-- Whether the environment asks for no colour. -/
  noColorSet : Bool

/-- What an invocation leaves behind. -/
structure Result where
  code : Nat
  output : Text := []
  messages : Text := []
  fs : FileSystem

/-- The exit code of usage faults, configuration errors and failed files. -/
def failureCode : Nat := 2

/-- The exit code of a check that found something to change. -/
def changesCode : Nat := 1

/-- The exit code of a crash. -/
def crashCode : Nat := 101

/-- The exit code for an error. -/
def errorCode : Error → Nat
  | .walkOverrun => crashCode
  | _ => failureCode

/-- What is said about an error.  What a crash leaves on the screen is not told by the program. -/
def errorMessages : Error → Text
  | .walkOverrun => []
  | e => "Error: ".toList ++ e.message ++ ['\n']

/-- The mode that a request asks for on top of the settings that were found. -/
def Request.modeOver (r : Request) (base : Mode) : Except OptionFault Mode := do
  let style ← base.style.overlay r.style
  return {
    style
    check := r.has .check
    diff := r.has .diff
    fast := r.has .fast
    exclude := if r.exclude.isEmpty then base.exclude else r.exclude
    verbose := r.has .verbose
    quiet := r.has .quiet
    noProgressBar := r.has .noProgressBar
    noColor := r.has .noColor
    forceColor := r.has .forceColor
    threads := r.threads.getD 0
    singleProcess := r.has .singleProcess }

/-- The mode of a request, or the wording of why there is none. -/
def Request.mode (r : Request) (w : Workspace) : Except Text Mode :=
  match Settings.load w r.files r.settings with
  | .error e => .error ("failed to load configuration: ".toList ++ e.chain)
  | .ok base =>
    match r.modeOver base with
    | .error f => .error ("invalid formatter options: ".toList ++ (Error.invalidOption f).message)
    | .ok mode => .ok mode

/-- Lays out the standard input. -/
def formatInput (s : Surroundings) (mode : Mode) : Result :=
  match Folder.decode s.input with
  | .error fault =>
    { code := failureCode, fs := s.workspace.fs
      messages := "Error reading stdin: ".toList ++ fault.message ++ ['\n'] }
  | .ok sql =>
    match formatChecked mode sql with
    | .error e =>
      { code := errorCode e, fs := s.workspace.fs, messages := errorMessages e }
    | .ok out => { code := 0, output := out, fs := s.workspace.fs }

/-- What a run says about its report. -/
def reportMessages (mode : Mode) (noColorSet : Bool) (report : Report) : Text :=
  (if mode.diff then report.showDiffs (mode.color noColorSet) else []) ++
    (if mode.quiet then []
      else
        (if mode.verbose then report.verboseLines mode.writes else []) ++ report.summary ++ ['\n'])
      ++ report.errorLines

/-- The exit code for a report. -/
def reportCode (mode : Mode) (report : Report) : Nat :=
  if 0 < report.failed then failureCode
  else if !mode.writes && 0 < report.changed then changesCode
  else 0

/-- Lays out the files that a request names. -/
def formatFiles (s : Surroundings) (mode : Mode) (files : List Text) : Result :=
  match run mode s.workspace.fs files with
  | (.error e, fs) => { code := errorCode e, fs, messages := errorMessages e }
  | (.ok report, fs) =>
    { code := reportCode mode report, fs
      messages := reportMessages mode s.noColorSet report }

/-- Carries out a request.  A single hyphen as the only path stands for the standard input. -/
def Request.execute (r : Request) (s : Surroundings) : Result :=
  match r.mode s.workspace with
  | .error reason =>
    { code := failureCode, fs := s.workspace.fs
      messages := "Configuration error: ".toList ++ reason ++ ['\n'] }
  | .ok mode =>
    if r.files = [['-']] then formatInput s mode else formatFiles s mode r.files

/-- The name and version of the program. -/
def versionLine : Text := "sqltidy 0.1.0\n".toList

/-- How the program is called. -/
def usageLine : Text := "Usage: sqltidy [OPTIONS] <FILES>...\n".toList

/-- Reads the arguments and carries out what they ask for. -/
def invoke (arguments : List Text) (s : Surroundings) : Result :=
  match Request.parse arguments with
  | .error (.fault f) =>
    { code := failureCode, fs := s.workspace.fs
      messages := f.message ++ "\n\n".toList ++ usageLine }
  | .error .version => { code := 0, output := versionLine, fs := s.workspace.fs }
  | .error .help => { code := 0, output := usageLine, fs := s.workspace.fs }
  | .ok r => r.execute s

end SqlLayout.CommandLine
