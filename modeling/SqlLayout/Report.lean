import SqlLayout.Text.Basic

/-!
A report lists what happened to each file of a run, in the order of their paths.
-/

namespace SqlLayout

/-- What happened to a file. -/
inductive Outcome where
  | unchanged
  /-- Changed, or to be changed; with the difference when it was asked for. -/
  | changed (diff : Option Text)
  | failed (message : Text)
  deriving DecidableEq, Repr

namespace Outcome

/-- Whether the file stayed as it is. -/
def isUnchanged : Outcome → Bool
  | .unchanged => true
  | _ => false

/-- Whether the file changed. -/
def isChanged : Outcome → Bool
  | .changed _ => true
  | _ => false

/-- Whether the file failed. -/
def isFailed : Outcome → Bool
  | .failed _ => true
  | _ => false

/-- The difference, if there is one. -/
def diff? : Outcome → Option Text
  | .changed diff => diff
  | _ => none

/-- The error, if there is one. -/
def error? : Outcome → Option Text
  | .failed message => some message
  | _ => none

end Outcome

/-- A file and what happened to it. -/
structure FileResult where
  path : Text
  outcome : Outcome
  deriving DecidableEq, Repr

/-- What happened to the files of a run. -/
structure Report where
  results : List FileResult := []
  deriving DecidableEq, Repr

namespace Report

/-- Adds a result at the end. -/
def add (r : Report) (result : FileResult) : Report := ⟨r.results ++ [result]⟩

/-- The number of files. -/
def total (r : Report) : Nat := r.results.length

/-- The number of files that stayed as they are. -/
def unchanged (r : Report) : Nat := r.results.countP (·.outcome.isUnchanged)

/-- The number of files that changed. -/
def changed (r : Report) : Nat := r.results.countP (·.outcome.isChanged)

/-- The number of files that failed. -/
def failed (r : Report) : Nat := r.results.countP (·.outcome.isFailed)

/-- A count with its label, left out when it is zero. -/
def countLabel (n : Nat) (label : String) : Text :=
  if n = 0 then [] else ", ".toList ++ Text.ofNat n ++ label.toList

/-- The counts in one line. -/
def summary (r : Report) : Text :=
  Text.ofNat r.total ++ " file(s) processed".toList ++ countLabel r.changed " reformatted" ++
    countLabel r.unchanged " unchanged" ++ countLabel r.failed " error(s)"

/-- One line for an error of a file. -/
def errorLine (path message : Text) : Text :=
  "error: ".toList ++ path ++ ": ".toList ++ message ++ ['\n']

/-- The errors, a line each. -/
def errorLines (r : Report) : Text :=
  r.results.flatMap fun result =>
    match result.outcome.error? with
    | some message => errorLine result.path message
    | none => []

/-- What a verbose run says about each file; `writes` tells whether files were written. -/
def verboseLines (r : Report) (writes : Bool) : Text :=
  r.results.flatMap fun result =>
    match result.outcome with
    | .unchanged => []
    | .changed _ =>
      (if writes then "reformatted ".toList else "would reformat ".toList) ++ result.path ++ ['\n']
    | .failed message => errorLine result.path message

/-! ## Differences in colour -/

/-- The escape sequence that ends all colours. -/
def resetColor : Text := "\x1b[0m".toList

/-- The escape sequence for a line of a difference. -/
def lineColor (line : Text) : Text :=
  if Text.startsWith line "---".toList || Text.startsWith line "+++".toList then
    "\x1b[36m".toList
  else if Text.startsWith line ['-'] then "\x1b[31m".toList
  else if Text.startsWith line ['+'] then "\x1b[32m".toList
  else []

/-- A difference as shown, ended by a line feed. -/
def showDiff (color : Bool) (diff : Text) : Text :=
  let body :=
    if color then
      ((Text.linesKeepingEnds diff).flatMap fun line => resetColor ++ lineColor line ++ line) ++
        resetColor
    else diff
  if Text.endsWith diff '\n' then body else body ++ ['\n']

/-- All differences as shown. -/
def showDiffs (r : Report) (color : Bool) : Text :=
  (r.results.flatMap fun result =>
    match result.outcome.diff? with
    | some diff => showDiff color diff
    | none => []) ++ if color then resetColor else []

end Report

end SqlLayout
