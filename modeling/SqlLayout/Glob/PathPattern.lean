import SqlLayout.Text.Basic

/-!
A path argument with `*`, `?` or `[` that names nothing by itself is a pattern.  Its components are
matched one by one against names, character by character; `**` is a component of its own and stands
for any number of folders.  A pattern is read twice: as a whole, which decides most faults, and
then component by component, where a class that spans a `/` is found to be broken.
-/

namespace SqlLayout.Glob

/-- What is wrong with a pattern. -/
inductive PatternProblem where
  | invalidClass
  | tooManyStars
  | recursiveNotAlone
  deriving DecidableEq, Repr

/-- A problem with the position, in characters, at which it is reported. -/
structure PatternFault where
  position : Nat
  problem : PatternProblem
  deriving DecidableEq, Repr

/-- The wording of a problem. -/
def PatternProblem.message : PatternProblem → Text
  | .invalidClass => "invalid range pattern".toList
  | .tooManyStars => "wildcards are either regular `*` or recursive `**`".toList
  | .recursiveNotAlone => "recursive wildcards must form a single path component".toList

/-- The wording of a fault. -/
def PatternFault.message (f : PatternFault) : Text :=
  "Pattern syntax error near position ".toList ++ Text.ofNat f.position ++ ": ".toList ++
    f.problem.message

/-- What one place of a component matches. -/
inductive Piece where
  | char (c : Char)
  | anyChar
  | anyChars
  /-- `**`, which only stands alone in its component. -/
  | anyFolders
  | oneOf (negated : Bool) (ranges : List (Char × Char))
  deriving DecidableEq, Repr

/-- The ranges of a class: `a-z`, or single characters. -/
def classRanges : Text → List (Char × Char)
  | a :: '-' :: z :: cs => (a, z) :: classRanges cs
  | c :: cs => (c, c) :: classRanges cs
  | [] => []

/-- The characters of a class and what follows its bracket.  The first character never closes. -/
def cutClass (s : Text) : Option (Text × Text) :=
  match s with
  | [] => none
  | c :: cs =>
    match cs.dropWhile (· != ']') with
    | [] => none
    | _ :: rest => some (c :: cs.takeWhile (· != ']'), rest)

theorem length_cutClass_lt {s body rest : Text} (h : cutClass s = some (body, rest)) :
    rest.length < s.length := by
  unfold cutClass at h
  split at h
  · cases h
  · next c cs =>
    split at h
    · cases h
    · next hd =>
      cases h
      have hle := (List.dropWhile_suffix (l := cs) (· != ']')).length_le
      rw [hd] at hle
      simp only [List.length_cons] at hle ⊢
      omega

/-- Reads a pattern of which `position` characters, the last of them `previous`, are read. -/
def readPieces (position : Nat) (previous : Option Char) : Text → Except PatternFault (List Piece)
  | [] => .ok []
  | '?' :: cs => do
    return .anyChar :: (← readPieces (position + 1) (some '?') cs)
  | '*' :: '*' :: '*' :: _ => .error ⟨position + 2, .tooManyStars⟩
  | '*' :: '*' :: cs =>
    if position = 0 || previous = some '/' then
      match cs with
      | [] => .ok [.anyFolders]
      | '/' :: cs => do
        return .anyFolders :: (← readPieces (position + 3) (some '/') cs)
      | _ => .error ⟨position + 2, .recursiveNotAlone⟩
    else .error ⟨position - 1, .recursiveNotAlone⟩
  | '*' :: cs => do
    return .anyChars :: (← readPieces (position + 1) (some '*') cs)
  | '[' :: '!' :: cs =>
    match h : cutClass cs with
    | none => .error ⟨position, .invalidClass⟩
    | some (body, rest) => do
      have := length_cutClass_lt h
      return .oneOf true (classRanges body) ::
        (← readPieces (position + body.length + 3) (some ']') rest)
  | '[' :: cs =>
    match h : cutClass cs with
    | none => .error ⟨position, .invalidClass⟩
    | some (body, rest) => do
      have := length_cutClass_lt h
      return .oneOf false (classRanges body) ::
        (← readPieces (position + body.length + 2) (some ']') rest)
  | c :: cs => do
    return .char c :: (← readPieces (position + 1) (some c) cs)
termination_by s => s.length
decreasing_by all_goals simp_wf; try omega

/-- Whether the pieces match all of a name. -/
def piecesMatch : List Piece → Text → Bool
  | [], name => name.isEmpty
  | .anyChars :: ps, name => (Text.suffixes name).any (piecesMatch ps)
  | .anyFolders :: ps, name => (Text.suffixes name).any (piecesMatch ps)
  | .char c :: ps, name =>
    match name with
    | [] => false
    | x :: xs => x == c && piecesMatch ps xs
  | .anyChar :: ps, name =>
    match name with
    | [] => false
    | _ :: xs => piecesMatch ps xs
  | .oneOf negated ranges :: ps, name =>
    match name with
    | [] => false
    | x :: xs => ranges.any (fun r => r.1 ≤ x && x ≤ r.2) != negated && piecesMatch ps xs

/-- One step from a folder on. -/
inductive PatternStep where
  /-- To the entry of this name. -/
  | exactly (name : Text)
  /-- To every entry whose name matches. -/
  | matching (pieces : List Piece)
  /-- To every entry at any depth whose name matches. -/
  | anywhere (pieces : List Piece)
  /-- To every folder at any depth. -/
  | folders
  deriving DecidableEq, Repr

/-- The name that pieces without wildcards spell. -/
def exactName? (ps : List Piece) : Option Text :=
  ps.mapM fun p =>
    match p with
    | .char c => some c
    | _ => none

/-- The steps of a list of components; `**` goes together with the component behind it. -/
def stepsOf : List (List Piece) → List PatternStep
  | [] => []
  | [[.anyFolders]] => [.folders]
  | [.anyFolders] :: [.anyFolders] :: ps => stepsOf ([.anyFolders] :: ps)
  | [.anyFolders] :: p :: ps => .anywhere p :: stepsOf ps
  | p :: ps =>
    (match exactName? p with
      | some name => .exactly name
      | none => .matching p) :: stepsOf ps

/-- A compiled pattern. -/
structure PathPattern where
  steps : List PatternStep
  /-- Whether the pattern starts at the root of the file system. -/
  isAbsolute : Bool
  /-- Whether the pattern ends in `/` and so names folders only. -/
  foldersOnly : Bool
  deriving DecidableEq, Repr

/-- Whether a text is meant as a pattern. -/
def isPattern (s : Text) : Bool := s.any fun c => c == '*' || c == '?' || c == '['

/-- The components of a pattern; a `/` at the end adds none. -/
def patternComponents (pattern : Text) : List Text :=
  let pieces := Text.splitAtMark '/' pattern
  if pieces.getLast? = some [] then pieces.dropLast else pieces

/-- Compiles a pattern. -/
def PathPattern.compile (pattern : Text) : Except PatternFault PathPattern := do
  let _ ← readPieces 0 none pattern
  let isAbsolute := Text.startsWith pattern ['/']
  let components := patternComponents (if isAbsolute then pattern.tail else pattern)
  let pieces ← components.mapM fun c => readPieces 0 none c
  return ⟨stepsOf pieces, isAbsolute, Text.endsWith pattern '/'⟩

end SqlLayout.Glob
