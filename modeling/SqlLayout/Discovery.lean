import SqlLayout.Error
import SqlLayout.Mode
import SqlLayout.Text.LetterCase

/-!
Path arguments name files, folders or patterns.  A file counts when it has the extension of an SQL
file.  Below a folder every SQL file counts unless its name or the name of a folder on the way
starts with a dot, or a glob of the mode excludes one of them by path or by name.  A pattern yields
files that are not excluded.  Anything else names nothing.

What the globs of a mode match and what a pattern yields is a parameter (`Globbing`), which runs take
from `SqlLayout.Glob` (`Globbing.standard`).
-/

namespace SqlLayout.Discovery

/-- Whether a path has the extension of an SQL file. -/
def isSqlFile (path : Text) : Bool :=
  (Path.extension? path).any fun e => sqlExtensions.contains (Text.lower e)

/-- A way to read globs. -/
structure Globbing where
  /-- The paths and names that a glob of a mode matches. -/
  exclude : Text → Except Glob.ExcludeFault (Text → Bool)
  /-- The paths that a pattern among the arguments yields. -/
  pattern : Text → Except Glob.PatternFault (FileSystem → List Text)

/-- What the globs of a mode match, in order; the first bad one is the error. -/
def compileExcludes (globbing : Globbing) (globs : List Text) : Except Error (List (Text → Bool)) :=
  globs.mapM fun glob =>
    match globbing.exclude glob with
    | .ok isMatch => .ok isMatch
    | .error fault => .error (.invalidGlob glob fault)

/-- Whether a glob matches the path. -/
def matchesAny (excludes : List (Text → Bool)) (path : Text) : Bool :=
  excludes.any fun isMatch => isMatch path

/-- Whether a glob matches the path or the name at its end. -/
def isExcluded (excludes : List (Text → Bool)) (path : Text) : Bool :=
  matchesAny excludes path || (Path.fileName? path).any (matchesAny excludes)

/-- Whether a walk passes over an entry of this name and path. -/
def isPassedOver (excludes : List (Text → Bool)) (name path : Text) : Bool :=
  Text.startsWith name ['.'] || isExcluded excludes path

/-- The SQL files below a folder that has the path `folder`. -/
def sqlFilesBelow (excludes : List (Text → Bool)) (folder : Text) : Folder → List Text
  | .empty => []
  | .file name _ others =>
    let path := Path.join folder name
    let rest := sqlFilesBelow excludes folder others
    if !isPassedOver excludes name path && isSqlFile path then path :: rest else rest
  | .folder name inside others =>
    let path := Path.join folder name
    let rest := sqlFilesBelow excludes folder others
    if isPassedOver excludes name path then rest
    else sqlFilesBelow excludes path inside ++ rest

/-! ## Patterns -/

/-- An entry met on the way through a pattern. -/
structure Found where
  path : Text
  name : Text
  isFolder : Bool
  deriving DecidableEq, Repr

/-- The entries of a folder that has the path `folder`. -/
def entries (folder : Text) : Folder → List Found
  | .empty => []
  | .file name _ others => ⟨Path.join folder name, name, false⟩ :: entries folder others
  | .folder name _ others => ⟨Path.join folder name, name, true⟩ :: entries folder others

/-- The entries below a folder that has the path `folder`, at any depth. -/
def entriesBelow (folder : Text) : Folder → List Found
  | .empty => []
  | .file name _ others => ⟨Path.join folder name, name, false⟩ :: entriesBelow folder others
  | .folder name inside others =>
    ⟨Path.join folder name, name, true⟩ ::
      (entriesBelow (Path.join folder name) inside ++ entriesBelow folder others)

/-- The folder part of the paths that a pattern yields: the current folder is not spelled out. -/
def spelledFolder (path : Text) : Text := if Path.components path = [.here] then [] else path

/-- The entries `.` and `..`, which only a pattern that starts with a dot matches. -/
def dotEntries (pieces : List Glob.Piece) (path : Text) : List Text :=
  if pieces.head? = some (.char '.') then
    (["..".toList, ".".toList].filter (Glob.piecesMatch pieces)).map (Path.join path)
  else []

/-- The paths that the steps of a pattern lead to from `path`. -/
def follow (fs : FileSystem) : List Glob.PatternStep → Text → List Text
  | [], path => [path]
  | .exactly name :: steps, path =>
    let next := Path.join (spelledFolder path) name
    let isThere :=
      if name = ".".toList || name = "..".toList then fs.isFolder path else fs.exists? next
    if isThere then follow fs steps next else []
  | .matching pieces :: steps, path =>
    match fs.folder? path with
    | none => []
    | some f =>
      (dotEntries pieces path).flatMap (follow fs steps) ++
        (entries (spelledFolder path) f).flatMap fun found =>
          if Glob.piecesMatch pieces found.name then follow fs steps found.path else []
  | .anywhere pieces :: steps, path =>
    match fs.folder? path with
    | none => []
    | some f =>
      (entriesBelow (spelledFolder path) f).flatMap fun found =>
        if Glob.piecesMatch pieces found.name then follow fs steps found.path else []
  | .folders :: steps, path =>
    match fs.folder? path with
    | none => []
    | some f =>
      (entriesBelow (spelledFolder path) f).flatMap fun found =>
        if found.isFolder then follow fs steps found.path else []

/-- The paths that a pattern yields, from the root of the file system or from the current folder
on. -/
def yielded (fs : FileSystem) (pattern : Glob.PathPattern) : List Text :=
  let start := if pattern.isAbsolute then ['/'] else ['.']
  (follow fs pattern.steps start).filter fun path => !pattern.foldersOnly || fs.isFolder path

/-- The globs of `SqlLayout.Glob`. -/
def Globbing.standard : Globbing where
  exclude glob := (Glob.Exclude.compile glob).map Glob.Exclude.isMatch
  pattern path := (Glob.PathPattern.compile path).map fun pattern fs => yielded fs pattern

/-! ## Path arguments -/

/-- The SQL files that one path argument names. -/
def named (globbing : Globbing) (fs : FileSystem) (excludes : List (Text → Bool)) (path : Text) :
    Except Error (List Text) :=
  if fs.isFile path then .ok (if isSqlFile path then [path] else [])
  else
    match fs.folder? path with
    | some f => .ok (sqlFilesBelow excludes path f)
    | none =>
      if Glob.isPattern path then
        match globbing.pattern path with
        | .error fault => .error (.invalidPattern path fault)
        | .ok yields =>
          .ok ((yields fs).filter fun p => fs.isFile p && isSqlFile p && !isExcluded excludes p)
      else .ok []

/-- Drops every path that has the components of an earlier one. -/
def dropRepeated (paths : List Text) : List Text :=
  paths.foldl (fun kept p => if kept.any (Path.same p) then kept else kept ++ [p]) []

/-- The SQL files that the path arguments name when globs are read in a given way, each once, in the
order of paths. -/
def matchingBy (globbing : Globbing) (fs : FileSystem) (mode : Mode) (paths : List Text) :
    Except Error (List Text) := do
  let excludes ← compileExcludes globbing mode.exclude
  let found ← paths.mapM (named globbing fs excludes)
  return (dropRepeated found.flatten).mergeSort fun p q => (Path.compare p q).isLE

/-- The SQL files that the path arguments name. -/
def matching : FileSystem → Mode → List Text → Except Error (List Text) := matchingBy .standard

end SqlLayout.Discovery
