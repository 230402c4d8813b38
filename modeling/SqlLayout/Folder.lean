import SqlLayout.Path

/-!
A folder is a value: a listing of files with their bytes and of folders inside it.  A location is
the list of names that leads to an entry.  A file system is its root folder together with the
location of the current folder, in which paths start unless they start with `/`.  A path resolves to
a location by going through its pieces; every piece but the last has to be a folder.  There are no
links.
-/

namespace SqlLayout

/-- A listing of named files and folders. -/
inductive Folder where
  | empty
  | file (name : Text) (content : ByteArray) (others : Folder)
  | folder (name : Text) (inside : Folder) (others : Folder)

/-- What a name in a folder stands for. -/
inductive Entry where
  | file (content : ByteArray)
  | folder (inside : Folder)

/-- The names that lead to an entry. -/
abbrev Location := List Text

/-- Why a file cannot be read. -/
inductive ReadFault where
  | missing
  | notAFolder
  | isAFolder
  | invalidUtf8
  deriving DecidableEq, Repr

/-- The wording of a fault. -/
def ReadFault.message : ReadFault → Text
  | .missing => "No such file or directory (os error 2)".toList
  | .notAFolder => "Not a directory (os error 20)".toList
  | .isAFolder => "Is a directory (os error 21)".toList
  | .invalidUtf8 => "stream did not contain valid UTF-8".toList

namespace Folder

/-- The entry of a name. -/
def entry? (name : Text) : Folder → Option Entry
  | .empty => none
  | .file n content others => if n = name then some (.file content) else others.entry? name
  | .folder n inside others => if n = name then some (.folder inside) else others.entry? name

/-- Gives a name to an entry; an entry that had the name is replaced. -/
def set (name : Text) (e : Entry) : Folder → Folder
  | .empty =>
    match e with
    | .file content => .file name content .empty
    | .folder inside => .folder name inside .empty
  | .file n content others =>
    if n = name then
      match e with
      | .file content => .file n content others
      | .folder inside => .folder n inside others
    else .file n content (others.set name e)
  | .folder n inside others =>
    if n = name then
      match e with
      | .file content => .file n content others
      | .folder inside => .folder n inside others
    else .folder n inside (others.set name e)

/-- Takes a name out of a folder. -/
def erase (name : Text) : Folder → Folder
  | .empty => .empty
  | .file n content others =>
    if n = name then others else .file n content (others.erase name)
  | .folder n inside others =>
    if n = name then others else .folder n inside (others.erase name)

/-- The folder of a name, empty when there is none. -/
def subfolder (name : Text) (f : Folder) : Folder :=
  match f.entry? name with
  | some (.folder inside) => inside
  | _ => .empty

/-- The entry at a location. -/
def entryAt? (f : Folder) : Location → Option Entry
  | [] => some (.folder f)
  | n :: ns =>
    match f.entry? n with
    | some (.folder inside) => inside.entryAt? ns
    | some (.file content) => if ns.isEmpty then some (.file content) else none
    | none => none

/-- Writes a file at a location; folders on the way that do not exist are made. -/
def writeAt (f : Folder) (content : ByteArray) : Location → Folder
  | [] => f
  | [n] => f.set n (.file content)
  | n :: ns => f.set n (.folder ((f.subfolder n).writeAt content ns))

/-- Makes a folder at a location, with the folders on the way. -/
def makeAt (f : Folder) : Location → Folder
  | [] => f
  | n :: ns => f.set n (.folder ((f.subfolder n).makeAt ns))

/-- Takes away the entry at a location. -/
def eraseAt (f : Folder) : Location → Folder
  | [] => f
  | [n] => f.erase n
  | n :: ns => f.set n (.folder ((f.subfolder n).eraseAt ns))

/-- Goes on from a location through the pieces of a path.  Above the root is the root. -/
def resolveFrom (root : Folder) (location : Location) : List Text → Except ReadFault Location
  | [] => .ok location
  | piece :: pieces =>
    match root.entryAt? location with
    | none => .error .missing
    | some (.file _) => .error .notAFolder
    | some (.folder f) =>
      if piece = [] || piece = ['.'] then root.resolveFrom location pieces
      else if piece = ['.', '.'] then root.resolveFrom location.dropLast pieces
      else if (f.entry? piece).isSome then root.resolveFrom (location ++ [piece]) pieces
      else .error .missing

/-- The text of some bytes. -/
def decode (content : ByteArray) : Except ReadFault Text :=
  match String.fromUTF8? content with
  | some s => .ok s.toList
  | none => .error .invalidUtf8

/-- The bytes of a text. -/
def encode (text : Text) : ByteArray := (String.ofList text).toUTF8

/-! ## All files -/

/-- Every file below a location with its bytes. -/
def filesBelow (location : Location) : Folder → List (Location × ByteArray)
  | .empty => []
  | .file n content others => (location ++ [n], content) :: others.filesBelow location
  | .folder n inside others =>
    inside.filesBelow (location ++ [n]) ++ others.filesBelow location

/-- The location that a path spells, without looking at any folder. -/
def locationOf (path : Text) : Location :=
  (Path.components path).filterMap fun c =>
    match c with
    | .name n => some n
    | _ => none

/-- The path that spells a location. -/
def pathOf (location : Location) : Text := ['/'].intercalate location

/-- A folder with the given files. -/
def ofFiles (files : List (Text × ByteArray)) : Folder :=
  files.foldl (fun f file => f.writeAt file.2 (locationOf file.1)) .empty

/-- The files of `new` that `old` does not have with the same bytes. -/
def changes (old new : Folder) : List (Text × ByteArray) :=
  (new.filesBelow []).filterMap fun file =>
    match old.entryAt? file.1 with
    | some (.file content) => if content.data = file.2.data then none else some (pathOf file.1, file.2)
    | _ => some (pathOf file.1, file.2)

end Folder

/-! ## File systems -/

/-- All files and folders there are, and the location of the current folder. -/
structure FileSystem where
  root : Folder
  here : Location

namespace FileSystem

/-- A current folder at a location, with nothing else around it. -/
def ofFolder (here : Location) (folder : Folder) : FileSystem :=
  ⟨here.foldr (fun name inside => .folder name inside .empty) folder, here⟩

/-- The location that a path leads to: from the root when it starts with `/`, else from the current
folder.  The empty path leads nowhere. -/
def resolve (fs : FileSystem) (path : Text) : Except ReadFault Location :=
  match Text.splitAtMark '/' path with
  | [[]] => .error .missing
  | [] :: pieces => fs.root.resolveFrom [] pieces
  | pieces => fs.root.resolveFrom fs.here pieces

/-- The entry that a path leads to. -/
def entry (fs : FileSystem) (path : Text) : Except ReadFault Entry := do
  let location ← fs.resolve path
  match fs.root.entryAt? location with
  | some e => .ok e
  | none => .error .missing

/-- Whether a path leads to a file. -/
def isFile (fs : FileSystem) (path : Text) : Bool :=
  match fs.entry path with
  | .ok (.file _) => true
  | _ => false

/-- The folder that a path leads to. -/
def folder? (fs : FileSystem) (path : Text) : Option Folder :=
  match fs.entry path with
  | .ok (.folder f) => some f
  | _ => none

/-- Whether a path leads to a folder. -/
def isFolder (fs : FileSystem) (path : Text) : Bool := (fs.folder? path).isSome

/-- Whether a path leads anywhere. -/
def exists? (fs : FileSystem) (path : Text) : Bool := (fs.entry path).toOption.isSome

/-- The text of the file that a path leads to. -/
def read (fs : FileSystem) (path : Text) : Except ReadFault Text := do
  match ← fs.entry path with
  | .file content => Folder.decode content
  | .folder _ => .error .isAFolder

/-- Writes the file that a path leads to; nothing happens when it leads nowhere. -/
def write (fs : FileSystem) (path text : Text) : FileSystem :=
  match fs.resolve path with
  | .ok location => { fs with root := fs.root.writeAt (Folder.encode text) location }
  | .error _ => fs

/-- Takes away the file that a path leads to. -/
def remove (fs : FileSystem) (path : Text) : Except ReadFault FileSystem := do
  let location ← fs.resolve path
  match fs.root.entryAt? location with
  | some (.file _) => .ok { fs with root := fs.root.eraseAt location }
  | some (.folder _) => .error .isAFolder
  | none => .error .missing

end FileSystem

end SqlLayout
