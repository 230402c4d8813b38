import SqlLayout.Error
import SqlLayout.Mode
import SqlLayout.Properties
import SqlLayout.Toml.Document

/-!
Settings come from a property file or from a TOML file.  A file that was asked for has to exist.
Otherwise the folders above the inputs are searched, those of the first input first and each from
the innermost outwards, for `sqltidy.toml` or for a `pyproject.toml` with a `tool.sqltidy` section;
the settings of the user come last.
-/

namespace SqlLayout

/-- The files that a command works on: the file system and, apart from it, the settings of the
user. -/
structure Workspace where
  fs : FileSystem
  userSettings : Option ByteArray

/-- The settings in a TOML file. -/
structure FileSettings where
  keywordCase : Option Text := none
  indentKind : Option Text := none
  indentSize : Option Nat := none
  delimiter : Option Text := none
  exclude : List Text := []
  deriving DecidableEq, Repr

namespace FileSettings

/-- The text of a string value. -/
def text? : Toml.Value → Option Text
  | .string t => some t
  | _ => none

/-- The number of an integer value that is not negative. -/
def size? : Toml.Value → Option Nat
  | .integer n => if 0 ≤ n then some n.toNat else none
  | _ => none

/-- The texts of an array of strings. -/
def texts? : Toml.Value → Option (List Text)
  | .array vs => vs.mapM text?
  | _ => none

/-- The names of the settings, in their order. -/
inductive Key where
  | keywordCase
  | indentKind
  | indentSize
  | delimiter
  | exclude
  deriving DecidableEq, Repr

/-- The names of the settings as files write them. -/
def keys : List (String × Key) :=
  [("keyword_case", .keywordCase), ("indent_type", .indentKind), ("indent_size", .indentSize),
    ("statement_delimiter", .delimiter), ("exclude", .exclude)]

/-- The setting of a name. -/
def Key.ofName? (name : Text) : Option Key := (keys.find? fun k => k.1.toList == name).map (·.2)

/-- Takes over one setting; a value of the wrong type is refused. -/
def take (f : FileSettings) (key : Key) (v : Toml.Value) : Option FileSettings :=
  match key with
  | .keywordCase => (text? v).map fun t => { f with keywordCase := some t }
  | .indentKind => (text? v).map fun t => { f with indentKind := some t }
  | .indentSize => (size? v).map fun n => { f with indentSize := some n }
  | .delimiter => (text? v).map fun t => { f with delimiter := some t }
  | .exclude => (texts? v).map fun ts => { f with exclude := ts }

/-- The settings in the entries of a table; an unknown name is refused. -/
def ofEntries (es : Toml.Entries) : Option FileSettings :=
  es.foldlM (fun f e => (Key.ofName? e.1).bind fun key => f.take key e.2) {}

/-- The settings in a list that has them in their order.  Only the globs may be left out. -/
def ofItems (items : List Toml.Value) : Option FileSettings :=
  if items.length = keys.length || items.length + 1 = keys.length then
    (keys.zip items).foldlM (fun f k => f.take k.1.2 k.2) {}
  else none

/-- The choices that the settings make; the case is read before the indentation. -/
def choices (f : FileSettings) : Except OptionFault Style.Choices := do
  let keywordCase ← f.keywordCase.mapM KeywordCase.parse
  let indentKind ← f.indentKind.mapM IndentKind.parse
  return { keywordCase, indentKind, indentSize := f.indentSize, delimiter := f.delimiter }

/-- The mode with the settings in place of its own. -/
def applyTo (f : FileSettings) (mode : Mode) : Except OptionFault Mode := do
  let style ← mode.style.overlay (← f.choices)
  return { mode with style, exclude := if f.exclude.isEmpty then mode.exclude else f.exclude }

end FileSettings

namespace Settings

/-- A fault of a setting as an error. -/
def liftOption {α : Type} : Except OptionFault α → Except Error α
  | .ok a => .ok a
  | .error fault => .error (.invalidOption fault)

/-- A fault of a file as an error. -/
def liftRead {α : Type} : Except ReadFault α → Except Error α
  | .ok a => .ok a
  | .error fault => .error (.unreadable fault)

/-! ## Property files -/

/-- The style that properties describe. -/
def styleOfProperties (ps : Properties) : Except Error Style :=
  match ps.unknownKey? with
  | some key => .error (.unknownProperty key)
  | none => liftOption ps.toStyle

/-- The style that property files describe together; later files win. -/
def styleOfFiles (fs : FileSystem) (paths : List Text) : Except Error Style := do
  let texts ← paths.mapM fun path => liftRead (fs.read path)
  styleOfProperties (texts.foldl (fun ps text => Properties.merge ps (Properties.parse text)) [])

/-! ## TOML files -/

/-- The name of a settings file of this program. -/
def settingsName : Text := "sqltidy.toml".toList

/-- The name of a project file that may hold settings. -/
def projectName : Text := "pyproject.toml".toList

/-- The section of a project file that holds the settings. -/
def projectSection? (es : Toml.Entries) : Option Toml.Value :=
  match es.lookup "tool".toList with
  | some (.table _ inner) => inner.lookup "sqltidy".toList
  | _ => none

/-- A value of a project file: moments in time count as the texts that spell them. -/
def spellMoments : Toml.Value → Toml.Value
  | .moment text => .string text
  | .array items =>
    .array (items.map fun item =>
      match item with
      | .moment text => .string text
      | item => item)
  | v => v

/-- The settings in the section of a project file: a table, or a list in the order of the settings.
Without a section there are none. -/
def ofSection : Option Toml.Value → Option FileSettings
  | none => some {}
  | some (.table _ es) => FileSettings.ofEntries (es.map fun e => (e.1, spellMoments e.2))
  | some (.array items) => FileSettings.ofItems (items.map spellMoments)
  | some _ => none

/-- The settings in the text of a TOML file; a project file has them in a section. -/
def parseToml (isProject : Bool) (text : Text) : Except Error FileSettings :=
  let settings : Option FileSettings := do
    let es ← Toml.parse text
    if isProject then ofSection (projectSection? es) else FileSettings.ofEntries es
  match settings with
  | some f => .ok f
  | none => .error .invalidToml

/-! ## Discovery -/

/-- A folder and the folders above it, innermost first.  The components are given and returned last
first. -/
def upwards : List Component → List (List Component)
  | [] => [[]]
  | [.root] => [[.root]]
  | c :: cs => (c :: cs) :: upwards cs

/-- The folder in which the search for an input starts: the input itself when it is a folder, else
the folder that holds it. -/
def startFolder (fs : FileSystem) (path : Text) : List Component :=
  if fs.isFolder path then Path.components path
  else
    match Path.parent? (Path.components path) with
    | none | some [] => [.here]
    | some folder => folder

/-- The folders to search for one input. -/
def searchedFor (fs : FileSystem) (path : Text) : List (List Component) :=
  (upwards (startFolder fs path).reverse).map List.reverse

/-- The folders to search, each once. -/
def searched (fs : FileSystem) (paths : List Text) : List (List Component) :=
  (paths.flatMap (searchedFor fs)).foldl
    (fun seen folder => if seen.contains folder then seen else seen ++ [folder]) []

/-- The path that spells some components. -/
def spell (components : List Component) : Text :=
  match components with
  | [.root] => ['/']
  | components =>
    ['/'].intercalate (components.map fun c =>
      match c with
      | .root => []
      | .here => ['.']
      | .up => ['.', '.']
      | .name n => n)

/-- Whether a project file can be read and has a section with settings. -/
def hasSection (fs : FileSystem) (path : Text) : Bool :=
  match fs.read path with
  | .ok text => ((Toml.parse text).bind projectSection?).isSome
  | .error _ => false

/-- The settings file in a folder, if there is one. -/
def settingsIn? (fs : FileSystem) (folder : List Component) : Option Text :=
  let settings := Path.join (spell folder) settingsName
  let project := Path.join (spell folder) projectName
  if fs.exists? settings then some settings
  else if fs.exists? project && hasSection fs project then some project
  else none

/-- The settings file that the inputs lead to. -/
def discover (fs : FileSystem) (paths : List Text) : Option Text :=
  (searched fs paths).findSome? (settingsIn? fs)

/-! ## Loading -/

/-- The mode that a settings file describes. -/
def loadFile (fs : FileSystem) (path : Text) : Except Error Mode := do
  if Path.extension? path = some "properties".toList then
    return { style := ← styleOfFiles fs [path] }
  else
    let text ← liftRead (fs.read path)
    let settings ← parseToml (Path.fileName? path = some projectName) text
    liftOption (settings.applyTo {})

/-- The mode that the settings of the user describe. -/
def loadUser (content : ByteArray) : Except Error Mode := do
  let text ← liftRead (Folder.decode content)
  let settings ← parseToml false text
  liftOption (settings.applyTo {})

/-- The mode for some inputs: from the file asked for, else from the one that is found, else from
the settings of the user, else the default. -/
def load (w : Workspace) (paths : List Text) (file : Option Text) : Except Error Mode :=
  match file with
  | some path => if w.fs.exists? path then loadFile w.fs path else .error (.settingsMissing path)
  | none =>
    match discover w.fs paths with
    | some path => loadFile w.fs path
    | none =>
      match w.userSettings with
      | some content => loadUser content
      | none => .ok {}

end Settings

end SqlLayout
