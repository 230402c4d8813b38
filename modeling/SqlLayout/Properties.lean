import SqlLayout.Style

/-!
A property file holds `key=value`, `key: value` or `key value` lines.  Lines that start with `#` or
`!` are comments, and a line that ends in an odd number of backslashes goes on in the next one.  A
backslash in front of any other character stands for that character, or for a tab, line feed,
carriage return or form feed before `t`, `n`, `r` and `f`.
-/

namespace SqlLayout

/-- Keys with their values, each key once. -/
abbrev Properties := List (Text × Text)

namespace Properties

/-- The value of a key. -/
def get? (ps : Properties) (key : Text) : Option Text := ps.lookup key

/-- Sets a key; an earlier value is forgotten. -/
def put (ps : Properties) (key value : Text) : Properties :=
  ps.filter (fun p => p.1 != key) ++ [(key, value)]

/-- Sets every key of `qs`. -/
def merge (ps qs : Properties) : Properties := qs.foldl (fun ps q => ps.put q.1 q.2) ps

/-! ## One logical line -/

/-- The character that an escaped one stands for. -/
def unescapeChar : Char → Char
  | 't' => '\t'
  | 'n' => '\n'
  | 'r' => '\r'
  | 'f' => '\x0c'
  | c => c

/-- Takes the escapes out of a value; a backslash at the very end is dropped. -/
def unescape : Text → Text
  | [] => []
  | ['\\'] => []
  | '\\' :: c :: cs => unescapeChar c :: unescape cs
  | c :: cs => c :: unescape cs

/-- What follows white space behind a key: more white space and one `=` or `:` belong to it. -/
def dropSeparator (s : Text) : Text :=
  match s.dropWhile Text.isBlank with
  | '=' :: cs => cs
  | ':' :: cs => cs
  | cs => cs

/-- The key of a line, without its escapes, and what follows its separator. -/
def cutKey : Text → Text × Text
  | [] => ([], [])
  | ['\\'] => ([], [])
  | '\\' :: c :: cs => (unescapeChar c :: (cutKey cs).1, (cutKey cs).2)
  | c :: cs =>
    if c = '=' || c = ':' then ([], cs)
    else if Text.isBlank c then ([], dropSeparator cs)
    else (c :: (cutKey cs).1, (cutKey cs).2)

/-- The key and value of a line. -/
def splitLine (line : Text) : Text × Text :=
  ((cutKey line).1, unescape ((cutKey line).2.dropWhile Text.isBlank))

/-! ## A whole text -/

/-- What has been read: the logical line in progress and the properties found. -/
structure Reader where
  pending : Text
  found : Properties
  deriving DecidableEq, Repr

/-- The number of backslashes at the end of a line. -/
def trailingBackslashes (line : Text) : Nat := (line.reverse.takeWhile (· == '\\')).length

/-- Whether a line between logical lines says nothing. -/
def isSkipped (line : Text) : Bool :=
  line.isEmpty || Text.startsWith line ['#'] || Text.startsWith line ['!']

/-- Ends the logical line in progress. -/
def Reader.finish (line : Text) (found : Properties) : Reader :=
  ⟨[], found.put (splitLine line).1 (splitLine line).2⟩

/-- Reads one physical line. -/
def Reader.readLine (r : Reader) (raw : Text) : Reader :=
  let line := Text.trimStart raw
  if r.pending.isEmpty && isSkipped line then r
  else if trailingBackslashes line % 2 = 1 then { r with pending := r.pending ++ line.dropLast }
  else Reader.finish (r.pending ++ line) r.found

/-- The properties of a text.  A logical line that the text leaves open counts. -/
def parse (text : Text) : Properties :=
  let r := (Text.lines text).foldl Reader.readLine ⟨[], []⟩
  if r.pending.isEmpty then r.found else (Reader.finish r.pending r.found).found

/-! ## Styles from properties -/

/-- The namespace of the style settings. -/
def styleNamespace : Text := "sql.formatter.".toList

/-- The key of a style setting. -/
def key : StyleOption → Text
  | .keywordCase => "sql.formatter.keyword.case".toList
  | .indentKind => "sql.formatter.indent.type".toList
  | .indentSize => "sql.formatter.indent.size".toList
  | .delimiter => "sql.formatter.statement.delimiter".toList

/-- Whether the key names a style setting. -/
def isStyleKey (k : Text) : Bool :=
  [StyleOption.keywordCase, .indentKind, .indentSize, .delimiter].any fun o => key o == k

/-- A key in the namespace of the style settings that names none. -/
def unknownKey? (ps : Properties) : Option Text :=
  (ps.map (·.1)).find? fun k => Text.startsWith k styleNamespace && !isStyleKey k

/-- The style that the properties describe; what they do not set stays as it is by default. -/
def toStyle (ps : Properties) : Except OptionFault Style := do
  let keywordCase ← match ps.get? (key .keywordCase) with
    | some value => KeywordCase.parse value
    | none => .ok Style.default.keywordCase
  let indentKind ← match ps.get? (key .indentKind) with
    | some value => IndentKind.parse value
    | none => .ok Style.default.indentKind
  let indentSize ← match ps.get? (key .indentSize) with
    | some value => Style.parseIndentSize value
    | none => .ok Style.default.indentSize
  Style.make keywordCase indentKind indentSize
    ((ps.get? (key .delimiter)).getD Dialect.defaultDelimiter)

end Properties

end SqlLayout
