import SqlLayout.Toml.Scalar

/-!
A document is read line by line into the entries of its root table.  There is no result when the
text is not TOML 1.0, when a key is set twice or when values nest too deeply.
-/

namespace SqlLayout.Toml

/-- Values and keys nest less deeply than this. -/
def nestingLimit : Nat := 80

/-! ## Keys -/

/-- The characters of keys without quotes. -/
def isKeyChar (c : Char) : Bool := c.isAlphanum || c == '_' || c == '-'

/-- One part of a key. -/
def readKeyPart : Text → Option (Text × Text)
  | '"' :: cs => readBasic cs
  | '\'' :: cs => readLiteral cs
  | cs =>
    let part := cs.takeWhile isKeyChar
    if part.isEmpty then none else some (part, cs.dropWhile isKeyChar)

/-- The parts of a key, with at most `limit` of them. -/
def readKeyParts : Nat → Text → Option (List Text × Text)
  | 0, _ => none
  | limit + 1, s => do
    let (part, s) ← readKeyPart (skipWhite s)
    match skipWhite s with
    | '.' :: cs => do
      let (parts, s) ← readKeyParts limit cs
      some (part :: parts, s)
    | s => some ([part], s)

/-- A key; white space around it and around its dots does not matter. -/
def readKey (s : Text) : Option (List Text × Text) := readKeyParts (nestingLimit - 1) s

/-! ## Values -/

/-- Drops white space, line ends and comments. -/
def skipTrivia (inComment : Bool) : Text → Text
  | [] => []
  | '\r' :: '\n' :: cs => skipTrivia false cs
  | c :: cs =>
    if c = '\n' then skipTrivia false cs
    else if inComment then if isLineChar c then skipTrivia true cs else c :: cs
    else if isWhite c then skipTrivia false cs
    else if c = '#' then skipTrivia true cs
    else c :: cs

/-- The items of an array behind its bracket, at most `limit` of them. -/
def readItems (readValue : Text → Option (Value × Text)) : Nat → Text → Option (List Value × Text)
  | 0, _ => none
  | limit + 1, s =>
    match skipTrivia false s with
    | ']' :: rest => some ([], rest)
    | s => do
      let (v, s) ← readValue s
      match skipTrivia false s with
      | ',' :: rest => do
        let (vs, rest) ← readItems readValue limit rest
        some (v :: vs, rest)
      | ']' :: rest => some ([v], rest)
      | _ => none

/-- A key with its value, up to the white space behind the value. -/
def readPair (readValue : Text → Option (Value × Text)) (s : Text) :
    Option (List Text × Value × Text) := do
  let (parts, s) ← readKey s
  let s ← readMark '=' s
  let (v, s) ← readValue (skipWhite s)
  some (parts, v, skipWhite s)

/-- The pairs of an inline table from one of its keys on, at most `limit` of them. -/
def readPairs (readValue : Text → Option (Value × Text)) (es : Entries) :
    Nat → Text → Option (Entries × Text)
  | 0, _ => none
  | limit + 1, s => do
    let (parts, v, s) ← readPair readValue s
    let es ← es.add parts v
    match s with
    | ',' :: rest => readPairs readValue es limit rest
    | '\x7d' :: rest => some (es, rest)
    | _ => none

/-- A value in which brackets and braces nest less deeply than `depth`. -/
def readValue : Nat → Text → Option (Value × Text)
  | 0, _ => none
  | depth + 1, s =>
    match s with
    | '"' :: _ => (readString s).map fun r => (.string r.1, r.2)
    | '\'' :: _ => (readString s).map fun r => (.string r.1, r.2)
    | '[' :: cs =>
      if depth = 0 then none
      else (readItems (readValue depth) (cs.length + 1) cs).map fun r => (.array r.1, r.2)
    | '\x7b' :: cs =>
      if depth = 0 then none
      else
        match skipWhite cs with
        | '\x7d' :: rest => some (.table .inline [], rest)
        | cs =>
          (readPairs (readValue depth) [] (cs.length + 1) cs).map fun r =>
            (.table .inline r.1, r.2)
    | s => readBare s

/-! ## Lines -/

/-- What follows the end of a line; a comment may stand in front of it. -/
def readLineEnd (s : Text) : Option Text :=
  let s := skipWhite s
  let s :=
    match s with
    | '#' :: cs => cs.dropWhile isLineChar
    | s => s
  match s with
  | [] => some []
  | '\n' :: rest => some rest
  | '\r' :: '\n' :: rest => some rest
  | _ => none

/-- A document that is being read. -/
structure Reader where
  /-- The entries of the root table. -/
  entries : Entries
  /-- The key of the header that the lines stand under. -/
  header : List Text

/-- Reads one line that is not blank: a header, or a key with its value. -/
def Reader.readLine (r : Reader) (s : Text) : Option (Reader × Text) :=
  match s with
  | '[' :: '[' :: cs => do
    let (parts, s) ← readKey cs
    let s ← readMark ']' s
    let s ← readMark ']' s
    let s ← readLineEnd s
    let es ← r.entries.openArrayTable parts
    some (⟨es, parts⟩, s)
  | '[' :: cs => do
    let (parts, s) ← readKey cs
    let s ← readMark ']' s
    let s ← readLineEnd s
    let es ← r.entries.openTable parts
    some (⟨es, parts⟩, s)
  | s => do
    let (parts, v, s) ← readPair (readValue nestingLimit) s
    let s ← readLineEnd s
    let es ← Entries.modifyAt (fun es => es.add parts v) r.header r.entries
    some (⟨es, r.header⟩, s)

/-- Reads at most `limit` lines. -/
def Reader.read (r : Reader) : Nat → Text → Option Reader
  | 0, _ => none
  | limit + 1, s =>
    match skipTrivia false s with
    | [] => some r
    | s => do
      let (r, s) ← r.readLine s
      r.read limit s

/-- The entries of the root table of a document.  A byte order mark in front is ignored. -/
def parse (text : Text) : Option Entries :=
  let body :=
    match text with
    | c :: cs => if c.toNat = 0xFEFF then cs else text
    | [] => text
  (Reader.read ⟨[], []⟩ (body.length + 1) body).map (·.entries)

end SqlLayout.Toml
