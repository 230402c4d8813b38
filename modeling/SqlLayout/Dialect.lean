import SqlLayout.Dialect.Words
import SqlLayout.Text.LetterCase

/-!
A dialect knows words: which are keywords, functions or types, and which start a command line.
Words are looked up in upper case.  A word once registered as a keyword stays one; any other word
takes the class it was registered under last.  The lexical conventions (comment marks, quotes,
separators) are the same in every dialect.
-/

namespace SqlLayout

/-- The classes of known words. -/
inductive WordKind where
  | keyword
  | function
  | type
  deriving DecidableEq, Repr

/-- The words a dialect knows.  Later registrations stand in front of earlier ones. -/
structure Dialect where
  /-- Upper-case words with their class. -/
  words : List (Text × WordKind)
  /-- Upper-case words that start a command line. -/
  commands : List Text
  deriving DecidableEq, Repr

namespace Dialect

/-- The class of a word, in any case. -/
def classify (d : Dialect) (word : Text) : Option WordKind := d.words.lookup (Text.upper word)

/-- Whether the word names a function. -/
def isFunction (d : Dialect) (word : Text) : Bool := d.classify word == some .function

/-- Whether the word starts a command line. -/
def isCommand (d : Dialect) (word : Text) : Bool := d.commands.contains (Text.upper word)

/-- Registers one word; a keyword keeps its class. -/
def register (d : Dialect) (kind : WordKind) (word : Text) : Dialect :=
  if d.classify word = some .keyword then d
  else { d with words := (Text.upper word, kind) :: d.words }

/-- Registers words of one class, in order. -/
def addWords (d : Dialect) (kind : WordKind) (words : List Text) : Dialect :=
  words.foldl (fun d word => d.register kind word) d

/-- Registers a word that starts a command line. -/
def addCommand (d : Dialect) (word : Text) : Dialect :=
  { d with commands := Text.upper word :: d.commands }

/-- A dialect without any word. -/
def empty : Dialect := ⟨[], []⟩

/-- The standard dialect: keywords first, so that no type or function takes their place. -/
def standard : Dialect :=
  (((empty.addWords .keyword (Words.reserved.map String.toList)).addWords
    .keyword (Words.common.map String.toList)).addWords
      .type (Words.types.map String.toList)).addWords
        .function (Words.functions.map String.toList)

/-! ## Lexical conventions -/

/-- The mark that starts a line comment. -/
def lineCommentMark : Text := ['-', '-']

/-- The mark that starts a block comment. -/
def blockCommentStart : Text := ['/', '*']

/-- The mark that ends a block comment. -/
def blockCommentEnd : Text := ['*', '/']

/-- The pairs of quotes around identifiers. -/
def quotePairs : List (Char × Char) := [('"', '"')]

/-- The character between the parts of a qualified name. -/
def nameSeparator : Char := '.'

/-- The delimiter of statements unless a style says otherwise. -/
def defaultDelimiter : Text := [';']

/-- Whether a text starts a line comment. -/
def isLineComment (s : Text) : Bool := Text.startsWith s lineCommentMark

/-- Whether a text starts a block comment. -/
def isBlockComment (s : Text) : Bool := Text.startsWith s blockCommentStart

/-- Whether a character opens a quoted identifier. -/
def isQuote (c : Char) : Bool := quotePairs.any (·.1 == c)

/-- The closing quote that belongs to a character; one that opens no pair closes itself. -/
def closingQuote (c : Char) : Char := (quotePairs.lookup c).getD c

end Dialect

end SqlLayout
