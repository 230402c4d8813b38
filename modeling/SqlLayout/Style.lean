import SqlLayout.Dialect
import SqlLayout.Text.Quoted

/-!
A style says how tokens are laid out: the case of keywords, what one level of indentation is made
of, and which token ends a statement.  Every style has a positive indent size and a delimiter that
is not empty and has no white space around it; `Style.make` checks both, the size first.
-/

namespace SqlLayout

/-- The case given to keywords. -/
inductive KeywordCase where
  | upper
  | lower
  | asWritten
  deriving DecidableEq, Repr

/-- What one indent character is. -/
inductive IndentKind where
  | blank
  | tab
  deriving DecidableEq, Repr

/-- The settings of a style, as messages name them. -/
inductive StyleOption where
  | keywordCase
  | indentKind
  | indentSize
  | delimiter
  deriving DecidableEq, Repr

/-- The name of a setting in messages. -/
def StyleOption.label : StyleOption → Text
  | .keywordCase => "keyword case".toList
  | .indentKind => "indent type".toList
  | .indentSize => "indent size".toList
  | .delimiter => "statement delimiter".toList

/-- What a setting accepts, in messages. -/
def StyleOption.expected : StyleOption → Text
  | .keywordCase => "one of UPPER, LOWER, ORIGINAL".toList
  | .indentKind => "one of space, tab".toList
  | .indentSize => "a positive integer".toList
  | .delimiter => "a non-empty string".toList

/-- A setting that was given a value it does not accept. -/
structure OptionFault where
  option : StyleOption
  value : Text
  deriving DecidableEq, Repr

/-- The wording of a fault. -/
def OptionFault.message (f : OptionFault) : Text :=
  "invalid ".toList ++ f.option.label ++ ' ' :: Text.quoted f.value ++ ", expected ".toList ++
    f.option.expected

namespace KeywordCase

/-- A keyword in the case of the style. -/
def apply : KeywordCase → Text → Text
  | .upper, word => Text.upper word
  | .lower, word => Text.lower word
  | .asWritten, word => word

/-- Reads a keyword case; white space around it and ASCII case do not matter. -/
def parse (s : Text) : Except OptionFault KeywordCase :=
  let word := Text.asciiUpper (Text.trim s)
  if word = "UPPER".toList then .ok .upper
  else if word = "LOWER".toList then .ok .lower
  else if word = "ORIGINAL".toList then .ok .asWritten
  else .error ⟨.keywordCase, s⟩

end KeywordCase

namespace IndentKind

/-- The indent character. -/
def char : IndentKind → Char
  | .blank => ' '
  | .tab => '\t'

/-- Reads an indent kind; white space around it and ASCII case do not matter. -/
def parse (s : Text) : Except OptionFault IndentKind :=
  let word := Text.asciiLower (Text.trim s)
  if word = "space".toList then .ok .blank
  else if word = "tab".toList then .ok .tab
  else .error ⟨.indentKind, s⟩

end IndentKind

/-- How tokens are laid out. -/
structure Style where
  keywordCase : KeywordCase
  indentKind : IndentKind
  /-- The characters of one level.  Any positive number will do here.  Where numbers are bounded, a
  size from `2 ^ 63` on leaves no room for one level of indentation, which is a crash and no fault
  of the settings. -/
  indentSize : Nat
  delimiter : Text
  indentSize_pos : 0 < indentSize
  delimiter_trimmed : Text.trim delimiter = delimiter
  delimiter_nonempty : delimiter ≠ []

namespace Style

/-- Upper-case keywords, four blanks a level, statements end with a semicolon. -/
def default : Style where
  keywordCase := .upper
  indentKind := .blank
  indentSize := 4
  delimiter := Dialect.defaultDelimiter
  indentSize_pos := by decide
  delimiter_trimmed := by decide
  delimiter_nonempty := by decide

instance : Inhabited Style := ⟨default⟩

/-- One level of indentation. -/
def indentUnit (s : Style) : Text := List.replicate s.indentSize s.indentKind.char

/-- A line feed followed by `level` levels of indentation; a negative level counts as none. -/
def lineBreak (s : Style) (level : Int) : Text :=
  '\n' :: (List.replicate level.toNat s.indentUnit).flatten

/-- Whether a text is the delimiter, up to ASCII case. -/
def isDelimiter (s : Style) (text : Text) : Bool := Text.sameAsciiCase text s.delimiter

/-- Reads an indent size: a positive number, with or without white space around it. -/
def parseIndentSize (s : Text) : Except OptionFault Nat :=
  match Text.readNumber (Text.trim s) with
  | .ok n => if 0 < n then .ok n else .error ⟨.indentSize, s⟩
  | .error _ => .error ⟨.indentSize, s⟩

/-- A style from its settings.  The delimiter loses the white space around it.  The size has no upper
bound, as `Style.indentSize` says. -/
def make (keywordCase : KeywordCase) (indentKind : IndentKind) (indentSize : Nat)
    (delimiter : Text) : Except OptionFault Style :=
  if hs : indentSize = 0 then .error ⟨.indentSize, Text.ofNat indentSize⟩
  else if hd : Text.trim delimiter = [] then .error ⟨.delimiter, delimiter⟩
  else .ok {
    keywordCase, indentKind, indentSize
    delimiter := Text.trim delimiter
    indentSize_pos := Nat.pos_of_ne_zero hs
    delimiter_trimmed := Text.trim_trim delimiter
    delimiter_nonempty := hd }

/-- Settings that take the place of those of another style; those left out stay. -/
structure Choices where
  keywordCase : Option KeywordCase := none
  indentKind : Option IndentKind := none
  indentSize : Option Nat := none
  delimiter : Option Text := none
  deriving DecidableEq, Repr

/-- The style with the chosen settings in place of its own. -/
def overlay (base : Style) (c : Choices) : Except OptionFault Style :=
  make (c.keywordCase.getD base.keywordCase) (c.indentKind.getD base.indentKind)
    (c.indentSize.getD base.indentSize) (c.delimiter.getD base.delimiter)

end Style

end SqlLayout
