import SqlLayout.Text.Basic

/-!
A token is a classified piece of SQL text together with the byte offset at which it starts.  The
layout passes change texts and put new white space tokens between others; such a token takes the
offset of its neighbour.
-/

namespace SqlLayout

/-- The classes of tokens. -/
inductive TokenKind where
  | space
  | keyword
  | name
  | value
  | symbol
  | comment
  | command
  | unknown
  deriving DecidableEq, Repr

/-- A classified piece of text. -/
structure Token where
  kind : TokenKind
  text : Text
  /-- Bytes in front of the token in the text it was read from. -/
  offset : Nat
  deriving DecidableEq, Repr

namespace Token

/-- A white space token. -/
def space (text : Text) (offset : Nat) : Token := ⟨.space, text, offset⟩

/-- Whether the token is white space by class. -/
def isSpace (t : Token) : Bool := t.kind == .space

/-- Whether the token is the given symbol. -/
def isSymbol (t : Token) (symbol : Text) : Bool := t.kind == .symbol && t.text == symbol

/-- Whether the text is empty or white space, whatever the class. -/
def isBlank (t : Token) : Bool := Text.allBlank t.text

/-- The same token with another text. -/
def withText (t : Token) (text : Text) : Token := { t with text := text }

end Token

/-- The texts of the tokens, one after the other. -/
def Token.concat (ts : List Token) : Text := ts.flatMap (·.text)

end SqlLayout
