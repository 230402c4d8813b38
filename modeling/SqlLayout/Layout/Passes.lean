import SqlLayout.Layout.Cursor
import SqlLayout.Text.LetterCase

/-!
The passes around the walk, each on the whole token list.

The walk starts from a list whose white space says only "these two words are apart": none at the
ends, none next to a symbol or a comment, and one blank everywhere else.  Three neighbours that it
treats as one become one token: two-word clauses such as `ORDER BY`, the outer join mark `(+)`, and
a name between angle brackets.

After the walk a bracket pair that it spread over three lines goes back to one token when it holds a
single token, as in `VARCHAR(100)`.  The list is compacted from its end, so nested pairs collapse
from the inside out.  Then neighbours that have no white space between them get a blank unless one
of them does without: brackets, commas, delimiters, `.` and `:`, a value behind a name, two symbols.
A line comment that lost its line feed gets it back.
-/

namespace SqlLayout.Layout

/-! ## White space -/

/-- Drops a white space token at the front. -/
def dropLeadingSpace : List Token → List Token
  | [] => []
  | t :: ts => if t.isSpace then ts else t :: ts

/-- Drops a white space token at the end. -/
def dropTrailingSpace (ts : List Token) : List Token :=
  if ts.getLast?.any Token.isSpace then ts.dropLast else ts

/-- Drops the white space at both ends; the tokens of a text never have two in a row there. -/
def trimEdges (ts : List Token) : List Token := dropTrailingSpace (dropLeadingSpace ts)

/-- Symbols and comments need no white space next to them. -/
def absorbsSpace (t : Token) : Bool := t.kind == .symbol || t.kind == .comment

/-- Collapses the white space of a list that follows a token; `absorbed` says whether that token
needs no white space. -/
def collapseAfter (absorbed : Bool) : List Token → List Token
  | [] => []
  | t :: ts =>
    if t.isSpace then
      if absorbed || ts.head?.any absorbsSpace then collapseAfter false ts
      else t.withText [' '] :: collapseAfter false ts
    else t :: collapseAfter (absorbsSpace t) ts

/-- Removes white space next to symbols and comments and shrinks the rest to one blank. -/
def collapse (ts : List Token) : List Token := collapseAfter false ts

/-! ## Compounds -/

/-- The two-word clauses, in upper case. -/
def compoundClauses : List (String × String) :=
  [("ORDER", "BY"), ("GROUP", "BY"), ("CONNECT", "BY"), ("START", "WITH")]

/-- Whether two words in upper case form a two-word clause. -/
def isCompoundClause (first second : Text) : Bool :=
  compoundClauses.any fun p => p.1.toList == first && p.2.toList == second

/-- The token that three neighbours form together, if they do. -/
def glue? (a b c : Token) : Option Token :=
  if a.kind = .keyword && b.isSpace && c.kind = .keyword &&
      isCompoundClause (Text.upper a.text) (Text.upper c.text) then
    some (a.withText (a.text ++ ' ' :: c.text))
  else if a.isSymbol ['('] && b.isSymbol ['+'] && c.isSymbol [')'] then
    some (a.withText ['(', '+', ')'])
  else if a.isSymbol ['<'] && b.kind = .name && c.isSymbol ['>'] then
    some (a.withText (a.text ++ b.text ++ c.text))
  else none

/-- Joins compounds from left to right. -/
def glueCompounds : List Token → List Token
  | a :: b :: c :: ts =>
    match glue? a b c with
    | some t => t :: glueCompounds ts
    | none => a :: glueCompounds (b :: c :: ts)
  | ts => ts

/-! ## Bracket pairs around one token -/

/-- Whether five neighbours are a bracket pair with one token between white space. -/
def isSingleValue (openToken left right closeToken : Token) : Bool :=
  openToken.isSymbol ['('] && left.isBlank && right.isBlank && closeToken.isSymbol [')']

/-- Joins a bracket pair around one token at the front of a list. -/
def compactFront : List Token → List Token
  | a :: b :: c :: d :: e :: ts =>
    if isSingleValue a b d e then a.withText ('(' :: c.text ++ [')']) :: ts
    else a :: b :: c :: d :: e :: ts
  | ts => ts

/-- Joins every bracket pair around one token, from the end of the list on. -/
def compact (ts : List Token) : List Token := ts.foldr (fun t rest => compactFront (t :: rest)) []

/-! ## Blanks between neighbours -/

/-- The symbols that stand without blanks around them. -/
def isEmbedded (t : Token) : Bool := t.isSymbol [':'] || t.isSymbol ['.']

/-- The white space to put between two neighbours, if any. -/
def gap? (s : Style) (p t : Token) : Option Text :=
  if p.isSpace || t.isSpace then none
  else if p.kind = .comment then
    if isLineComment p && !Text.endsWith p.text '\n' then some ['\n'] else none
  else if Text.startsWith t.text ['('] then none
  else if t.text = [','] || s.isDelimiter t.text then none
  else if t.kind = .value && p.kind = .name then none
  else if isEmbedded t || isEmbedded p then none
  else if t.kind = .symbol && p.kind = .symbol then none
  else some [' ']

/-- Puts the gaps between neighbours. -/
def insertGaps (s : Style) : List Token → List Token
  | p :: t :: ts =>
    match gap? s p t with
    | some gap => p :: Token.space gap t.offset :: insertGaps s (t :: ts)
    | none => p :: insertGaps s (t :: ts)
  | ts => ts

end SqlLayout.Layout
