import SqlLayout.Layout.Passes
import SqlLayout.Layout.Walk
import SqlLayout.Token.Lexer

/-!
The text is cut into tokens, its white space is reduced, keywords take the case of the style,
compounds are joined, lines are broken, single values are compacted and blanks are filled in.
What no rule knows passes unchanged.  A line feed at the end of the text is kept.
-/

namespace SqlLayout.Layout

/-- Keywords in the case of the style. -/
def applyKeywordCase (s : Style) (ts : List Token) : List Token :=
  ts.map fun t => if t.kind = .keyword then t.withText (s.keywordCase.apply t.text) else t

/-- The passes in front of the walk. -/
def normalize (s : Style) (ts : List Token) : List Token :=
  glueCompounds (collapse (applyKeywordCase s (trimEdges ts)))

/-- The tokens laid out; none when the walk runs past its last token. -/
def arrange (d : Dialect) (s : Style) (ts : List Token) : Option (List Token) :=
  (breakLines d s (normalize s ts)).map fun ts => insertGaps s (compact ts)

/-- Ends `out` with a line feed when `text` does. -/
def keepFinalNewline (text out : Text) : Text :=
  if Text.endsWith text '\n' && !Text.endsWith out '\n' then out ++ ['\n'] else out

end SqlLayout.Layout

namespace SqlLayout

/-- The text laid out under a dialect and a style; none when the walk runs past its last token. -/
def format (d : Dialect) (s : Style) (sql : Text) : Option Text :=
  (Layout.arrange d s (tokenize d sql)).map fun ts =>
    Layout.keepFinalNewline sql (Token.concat ts)

end SqlLayout
