import SqlLayout.Layout.Cursor

/-!
One walk over the tokens decides where lines break.  It knows no grammar: it reacts to clause
keywords, commas, brackets, comments, commands and delimiters, and keeps the level of indentation
and the brackets that are open.  Inside the brackets of a function call nothing breaks.

The walk has no result when it runs past the last token while it closes a line comment.  That takes
a delimiter which itself starts a line comment: the next comment can shrink to the delimiter, and a
break in front of a delimiter moves the cursor behind it.
-/

namespace SqlLayout.Layout

/-- What a keyword means to the walk. -/
inductive ClauseRole where
  /-- What follows is one level deeper and on a line of its own. -/
  | opens
  /-- Stands on a line of its own, one level further out than what follows. -/
  | heads
  /-- May start a join. -/
  | joins
  /-- Goes one level out and starts a line. -/
  | closes
  /-- Starts a line. -/
  | leads
  /-- Ends a line. -/
  | trails
  /-- Ends a line; the next one is a level deeper. -/
  | trailsDeeper
  /-- Starts a line between two queries. -/
  | combines
  /-- Its next `AND` does not break. -/
  | opensRange
  /-- Starts a line unless it closes a range. -/
  | conjoins
  deriving DecidableEq, Repr

/-- The words of each role, in upper case. -/
def clauseWords : List (ClauseRole × List String) := [
  (.opens, ["DELETE", "SELECT", "UPDATE", "INSERT", "INTO", "CREATE", "DROP", "TRUNCATE", "TABLE",
    "CASE"]),
  (.heads, ["FROM", "WHERE", "SET", "START WITH", "CONNECT BY", "ORDER BY", "GROUP BY", "HAVING"]),
  (.joins, ["LEFT", "RIGHT", "INNER", "OUTER", "JOIN"]),
  (.closes, ["VALUES", "END"]),
  (.leads, ["OR", "WHEN", "ELSE", "TOP"]),
  (.trails, ["ON"]),
  (.trailsDeeper, ["USING"]),
  (.combines, ["UNION", "INTERSECT", "EXCEPT"]),
  (.opensRange, ["BETWEEN"]),
  (.conjoins, ["AND"])]

/-- The role of a word in upper case. -/
def ClauseRole.ofWord? (word : Text) : Option ClauseRole :=
  (clauseWords.find? fun entry => entry.2.any fun w => w.toList == word).map (·.1)

/-- An open bracket. -/
structure Bracket where
  /-- Whether it holds the arguments of a function. -/
  isCall : Bool
  /-- The level to go back to when it closes. -/
  level : Int
  deriving DecidableEq, Repr

/-- The state of the walk. -/
structure Walk where
  cursor : Cursor
  /-- Open brackets, innermost first. -/
  brackets : List Bracket
  level : Int
  /-- Whether a `BETWEEN` still waits for its `AND`. -/
  inRange : Bool
  /-- The text of the token visited before. -/
  previous : Text
  deriving DecidableEq, Repr

namespace Walk

/-- The walk before its first token. -/
def start (ts : List Token) : Walk := ⟨⟨[], ts⟩, [], 0, false, [' ']⟩

/-- Whether a function call is open, which keeps everything on one line. -/
def inCall (w : Walk) : Bool := w.brackets.any (·.isCall)

/-- Breaks in front of the current token, unless a function call is open. -/
def breakHere (s : Style) (level : Int) (w : Walk) : Walk :=
  if w.inCall then w else { w with cursor := w.cursor.breakHere s (s.lineBreak level) }

/-- Breaks in front of the next token, unless a function call is open. -/
def breakNext (s : Style) (level : Int) (w : Walk) : Walk :=
  if w.inCall then w else { w with cursor := w.cursor.breakNext s (s.lineBreak level) }

/-- Goes to another level. -/
def atLevel (w : Walk) (level : Int) : Walk := { w with level := level }

/-! ## Joins -/

/-- The words that may stand in a join clause. -/
def joinWords : List String := ["LEFT", "RIGHT", "INNER", "OUTER", "JOIN"]

/-- Whether the text is a join word, up to ASCII case. -/
def isJoinWord (text : Text) : Bool := joinWords.any fun w => Text.sameAsciiCase text w.toList

/-- Whether a run of join words at the front reaches `JOIN`. -/
def reachesJoin : List Text → Bool
  | [] => false
  | text :: texts =>
    Text.sameAsciiCase text "JOIN".toList || (isJoinWord text && reachesJoin texts)

/-- The texts of the tokens that are not white space. -/
def wordTexts (ts : List Token) : List Text := (ts.filter fun t => !t.isSpace).map (·.text)

/-- Whether the current token opens a join clause: it is a join word, the word before it is none,
and the run that starts here reaches `JOIN`. -/
def atJoinStart (c : Cursor) : Bool :=
  (c.after.head?.any fun t => isJoinWord t.text) &&
    !((wordTexts c.before).head?.any isJoinWord) && reachesJoin (wordTexts c.after)

/-! ## Visits -/

/-- Brackets, commas and delimiters. -/
def onSymbol (d : Dialect) (s : Style) (word : Text) (w : Walk) : Walk :=
  if word = ['('] then
    { w with brackets := ⟨d.isFunction w.previous, w.level⟩ :: w.brackets, level := w.level + 1 }
      |>.breakNext s (w.level + 1)
  else
    match w.brackets with
    | b :: bs =>
      if word = [')'] then
        { (w.atLevel b.level).breakHere s b.level with brackets := bs }
      else onSeparator
    | [] => onSeparator
where
  /-- A comma ends its line; a delimiter goes back to the outermost level. -/
  onSeparator : Walk :=
    if word = [','] then w.breakNext s w.level
    else if s.isDelimiter word then (w.atLevel 0).breakHere s 0
    else w

/-- A keyword acts by its role. -/
def onKeyword (s : Style) (word : Text) (w : Walk) : Walk :=
  match ClauseRole.ofWord? word with
  | some .opens => (w.atLevel (w.level + 1)).breakNext s (w.level + 1)
  | some .heads => (w.breakHere s (w.level - 1)).breakNext s w.level
  | some .joins => if atJoinStart w.cursor then w.breakHere s (w.level - 1) else w
  | some .closes => (w.atLevel (w.level - 1)).breakHere s (w.level - 1)
  | some .leads => w.breakHere s w.level
  | some .trails => w.breakNext s w.level
  | some .trailsDeeper => w.breakNext s (w.level + 1)
  | some .combines => (w.breakHere s (w.level - 2)).atLevel (w.level - 1)
  | some .opensRange => { w with inRange := true }
  | some .conjoins => { (if w.inRange then w else w.breakHere s w.level) with inRange := false }
  | none => w

/-- A block comment ends its line. -/
def onComment (s : Style) (text : Text) (w : Walk) : Walk :=
  if !Dialect.isLineComment text && Dialect.isBlockComment text then w.breakNext s w.level else w

/-- A command stands on a line of its own at the outermost level. -/
def onCommand (s : Style) (w : Walk) : Walk :=
  let w := w.atLevel 0
  let w := if w.cursor.before.isEmpty then w else w.breakHere s 0
  w.breakNext s 0

/-- A delimiter that is a word goes back to the outermost level and ends its line. -/
def onWord (s : Style) (word : Text) (w : Walk) : Walk :=
  if s.isDelimiter word then (w.atLevel 0).breakNext s 0 else w

/-- A name right behind a comment starts a line. -/
def onName (s : Style) (word : Text) (w : Walk) : Walk :=
  if w.cursor.before.head?.any (·.kind == .comment) then w.breakHere s w.level
  else w.onWord s word

/-- The reaction to the current token `t`. -/
def react (d : Dialect) (s : Style) (t : Token) (w : Walk) : Walk :=
  match t.kind with
  | .symbol => w.onSymbol d s (Text.upper t.text)
  | .keyword => w.onKeyword s (Text.upper t.text)
  | .comment => w.onComment s t.text
  | .command => w.onCommand s
  | .name => w.onName s (Text.upper t.text)
  | .space | .value | .unknown => w.onWord s (Text.upper t.text)

/-- Whether the current token directly follows a line comment that lost its line feed. -/
def followsOpenLineComment (s : Style) (c : Cursor) : Bool :=
  match c.before, c.after with
  | p :: _, t :: _ =>
    isLineComment p && !Text.endsWith p.text '\n' && !t.isSpace && !s.isDelimiter t.text
  | _, _ => false

/-- Ends the line of a line comment that lost its line feed. -/
def closeLineComment (s : Style) (w : Walk) : Walk :=
  if followsOpenLineComment s w.cursor then w.breakHere s w.level else w

/-- Moves on, remembering the text of the token just visited. -/
def leave (text : Text) (w : Walk) : Walk :=
  { w with cursor := w.cursor.advance, previous := text }

/-- Visits the current token.  There is no result when closing a line comment moved the cursor
behind the last token. -/
def visit (d : Dialect) (s : Style) (w : Walk) : Option Walk :=
  let w := w.closeLineComment s
  match w.cursor.after with
  | [] => none
  | t :: _ => some ((w.react d s t).leave t.text)

/-! ## The walk ends -/

/-- The number of tokens from the current one on. -/
def remaining (w : Walk) : Nat := w.cursor.after.length

theorem remaining_breakHere_le (s : Style) (level : Int) (w : Walk) :
    (w.breakHere s level).remaining ≤ w.remaining := by
  unfold breakHere
  split
  · exact Nat.le_refl _
  · exact Cursor.length_after_breakHere_le ..

theorem remaining_breakNext_le (s : Style) (level : Int) (w : Walk) :
    (w.breakNext s level).remaining ≤ w.remaining := by
  unfold breakNext
  split
  · exact Nat.le_refl _
  · exact Cursor.length_after_breakNext_le ..

theorem remaining_onSymbol_le (d : Dialect) (s : Style) (word : Text) (w : Walk) :
    (w.onSymbol d s word).remaining ≤ w.remaining := by
  have separator : (onSymbol.onSeparator s word w).remaining ≤ w.remaining := by
    unfold onSymbol.onSeparator
    repeat' split
    · exact remaining_breakNext_le ..
    · exact remaining_breakHere_le ..
    · exact Nat.le_refl _
  unfold onSymbol
  split
  · exact remaining_breakNext_le ..
  · split
    · split
      · exact remaining_breakHere_le s _ (w.atLevel _)
      · exact separator
    · exact separator

theorem remaining_onKeyword_le (s : Style) (word : Text) (w : Walk) :
    (w.onKeyword s word).remaining ≤ w.remaining := by
  unfold onKeyword
  split
  · exact remaining_breakNext_le s _ (w.atLevel _)
  · exact Nat.le_trans (remaining_breakNext_le ..) (remaining_breakHere_le ..)
  · split
    · exact remaining_breakHere_le ..
    · exact Nat.le_refl _
  · exact remaining_breakHere_le s _ (w.atLevel _)
  · exact remaining_breakHere_le ..
  · exact remaining_breakNext_le ..
  · exact remaining_breakNext_le ..
  · exact remaining_breakHere_le s (w.level - 2) w
  · exact Nat.le_refl _
  · change (if w.inRange then w else w.breakHere s w.level).remaining ≤ w.remaining
    split
    · exact Nat.le_refl _
    · exact remaining_breakHere_le ..
  · exact Nat.le_refl _

theorem remaining_onComment_le (s : Style) (text : Text) (w : Walk) :
    (w.onComment s text).remaining ≤ w.remaining := by
  unfold onComment
  split
  · exact remaining_breakNext_le ..
  · exact Nat.le_refl _

theorem remaining_onCommand_le (s : Style) (w : Walk) :
    (w.onCommand s).remaining ≤ w.remaining := by
  unfold onCommand
  dsimp only
  refine Nat.le_trans (remaining_breakNext_le ..) ?_
  split
  · exact Nat.le_refl _
  · exact remaining_breakHere_le s _ (w.atLevel _)

theorem remaining_onWord_le (s : Style) (word : Text) (w : Walk) :
    (w.onWord s word).remaining ≤ w.remaining := by
  unfold onWord
  split
  · exact remaining_breakNext_le s _ (w.atLevel _)
  · exact Nat.le_refl _

theorem remaining_onName_le (s : Style) (word : Text) (w : Walk) :
    (w.onName s word).remaining ≤ w.remaining := by
  unfold onName
  split
  · exact remaining_breakHere_le ..
  · exact remaining_onWord_le ..

theorem remaining_react_le (d : Dialect) (s : Style) (t : Token) (w : Walk) :
    (w.react d s t).remaining ≤ w.remaining := by
  unfold react
  split
  · exact remaining_onSymbol_le ..
  · exact remaining_onKeyword_le ..
  · exact remaining_onComment_le ..
  · exact remaining_onCommand_le ..
  · exact remaining_onName_le ..
  all_goals exact remaining_onWord_le ..

theorem remaining_closeLineComment_le (s : Style) (w : Walk) :
    (w.closeLineComment s).remaining ≤ w.remaining := by
  unfold closeLineComment
  split
  · exact remaining_breakHere_le ..
  · exact Nat.le_refl _

/-- A visit leaves fewer tokens to visit. -/
theorem remaining_lt_of_visit {d : Dialect} {s : Style} {w w' : Walk}
    (h : w.visit d s = some w') : w'.remaining < w.remaining := by
  unfold visit at h
  dsimp only at h
  split at h
  · cases h
  · next t ts he =>
    cases h
    have hclose := remaining_closeLineComment_le s w
    have hreact := remaining_react_le d s t (w.closeLineComment s)
    have hpos : 0 < (w.closeLineComment s).remaining := by simp [remaining, he]
    exact Cursor.length_after_advance_lt (Nat.le_trans hreact hclose) (Nat.lt_of_lt_of_le hpos hclose)

/-- Visits every token and returns the tokens with their breaks. -/
def run (d : Dialect) (s : Style) (w : Walk) : Option (List Token) :=
  if w.cursor.after.isEmpty then some w.cursor.tokens
  else
    match _visited : w.visit d s with
    | none => none
    | some w' => run d s w'
termination_by w.remaining
decreasing_by exact remaining_lt_of_visit ‹_›

end Walk

/-- The tokens with line breaks; none when the walk runs past its last token. -/
def breakLines (d : Dialect) (s : Style) (ts : List Token) : Option (List Token) :=
  (Walk.start ts).run d s

end SqlLayout.Layout
