import SqlLayout.Proofs.Layout.Scan

/-!
# What the walk does at a token

A reaction of the walk is a break in front of the current token or none, then a break behind it or
none, and a new footing: the open brackets, the level, and whether a range is open (`react_eq`).
Which breaks and which footing does not depend on where the cursor stands (`moveOf`).
-/

namespace SqlLayout.Layout

/-- What the walk carries from token to token, the cursor and the text in front of it aside. -/
structure Footing where
  /-- Open brackets, innermost first. -/
  brackets : List Bracket
  level : Int
  /-- Whether a `BETWEEN` still waits for its `AND`. -/
  inRange : Bool
  deriving DecidableEq, Repr

namespace Footing

/-- Whether a function call is open. -/
def inCall (f : Footing) : Bool := f.brackets.any (·.isCall)

/-- A break of the given level, unless a function call is open. -/
def breakAt (f : Footing) (level : Int) : Option Int := if f.inCall then none else some level

end Footing

/-- The footing of a walk. -/
def Walk.footing (w : Walk) : Footing := ⟨w.brackets, w.level, w.inRange⟩

/-- What the walk does at a token. -/
structure Move where
  /-- The level of the break in front of the token, if there is one. -/
  here : Option Int
  /-- The level of the break behind the token, if there is one. -/
  next : Option Int
  footing : Footing
  deriving DecidableEq, Repr

namespace Move

/-- No break on either side. -/
def stay (f : Footing) : Move := ⟨none, none, f⟩

/-- A comma ends its line; a delimiter goes back to the outermost level. -/
def onSeparator (s : Style) (word : Text) (f : Footing) : Move :=
  if word = [','] then ⟨none, f.breakAt f.level, f⟩
  else if s.isDelimiter word then ⟨f.breakAt 0, none, { f with level := 0 }⟩
  else stay f

/-- An opening bracket ends its line, a closing one starts its own. -/
def onSymbol (s : Style) (call : Bool) (word : Text) (f : Footing) : Move :=
  if word = ['('] then
    let inner := { f with brackets := ⟨call, f.level⟩ :: f.brackets, level := f.level + 1 }
    ⟨none, inner.breakAt (f.level + 1), inner⟩
  else
    match f.brackets with
    | b :: bs =>
      if word = [')'] then ⟨f.breakAt b.level, none, { f with brackets := bs, level := b.level }⟩
      else onSeparator s word f
    | [] => onSeparator s word f

/-- A keyword breaks by its role; `joins` says whether it opens a join clause. -/
def onKeyword (joins : Bool) (word : Text) (f : Footing) : Move :=
  match ClauseRole.ofWord? word with
  | some .opens => ⟨none, f.breakAt (f.level + 1), { f with level := f.level + 1 }⟩
  | some .heads => ⟨f.breakAt (f.level - 1), f.breakAt f.level, f⟩
  | some .joins => ⟨if joins then f.breakAt (f.level - 1) else none, none, f⟩
  | some .closes => ⟨f.breakAt (f.level - 1), none, { f with level := f.level - 1 }⟩
  | some .leads => ⟨f.breakAt f.level, none, f⟩
  | some .trails => ⟨none, f.breakAt f.level, f⟩
  | some .trailsDeeper => ⟨none, f.breakAt (f.level + 1), f⟩
  | some .combines => ⟨f.breakAt (f.level - 2), none, { f with level := f.level - 1 }⟩
  | some .opensRange => stay { f with inRange := true }
  | some .conjoins => ⟨if f.inRange then none else f.breakAt f.level, none, { f with inRange := false }⟩
  | none => stay f

/-- A block comment ends its line. -/
def onComment (text : Text) (f : Footing) : Move :=
  if !Dialect.isLineComment text && Dialect.isBlockComment text then ⟨none, f.breakAt f.level, f⟩
  else stay f

/-- A command stands on a line of its own; `first` says that nothing is in front of it. -/
def onCommand (first : Bool) (f : Footing) : Move :=
  ⟨if first then none else f.breakAt 0, f.breakAt 0, { f with level := 0 }⟩

/-- A delimiter that is a word goes back to the outermost level and ends its line. -/
def onWord (s : Style) (word : Text) (f : Footing) : Move :=
  if s.isDelimiter word then ⟨none, f.breakAt 0, { f with level := 0 }⟩ else stay f

/-- A name right behind a comment starts a line. -/
def onName (s : Style) (afterComment : Bool) (word : Text) (f : Footing) : Move :=
  if afterComment then ⟨f.breakAt f.level, none, f⟩ else onWord s word f

end Move

/-- What the walk sees of the tokens around the current one. -/
structure Surroundings where
  /-- Whether a bracket here is the bracket of a function call. -/
  call : Bool
  /-- Whether a join word here opens a join clause. -/
  joins : Bool
  /-- Whether nothing is in front. -/
  first : Bool
  /-- Whether a comment stands right in front. -/
  afterComment : Bool
  deriving DecidableEq, Repr

/-- The move at a token. -/
def moveOf (s : Style) (around : Surroundings) (t : Token) (f : Footing) : Move :=
  match t.kind with
  | .symbol => .onSymbol s around.call (Text.upper t.text) f
  | .keyword => .onKeyword around.joins (Text.upper t.text) f
  | .comment => .onComment t.text f
  | .command => .onCommand around.first f
  | .name => .onName s around.afterComment (Text.upper t.text) f
  | .space | .value | .unknown => .onWord s (Text.upper t.text) f

/-- A break behind the current token, or none. -/
def Cursor.breakBehind? (s : Style) (next : Option Int) (c : Cursor) : Cursor :=
  match next with
  | none => c
  | some level => c.breakNext s (s.lineBreak level)

namespace Walk

/-- What a walk sees around its current token. -/
def surroundings (d : Dialect) (w : Walk) : Surroundings where
  call := d.isFunction w.previous
  joins := atJoinStart w.cursor
  first := w.cursor.before.isEmpty
  afterComment := w.cursor.before.head?.any (·.kind == .comment)

/-- The walk with the breaks and the footing of a move. -/
def follow (s : Style) (m : Move) (w : Walk) : Walk where
  cursor := (w.cursor.breakHere? s m.here).breakBehind? s m.next
  brackets := m.footing.brackets
  level := m.footing.level
  inRange := m.footing.inRange
  previous := w.previous

variable (d : Dialect) (s : Style) (w : Walk)

theorem inCall_footing : w.footing.inCall = w.inCall := rfl

/-- A break in front of the token, on the footing `f`. -/
theorem breakHere_eq (level : Int) :
    w.breakHere s level = w.follow s ⟨w.footing.breakAt level, none, w.footing⟩ := by
  unfold breakHere Footing.breakAt
  rw [inCall_footing]
  split <;> rfl

theorem breakNext_eq (level : Int) :
    w.breakNext s level = w.follow s ⟨none, w.footing.breakAt level, w.footing⟩ := by
  unfold breakNext Footing.breakAt
  rw [inCall_footing]
  split <;> rfl

theorem onSeparator_eq (word : Text) :
    onSymbol.onSeparator s word w = w.follow s (.onSeparator s word w.footing) := by
  unfold onSymbol.onSeparator Move.onSeparator
  split
  · rw [breakNext_eq]
    rfl
  · split
    · rw [breakHere_eq]
      rfl
    · rfl

theorem onSymbol_eq (word : Text) :
    w.onSymbol d s word = w.follow s (.onSymbol s (d.isFunction w.previous) word w.footing) := by
  unfold onSymbol Move.onSymbol
  split
  · rw [breakNext_eq]
    rfl
  · rw [onSeparator_eq]
    obtain ⟨cursor, brackets, level, inRange, previous⟩ := w
    cases brackets with
    | nil => rfl
    | cons b bs =>
      dsimp only [footing]
      split
      · rw [breakHere_eq]
        rfl
      · rfl

theorem onKeyword_eq (word : Text) :
    w.onKeyword s word = w.follow s (.onKeyword (atJoinStart w.cursor) word w.footing) := by
  unfold onKeyword Move.onKeyword
  generalize ClauseRole.ofWord? word = role
  cases role with
  | none => rfl
  | some role =>
    cases role with
    | opens => exact breakNext_eq s (w.atLevel (w.level + 1)) (w.level + 1)
    | heads =>
      dsimp only
      rw [breakHere_eq, breakNext_eq]
      rfl
    | joins =>
      dsimp only
      split
      · exact breakHere_eq s w (w.level - 1)
      · rfl
    | closes => exact breakHere_eq s (w.atLevel (w.level - 1)) (w.level - 1)
    | leads => exact breakHere_eq s w w.level
    | trails => exact breakNext_eq s w w.level
    | trailsDeeper => exact breakNext_eq s w (w.level + 1)
    | combines =>
      dsimp only
      rw [breakHere_eq]
      rfl
    | opensRange => rfl
    | conjoins =>
      dsimp only
      rw [breakHere_eq]
      obtain ⟨cursor, brackets, level, inRange, previous⟩ := w
      cases inRange <;> rfl

theorem onCommand_eq :
    w.onCommand s = w.follow s (.onCommand w.cursor.before.isEmpty w.footing) := by
  unfold onCommand Move.onCommand
  dsimp only [atLevel]
  split
  · rw [breakNext_eq]
    rfl
  · rw [breakHere_eq, breakNext_eq]
    rfl

theorem onWord_eq (word : Text) : w.onWord s word = w.follow s (.onWord s word w.footing) := by
  unfold onWord Move.onWord
  split
  · rw [breakNext_eq]
    rfl
  · rfl

theorem onName_eq (word : Text) :
    w.onName s word = w.follow s
      (.onName s (w.cursor.before.head?.any (·.kind == .comment)) word w.footing) := by
  unfold onName Move.onName
  split
  · rw [breakHere_eq]
    rfl
  · exact onWord_eq s w word

/-- A reaction of the walk is the move at its token. -/
theorem react_eq (t : Token) :
    w.react d s t = w.follow s (moveOf s (w.surroundings d) t w.footing) := by
  unfold react moveOf
  generalize t.kind = kind
  cases kind with
  | symbol => exact onSymbol_eq d s w _
  | keyword => exact onKeyword_eq s w _
  | comment =>
    unfold onComment Move.onComment
    dsimp only
    split
    · exact breakNext_eq s w w.level
    · rfl
  | command => exact onCommand_eq s w
  | name => exact onName_eq s w _
  | space | value | unknown => exact onWord_eq s w _

end Walk

end SqlLayout.Layout
