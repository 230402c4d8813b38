import SqlLayout.Proofs.Layout.Move
import SqlLayout.Proofs.Layout.Reduced

/-!
# The walk in closed form

With a mark for a delimiter, the walk is one pass over the pieces.  From piece to piece it carries
its footing and what it has put in front of the next token (`Hand`); what it makes of a piece
follows from these and from the texts that are still to come (`Hand.pass`).  The walk over tokens
that write some pieces ends with tokens that write the placed pieces (`exists_breakLines`).
-/

namespace SqlLayout.Layout

/-- What stands in front of the next token. -/
inductive Lead where
  /-- The white space that was there. -/
  | flow
  /-- A line break. -/
  | line (level : Int)
  /-- The empty line behind a delimiter. -/
  | parted (level : Int)
  /-- A line comment that lost its line feed. -/
  | comment
  deriving DecidableEq, Repr

/-- What the walk carries from piece to piece. -/
structure Hand where
  footing : Footing
  lead : Lead
  /-- The text visited before, by which a function call is known. -/
  previous : Text
  /-- The token in front, as it is shown. -/
  last : Option Token
  deriving DecidableEq, Repr

/-- What the walk makes of a piece: the white space in front of its token, and what is carried on. -/
structure Stop where
  gap : Text
  hand : Hand
  deriving DecidableEq, Repr

namespace Hand

/-- Nothing is carried at the start. -/
def start : Hand := ⟨⟨[], 0, false⟩, .flow, [' '], none⟩

/-- The white space in front of a token when the walk gets there. -/
def gapBefore (s : Style) (h : Hand) (gap : Text) (t : Token) : Text :=
  match h.lead with
  | .flow => gap
  | .line level => breakText (s.lineBreak level) t
  | .parted level => s.lineBreak level ++ s.lineBreak level
  | .comment => if s.isDelimiter t.text then gap else breakText (s.lineBreak h.footing.level) t

/-- The token as it is shown: behind a break a line comment is settled. -/
def shown (h : Hand) (t : Token) : Token :=
  match h.lead with
  | .flow | .parted _ => t
  | .line _ | .comment => settle t

/-- What the walk sees around a token with `gap` in front of it and `rest` behind it. -/
def around (d : Dialect) (h : Hand) (rest : List Text) (gap : Text) (t : Token) : Surroundings where
  call := d.isFunction h.previous
  joins := Walk.isJoinWord t.text && !(h.last.any fun p => Walk.isJoinWord p.text) &&
    Walk.reachesJoin (t.text :: rest)
  first := h.last.isNone
  afterComment := gap.isEmpty && h.last.any (·.kind == .comment)

/-- The white space in front of a token once the walk has made its move there. -/
def gapAfter (s : Style) (h : Hand) (m : Move) (gap : Text) (t : Token) : Text :=
  if s.isDelimiter t.text || h.last.isNone then gap else m.here.elim gap s.lineBreak

/-- What stands behind a token once the walk has made its move there. -/
def leadBehind (s : Style) (m : Move) (t : Token) : Lead :=
  if s.isDelimiter t.text then m.here.elim .flow .parted
  else m.next.elim (if isOpenComment t then .comment else .flow) .line

/-- The move at a token. -/
def move (d : Dialect) (s : Style) (h : Hand) (rest : List Text) (gap : Text) (t : Token) : Move :=
  moveOf s (h.around d rest (h.gapBefore s gap t) (h.shown t)) (h.shown t) h.footing

/-- A visit to a token. -/
def visit (d : Dialect) (s : Style) (h : Hand) (rest : List Text) (gap : Text) (t : Token) : Stop :=
  let m := h.move d s rest gap t
  ⟨h.gapAfter s m (h.gapBefore s gap t) (h.shown t),
    ⟨m.footing, leadBehind s m (h.shown t), (h.shown t).text, some (h.shown t)⟩⟩

/-- The level of the break that goes behind the delimiter `t` because it was put in front of it. -/
def skips? (s : Style) (h : Hand) (t : Token) : Option Int :=
  match h.lead with
  | .line level => if s.isDelimiter t.text then some level else none
  | _ => none

/-- A delimiter with a break in front of it is passed over: the break goes behind it, doubled, and
the footing stays. -/
def skip (s : Style) (h : Hand) (level : Int) (t : Token) : Stop :=
  ⟨[], { h with
    lead := .parted level
    previous := s.lineBreak level ++ s.lineBreak level
    last := some t }⟩

/-- What the walk makes of a piece in front of the texts `rest`. -/
def pass (d : Dialect) (s : Style) (h : Hand) (rest : List Text) (p : Piece) : Stop :=
  match h.skips? s p.token with
  | some level => h.skip s level p.token
  | none => h.visit d s rest p.gap p.token

theorem lead_of_skips? {s : Style} {h : Hand} {t : Token} {level : Int}
    (hskip : h.skips? s t = some level) : h.lead = .line level ∧ s.isDelimiter t.text = true := by
  unfold skips? at hskip
  split at hskip
  · next level' hlead =>
    split at hskip
    · next hdelimiter =>
      cases hskip
      exact ⟨hlead, hdelimiter⟩
    · cases hskip
  · cases hskip

theorem kind_shown (h : Hand) (t : Token) : (h.shown t).kind = t.kind := by
  unfold shown
  split
  all_goals simp [kind_settle]

theorem isSpace_shown (h : Hand) (t : Token) : (h.shown t).isSpace = t.isSpace := by
  simp [Token.isSpace, kind_shown]

theorem shown_of_kind_ne (h : Hand) {t : Token} (ht : t.kind ≠ .comment) : h.shown t = t := by
  unfold shown
  split
  all_goals simp [settle_of_kind_ne ht]

theorem allBlank_shown (h : Hand) (t : Token) :
    Text.allBlank (h.shown t).text = Text.allBlank t.text := by
  unfold shown
  split
  all_goals simp [allBlank_settle_text]

theorem isDelimiter_shown {s : Style} (hmark : IsMark s) (h : Hand) (t : Token) :
    s.isDelimiter (h.shown t).text = s.isDelimiter t.text := by
  unfold shown
  split
  all_goals simp [isDelimiter_settle hmark]

end Hand

/-- The pieces as the walk leaves them. -/
def place (d : Dialect) (s : Style) : Hand → List Piece → List Piece
  | _, [] => []
  | h, p :: ps =>
    ⟨(h.pass d s (ps.map (·.token.text)) p).gap, h.shown p.token⟩ ::
      place d s (h.pass d s (ps.map (·.token.text)) p).hand ps

/-! ## Moves -/

/-- A move reads of the surroundings what its token asks for. -/
theorem moveOf_congr {s : Style} {a b : Surroundings} {t : Token} (f : Footing)
    (hcall : t.isSymbol ['('] = true → a.call = b.call) (hjoins : a.joins = b.joins)
    (hfirst : a.first = b.first) (hcomment : a.afterComment = b.afterComment) :
    moveOf s a t f = moveOf s b t f := by
  unfold moveOf
  rw [hjoins, hfirst, hcomment]
  split
  · next hkind =>
    by_cases hopen : t.text = ['(']
    · rw [hcall (by simp [Token.isSymbol, hkind, hopen])]
    · have hword : Text.upper t.text ≠ ['('] := mt (Text.upper_eq_iff (by decide)).mp hopen
      simp [Move.onSymbol, hword]
  all_goals rfl

/-- No break goes in front of a comment. -/
theorem here_of_comment (s : Style) (a : Surroundings) {t : Token} (f : Footing)
    (ht : t.kind = .comment) : (moveOf s a t f).here = none := by
  unfold moveOf
  rw [ht]
  dsimp only [Move.onComment]
  split <;> rfl

theorem footing_of_comment (s : Style) (a : Surroundings) {t : Token} (f : Footing)
    (ht : t.kind = .comment) : (moveOf s a t f).footing = f := by
  unfold moveOf
  rw [ht]
  dsimp only [Move.onComment]
  split <;> rfl

/-- A delimiter goes back to the outermost level and breaks the line. -/
theorem moveOf_delimiter {s : Style} (hmark : IsMark s) (a : Surroundings) {t : Token} (f : Footing)
    (hkind : t.kind = .symbol) (ht : s.isDelimiter t.text = true) :
    moveOf s a t f = ⟨f.breakAt 0, none, { f with level := 0 }⟩ := by
  obtain ⟨hopen, hclose, hcomma⟩ := text_ne_of_isDelimiter hmark ht
  have hopen' : Text.upper t.text ≠ ['('] := mt (Text.upper_eq_iff (by decide)).mp hopen
  have hclose' : Text.upper t.text ≠ [')'] := mt (Text.upper_eq_iff (by decide)).mp hclose
  have hcomma' : Text.upper t.text ≠ [','] := mt (Text.upper_eq_iff (by decide)).mp hcomma
  have hseparator : Move.onSeparator s (Text.upper t.text) f =
      ⟨f.breakAt 0, none, { f with level := 0 }⟩ := by
    simp [Move.onSeparator, hcomma', isDelimiter_upper hmark, ht]
  unfold moveOf
  simp only [hkind, Move.onSymbol, hopen', hclose', ↓reduceIte]
  split <;> exact hseparator

/-- A move breaks behind its token if no function call is then open. -/
def Move.Checks (m : Move) : Prop := m.next = none ∨ ∃ level, m.next = m.footing.breakAt level

theorem checks_onSymbol (s : Style) (call : Bool) (word : Text) (f : Footing) :
    (Move.onSymbol s call word f).Checks := by
  have separator : (Move.onSeparator s word f).Checks := by
    unfold Move.onSeparator
    repeat' split
    · exact .inr ⟨_, rfl⟩
    all_goals exact .inl rfl
  unfold Move.onSymbol
  split
  · exact .inr ⟨_, rfl⟩
  · split
    · split
      · exact .inl rfl
      · exact separator
    · exact separator

theorem checks_onKeyword (joins : Bool) (word : Text) (f : Footing) :
    (Move.onKeyword joins word f).Checks := by
  unfold Move.onKeyword
  split
  all_goals first
    | exact .inl rfl
    | exact .inr ⟨_, rfl⟩

theorem checks_onWord (s : Style) (word : Text) (f : Footing) : (Move.onWord s word f).Checks := by
  unfold Move.onWord
  split
  · exact .inr ⟨_, rfl⟩
  · exact .inl rfl

theorem checks_moveOf (s : Style) (a : Surroundings) (t : Token) (f : Footing) :
    (moveOf s a t f).Checks := by
  unfold moveOf
  split
  · exact checks_onSymbol ..
  · exact checks_onKeyword ..
  · unfold Move.onComment
    split
    · exact .inr ⟨_, rfl⟩
    · exact .inl rfl
  · exact .inr ⟨_, rfl⟩
  · unfold Move.onName
    split
    · exact .inl rfl
    · exact checks_onWord ..
  all_goals exact checks_onWord ..

theorem Move.Checks.inCall {m : Move} (h : m.Checks) {level : Int} (hnext : m.next = some level) :
    m.footing.inCall = false := by
  rcases h with h | ⟨level', h⟩
  · rw [h] at hnext
    cases hnext
  · rw [h, Footing.breakAt] at hnext
    split at hnext
    · cases hnext
    · next hcall => simpa using hcall

end SqlLayout.Layout
