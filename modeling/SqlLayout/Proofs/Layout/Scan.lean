import SqlLayout.Proofs.Layout.Fill
import SqlLayout.Proofs.Text.LetterCase

/-!
# The walk as a scan

When statements end with a mark such as `;`, the walk is a scan over its tokens: all it remembers
is which open brackets are function calls and whether a break stands in front of the next token.
`Walked` relates a token list to what such a scan may leave of it, and the walk always ends with
such a list (`exists_walked`).
-/

namespace SqlLayout.Layout

/-! ## Delimiters that are marks -/

/-- The delimiter is one punctuation mark that means nothing else to the walk. -/
def IsMark (s : Style) : Prop := s.delimiter = [';'] ∨ s.delimiter = ['-'] ∨ s.delimiter = ['/']

theorem toLower_eq_mark {c x : Char} (hc : c = ';' ∨ c = '-' ∨ c = '/') (h : x.toLower = c) :
    x = c := by
  unfold Char.toLower at h
  split at h
  · next hupper =>
    have hval := congrArg (fun y : Char => y.val.toNat) h
    have hlow : 65 ≤ x.val.toNat := hupper.1
    have hhigh : x.val.toNat ≤ 90 := hupper.2
    have hsum : (x.val + ('a'.val - 'A'.val)).toNat = x.val.toNat + 32 := by
      have hdiff : ('a'.val - 'A'.val) = 32 := by decide
      rw [hdiff, UInt32.toNat_add]
      have hsmall : (32 : UInt32).toNat = 32 := rfl
      rw [hsmall]
      omega
    have hmark : c.val.toNat < 65 := by rcases hc with rfl | rfl | rfl <;> decide
    simp only at hval
    omega
  · exact h

/-- A mark is the delimiter only as itself. -/
theorem isDelimiter_iff {s : Style} (hmark : IsMark s) (text : Text) :
    s.isDelimiter text = true ↔ text = s.delimiter := by
  obtain ⟨c, hc, hdelimiter⟩ : ∃ c, (c = ';' ∨ c = '-' ∨ c = '/') ∧ s.delimiter = [c] := by
    rcases hmark with h | h | h
    · exact ⟨';', .inl rfl, h⟩
    · exact ⟨'-', .inr (.inl rfl), h⟩
    · exact ⟨'/', .inr (.inr rfl), h⟩
  have hlower : c.toLower = c := by rcases hc with rfl | rfl | rfl <;> decide
  simp only [Style.isDelimiter, Text.sameAsciiCase, Text.asciiLower, hdelimiter, List.map_cons,
    List.map_nil, hlower, beq_iff_eq]
  constructor
  · intro h
    obtain ⟨x, rfl, hx⟩ := List.map_eq_singleton_iff.mp h
    rw [toLower_eq_mark hc hx]
  · rintro rfl
    simp [hlower]

theorem not_letter_delimiter {s : Style} (hmark : IsMark s) :
    ∀ c ∈ s.delimiter, Lexer.isLetter c = false := by
  rcases hmark with h | h | h <;> rw [h] <;> decide

theorem isDelimiter_upper {s : Style} (hmark : IsMark s) (text : Text) :
    s.isDelimiter (Text.upper text) = s.isDelimiter text := by
  rw [Bool.eq_iff_iff, isDelimiter_iff hmark, isDelimiter_iff hmark]
  exact Text.upper_eq_iff (not_letter_delimiter hmark)

theorem isDelimiter_of_ne {s : Style} (hmark : IsMark s) {text : Text} (hne : text ≠ s.delimiter) :
    s.isDelimiter text = false :=
  Bool.eq_false_iff.mpr fun h => hne ((isDelimiter_iff hmark text).mp h)

theorem isDelimiter_of_allBlank {s : Style} (hmark : IsMark s) {text : Text}
    (h : Text.allBlank text = true) : s.isDelimiter text = false := by
  refine isDelimiter_of_ne hmark ?_
  rintro rfl
  rcases hmark with hmark | hmark | hmark <;> rw [hmark] at h <;> exact absurd h (by decide)

theorem isDelimiter_of_isLineComment {s : Style} (hmark : IsMark s) {text : Text}
    (h : Dialect.isLineComment text = true) : s.isDelimiter text = false := by
  refine isDelimiter_of_ne hmark ?_
  rintro rfl
  rcases hmark with hmark | hmark | hmark <;> rw [hmark] at h <;> exact absurd h (by decide)

/-! ## Scans -/

/-- What stands in front of the next token: nothing the walk put there, a break that ended a line,
or the empty line behind a delimiter. -/
inductive Mood where
  | plain
  | ended
  | parted
  deriving DecidableEq, Repr

/-- What the walk remembers between two tokens. -/
structure Scan where
  /-- For each open bracket, innermost first, whether it is a function call. -/
  calls : List Bool
  /-- Whether a bracket that comes next is a function call. -/
  callNext : Bool
  mood : Mood
  deriving DecidableEq, Repr

/-- The roles that end a line. -/
def ClauseRole.endsLine : ClauseRole → Bool
  | .opens | .heads | .trails | .trailsDeeper => true
  | .joins | .closes | .leads | .combines | .opensRange | .conjoins => false

/-- Whether the walk breaks behind the token. -/
def endsLine (t : Token) : Bool :=
  match t.kind with
  | .symbol => t.text == ['('] || t.text == [',']
  | .keyword => (ClauseRole.ofWord? (Text.upper t.text)).any ClauseRole.endsLine
  | .comment => !Dialect.isLineComment t.text && Dialect.isBlockComment t.text
  | .command => true
  | .space | .value | .name | .unknown => false

/-- The open brackets behind a token. -/
def callsAfter (calls : List Bool) (callNext : Bool) (t : Token) : List Bool :=
  if t.isSymbol ['('] then callNext :: calls
  else if t.isSymbol [')'] then calls.tail
  else calls

namespace Scan

/-- The scan before its first token. -/
def start : Scan := ⟨[], false, .plain⟩

/-- The mood behind a token, knowing the brackets that are then open. -/
def moodAfter (s : Style) (mood : Mood) (calls : List Bool) (t : Token) : Mood :=
  if calls.any id then .plain
  else if s.isDelimiter t.text then .parted
  else if endsLine t || (isLineComment t && mood == .ended) then .ended
  else .plain

/-- The scan behind a token. -/
def next (d : Dialect) (s : Style) (σ : Scan) (t : Token) : Scan where
  calls := callsAfter σ.calls σ.callNext t
  callNext := d.isFunction t.text
  mood := moodAfter s σ.mood (callsAfter σ.calls σ.callNext t) t

end Scan

/-- What the walk may make of a token `x`: the white space `gs` in front of it, and `x'`. -/
structure Fits (s : Style) (mood : Mood) (x : Token) (gs : List Token) (x' : Token) : Prop where
  token : x' = if mood = .ended then settle x else x
  spaces : ∀ g ∈ gs, g.isSpace = true
  short : gs.length ≤ 1
  ended : mood = .ended → s.isDelimiter x.text = false →
    ∃ g, gs = [g] ∧ ('\n' ∈ g.text ↔ isLineComment x = false)
  skipped : mood = .ended → s.isDelimiter x.text = true → gs = []
  parted : mood = .parted → gs ≠ []
  plain : mood = .plain → x.kind = .symbol → x.text ≠ [')'] → gs = []

/-- `Walked d s σ ns ts`: a scan that has reached `σ` may make `ts` of the tokens `ns`. -/
inductive Walked (d : Dialect) (s : Style) : Scan → List Token → List Token → Prop
  | nil (σ : Scan) : Walked d s σ [] []
  | space {σ : Scan} {t : Token} {ns ts : List Token} (space : t.isSpace = true)
      (rest : Walked d s σ ns ts) : Walked d s σ (t :: ns) ts
  | visit {σ : Scan} {x x' : Token} {gs ns ts : List Token} (visible : x.isSpace = false)
      (fits : Fits s σ.mood x gs x') (rest : Walked d s (σ.next d s x) ns ts) :
      Walked d s σ (x :: ns) (gs ++ x' :: ts)

/-! ## Reactions -/

/-- The calls among the open brackets of a walk. -/
def Walk.calls (w : Walk) : List Bool := w.brackets.map (·.isCall)

theorem Walk.inCall_eq (w : Walk) : w.inCall = w.calls.any id := by
  rw [Walk.inCall, Walk.calls, List.any_map]
  rfl

/-- A break in front of the current token, or none. -/
def Cursor.breakHere? (s : Style) (here : Option Int) (c : Cursor) : Cursor :=
  match here with
  | none => c
  | some level => c.breakHere s (s.lineBreak level)

/-- A break in front of the next token, or none. -/
def Cursor.breakNext? (s : Style) (ends : Bool) (level : Int) (c : Cursor) : Cursor :=
  if ends then c.breakNext s (s.lineBreak level) else c

/-- `Reacts s w x w'`: the walk `w'` differs from `w` by a break in front of `x` at most and by the
break that `x` puts behind itself. -/
structure Reacts (d : Dialect) (s : Style) (w : Walk) (x : Token) (w' : Walk) : Prop where
  calls : w'.calls = callsAfter w.calls (d.isFunction w.previous) x
  cursor : ∃ here level, w'.cursor = (w.cursor.breakHere? s here).breakNext? s
      (endsLine x && !w'.calls.any id) level ∧
    (here.isSome = true → x.kind ≠ .comment ∧ (x.kind = .symbol → x.text = [')']))

theorem Walk.breakHere_cursor (s : Style) (level : Int) (w : Walk) :
    ∃ here, (w.breakHere s level).cursor = w.cursor.breakHere? s here := by
  unfold Walk.breakHere
  split
  · exact ⟨none, rfl⟩
  · exact ⟨some level, rfl⟩

theorem Walk.breakNext_cursor (s : Style) (level : Int) (w : Walk) :
    (w.breakNext s level).cursor = w.cursor.breakNext? s (!w.calls.any id) level := by
  unfold Walk.breakNext
  rw [Walk.inCall_eq]
  split
  · next h => simp [Cursor.breakNext?, h]
  · next h => simp [Cursor.breakNext?, h]

@[simp] theorem Walk.calls_breakHere (s : Style) (level : Int) (w : Walk) :
    (w.breakHere s level).calls = w.calls := by
  unfold Walk.breakHere
  split <;> rfl

@[simp] theorem Walk.calls_breakNext (s : Style) (level : Int) (w : Walk) :
    (w.breakNext s level).calls = w.calls := by
  unfold Walk.breakNext
  split <;> rfl

theorem callsAfter_of_kind_ne {x : Token} (h : x.kind ≠ .symbol) (calls : List Bool)
    (callNext : Bool) : callsAfter calls callNext x = calls := by
  simp [callsAfter, isSymbol_of_kind_ne h]

section Reactions

variable {d : Dialect} {s : Style} {w w' : Walk} {x : Token}

/-- A reaction that puts no break behind the token. -/
theorem Reacts.of_here (hcalls : w'.calls = callsAfter w.calls (d.isFunction w.previous) x)
    (hcursor : ∃ here, w'.cursor = w.cursor.breakHere? s here ∧
      (here.isSome = true → x.kind ≠ .comment ∧ (x.kind = .symbol → x.text = [')'])))
    (hends : endsLine x = false) : Reacts d s w x w' := by
  obtain ⟨here, hhere, hkind⟩ := hcursor
  exact ⟨hcalls, here, 0, by simp [hhere, hends, Cursor.breakNext?], hkind⟩

/-- No reaction at all. -/
theorem Reacts.stay (hcalls : callsAfter w.calls (d.isFunction w.previous) x = w.calls)
    (hends : endsLine x = false) : Reacts d s w x w :=
  .of_here hcalls.symm ⟨none, rfl, by simp⟩ hends

theorem Reacts.breakHere (level : Int) (v : Walk) (hv : v.cursor = w.cursor)
    (hkind : x.kind ≠ .comment) (hkind' : x.kind ≠ .symbol) (hends : endsLine x = false)
    (hcalls : w'.calls = w.calls) (hcursor : w'.cursor = (v.breakHere s level).cursor) :
    Reacts d s w x w' := by
  refine .of_here ?_ ?_ hends
  · rw [callsAfter_of_kind_ne hkind', hcalls]
  · obtain ⟨here, hhere⟩ := Walk.breakHere_cursor s level v
    rw [hv] at hhere
    exact ⟨here, hcursor.trans hhere, fun _ => ⟨hkind, fun h => absurd h hkind'⟩⟩

/-- A reaction that puts a break behind the token only. -/
theorem Reacts.breakNext (level : Int) {v : Walk} (hcursor : v.cursor = w.cursor)
    (hcalls : v.calls = callsAfter w.calls (d.isFunction w.previous) x)
    (hends : endsLine x = true) : Reacts d s w x (v.breakNext s level) := by
  refine ⟨by rw [Walk.calls_breakNext, hcalls], none, level, ?_, by simp⟩
  rw [Walk.breakNext_cursor, Walk.calls_breakNext, hends, hcursor]
  rfl

theorem reacts_onSeparator (hkind : x.kind = .symbol)
    (hdelimiter : s.isDelimiter (Text.upper x.text) = false)
    (hopen : x.text ≠ ['(']) (hcalls : callsAfter w.calls (d.isFunction w.previous) x = w.calls) :
    Reacts d s w x (Walk.onSymbol.onSeparator s (Text.upper x.text) w) := by
  have hcomma' : Text.upper x.text = [','] ↔ x.text = [','] := Text.upper_eq_iff (by decide)
  unfold Walk.onSymbol.onSeparator
  rw [hdelimiter]
  by_cases hcomma : x.text = [',']
  · rw [if_pos (hcomma'.mpr hcomma)]
    refine .breakNext w.level rfl hcalls.symm ?_
    simp [endsLine, hkind, hcomma]
  · rw [if_neg (mt hcomma'.mp hcomma)]
    refine .stay hcalls ?_
    simp [endsLine, hkind, hcomma, hopen]

theorem reacts_onSymbol (hkind : x.kind = .symbol)
    (hdelimiter : s.isDelimiter (Text.upper x.text) = false) :
    Reacts d s w x (w.onSymbol d s (Text.upper x.text)) := by
  have hopen' : Text.upper x.text = ['('] ↔ x.text = ['('] := Text.upper_eq_iff (by decide)
  have hclose' : Text.upper x.text = [')'] ↔ x.text = [')'] := Text.upper_eq_iff (by decide)
  unfold Walk.onSymbol
  by_cases hopen : x.text = ['(']
  · rw [if_pos (hopen'.mpr hopen)]
    refine .breakNext (w.level + 1) rfl ?_ ?_
    · simp [Walk.calls, callsAfter, Token.isSymbol, hkind, hopen]
    · simp [endsLine, hkind, hopen]
  · rw [if_neg (mt hopen'.mp hopen)]
    have hnotOpen : x.isSymbol ['('] = false := by simp [Token.isSymbol, hopen]
    by_cases hclose : x.text = [')']
    · have hclosing : x.isSymbol [')'] = true := by simp [Token.isSymbol, hkind, hclose]
      split
      · next b bs hbrackets =>
        rw [if_pos (hclose'.mpr hclose)]
        refine .of_here ?_ ?_ ?_
        · simp [callsAfter, hnotOpen, hclosing, Walk.calls, hbrackets]
        · obtain ⟨here, hhere⟩ := Walk.breakHere_cursor s b.level (w.atLevel b.level)
          exact ⟨here, hhere, fun _ => ⟨by simp [hkind], fun _ => hclose⟩⟩
        · simp [endsLine, hkind, hclose]
      · next hbrackets =>
        refine reacts_onSeparator hkind hdelimiter hopen ?_
        simp [callsAfter, hnotOpen, hclosing, Walk.calls, hbrackets]
    · have hnotClose : x.isSymbol [')'] = false := by simp [Token.isSymbol, hclose]
      have hcalls : callsAfter w.calls (d.isFunction w.previous) x = w.calls := by
        simp [callsAfter, hnotOpen, hnotClose]
      split
      · rw [if_neg (mt hclose'.mp hclose)]
        exact reacts_onSeparator hkind hdelimiter hopen hcalls
      · exact reacts_onSeparator hkind hdelimiter hopen hcalls

theorem reacts_onKeyword (hkind : x.kind = .keyword) :
    Reacts d s w x (w.onKeyword s (Text.upper x.text)) := by
  have hcomment : x.kind ≠ .comment := by simp [hkind]
  have hsymbol : x.kind ≠ .symbol := by simp [hkind]
  have hcalls : callsAfter w.calls (d.isFunction w.previous) x = w.calls :=
    callsAfter_of_kind_ne hsymbol _ _
  have hends : endsLine x = (ClauseRole.ofWord? (Text.upper x.text)).any ClauseRole.endsLine := by
    simp [endsLine, hkind]
  unfold Walk.onKeyword
  generalize ClauseRole.ofWord? (Text.upper x.text) = role at hends
  cases role with
  | none => exact .stay hcalls hends
  | some role =>
    rw [Option.any_some] at hends
    cases role with
    | opens => exact .breakNext _ rfl hcalls.symm hends
    | heads =>
      refine ⟨by rw [Walk.calls_breakNext, Walk.calls_breakHere, hcalls], ?_⟩
      obtain ⟨here, hhere⟩ := Walk.breakHere_cursor s (w.level - 1) w
      refine ⟨here, w.level, ?_, fun _ => ⟨hcomment, fun h => absurd h hsymbol⟩⟩
      dsimp only
      rw [Walk.breakNext_cursor, Walk.calls_breakNext, hends, hhere]
      rfl
    | joins =>
      dsimp only
      split
      · exact .breakHere _ w rfl hcomment hsymbol hends (Walk.calls_breakHere ..) rfl
      · exact .stay hcalls hends
    | closes =>
      exact .breakHere (w.level - 1) (w.atLevel (w.level - 1)) rfl hcomment hsymbol hends
        (Walk.calls_breakHere s _ (w.atLevel _)) rfl
    | leads => exact .breakHere _ w rfl hcomment hsymbol hends (Walk.calls_breakHere ..) rfl
    | trails => exact .breakNext _ rfl hcalls.symm hends
    | trailsDeeper => exact .breakNext _ rfl hcalls.symm hends
    | combines =>
      exact .breakHere (w.level - 2) w rfl hcomment hsymbol hends (Walk.calls_breakHere s _ w) rfl
    | opensRange => exact .of_here hcalls.symm ⟨none, rfl, by simp⟩ hends
    | conjoins =>
      dsimp only
      split
      · exact .of_here hcalls.symm ⟨none, rfl, by simp⟩ hends
      · exact .breakHere w.level w rfl hcomment hsymbol hends (Walk.calls_breakHere s _ w) rfl

theorem reacts_onCommand (hkind : x.kind = .command) : Reacts d s w x (w.onCommand s) := by
  have hsymbol : x.kind ≠ .symbol := by simp [hkind]
  have hends : endsLine x = true := by simp [endsLine, hkind]
  have hcalls : callsAfter w.calls (d.isFunction w.previous) x = w.calls :=
    callsAfter_of_kind_ne hsymbol _ _
  unfold Walk.onCommand
  dsimp only
  split
  · exact .breakNext _ rfl hcalls.symm hends
  · obtain ⟨here, hhere⟩ := Walk.breakHere_cursor s 0 (w.atLevel 0)
    refine ⟨?_, here, 0, ?_, fun _ => ⟨by simp [hkind], fun h => absurd h hsymbol⟩⟩
    · rw [Walk.calls_breakNext, Walk.calls_breakHere, hcalls]
      rfl
    · rw [Walk.breakNext_cursor, Walk.calls_breakNext, hends, hhere]
      rfl

/-- The reaction to a token that is not white space, and no delimiter in upper case.  What comments
say in upper case is not looked at. -/
theorem reacts_react (hx : x.isSpace = false)
    (hdelimiter : x.kind ≠ .comment → s.isDelimiter (Text.upper x.text) = false) :
    Reacts d s w x (w.react d s x) := by
  have word : x.kind ≠ .comment → x.kind ≠ .symbol → endsLine x = false →
      Reacts d s w x (w.onWord s (Text.upper x.text)) := by
    intro hcomment hsymbol hends
    unfold Walk.onWord
    rw [hdelimiter hcomment]
    exact .stay (callsAfter_of_kind_ne hsymbol _ _) hends
  unfold Walk.react
  split
  · next hkind => exact reacts_onSymbol hkind (hdelimiter (by simp [hkind]))
  · next hkind => exact reacts_onKeyword hkind
  · next hkind =>
    have hcalls : callsAfter w.calls (d.isFunction w.previous) x = w.calls :=
      callsAfter_of_kind_ne (by simp [hkind]) _ _
    unfold Walk.onComment
    split
    · next hblock => exact .breakNext _ rfl hcalls.symm (by simpa [endsLine, hkind] using hblock)
    · next hblock => exact .stay hcalls (by simpa [endsLine, hkind] using hblock)
  · next hkind => exact reacts_onCommand hkind
  · next hkind =>
    unfold Walk.onName
    split
    · exact .breakHere _ w rfl (by simp [hkind]) (by simp [hkind]) (by simp [endsLine, hkind])
        (Walk.calls_breakHere ..) rfl
    · exact word (by simp [hkind]) (by simp [hkind]) (by simp [endsLine, hkind])
  · next hkind => simp [Token.isSpace, hkind] at hx
  · next hkind => exact word (by simp [hkind]) (by simp [hkind]) (by simp [endsLine, hkind])
  · next hkind => exact word (by simp [hkind]) (by simp [hkind]) (by simp [endsLine, hkind])

end Reactions

end SqlLayout.Layout
