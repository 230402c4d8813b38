import SqlLayout.Proofs.Text.AsciiCase

/-!
# The lexer does not see ASCII case

Every cut of the lexer is made at a character that is no letter, or by a class that holds both cases
of a letter, and words are looked up in upper case.  So the tokens of a text in ASCII lower case are
the tokens of the text, each in ASCII lower case (`tokenize_asciiLower`).
-/

namespace SqlLayout

/-- The token with its text in ASCII lower case. -/
def Token.asciiLower (t : Token) : Token := t.withText (Text.asciiLower t.text)

namespace Dialect

theorem classify_asciiLower (d : Dialect) (word : Text) :
    d.classify (Text.asciiLower word) = d.classify word := by
  rw [classify, classify, Text.upper_asciiLower]

theorem isFunction_asciiLower (d : Dialect) (word : Text) :
    d.isFunction (Text.asciiLower word) = d.isFunction word := by
  rw [isFunction, isFunction, classify_asciiLower]

theorem isCommand_asciiLower (d : Dialect) (word : Text) :
    d.isCommand (Text.asciiLower word) = d.isCommand word := by
  rw [isCommand, isCommand, Text.upper_asciiLower]

theorem isLineComment_asciiLower (s : Text) :
    isLineComment (Text.asciiLower s) = isLineComment s :=
  Text.startsWith_asciiLower (by decide) s

theorem isBlockComment_asciiLower (s : Text) :
    isBlockComment (Text.asciiLower s) = isBlockComment s :=
  Text.startsWith_asciiLower (by decide) s

theorem isQuote_toLower (c : Char) : isQuote c.toLower = isQuote c := by
  have hquote : ('"' == c.toLower) = ('"' == c) := by
    rw [BEq.comm, Text.beq_toLower (by decide), BEq.comm]
  simp [isQuote, quotePairs, hquote]

end Dialect

namespace Lexer

open Text (asciiLower)

/-- The lexeme and the text behind it in ASCII lower case. -/
def Lexeme.asciiLower (l : Lexeme) : Lexeme :=
  ⟨l.kind, Text.asciiLower l.text, Text.asciiLower l.rest⟩

theorem asciiLower_ofCut (kind : TokenKind) (c : Char) (cut : Text × Text) :
    (Lexeme.ofCut kind c cut).asciiLower =
      .ofCut kind c.toLower (asciiLower cut.1, asciiLower cut.2) := rfl

/-! ## Cuts -/

theorem cutAfterNewline_asciiLower (s : Text) :
    Text.cutAfterNewline (asciiLower s) =
      (asciiLower (Text.cutAfterNewline s).1, asciiLower (Text.cutAfterNewline s).2) := by
  induction s with
  | nil => rfl
  | cons c cs ih =>
    have hfeed : c.toLower = '\n' ↔ c = '\n' := Text.toLower_eq_iff (by decide) c
    simp only [Text.asciiLower_cons, Text.cutAfterNewline, hfeed, ih]
    split <;> simp

theorem cutQuoted_asciiLower {close : Char} (hclose : isLetter close = false) (s : Text) :
    cutQuoted close (asciiLower s) =
      (asciiLower (cutQuoted close s).1, asciiLower (cutQuoted close s).2) := by
  have hsame : ∀ c : Char, c.toLower = close ↔ c = close := Text.toLower_eq_iff hclose
  have hself : close.toLower = close := (Text.narrowCase_of_not_letter hclose).2
  fun_induction cutQuoted close s with
  | case1 | case2 => rfl
  | case3 cs ih => simp [cutQuoted, hself, ih]
  | case4 c' cs hc' => simp [cutQuoted, hself, hsame, hc']
  | case5 c c' cs hc ih =>
    rw [Text.asciiLower_cons] at ih
    simp [cutQuoted, hsame, hc, ih]

theorem cutBlockComment_asciiLower (s : Text) :
    cutBlockComment (asciiLower s) =
      (asciiLower (cutBlockComment s).1, asciiLower (cutBlockComment s).2) := by
  have hmark : ∀ s : Text, asciiLower s = Dialect.blockCommentEnd ↔ s = Dialect.blockCommentEnd :=
    Text.asciiLower_eq_iff (by decide)
  fun_induction cutBlockComment s with
  | case1 | case2 => rfl
  | case3 c c' cs h =>
    have hlower : [c.toLower, c'.toLower] = Dialect.blockCommentEnd := (hmark [c, c']).mpr h
    rw [Text.asciiLower_cons, Text.asciiLower_cons, cutBlockComment, if_pos hlower]
    rfl
  | case4 c c' cs h ih =>
    have hlower : ¬ [c.toLower, c'.toLower] = Dialect.blockCommentEnd := mt (hmark [c, c']).mp h
    rw [Text.asciiLower_cons] at ih
    rw [Text.asciiLower_cons, Text.asciiLower_cons, cutBlockComment, if_neg hlower, ih]
    rfl

/-! ## Lexemes -/

theorem hyphen_asciiLower (c : Char) (cs : Text) :
    hyphen c.toLower (asciiLower cs) = (hyphen c cs).asciiLower := by
  have hmark := Dialect.isLineComment_asciiLower (c :: cs)
  rw [Text.asciiLower_cons] at hmark
  unfold hyphen
  rw [hmark, cutAfterNewline_asciiLower]
  split <;> rfl

theorem word_asciiLower (d : Dialect) (c : Char) (cs : Text) :
    word d c.toLower (asciiLower cs) = (word d c cs).asciiLower := by
  have hcut := Text.cutWhile_asciiLower Text.isWordChar_toLower cs
  have hcommand := d.isCommand_asciiLower (c :: (cutWhile isWordChar cs).1)
  have hclass := d.classify_asciiLower (c :: (cutWhile isWordChar cs).1)
  have hends : ∀ x : Char, (x.toLower != '\n' && x.toLower != '\r') = (x != '\n' && x != '\r') := by
    intro x
    rw [bne, bne, Text.beq_toLower (by decide), Text.beq_toLower (by decide)]
    rfl
  have hline := Text.cutWhile_asciiLower (p := fun x => x != '\n' && x != '\r') hends
  rw [Text.asciiLower_cons] at hcommand hclass
  simp only [word, hcut, hcommand, hclass, hline]
  split
  · simp [Lexeme.asciiLower]
  · rfl

theorem slash_asciiLower (c : Char) (cs : Text) :
    slash c.toLower (asciiLower cs) = (slash c cs).asciiLower := by
  cases cs with
  | nil => rfl
  | cons c' cs =>
    have hmark : [c.toLower, c'.toLower] = Dialect.blockCommentStart ↔
        [c, c'] = Dialect.blockCommentStart :=
      Text.asciiLower_eq_iff (w := Dialect.blockCommentStart) (by decide) [c, c']
    simp only [Text.asciiLower_cons, slash, hmark, cutBlockComment_asciiLower]
    split <;> rfl

theorem symbolPairs_asciiLower (c c' : Char) :
    (c.toLower, c'.toLower) ∈ symbolPairs ↔ (c, c') ∈ symbolPairs := by
  have hmarks : ∀ p ∈ symbolPairs, isLetter p.1 = false ∧ isLetter p.2 = false := by decide
  constructor
  · intro h
    obtain ⟨hfirst, hsecond⟩ := hmarks _ h
    rw [Text.isLetter_toLower_eq] at hfirst hsecond
    rwa [(Text.narrowCase_of_not_letter hfirst).2, (Text.narrowCase_of_not_letter hsecond).2] at h
  · intro h
    obtain ⟨hfirst, hsecond⟩ := hmarks _ h
    rwa [(Text.narrowCase_of_not_letter hfirst).2, (Text.narrowCase_of_not_letter hsecond).2]

theorem symbol_asciiLower (c : Char) (cs : Text) :
    symbol c.toLower (asciiLower cs) = (symbol c cs).asciiLower := by
  cases cs with
  | nil => rfl
  | cons c' cs =>
    simp only [Text.asciiLower_cons, symbol, symbolPairs_asciiLower]
    split <;> rfl

/-- A quoted value ends at the same quote in lower case. -/
theorem quoted_asciiLower {c : Char} (hc : c = '\'' ∨ Dialect.isQuote c = true) (cs : Text) :
    Lexeme.ofCut .value c.toLower (cutQuoted (Dialect.closingQuote c.toLower) (asciiLower cs)) =
      (Lexeme.ofCut .value c (cutQuoted (Dialect.closingQuote c) cs)).asciiLower := by
  have hquote : isQuoteChar c = true := by
    rw [isQuoteChar_eq]
    simpa using hc
  have hletter : isLetter c = false :=
    isLetter_of_isSymbolChar (Layout.isSymbolChar_of_isQuoteChar hquote)
  rw [asciiLower_ofCut, (Text.narrowCase_of_not_letter hletter).2, closingQuote_eq,
    cutQuoted_asciiLower hletter]

/-- The lexeme at the front of a text in lower case is the one at the front of the text. -/
theorem lexeme_asciiLower (d : Dialect) (c : Char) (cs : Text) :
    lexeme d c.toLower (asciiLower cs) = (lexeme d c cs).asciiLower := by
  have hsemicolon : c.toLower = ';' ↔ c = ';' := Text.toLower_eq_iff (by decide) c
  have hhyphen : Dialect.lineCommentMark.head? = some c.toLower ↔
      Dialect.lineCommentMark.head? = some c := by
    have h : c.toLower = '-' ↔ c = '-' := Text.toLower_eq_iff (by decide) c
    simpa [Dialect.lineCommentMark, eq_comm] using h
  have hslash : c.toLower = '/' ↔ c = '/' := Text.toLower_eq_iff (by decide) c
  have happostrophe : c.toLower = '\'' ↔ c = '\'' := Text.toLower_eq_iff (by decide) c
  simp only [lexeme, Text.isBlank_toLower, Text.isDigit_toLower, Text.isLetter_toLower_eq,
    Dialect.isQuote_toLower, hsemicolon, hhyphen, hslash, happostrophe,
    Text.cutWhile_asciiLower Text.isBlank_toLower, Text.cutWhile_asciiLower Text.isNumberChar_toLower]
  repeat' split
  · rfl
  · rfl
  · rfl
  · exact hyphen_asciiLower c cs
  · exact word_asciiLower d c cs
  · exact slash_asciiLower c cs
  · next h => exact quoted_asciiLower (by simpa using h) cs
  · exact symbol_asciiLower c cs

theorem tokenizeFrom_asciiLower (d : Dialect) (offset : Nat) (s : Text) :
    tokenizeFrom d offset (asciiLower s) = (tokenizeFrom d offset s).map Token.asciiLower := by
  fun_induction tokenizeFrom d offset s with
  | case1 offset => simp [tokenizeFrom]
  | case2 offset c cs l ih =>
    rw [Text.asciiLower_cons, tokenizeFrom_cons, lexeme_asciiLower, List.map_cons]
    refine congrArg₂ List.cons rfl ?_
    show tokenizeFrom d (offset + Text.byteSize (asciiLower l.text)) (asciiLower l.rest) = _
    rw [Text.byteSize_asciiLower, ih]

end Lexer

/-- The tokens of a text in ASCII lower case are those of the text, in ASCII lower case. -/
theorem tokenize_asciiLower (d : Dialect) (sql : Text) :
    tokenize d (Text.asciiLower sql) = (tokenize d sql).map Token.asciiLower :=
  Lexer.tokenizeFrom_asciiLower d 0 sql

end SqlLayout
