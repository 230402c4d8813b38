import SqlLayout.Proofs.Layout.Passes
import SqlLayout.Proofs.Text.LetterCase

/-!
# What a lexeme can be

`Reads d c cs l` lists what the lexer can make of a text that starts with `c`, one constructor for
each class of lexeme with the tests that led there.  Facts about tokens are read off these cases
instead of the branches of the lexer.
-/

namespace SqlLayout.Lexer

/-- Whether two characters form a longer lexeme when the first starts one. -/
def joins (c c' : Char) : Bool :=
  symbolPairs.contains (c, c') || [c, c'] = Dialect.lineCommentMark || [c, c'] = Dialect.blockCommentStart

/-- The two quotes. -/
def isQuoteChar (c : Char) : Bool := c == '\'' || c == '"'

/-- The class of a word that starts no command. -/
def wordKind (d : Dialect) (w : Text) : TokenKind :=
  if (d.classify w).isSome then .keyword else .name

theorem wordKind_eq (d : Dialect) (w : Text) : wordKind d w = .keyword ∨ wordKind d w = .name := by
  unfold wordKind
  split
  · exact .inl rfl
  · exact .inr rfl

/-- `Reads d c cs l`: the lexer reads `l` from `c :: cs`. -/
inductive Reads (d : Dialect) : Char → Text → Lexeme → Prop
  | space (c : Char) (cs : Text) (blank : Text.isBlank c = true) :
      Reads d c cs ⟨.space, c :: cs.takeWhile Text.isBlank, cs.dropWhile Text.isBlank⟩
  | number (c : Char) (cs : Text) (digit : Text.isDigit c = true) :
      Reads d c cs ⟨.value, c :: cs.takeWhile isNumberChar, cs.dropWhile isNumberChar⟩
  | word (c : Char) (cs : Text) (letter : isLetter c = true)
      (plain : d.isCommand (c :: cs.takeWhile isWordChar) = false) :
      Reads d c cs ⟨wordKind d (c :: cs.takeWhile isWordChar), c :: cs.takeWhile isWordChar,
        cs.dropWhile isWordChar⟩
  | command (c : Char) (cs line rest : Text) (letter : isLetter c = true)
      (known : d.isCommand (c :: cs.takeWhile isWordChar) = true) :
      Reads d c cs ⟨.command, c :: cs.takeWhile isWordChar ++ line, rest⟩
  | lineComment (cs : Text) :
      Reads d '-' ('-' :: cs)
        ⟨.comment, '-' :: '-' :: (Text.cutAfterNewline cs).1, (Text.cutAfterNewline cs).2⟩
  | blockComment (cs : Text) :
      Reads d '/' ('*' :: cs) ⟨.comment, '/' :: '*' :: (cutBlockComment cs).1, (cutBlockComment cs).2⟩
  | quoted (c : Char) (cs : Text) (quote : isQuoteChar c = true) :
      Reads d c cs ⟨.value, c :: (cutQuoted c cs).1, (cutQuoted c cs).2⟩
  | single (c : Char) (cs : Text) (symbol : isSymbolChar c = true) (plain : isQuoteChar c = false)
      (apart : ∀ c' ∈ cs.head?, joins c c' = false) : Reads d c cs ⟨.symbol, [c], cs⟩
  | pair (c c' : Char) (cs : Text) (pair : (c, c') ∈ symbolPairs) :
      Reads d c (c' :: cs) ⟨.symbol, [c, c'], cs⟩

theorem isDigit_of_isSymbolChar {c : Char} (h : isSymbolChar c = true) : Text.isDigit c = false := by
  have hall : ∀ x ∈ ['"', '?', '%', '&', '\'', '(', ')', '|', '*', '+', ',', '-', '.', '/', ':',
      ';', '<', '=', '>', '!', '~', '\x60', '[', ']'], Text.isDigit x = false := by decide
  exact hall c (by simpa [isSymbolChar] using h)

theorem isLetter_of_isSymbolChar {c : Char} (h : isSymbolChar c = true) : isLetter c = false := by
  simp [isLetter, h]

theorem joins_hyphen (c' : Char) : joins '-' c' = (c' == '-') := by
  simp [joins, symbolPairs, Dialect.lineCommentMark, Dialect.blockCommentStart, beq_eq_decide]

theorem joins_slash (c' : Char) : joins '/' c' = (c' == '*') := by
  simp [joins, symbolPairs, Dialect.lineCommentMark, Dialect.blockCommentStart, beq_eq_decide]

theorem joins_of_ne {c : Char} (hhyphen : c ≠ '-') (hslash : c ≠ '/') (c' : Char) :
    joins c c' = decide ((c, c') ∈ symbolPairs) := by
  simp [joins, Dialect.lineCommentMark, Dialect.blockCommentStart, hhyphen, hslash]

theorem reads_hyphen (d : Dialect) (cs : Text) : Reads d '-' cs (hyphen '-' cs) := by
  cases cs with
  | nil => exact .single '-' [] (by decide) (by decide) (by simp)
  | cons c' cs =>
    by_cases hc : c' = '-'
    · subst hc
      have hmark : hyphen '-' ('-' :: cs) =
          ⟨.comment, '-' :: '-' :: (Text.cutAfterNewline cs).1, (Text.cutAfterNewline cs).2⟩ := by
        simp [hyphen, Dialect.isLineComment, Text.startsWith, Dialect.lineCommentMark,
          Lexeme.ofCut, Text.cutAfterNewline]
      rw [hmark]
      exact .lineComment cs
    · have hsingle : hyphen '-' (c' :: cs) = ⟨.symbol, ['-'], c' :: cs⟩ := by
        simp [hyphen, Dialect.isLineComment, Text.startsWith, Dialect.lineCommentMark, Ne.symm hc]
      rw [hsingle]
      refine .single '-' (c' :: cs) (by decide) (by decide) ?_
      simpa [joins_hyphen] using hc

theorem reads_slash (d : Dialect) (cs : Text) : Reads d '/' cs (slash '/' cs) := by
  cases cs with
  | nil => exact .single '/' [] (by decide) (by decide) (by simp)
  | cons c' cs =>
    by_cases hc : c' = '*'
    · subst hc
      exact .blockComment cs
    · have hsingle : slash '/' (c' :: cs) = ⟨.symbol, ['/'], c' :: cs⟩ := by
        simp [slash, Dialect.blockCommentStart, hc]
      rw [hsingle]
      refine .single '/' (c' :: cs) (by decide) (by decide) ?_
      simpa [joins_slash] using hc

theorem reads_symbol (d : Dialect) {c : Char} (cs : Text) (hsymbol : isSymbolChar c = true)
    (hquote : isQuoteChar c = false) (hhyphen : c ≠ '-') (hslash : c ≠ '/') :
    Reads d c cs (symbol c cs) := by
  cases cs with
  | nil => exact .single c [] hsymbol hquote (by simp)
  | cons c' cs =>
    unfold symbol
    dsimp only
    split
    · next hpair => exact .pair c c' cs hpair
    · next hpair =>
      refine .single c (c' :: cs) hsymbol hquote ?_
      simpa [joins_of_ne hhyphen hslash] using hpair

theorem reads_word (d : Dialect) {c : Char} (cs : Text) (hletter : isLetter c = true) :
    Reads d c cs (word d c cs) := by
  unfold word cutWhile
  dsimp only
  split
  · next hcommand => exact .command c cs _ _ hletter hcommand
  · next hcommand => exact .word c cs hletter (by simpa using hcommand)

theorem closingQuote_eq (c : Char) : Dialect.closingQuote c = c := by
  by_cases hc : c = '"'
  · subst hc
    decide
  · have hne : (c == '"') = false := by simpa using hc
    simp [Dialect.closingQuote, Dialect.quotePairs, hne]

theorem isQuoteChar_eq (c : Char) : isQuoteChar c = (decide (c = '\'') || Dialect.isQuote c) := by
  simp [isQuoteChar, Dialect.isQuote, Dialect.quotePairs, beq_eq_decide, eq_comm]

/-- The lexer does what the cases say. -/
theorem reads_lexeme (d : Dialect) (c : Char) (cs : Text) : Reads d c cs (lexeme d c cs) := by
  unfold lexeme
  split
  · next hblank => exact .space c cs hblank
  · next hblank =>
    split
    · next hsemicolon =>
      subst hsemicolon
      refine .single ';' cs (by decide) (by decide) ?_
      intro c' _
      simp [joins_of_ne, symbolPairs]
    · split
      · next hdigit => exact .number c cs hdigit
      · next hdigit =>
        split
        · next hhyphen =>
          obtain rfl : c = '-' := by simpa [Dialect.lineCommentMark, eq_comm] using hhyphen
          exact reads_hyphen d cs
        · next hhyphen =>
          have hhyphen' : c ≠ '-' := by
            rintro rfl
            simp [Dialect.lineCommentMark] at hhyphen
          split
          · next hletter => exact reads_word d cs hletter
          · next hletter =>
            have hsymbol : isSymbolChar c = true := by simp_all [isLetter]
            split
            · next hslash =>
              subst hslash
              exact reads_slash d cs
            · next hslash =>
              rw [← isQuoteChar_eq]
              split
              · next hquote =>
                rw [closingQuote_eq]
                exact .quoted c cs hquote
              · next hquote =>
                exact reads_symbol d cs hsymbol (by simpa using hquote) hhyphen' hslash

namespace Reads

variable {d : Dialect} {c : Char} {cs : Text} {l : Lexeme}

/-- White space is read as far as it goes. -/
theorem of_space (h : Reads d c cs l) (hkind : l.kind = .space) : Text.isBlank c = true ∧
    l = ⟨.space, c :: cs.takeWhile Text.isBlank, cs.dropWhile Text.isBlank⟩ := by
  cases h with
  | space c cs blank => exact ⟨blank, rfl⟩
  | word c cs letter plain =>
    rcases wordKind_eq d (c :: cs.takeWhile isWordChar) with h | h <;> simp [h] at hkind
  | _ => cases hkind

/-- A keyword is a word that its dialect knows. -/
theorem of_keyword (h : Reads d c cs l) (hkind : l.kind = .keyword) : isLetter c = true ∧
    (d.classify (c :: cs.takeWhile isWordChar)).isSome = true ∧
    l = ⟨.keyword, c :: cs.takeWhile isWordChar, cs.dropWhile isWordChar⟩ := by
  cases h with
  | word c cs letter plain =>
    refine ⟨letter, ?_, congrArg (Lexeme.mk · _ _) hkind⟩
    simp only [wordKind] at hkind
    split at hkind
    · next hknown => exact hknown
    · cases hkind
  | _ => cases hkind

/-- A line comment reaches through the end of its line. -/
theorem of_lineComment (h : Reads d c cs l) (hkind : l.kind = .comment)
    (hline : Dialect.isLineComment l.text = true) : ∃ line, c = '-' ∧ cs = '-' :: line ∧
    l = ⟨.comment, '-' :: '-' :: (Text.cutAfterNewline line).1, (Text.cutAfterNewline line).2⟩ := by
  cases h with
  | lineComment line => exact ⟨line, rfl, rfl, rfl⟩
  | blockComment cs =>
    simp [Dialect.isLineComment, Text.startsWith, Dialect.lineCommentMark] at hline
  | word c cs letter plain =>
    rcases wordKind_eq d (c :: cs.takeWhile isWordChar) with h | h <;> simp [h] at hkind
  | _ => cases hkind

end Reads

/-! ## Tokens of a text -/

theorem tokenizeFrom_cons (d : Dialect) (offset : Nat) (c : Char) (cs : Text) :
    tokenizeFrom d offset (c :: cs) =
      ⟨(lexeme d c cs).kind, (lexeme d c cs).text, offset⟩ ::
        tokenizeFrom d (offset + Text.byteSize (lexeme d c cs).text) (lexeme d c cs).rest := by
  rw [tokenizeFrom]

/-- What holds of every lexeme holds of every token. -/
theorem forall_tokenizeFrom {d : Dialect} {P : Token → Prop}
    (step : ∀ c cs l, Reads d c cs l → ∀ offset, P ⟨l.kind, l.text, offset⟩) (offset : Nat)
    (s : Text) : ∀ t ∈ tokenizeFrom d offset s, P t := by
  fun_induction tokenizeFrom d offset s with
  | case1 offset => simp
  | case2 offset c cs l ih =>
    exact List.forall_mem_cons.mpr ⟨step c cs l (reads_lexeme d c cs) offset, ih⟩

/-- What holds of every lexeme and the one behind it holds of neighbouring tokens. -/
theorem isChain_tokenizeFrom {d : Dialect} {R : Token → Token → Prop}
    (step : ∀ c cs l, Reads d c cs l → ∀ c' cs' l', l.rest = c' :: cs' → Reads d c' cs' l' →
      ∀ offset offset', R ⟨l.kind, l.text, offset⟩ ⟨l'.kind, l'.text, offset'⟩) (offset : Nat)
    (s : Text) : (tokenizeFrom d offset s).IsChain R := by
  fun_induction tokenizeFrom d offset s with
  | case1 offset => exact .nil
  | case2 offset c cs l ih =>
    refine List.isChain_cons.mpr ⟨?_, ih⟩
    intro t ht
    cases hrest : l.rest with
    | nil =>
      rw [hrest, tokenizeFrom] at ht
      simp at ht
    | cons c' cs' =>
      rw [hrest, tokenizeFrom_cons, List.head?_cons, Option.mem_def, Option.some.injEq] at ht
      subst ht
      exact step c cs l (reads_lexeme d c cs) c' cs' _ hrest (reads_lexeme d c' cs') _ _

theorem concat_tokenizeFrom (d : Dialect) (offset : Nat) (s : Text) :
    Token.concat (tokenizeFrom d offset s) = s := by
  fun_induction tokenizeFrom d offset s with
  | case1 offset => rfl
  | case2 offset c cs l ih =>
    simp only [Token.concat, List.flatMap_cons] at ih ⊢
    rw [ih]
    exact lexeme_append d c cs

end SqlLayout.Lexer
