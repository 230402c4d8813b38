import SqlLayout.Dialect
import SqlLayout.Token

/-!
The first character decides how far a lexeme reaches.  Every branch returns the lexeme together
with the text behind it, and the two make up the input again (`lexeme_append`), so the tokens of a
text concatenate to it and the loop ends because the rest is always shorter.  A quoted value or a
block comment that is never closed reaches to the end of the text.
-/

namespace SqlLayout.Lexer

/-- Punctuation that is never part of a word. -/
def isSymbolChar (c : Char) : Bool :=
  ['"', '?', '%', '&', '\'', '(', ')', '|', '*', '+', ',', '-', '.', '/', ':', ';', '<', '=', '>',
    '!', '~', '\x60', '[', ']'].contains c

/-- Whatever is not white space, a digit or punctuation starts a word. -/
def isLetter (c : Char) : Bool := !Text.isBlank c && !Text.isDigit c && !isSymbolChar c

/-- The characters of a number after its first digit. -/
def isNumberChar (c : Char) : Bool := Text.isDigit c || c == '.' || c == 'e' || c == 'E'

/-- The characters of a word after its first letter. -/
def isWordChar (c : Char) : Bool :=
  isLetter c || Text.isDigit c || c == '*' || c == Dialect.nameSeparator

/-- The pairs of symbols that form one token. -/
def symbolPairs : List (Char × Char) :=
  [('<', '>'), ('<', '='), ('>', '='), ('|', '|'), ('(', ')'), ('!', '='), (':', '='), ('.', '*')]

/-- Cuts behind the quote that closes a value; a doubled quote belongs to the value. -/
def cutQuoted (close : Char) : Text → Text × Text
  | [] => ([], [])
  | [c] => ([c], [])
  | c :: c' :: cs =>
    if c = close then
      if c' = close then (c :: c' :: (cutQuoted close cs).1, (cutQuoted close cs).2)
      else ([c], c' :: cs)
    else (c :: (cutQuoted close (c' :: cs)).1, (cutQuoted close (c' :: cs)).2)

/-- Cuts behind the mark that closes a block comment. -/
def cutBlockComment : Text → Text × Text
  | [] => ([], [])
  | [c] => ([c], [])
  | c :: c' :: cs =>
    if [c, c'] = Dialect.blockCommentEnd then ([c, c'], cs)
    else (c :: (cutBlockComment (c' :: cs)).1, (cutBlockComment (c' :: cs)).2)

/-- A lexeme and the text behind it. -/
structure Lexeme where
  kind : TokenKind
  text : Text
  rest : Text
  deriving DecidableEq, Repr

/-- The lexeme of `c` and the characters of a cut behind it. -/
def Lexeme.ofCut (kind : TokenKind) (c : Char) (cut : Text × Text) : Lexeme :=
  ⟨kind, c :: cut.1, cut.2⟩

/-- Cuts in front of the first character that fails the test. -/
def cutWhile (p : Char → Bool) (s : Text) : Text × Text := (s.takeWhile p, s.dropWhile p)

/-- A line comment reaches through its line feed; a hyphen alone is a symbol. -/
def hyphen (c : Char) (cs : Text) : Lexeme :=
  if Dialect.isLineComment (c :: cs) then .ofCut .comment c (Text.cutAfterNewline cs)
  else ⟨.symbol, [c], cs⟩

/-- A word is a keyword when the dialect classifies it.  A command takes the rest of its line. -/
def word (d : Dialect) (c : Char) (cs : Text) : Lexeme :=
  let cut := cutWhile isWordChar cs
  if d.isCommand (c :: cut.1) then
    let line := cutWhile (fun c => c != '\n' && c != '\r') cut.2
    ⟨.command, c :: cut.1 ++ line.1, line.2⟩
  else
    .ofCut (if (d.classify (c :: cut.1)).isSome then .keyword else .name) c cut

/-- A slash opens a block comment when a star follows. -/
def slash (c : Char) (cs : Text) : Lexeme :=
  match cs with
  | [] => ⟨.symbol, [c], cs⟩
  | c' :: cs' =>
    if [c, c'] = Dialect.blockCommentStart then
      ⟨.comment, c :: c' :: (cutBlockComment cs').1, (cutBlockComment cs').2⟩
    else ⟨.symbol, [c], cs⟩

/-- A symbol takes its neighbour along when the two form a pair. -/
def symbol (c : Char) (cs : Text) : Lexeme :=
  match cs with
  | [] => ⟨.symbol, [c], cs⟩
  | c' :: cs' => if (c, c') ∈ symbolPairs then ⟨.symbol, [c, c'], cs'⟩ else ⟨.symbol, [c], cs⟩

/-- The lexeme at the front of `c :: cs`. -/
def lexeme (d : Dialect) (c : Char) (cs : Text) : Lexeme :=
  if Text.isBlank c then .ofCut .space c (cutWhile Text.isBlank cs)
  else if c = ';' then ⟨.symbol, [c], cs⟩
  else if Text.isDigit c then .ofCut .value c (cutWhile isNumberChar cs)
  else if Dialect.lineCommentMark.head? = some c then hyphen c cs
  else if isLetter c then word d c cs
  else if c = '/' then slash c cs
  else if c = '\'' || Dialect.isQuote c then .ofCut .value c (cutQuoted (Dialect.closingQuote c) cs)
  else symbol c cs

/-! ## Nothing is lost -/

theorem cutQuoted_append (close : Char) (s : Text) :
    (cutQuoted close s).1 ++ (cutQuoted close s).2 = s := by
  fun_induction cutQuoted close s <;> simp_all

theorem cutBlockComment_append (s : Text) :
    (cutBlockComment s).1 ++ (cutBlockComment s).2 = s := by
  fun_induction cutBlockComment s with
  | case1 | case2 | case3 => rfl
  | case4 c c' cs h ih => rw [List.cons_append, ih]

theorem cutWhile_append (p : Char → Bool) (s : Text) :
    (cutWhile p s).1 ++ (cutWhile p s).2 = s := by
  simp [cutWhile]

theorem ofCut_append (kind : TokenKind) (c : Char) (cut : Text × Text) :
    (Lexeme.ofCut kind c cut).text ++ (Lexeme.ofCut kind c cut).rest = c :: (cut.1 ++ cut.2) :=
  rfl

theorem hyphen_append (c : Char) (cs : Text) :
    (hyphen c cs).text ++ (hyphen c cs).rest = c :: cs := by
  unfold hyphen
  split
  · rw [ofCut_append, Text.cutAfterNewline_append]
  · rfl

theorem word_append (d : Dialect) (c : Char) (cs : Text) :
    (word d c cs).text ++ (word d c cs).rest = c :: cs := by
  unfold word
  dsimp only
  split
  · rw [List.append_assoc, cutWhile_append, List.cons_append, cutWhile_append]
  · rw [ofCut_append, cutWhile_append]

theorem slash_append (c : Char) (cs : Text) :
    (slash c cs).text ++ (slash c cs).rest = c :: cs := by
  unfold slash
  split
  · rfl
  · split
    · simp [cutBlockComment_append]
    · rfl

theorem symbol_append (c : Char) (cs : Text) :
    (symbol c cs).text ++ (symbol c cs).rest = c :: cs := by
  unfold symbol
  split
  · rfl
  · split <;> rfl

/-- A lexeme and the text behind it make up the input. -/
theorem lexeme_append (d : Dialect) (c : Char) (cs : Text) :
    (lexeme d c cs).text ++ (lexeme d c cs).rest = c :: cs := by
  unfold lexeme
  repeat' split
  · rw [ofCut_append, cutWhile_append]
  · rfl
  · rw [ofCut_append, cutWhile_append]
  · exact hyphen_append c cs
  · exact word_append d c cs
  · exact slash_append c cs
  · rw [ofCut_append, cutQuoted_append]
  · exact symbol_append c cs

theorem head?_hyphen_text (c : Char) (cs : Text) : (hyphen c cs).text.head? = some c := by
  unfold hyphen
  split <;> rfl

theorem head?_word_text (d : Dialect) (c : Char) (cs : Text) :
    (word d c cs).text.head? = some c := by
  unfold word
  dsimp only
  split <;> rfl

theorem head?_slash_text (c : Char) (cs : Text) : (slash c cs).text.head? = some c := by
  unfold slash
  split
  · rfl
  · split <;> rfl

theorem head?_symbol_text (c : Char) (cs : Text) : (symbol c cs).text.head? = some c := by
  unfold symbol
  split
  · rfl
  · split <;> rfl

/-- A lexeme starts with the first character of its input. -/
theorem head?_lexeme_text (d : Dialect) (c : Char) (cs : Text) :
    (lexeme d c cs).text.head? = some c := by
  unfold lexeme
  repeat' split
  · rfl
  · rfl
  · rfl
  · exact head?_hyphen_text c cs
  · exact head?_word_text d c cs
  · exact head?_slash_text c cs
  · rfl
  · exact head?_symbol_text c cs

/-- The text behind a lexeme is shorter than the input. -/
theorem length_lexeme_rest_lt (d : Dialect) (c : Char) (cs : Text) :
    (lexeme d c cs).rest.length < (c :: cs).length := by
  have hlen := congrArg List.length (lexeme_append d c cs)
  have hne : (lexeme d c cs).text ≠ [] := by
    intro h
    simpa [h] using head?_lexeme_text d c cs
  have hpos := List.length_pos_iff.mpr hne
  rw [List.length_append] at hlen
  omega

/-- The tokens of a text that starts at byte `offset`. -/
def tokenizeFrom (d : Dialect) (offset : Nat) : Text → List Token
  | [] => []
  | c :: cs =>
    let l := lexeme d c cs
    ⟨l.kind, l.text, offset⟩ :: tokenizeFrom d (offset + Text.byteSize l.text) l.rest
termination_by s => s.length
decreasing_by exact length_lexeme_rest_lt d c cs

end SqlLayout.Lexer

namespace SqlLayout

/-- The tokens of a text under a dialect. -/
def tokenize (d : Dialect) (s : Text) : List Token := Lexer.tokenizeFrom d 0 s

end SqlLayout
