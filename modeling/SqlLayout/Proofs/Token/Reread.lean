import SqlLayout.Proofs.Token.CommentFree

/-!
# Keywords read back

The lexer reads a word as far as letters, digits, stars and dots go, and a number as far as digits,
dots and `e` go.  So tokens written one after the other without white space may be read as fewer
tokens.  `Run` is what the lexer is in the middle of behind a token, and as long as no run takes in a
keyword or makes one (`ties`), the keywords of the text are those of the tokens
(`Legible.keywordsIn_concat`).
-/

namespace SqlLayout

/-- The texts of the keywords, in order. -/
def Token.keywords (ts : List Token) : List Text :=
  (ts.filter fun t => t.kind == .keyword).map Token.text

namespace Lexer

/-- What the lexer is in the middle of: nothing that the next token could be part of, a keyword,
another word, or a number. -/
inductive Run where
  | none
  | keyword
  | word
  | number
  deriving DecidableEq, Repr

/-- Whether the token is one of the symbols that may be part of a word. -/
def isJoint (t : Token) : Bool := t.isSymbol ['.'] || t.isSymbol ['*'] || t.isSymbol ['.', '*']

/-- What a number leaves of a word behind it: the characters of a number are part of the number. -/
def leftOf (w : Text) : Text := w.dropWhile isNumberChar

/-- Whether a token takes part in a run such that a keyword is lost or made.  Behind a number what
is left of a name may be a keyword, or a star in front of one. -/
def Run.ties (run : Run) (t : Token) : Bool :=
  match run with
  | .none => false
  | .keyword => isJoint t
  | .word => t.kind == .keyword
  | .number =>
    t.kind == .keyword && leftOf t.text != t.text ||
      t.kind == .name &&
        ((leftOf t.text).head? == some '*' || wordKind .standard (leftOf t.text) == .keyword)

/-- The run behind a token that continues a run or starts one. -/
def Run.after (run : Run) (t : Token) : Run :=
  match t.kind with
  | .keyword => .keyword
  | .name => if run = .number && (leftOf t.text).isEmpty then .number else .word
  | .value =>
    if t.text.head?.any Text.isDigit then if run = .word then .word else .number else .none
  | .symbol =>
    if run = .word && isJoint t then .word
    else if run = .number && t.isSymbol ['.'] then .number
    else .none
  | .space | .comment | .command | .unknown => .none

/-- Whether somewhere in a token list a run takes in a keyword or makes one. -/
def tiesFrom : Run → List Token → Bool
  | _, [] => false
  | run, t :: ts => run.ties t || tiesFrom (run.after t) ts

/-! ## Keywords of texts -/

theorem keywords_tokenizeFrom (d : Dialect) (offset offset' : Nat) (s : Text) :
    Token.keywords (tokenizeFrom d offset s) = Token.keywords (tokenizeFrom d offset' s) := by
  fun_induction tokenizeFrom d offset s generalizing offset' with
  | case1 offset => rw [tokenizeFrom]
  | case2 offset c cs l ih =>
    have ih := ih (offset' + Text.byteSize l.text)
    rw [tokenizeFrom_cons]
    simp only [Token.keywords, List.filter_cons] at ih ⊢
    split <;> simp [ih, l]

/-- The keywords of a text under the standard dialect. -/
def keywordsIn (s : Text) : List Text := Token.keywords (tokenize .standard s)

theorem keywordsIn_cons (c : Char) (cs : Text) :
    keywordsIn (c :: cs) =
      (if (lexeme .standard c cs).kind = .keyword then [(lexeme .standard c cs).text] else []) ++
        keywordsIn (lexeme .standard c cs).rest := by
  have hoffset := keywords_tokenizeFrom .standard (0 + Text.byteSize (lexeme .standard c cs).text) 0
    (lexeme .standard c cs).rest
  unfold keywordsIn tokenize
  rw [tokenizeFrom_cons, ← hoffset]
  simp only [Token.keywords, List.filter_cons]
  split <;> simp_all

theorem keywordsIn_blank_run {c : Char} (hc : Text.isBlank c = true) (cs : Text) :
    keywordsIn (c :: cs) = keywordsIn (cs.dropWhile Text.isBlank) := by
  simp [keywordsIn_cons, lexeme_blank _ hc]

theorem keywordsIn_blank {c : Char} (hc : Text.isBlank c = true) (cs : Text) :
    keywordsIn (c :: cs) = keywordsIn cs := by
  rw [keywordsIn_blank_run hc]
  cases cs with
  | nil => rfl
  | cons c' cs =>
    cases hc' : Text.isBlank c' with
    | true => rw [keywordsIn_blank_run hc', List.dropWhile_cons_of_pos hc']
    | false => rw [List.dropWhile_cons_of_neg (by simp [hc'])]

theorem keywordsIn_number {c : Char} (hc : Text.isDigit c = true) (cs : Text) :
    keywordsIn (c :: cs) = keywordsIn (cs.dropWhile isNumberChar) := by
  simp [keywordsIn_cons, lexeme_digit _ hc]

theorem keywordsIn_word {c : Char} (hc : isLetter c = true) (cs : Text) :
    keywordsIn (c :: cs) =
      (if wordKind .standard (c :: cs.takeWhile isWordChar) = .keyword
        then [c :: cs.takeWhile isWordChar] else []) ++ keywordsIn (cs.dropWhile isWordChar) := by
  rw [keywordsIn_cons, lexeme_word hc]

theorem keywordsIn_quoted {c : Char} (hc : isQuoteChar c = true) (cs : Text) :
    keywordsIn (c :: cs) = keywordsIn (cutQuoted c cs).2 := by
  simp [keywordsIn_cons, lexeme_quote _ hc]

/-- A symbol at the front of a text without comments changes nothing about its keywords, whether
the lexer pairs it with its neighbour or not. -/
theorem keywordsIn_symbol {c : Char} {cs : Text} (hc : isSymbolChar c = true)
    (hquote : isQuoteChar c = false) (hfree : CommentFree (c :: cs)) :
    keywordsIn (c :: cs) = keywordsIn cs := by
  have hreads := reads_lexeme .standard c cs
  have hkind := ((commentFree_of_reads hreads).mp hfree).1
  rw [keywordsIn_cons]
  generalize lexeme .standard c cs = l at hreads hkind
  cases hreads with
  | single c cs symbol plain apart => simp
  | pair c c' cs pair =>
    obtain ⟨hc', hquote'⟩ := isSymbolChar_of_pair_snd pair
    have hfree' : CommentFree (c' :: cs) := ((commentFree_plain hquote _).mp hfree).2
    simp [keywordsIn_symbol hc' hquote' hfree']
  | space c cs blank => simp [isSymbolChar_of_isBlank blank] at hc
  | number c cs digit => simp [isSymbolChar_of_isDigit digit] at hc
  | word c cs letter plain => simp [isSymbolChar_of_isLetter letter] at hc
  | command c cs line rest letter known => simp [isSymbolChar_of_isLetter letter] at hc
  | lineComment cs => exact absurd rfl hkind
  | blockComment cs => exact absurd rfl hkind
  | quoted c cs quote => simp [quote] at hquote
termination_by cs.length

/-! ## Runs -/

/-- `Pending run last pre`: the lexer is in the middle of `pre`, a run that ends with the token text
`last`.  A word that more than one token went into has a dot or a star in it; a name may have lost
its front to a number. -/
inductive Pending : Run → Text → Text → Prop
  | none (last : Text) : Pending .none last []
  | keyword (w : Text) (word : Text.IsWord w) (known : wordKind .standard w = .keyword) :
      Pending .keyword w w
  | name (last w : Text) (whole : Text.IsWord last) (word : Text.IsWord w)
      (known : wordKind .standard w = .name) : Pending .word last w
  | joined (last w : Text) (word : Text.IsWord w) (joint : ∃ c ∈ w, c = '.' ∨ c = '*') :
      Pending .word last w
  | number (last : Text) (c : Char) (cs : Text) (digit : Text.isDigit c = true)
      (digits : ∀ x ∈ cs, isNumberChar x = true) : Pending .number last (c :: cs)

theorem wordKind_of_joint {w : Text} (h : ∃ c ∈ w, c = '.' ∨ c = '*') :
    wordKind .standard w = .name := by
  obtain ⟨c, hc, hjoint⟩ := h
  simp [wordKind, Dialect.classify_of_mem hc (hjoint.imp_right .inl)]

theorem tokenizeFrom_word {w rest : Text} (hw : Text.IsWord w)
    (hrest : ∀ c ∈ rest.head?, stops w c = true) (offset : Nat) :
    tokenizeFrom .standard offset (w ++ rest) = ⟨wordKind .standard w, w, offset⟩ ::
      tokenizeFrom .standard (offset + Text.byteSize w) rest := by
  obtain ⟨x, xs, rfl, hletter, -⟩ := hw.exists_head
  have hspan := span_append (p := isWordChar) (a := xs) (b := rest)
    (fun y hy => hw.2 y (by simp [hy]))
    (fun c hc => by simpa [stops_word hw] using hrest c hc)
  rw [List.cons_append, tokenizeFrom_cons, lexeme_word hletter, hspan.1, hspan.2]

/-- The tokens of a text that starts with a keyword. -/
theorem tokenize_keyword {w rest : Text} (hw : Text.IsWord w)
    (hknown : (Dialect.standard.classify w).isSome = true)
    (hrest : ∀ c ∈ rest.head?, isWordChar c = false) :
    tokenize .standard (w ++ rest) =
      ⟨.keyword, w, 0⟩ :: tokenizeFrom .standard (Text.byteSize w) rest := by
  have hkind : wordKind .standard w = .keyword := by
    rw [wordKind, hknown]
    rfl
  have hstops : ∀ c ∈ rest.head?, stops w c = true := by
    intro c hc
    rw [stops_word hw, hrest c hc]
    rfl
  rw [tokenize, tokenizeFrom_word hw hstops, hkind, Nat.zero_add]

theorem keywordsIn_of_isWord {w rest : Text} (hw : Text.IsWord w)
    (hrest : ∀ c ∈ rest.head?, stops w c = true) :
    keywordsIn (w ++ rest) =
      (if wordKind .standard w = .keyword then [w] else []) ++ keywordsIn rest := by
  obtain ⟨x, xs, rfl, hletter, -⟩ := hw.exists_head
  have hspan := span_append (p := isWordChar) (a := xs) (b := rest)
    (fun y hy => hw.2 y (by simp [hy]))
    (fun c hc => by simpa [stops_word hw] using hrest c hc)
  rw [List.cons_append, keywordsIn_word hletter, hspan.1, hspan.2]

/-- A word with a dot or a star in it is no keyword, however it starts. -/
theorem keywordsIn_joint {w : Text} (hw : Text.IsWord w) (h : ∃ c ∈ w, c = '.' ∨ c = '*') :
    keywordsIn w = [] := by
  have hread := keywordsIn_of_isWord hw (show ∀ c ∈ ([] : Text).head?, stops w c = true by simp)
  rw [wordKind_of_joint h, List.append_nil] at hread
  rw [hread]
  simp [keywordsIn, tokenize, tokenizeFrom, Token.keywords]

/-- A run that ends gives a keyword or nothing. -/
theorem Pending.keywordsIn {run : Run} {last pre rest : Text} (h : Pending run last pre)
    (hrest : ∀ c ∈ rest.head?, stops pre c = true) :
    Lexer.keywordsIn (pre ++ rest) =
      (if run = .keyword then [pre] else []) ++ Lexer.keywordsIn rest := by
  cases h with
  | none last => simp
  | keyword w word known => simp [keywordsIn_of_isWord word hrest, known]
  | name last w whole word known => simp [keywordsIn_of_isWord word hrest, known]
  | joined last w word joint =>
    simp [keywordsIn_of_isWord word hrest, wordKind_of_joint joint]
  | number last c cs digit digits =>
    have hspan := span_append (p := isNumberChar) (a := cs) (b := rest) digits
      (fun x hx => by simpa [stops_number digit] using hrest x hx)
    rw [List.cons_append, keywordsIn_number digit, hspan.2]
    simp

/-- A character that is part of no word and no number ends any run. -/
theorem Pending.stops {run : Run} {last pre : Text} (h : Pending run last pre) {c : Char}
    (hword : isWordChar c = false) (hnumber : isNumberChar c = false) :
    Lexer.stops pre c = true := by
  cases h with
  | none last => rfl
  | keyword w word known => simp [stops_word word, hword]
  | name last w whole word known => simp [stops_word word, hword]
  | joined last w word joint => simp [stops_word word, hword]
  | number last c cs digit digits => simp [stops_number digit, hnumber]

theorem not_wordChar_of_isSymbolChar {c : Char} (h : isSymbolChar c = true) (hdot : c ≠ '.')
    (hstar : c ≠ '*') : isWordChar c = false ∧ isNumberChar c = false := by
  have hne : ∀ x, isSymbolChar x = false → c ≠ x := by
    rintro x hx rfl
    rw [hx] at h
    cases h
  simp [isWordChar, isNumberChar, Dialect.nameSeparator, isLetter_of_isSymbolChar h,
    isDigit_of_isSymbolChar h, hdot, hstar, hne 'e' (by decide), hne 'E' (by decide)]

theorem keywordsIn_append_blank {a : Text} (ha : Text.allBlank a = true) (b : Text) :
    Lexer.keywordsIn (a ++ b) = Lexer.keywordsIn b := by
  induction a with
  | nil => rfl
  | cons c cs ih =>
    rw [Text.allBlank_cons, Bool.and_eq_true] at ha
    rw [List.cons_append, keywordsIn_blank ha.1, ih ha.2]

theorem keywordsIn_append_symbols {text rest : Text}
    (h : ∀ c ∈ text, isSymbolChar c = true ∧ isQuoteChar c = false)
    (hfree : CommentFree (text ++ rest)) :
    Lexer.keywordsIn (text ++ rest) = Lexer.keywordsIn rest := by
  induction text with
  | nil => rfl
  | cons c cs ih =>
    obtain ⟨⟨hsymbol, hquote⟩, hcs⟩ := List.forall_mem_cons.mp h
    rw [List.cons_append] at hfree ⊢
    rw [keywordsIn_symbol hsymbol hquote hfree, ih hcs ((commentFree_plain hquote _).mp hfree).2]

theorem isWordChar_of_isNumberChar {c : Char} (h : isNumberChar c = true) :
    isWordChar c = true := by
  simp only [isNumberChar, Bool.or_eq_true, beq_iff_eq] at h
  rcases h with ((hdigit | rfl) | rfl) | rfl
  · simp [isWordChar, hdigit]
  all_goals decide

theorem isWord_append {a b : Text} (ha : Text.IsWord a) (hb : ∀ c ∈ b, isWordChar c = true) :
    Text.IsWord (a ++ b) := by
  obtain ⟨x, xs, rfl, hletter, -⟩ := ha.exists_head
  refine ⟨⟨x, by simp, hletter⟩, ?_⟩
  intro c hc
  rcases List.mem_append.mp hc with hc | hc
  · exact ha.2 c hc
  · exact hb c hc

/-- What follows a run that ends: a token that starts no run. -/
theorem Pending.ends {run : Run} {last pre text rest : Text} (h : Pending run last pre)
    (hstops : ∀ c ∈ (text ++ rest).head?, Lexer.stops pre c = true)
    (hsame : Lexer.keywordsIn (text ++ rest) = Lexer.keywordsIn rest) :
    ∃ pre', Pending .none text pre' ∧ Lexer.keywordsIn (pre ++ (text ++ rest)) =
      (if run = .keyword then [pre] else []) ++ Lexer.keywordsIn (pre' ++ rest) := by
  refine ⟨[], .none text, ?_⟩
  rw [h.keywordsIn hstops, hsame]
  rfl

/-- What follows a run that ends: a token that starts another. -/
theorem Pending.starts {run run' : Run} {last pre text rest : Text} (h : Pending run last pre)
    (hstops : ∀ c ∈ (text ++ rest).head?, Lexer.stops pre c = true)
    (htext : Pending run' text text) :
    ∃ pre', Pending run' text pre' ∧ Lexer.keywordsIn (pre ++ (text ++ rest)) =
      (if run = .keyword then [pre] else []) ++ Lexer.keywordsIn (pre' ++ rest) :=
  ⟨text, htext, h.keywordsIn hstops⟩

/-- What follows a run that goes on. -/
theorem Pending.joins {run run' : Run} {pre text rest : Text} (hrun : run ≠ .keyword)
    (htext : Pending run' text (pre ++ text)) :
    ∃ pre', Pending run' text pre' ∧ Lexer.keywordsIn (pre ++ (text ++ rest)) =
      (if run = .keyword then [pre] else []) ++ Lexer.keywordsIn (pre' ++ rest) := by
  refine ⟨pre ++ text, htext, ?_⟩
  rw [if_neg hrun, List.append_assoc]
  rfl

theorem head?_append {text : Text} (h : text ≠ []) (rest : Text) :
    (text ++ rest).head? = text.head? := by
  cases text with
  | nil => exact absurd rfl h
  | cons c cs => rfl

/-- What the lexer makes of a run and the token `t` behind it: the keyword of the run if it ends
there, and a run of its own. -/
def Goes (run : Run) (pre : Text) (t : Token) (rest : Text) : Prop :=
  ∃ pre', Pending (run.after t) t.text pre' ∧ keywordsIn (pre ++ (t.text ++ rest)) =
    (if run = .keyword then [pre] else []) ++ keywordsIn (pre' ++ rest)

section Steps

variable {run : Run} {last pre rest : Text} {offset : Nat}

theorem Pending.goes_space (h : Pending run last pre) {text : Text} (gap : Layout.IsGap text) :
    Goes run pre ⟨.space, text, offset⟩ rest := by
  refine h.ends ?_ (keywordsIn_append_blank gap.2 rest)
  rw [head?_append gap.1]
  intro c hc
  have hblank := List.all_eq_true.mp gap.2 c (List.mem_of_mem_head? hc)
  obtain ⟨hword, hnumber⟩ := not_wordChar_of_isBlank hblank
  exact h.stops hword hnumber

theorem Pending.goes_quoted (h : Pending run last pre) {c : Char} {body : Text}
    (quote : isQuoteChar c = true) (hcut : cutQuoted c (body ++ rest) = (body, rest)) :
    Goes run pre ⟨.value, c :: body, offset⟩ rest := by
  have hsymbol := Layout.isSymbolChar_of_isQuoteChar quote
  have hafter : run.after ⟨.value, c :: body, offset⟩ = .none := by
    simp [Run.after, isDigit_of_isSymbolChar hsymbol]
  unfold Goes
  rw [hafter]
  refine h.ends ?_ ?_
  · simp only [List.cons_append, List.head?_cons, Option.mem_def, Option.some.injEq, forall_eq']
    have hmarks : c ≠ '.' ∧ c ≠ '*' := by
      constructor <;> (rintro rfl; exact absurd quote (by decide))
    obtain ⟨hword, hnumber⟩ := not_wordChar_of_isSymbolChar hsymbol hmarks.1 hmarks.2
    exact h.stops hword hnumber
  · rw [List.cons_append, keywordsIn_quoted quote, hcut]

/-- A symbol that is part of no word ends a run. -/
theorem Pending.goes_symbol (h : Pending run last pre) {text : Text}
    (hshape : Shape .symbol text) (hfree : CommentFree (text ++ rest))
    (hmarks : ∀ c ∈ text.head?, c ≠ '.' ∧ c ≠ '*') : Goes run pre ⟨.symbol, text, offset⟩ rest := by
  have hafter : run.after ⟨.symbol, text, offset⟩ = .none := by
    have hdot : text ≠ ['.'] := by
      rintro rfl
      exact (hmarks '.' rfl).1 rfl
    have hstar : text ≠ ['*'] := by
      rintro rfl
      exact (hmarks '*' rfl).2 rfl
    have hpair : text ≠ ['.', '*'] := by
      rintro rfl
      exact (hmarks '.' rfl).1 rfl
    simp [Run.after, isJoint, Token.isSymbol, hdot, hstar, hpair]
  unfold Goes
  rw [hafter]
  refine h.ends ?_ (keywordsIn_append_symbols (hshape.symbols rfl) hfree)
  rw [head?_append hshape.text_ne_nil]
  intro c hc
  have hsymbol : isSymbolChar c = true := (hshape.symbols rfl c (List.mem_of_mem_head? hc)).1
  obtain ⟨hword, hnumber⟩ := not_wordChar_of_isSymbolChar hsymbol (hmarks c hc).1 (hmarks c hc).2
  exact h.stops hword hnumber

/-- A dot, a star or both become part of a word. -/
theorem Pending.goes_joint (h : Pending run last pre) {text : Text}
    (htext : text = ['.'] ∨ text = ['*'] ∨ text = ['.', '*'])
    (hties : run.ties ⟨.symbol, text, offset⟩ = false) (hfree : CommentFree (text ++ rest)) :
    Goes run pre ⟨.symbol, text, offset⟩ rest := by
  have hsymbols : ∀ c ∈ text, isSymbolChar c = true ∧ isQuoteChar c = false := by
    rcases htext with rfl | rfl | rfl <;> decide
  have hjoint : isJoint ⟨.symbol, text, offset⟩ = true := by
    rcases htext with rfl | rfl | rfl <;> rfl
  have hmember : ∃ c ∈ text, c = '.' ∨ c = '*' := by
    rcases htext with rfl | rfl | rfl <;> simp
  have hchars : ∀ c ∈ text, isWordChar c = true := by
    rcases htext with rfl | rfl | rfl <;> decide
  have joined : ∀ {w : Text}, Text.IsWord w → Goes .word w ⟨.symbol, text, offset⟩ rest := by
    intro w hw
    have hafter : Run.word.after ⟨.symbol, text, offset⟩ = .word := by simp [Run.after, hjoint]
    unfold Goes
    rw [hafter]
    refine Pending.joins (by simp) (.joined _ _ (isWord_append hw hchars) ?_)
    obtain ⟨c, hc, hmark⟩ := hmember
    exact ⟨c, by simp [hc], hmark⟩
  cases h with
  | none last =>
    have hafter : Run.none.after ⟨.symbol, text, offset⟩ = .none := by simp [Run.after]
    unfold Goes
    rw [hafter]
    exact (Pending.none last).ends (by simp [Lexer.stops]) (keywordsIn_append_symbols hsymbols hfree)
  | keyword w word known =>
    rw [Run.ties, hjoint] at hties
    cases hties
  | name last w whole word known => exact joined word
  | joined last w word joint => exact joined word
  | number last c cs digit digits =>
    have hdot : ∀ x ∈ cs ++ ['.'], isNumberChar x = true := by
      intro x hx
      rcases List.mem_append.mp hx with hx | hx
      · exact digits x hx
      · rw [List.mem_singleton.mp hx]
        decide
    have hstar : Lexer.stops (c :: (cs ++ ['.'])) '*' = true := by
      rw [stops_number digit]
      decide
    rcases htext with rfl | rfl | rfl
    · exact Pending.joins (by simp) (.number _ c (cs ++ ['.']) digit hdot)
    · refine (Pending.number last c cs digit digits).ends ?_
        (keywordsIn_append_symbols hsymbols hfree)
      simpa [stops_number digit] using hstar
    · -- the number takes the dot, and the star is read on its own
      have hfree' : CommentFree ('*' :: rest) :=
        ((commentFree_plain (show isQuoteChar '.' = false by decide) _).mp hfree).2
      refine ⟨[], .none _, ?_⟩
      have hkeywords := (Pending.number last c (cs ++ ['.']) digit hdot).keywordsIn
        (show ∀ x ∈ ('*' :: rest).head?, Lexer.stops (c :: (cs ++ ['.'])) x = true by simpa using hstar)
      rw [keywordsIn_symbol (by decide) (by decide) hfree'] at hkeywords
      simpa using hkeywords

/-- A number starts a run or becomes part of one. -/
theorem Pending.goes_number (h : Pending run last pre) {c : Char} {cs : Text}
    (digit : Text.isDigit c = true) (digits : ∀ x ∈ cs, isNumberChar x = true)
    (happart : Lexer.stops last c = true) : Goes run pre ⟨.value, c :: cs, offset⟩ rest := by
  have hword : isWordChar c = true := by simp [isWordChar, digit]
  have hafter : run.after ⟨.value, c :: cs, offset⟩ = if run = .word then .word else .number := by
    simp [Run.after, digit]
  unfold Goes
  rw [hafter]
  cases h with
  | none last => exact (Pending.none last).starts (by simp [Lexer.stops]) (.number _ c cs digit digits)
  | keyword w word known => simp [stops_word word, hword] at happart
  | name last w whole word known => simp [stops_word whole, hword] at happart
  | joined last w word joint =>
    have hchars : ∀ x ∈ c :: cs, isWordChar x = true :=
      List.forall_mem_cons.mpr ⟨hword, fun x hx => isWordChar_of_isNumberChar (digits x hx)⟩
    refine Pending.joins (by simp) (.joined _ _ (isWord_append word hchars) ?_)
    obtain ⟨x, hx, hmark⟩ := joint
    exact ⟨x, by simp [hx], hmark⟩
  | number last x xs digit' digits' =>
    refine Pending.joins (by simp) (.number _ x (xs ++ c :: cs) digit' ?_)
    intro y hy
    rcases List.mem_append.mp hy with hy | hy
    · exact digits' y hy
    · rcases List.mem_cons.mp hy with rfl | hy
      · exact isNumberChar_of_isDigit digit
      · exact digits y hy

theorem isLetter_of_left {y : Char} (hword : isWordChar y = true) (hnumber : isNumberChar y = false)
    (hstar : y ≠ '*') : isLetter y = true := by
  simp only [isNumberChar, Bool.or_eq_false_iff, beq_eq_false_iff_ne] at hnumber
  simpa [isWordChar, Dialect.nameSeparator, hnumber, hstar] using hword

/-- What a number leaves of a word is a word itself, unless it starts with a star. -/
theorem isWord_leftOf {w : Text} {y : Char} {ys : Text} (word : Text.IsWord w)
    (hleft : leftOf w = y :: ys) (hstar : y ≠ '*') : Text.IsWord (y :: ys) := by
  have hchars : ∀ x ∈ y :: ys, isWordChar x = true := by
    rw [← hleft]
    exact fun x hx => word.2 x ((List.dropWhile_sublist isNumberChar).subset hx)
  have hnumber : isNumberChar y = false := Layout.eq_false_of_dropWhile hleft
  exact ⟨⟨y, rfl, isLetter_of_left (hchars y (by simp)) hnumber hstar⟩, hchars⟩

theorem ties_number_keyword {w : Text} :
    Run.number.ties ⟨.keyword, w, offset⟩ = false ↔ leftOf w = w := by
  simp [Run.ties]

theorem ties_number_name {w : Text} : Run.number.ties ⟨.name, w, offset⟩ = false ↔
    (leftOf w).head? ≠ some '*' ∧ wordKind .standard (leftOf w) ≠ .keyword := by
  simp [Run.ties]

/-- A number takes in the front of a word, and the lexer goes on with what is left of it. -/
theorem goes_word_of_number {c : Char} {cs : Text} (digit : Text.isDigit c = true)
    (digits : ∀ x ∈ cs, isNumberChar x = true) {kind : TokenKind} {w : Text}
    (word : Text.IsWord w) (known : kind = wordKind .standard w)
    (hties : Run.number.ties ⟨kind, w, offset⟩ = false) :
    Goes .number (c :: cs) ⟨kind, w, offset⟩ rest := by
  have htaken : Pending .number w (c :: (cs ++ w.takeWhile isNumberChar)) := by
    refine .number w c _ digit ?_
    intro x hx
    rcases List.mem_append.mp hx with hx | hx
    · exact digits x hx
    · exact List.mem_takeWhile_imp hx
  have hsplit : c :: cs ++ (w ++ rest) =
      c :: (cs ++ w.takeWhile isNumberChar) ++ (leftOf w ++ rest) := by
    have hw : w.takeWhile isNumberChar ++ leftOf w = w := List.takeWhile_append_dropWhile
    rw [List.cons_append, List.cons_append, List.append_assoc, ← List.append_assoc _ (leftOf w), hw]
  obtain ⟨x, xs, hw, -⟩ := word.exists_head
  unfold Goes
  rw [if_neg (by simp), hsplit]
  cases hleft : leftOf w with
  | nil =>
    rcases wordKind_eq .standard w with hkind | hkind
    · rw [known, hkind, ties_number_keyword, hleft, hw] at hties
      cases hties
    · refine ⟨_, ?_, rfl⟩
      simpa [Run.after, known, hkind, hleft] using htaken
  | cons y ys =>
    refine ⟨y :: ys, ?_, ?_⟩
    · rcases wordKind_eq .standard w with hkind | hkind
      · rw [known, hkind, ties_number_keyword] at hties
        rw [known, hkind, ← hleft, hties]
        exact .keyword w word hkind
      · rw [known, hkind, ties_number_name, hleft] at hties
        have hstar : y ≠ '*' := by simpa using hties.1
        have hname := (wordKind_eq .standard (y :: ys)).resolve_left hties.2
        simpa [Run.after, known, hkind, hleft] using
          Pending.name w (y :: ys) word (isWord_leftOf word hleft hstar) hname
    · have hstops : ∀ z ∈ (y :: ys ++ rest).head?,
          Lexer.stops (c :: (cs ++ w.takeWhile isNumberChar)) z = true := by
        have hnumber : isNumberChar y = false := Layout.eq_false_of_dropWhile hleft
        simp [stops_number digit, hnumber]
      rw [htaken.keywordsIn hstops]
      simp

/-- A word starts a run, or becomes part of a word if it is no keyword itself. -/
theorem Pending.goes_word (h : Pending run last pre) {kind : TokenKind} {w : Text}
    (word : Text.IsWord w) (known : kind = wordKind .standard w)
    (happart : ∀ c ∈ w.head?, Lexer.stops last c = true)
    (hties : run.ties ⟨kind, w, offset⟩ = false) : Goes run pre ⟨kind, w, offset⟩ rest := by
  obtain ⟨x, xs, rfl, hletter, -⟩ := word.exists_head
  have hword : isWordChar x = true := Text.isWordChar_of_isLetter hletter
  have hstop : Lexer.stops last x = true := happart x rfl
  cases h with
  | none last =>
    refine (Pending.none last).starts (by simp [Lexer.stops]) ?_
    rcases wordKind_eq .standard (x :: xs) with hkind | hkind
    · rw [known, hkind]
      exact .keyword _ word hkind
    · rw [known, hkind]
      exact .name _ _ word word hkind
  | keyword w word' known' => simp [stops_word word', hword] at hstop
  | name last w whole word' known' => simp [stops_word whole, hword] at hstop
  | joined last v word' joint =>
    have hkind : kind = .name := by
      have hkeyword : kind ≠ .keyword := by simpa [Run.ties] using hties
      rcases wordKind_eq .standard (x :: xs) with hkind | hkind
      · exact absurd (known.trans hkind) hkeyword
      · exact known.trans hkind
    unfold Goes
    subst hkind
    refine Pending.joins (by simp) (.joined _ _ (isWord_append word' word.2) ?_)
    obtain ⟨y, hy, hmark⟩ := joint
    exact ⟨y, by simp [hy], hmark⟩
  | number last c cs digit digits => exact goes_word_of_number digit digits word known hties

/-- The lexer goes on from a run to the next token unless a keyword is tied. -/
theorem Pending.goes (h : Pending run last pre) {t : Token} (hshape : Shape t.kind t.text)
    (happart : t.kind ≠ .symbol → ∀ c ∈ t.text.head?, Lexer.stops last c = true)
    (hties : run.ties t = false) (hfree : CommentFree (t.text ++ rest))
    (hcut : ∀ c body, t.text = c :: body → isQuoteChar c = true →
      cutQuoted c body = (body, []) → cutQuoted c (body ++ rest) = (body, rest)) :
    Goes run pre t rest := by
  obtain ⟨kind, text, offset⟩ := t
  simp only at hshape happart hfree hcut
  cases hshape with
  | space gap => exact h.goes_space gap
  | number c cs digit digits => exact h.goes_number digit digits (happart (by simp) c rfl)
  | quoted c body quote whole => exact h.goes_quoted quote (hcut c body rfl quote whole)
  | word word known =>
    refine h.goes_word word known (happart ?_) hties
    rcases wordKind_eq .standard text with hkind | hkind <;> simp [known, hkind]
  | single c symbol plain =>
    by_cases hmarks : c = '.' ∨ c = '*'
    · refine h.goes_joint ?_ hties hfree
      rcases hmarks with rfl | rfl
      · exact .inl rfl
      · exact .inr (.inl rfl)
    · refine h.goes_symbol (.single c symbol plain) hfree ?_
      simpa [not_or] using hmarks
  | pair c c' pair =>
    have hall : ∀ p ∈ symbolPairs, (p.1 ≠ '.' ∧ p.1 ≠ '*') ∨ p = ('.', '*') := by decide
    rcases hall _ pair with hmarks | hpair
    · exact h.goes_symbol (.pair c c' pair) hfree (by simpa using hmarks)
    · obtain ⟨rfl, rfl⟩ := Prod.mk.inj hpair
      exact h.goes_joint (.inr (.inr rfl)) hties hfree

end Steps

theorem after_eq_keyword {run : Run} {t : Token} : run.after t = .keyword ↔ t.kind = .keyword := by
  unfold Run.after
  constructor
  · intro h
    split at h
    · assumption
    all_goals
      repeat' split at h
      all_goals cases h
  · intro h
    rw [h]

/-- The keywords of tokens written one after the other, behind a run. -/
theorem Legible.keywordsIn_concat {ts : List Token} (h : Legible ts)
    (hfree : CommentFree (Token.concat ts)) {run : Run} {last pre : Text}
    (hpending : Pending run last pre)
    (happart : ∀ t ∈ ts.head?, t.kind ≠ .symbol → ∀ c ∈ t.text.head?, stops last c = true)
    (hties : tiesFrom run ts = false) :
    keywordsIn (pre ++ Token.concat ts) =
      (if run = .keyword then [pre] else []) ++ Token.keywords ts := by
  induction ts generalizing run last pre with
  | nil =>
    have hend : keywordsIn (pre ++ []) = (if run = .keyword then [pre] else []) ++ keywordsIn [] :=
      hpending.keywordsIn (by simp)
    simpa [Token.concat, Token.keywords, keywordsIn, tokenize, tokenizeFrom] using hend
  | cons t ts ih =>
    have hconcat : Token.concat (t :: ts) = t.text ++ Token.concat ts := by simp [Token.concat]
    have hrest : CommentFree (Token.concat ts) := by
      rw [h.commentFree_iff] at hfree
      exact h.tail.commentFree_iff.mpr hfree.tail
    rw [tiesFrom, Bool.or_eq_false_iff] at hties
    rw [hconcat] at hfree ⊢
    obtain ⟨pre', hpending', hkeywords⟩ := hpending.goes (h.shape t (by simp))
      (happart t (by simp)) hties.1 hfree fun c body => h.cutQuoted_concat
    have hnext : ∀ n ∈ ts.head?, n.kind ≠ .symbol → ∀ c ∈ n.text.head?, stops t.text c = true :=
      (List.isChain_cons.mp h.apart).1
    rw [hkeywords, ih h.tail hrest hpending' hnext hties.2]
    congr 1
    by_cases hkeyword : t.kind = .keyword
    · have hpre : pre' = t.text := by
        rw [after_eq_keyword.mpr hkeyword] at hpending'
        cases hpending'
        rfl
      simp [after_eq_keyword, hkeyword, hpre, Token.keywords]
    · simp [after_eq_keyword, hkeyword, Token.keywords]

end Lexer

end SqlLayout
