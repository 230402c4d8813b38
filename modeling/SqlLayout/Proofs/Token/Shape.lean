import SqlLayout.Proofs.Dialect.Keywords
import SqlLayout.Proofs.Token.Tokens

/-!
# The shapes of tokens

Under the standard dialect a token that is no comment has one of six shapes, told by its class and
its text (`shape_of_mem_tokenize`).  A token reaches as far as its shape allows, so the character
behind it stops it (`isChain_stops`), and a quoted value that something follows is closed.
-/

namespace SqlLayout.Lexer

/-- The lexer stops behind the quoted value `c :: body` unless the same quote follows. -/
def Closed (c : Char) (body : Text) : Prop :=
  ∀ rest : Text, (∀ x ∈ rest.head?, x ≠ c) → cutQuoted c (body ++ rest) = (body, rest)

/-- The shapes of tokens. -/
inductive Shape : TokenKind → Text → Prop
  | space {text : Text} (gap : Layout.IsGap text) : Shape .space text
  | number (c : Char) (cs : Text) (digit : Text.isDigit c = true)
      (digits : ∀ x ∈ cs, isNumberChar x = true) : Shape .value (c :: cs)
  | quoted (c : Char) (body : Text) (quote : isQuoteChar c = true)
      (whole : cutQuoted c body = (body, [])) : Shape .value (c :: body)
  | word {kind : TokenKind} {w : Text} (word : Text.IsWord w)
      (known : kind = wordKind .standard w) : Shape kind w
  | single (c : Char) (symbol : isSymbolChar c = true) (plain : isQuoteChar c = false) :
      Shape .symbol [c]
  | pair (c c' : Char) (pair : (c, c') ∈ symbolPairs) : Shape .symbol [c, c']

/-- Whether a token of this text ends in front of the character `c`. -/
def stops (text : Text) (c : Char) : Bool :=
  match text with
  | [] => true
  | first :: _ =>
    if Text.isDigit first then !isNumberChar c
    else if isLetter first then !isWordChar c
    else !isQuoteChar first || c != first

/-- A quoted value is closed. -/
def ClosedQuote (text : Text) : Prop :=
  ∀ c body, text = c :: body → isQuoteChar c = true → Closed c body

/-! ## Characters -/

theorem isDigit_of_isLetter {c : Char} (h : isLetter c = true) : Text.isDigit c = false := by
  simp only [isLetter, Bool.and_eq_true, Bool.not_eq_true'] at h
  exact h.1.2

theorem isSymbolChar_of_isLetter {c : Char} (h : isLetter c = true) : isSymbolChar c = false := by
  simp only [isLetter, Bool.and_eq_true, Bool.not_eq_true'] at h
  exact h.2

theorem isSymbolChar_of_isDigit {c : Char} (h : Text.isDigit c = true) : isSymbolChar c = false := by
  cases hsymbol : isSymbolChar c with
  | false => rfl
  | true => simp [isDigit_of_isSymbolChar hsymbol] at h

theorem isQuoteChar_of_not_symbol {c : Char} (h : isSymbolChar c = false) :
    isQuoteChar c = false := by
  cases hquote : isQuoteChar c with
  | false => rfl
  | true => simp [Layout.isSymbolChar_of_isQuoteChar hquote] at h

theorem isSymbolChar_of_isBlank {c : Char} (h : Text.isBlank c = true) : isSymbolChar c = false := by
  cases hsymbol : isSymbolChar c with
  | false => rfl
  | true => simp [Layout.isBlank_of_isSymbolChar hsymbol] at h

theorem isDigit_of_isBlank {c : Char} (h : Text.isBlank c = true) : Text.isDigit c = false := by
  cases hdigit : Text.isDigit c with
  | false => rfl
  | true => simp [Layout.isBlank_of_isDigit hdigit] at h

theorem not_wordChar_of_isBlank {c : Char} (h : Text.isBlank c = true) :
    isWordChar c = false ∧ isNumberChar c = false := by
  have hletter : isLetter c = false := by simp [isLetter, h]
  have hdigit : Text.isDigit c = false := isDigit_of_isBlank h
  have hne : ∀ x, Text.isBlank x = false → c ≠ x := by
    rintro x hx rfl
    rw [hx] at h
    cases h
  simp [isWordChar, isNumberChar, Dialect.nameSeparator, hletter, hdigit, hne '*' (by decide),
    hne '.' (by decide), hne 'e' (by decide), hne 'E' (by decide)]

theorem isQuoteChar_of_pair {c c' : Char} (h : (c, c') ∈ symbolPairs) : isQuoteChar c = false := by
  have hall : ∀ p ∈ symbolPairs, isQuoteChar p.1 = false := by decide
  exact hall _ h

theorem isSymbolChar_of_pair_snd {c c' : Char} (h : (c, c') ∈ symbolPairs) :
    isSymbolChar c' = true ∧ isQuoteChar c' = false := by
  have hall : ∀ p ∈ symbolPairs, isSymbolChar p.2 = true ∧ isQuoteChar p.2 = false := by decide
  exact hall _ h

/-! ## The lexeme that a character starts -/

theorem lexeme_blank (d : Dialect) {c : Char} (hc : Text.isBlank c = true) (cs : Text) :
    lexeme d c cs = ⟨.space, c :: cs.takeWhile Text.isBlank, cs.dropWhile Text.isBlank⟩ := by
  have hreads := reads_lexeme d c cs
  exact (hreads.of_space ((Layout.kind_eq_space_iff hreads).mpr hc)).2

theorem lexeme_digit (d : Dialect) {c : Char} (hc : Text.isDigit c = true) (cs : Text) :
    lexeme d c cs = ⟨.value, c :: cs.takeWhile isNumberChar, cs.dropWhile isNumberChar⟩ := by
  have hreads := reads_lexeme d c cs
  have hsymbol := isSymbolChar_of_isDigit hc
  generalize lexeme d c cs = l at hreads
  cases hreads with
  | number c cs digit => rfl
  | space c cs blank => simp [Layout.isBlank_of_isDigit hc] at blank
  | word c cs letter plain => simp [isDigit_of_isLetter letter] at hc
  | command c cs line rest letter known => simp [isDigit_of_isLetter letter] at hc
  | lineComment cs => exact absurd hc (by decide)
  | blockComment cs => exact absurd hc (by decide)
  | quoted c cs quote => simp [Layout.isSymbolChar_of_isQuoteChar quote] at hsymbol
  | single c cs symbol plain apart => simp [symbol] at hsymbol
  | pair c c' cs pair => simp [Layout.isSymbolChar_of_pair pair] at hsymbol

/-- A letter starts a word, where the word is no command. -/
theorem lexeme_plainWord {d : Dialect} {c : Char} {cs : Text} (hc : isLetter c = true)
    (hplain : d.isCommand (c :: cs.takeWhile isWordChar) = false) :
    lexeme d c cs = ⟨wordKind d (c :: cs.takeWhile isWordChar), c :: cs.takeWhile isWordChar,
      cs.dropWhile isWordChar⟩ := by
  have hreads := reads_lexeme d c cs
  have hsymbol := isSymbolChar_of_isLetter hc
  generalize lexeme d c cs = l at hreads
  cases hreads with
  | word c cs letter plain => dsimp only
  | command c cs line rest letter known =>
    rw [hplain] at known
    cases known
  | space c cs blank => simp [Layout.isBlank_of_isLetter hc] at blank
  | number c cs digit => simp [isDigit_of_isLetter hc] at digit
  | lineComment cs => exact absurd hc (by decide)
  | blockComment cs => exact absurd hc (by decide)
  | quoted c cs quote => simp [Layout.isSymbolChar_of_isQuoteChar quote] at hsymbol
  | single c cs symbol plain apart => simp [symbol] at hsymbol
  | pair c c' cs pair => simp [Layout.isSymbolChar_of_pair pair] at hsymbol

theorem lexeme_word {c : Char} (hc : isLetter c = true) (cs : Text) :
    lexeme .standard c cs = ⟨wordKind .standard (c :: cs.takeWhile isWordChar),
      c :: cs.takeWhile isWordChar, cs.dropWhile isWordChar⟩ :=
  lexeme_plainWord hc (Dialect.isCommand_standard _)

/-- A quote starts a quoted value under every dialect. -/
theorem lexeme_quote (d : Dialect) {q : Char} (hq : isQuoteChar q = true) (cs : Text) :
    lexeme d q cs = ⟨.value, q :: (cutQuoted q cs).1, (cutQuoted q cs).2⟩ := by
  have hreads := reads_lexeme d q cs
  have hsymbol := Layout.isSymbolChar_of_isQuoteChar hq
  generalize lexeme d q cs = l at hreads
  cases hreads with
  | quoted c cs quote => rfl
  | space c cs blank => simp [isSymbolChar_of_isBlank blank] at hsymbol
  | number c cs digit => simp [isSymbolChar_of_isDigit digit] at hsymbol
  | word c cs letter plain => simp [isSymbolChar_of_isLetter letter] at hsymbol
  | command c cs line rest letter known => simp [isSymbolChar_of_isLetter letter] at hsymbol
  | lineComment cs => exact absurd hq (by decide)
  | blockComment cs => exact absurd hq (by decide)
  | single c cs symbol plain apart => simp [plain] at hq
  | pair c c' cs pair => simp [isQuoteChar_of_pair pair] at hq

/-! ## How far a token reaches -/

/-- A run reaches as far as its characters go. -/
theorem span_append {p : Char → Bool} {a b : Text} (ha : ∀ x ∈ a, p x = true)
    (hb : ∀ c ∈ b.head?, p c = false) :
    (a ++ b).takeWhile p = a ∧ (a ++ b).dropWhile p = b := by
  have hrest : b.takeWhile p = [] ∧ b.dropWhile p = b := by
    cases b with
    | nil => exact ⟨rfl, rfl⟩
    | cons c cs =>
      have hc : p c = false := hb c (by simp)
      simp [hc]
  rw [List.takeWhile_append_of_pos ha, List.dropWhile_append_of_pos ha, hrest.1, hrest.2]
  simp

theorem stops_word {w : Text} (hw : Text.IsWord w) (c : Char) : stops w c = !isWordChar c := by
  obtain ⟨x, xs, rfl, hletter, -⟩ := hw.exists_head
  simp [stops, isDigit_of_isLetter hletter, hletter]

theorem stops_number {x : Char} (hx : Text.isDigit x = true) (xs : Text) (c : Char) :
    stops (x :: xs) c = !isNumberChar c := by
  simp [stops, hx]

theorem stops_quoted {x : Char} (hx : isQuoteChar x = true) (xs : Text) (c : Char) :
    stops (x :: xs) c = (c != x) := by
  have hsymbol := Layout.isSymbolChar_of_isQuoteChar hx
  simp [stops, isDigit_of_isSymbolChar hsymbol, isLetter_of_isSymbolChar hsymbol, hx]

theorem stops_symbol {x : Char} (hx : isSymbolChar x = true) (hquote : isQuoteChar x = false)
    (xs : Text) (c : Char) : stops (x :: xs) c = true := by
  simp [stops, isDigit_of_isSymbolChar hx, isLetter_of_isSymbolChar hx, hquote]

theorem stops_blank {x : Char} (hx : Text.isBlank x = true) (xs : Text) (c : Char) :
    stops (x :: xs) c = true := by
  have hletter : isLetter x = false := by simp [isLetter, hx]
  simp [stops, isDigit_of_isBlank hx, hletter,
    isQuoteChar_of_not_symbol (isSymbolChar_of_isBlank hx)]

/-! ## Quoted values -/

theorem cutQuoted_cons_of_ne {close c : Char} (h : c ≠ close) (cs : Text) :
    cutQuoted close (c :: cs) = (c :: (cutQuoted close cs).1, (cutQuoted close cs).2) := by
  cases cs with
  | nil => rfl
  | cons c' cs => rw [cutQuoted, if_neg h]

theorem cutQuoted_close {close : Char} {rest : Text} (h : ∀ x ∈ rest.head?, x ≠ close) :
    cutQuoted close (close :: rest) = ([close], rest) := by
  cases rest with
  | nil => rfl
  | cons c cs => rw [cutQuoted, if_pos rfl, if_neg (h c (by simp))]

/-- A quoted value that something follows is closed, and not by the same quote. -/
theorem closed_cutQuoted {close : Char} {s : Text} (h : (cutQuoted close s).2 ≠ []) :
    Closed close (cutQuoted close s).1 ∧ ∀ x ∈ (cutQuoted close s).2.head?, x ≠ close := by
  fun_induction cutQuoted close s with
  | case1 => exact absurd rfl h
  | case2 c => exact absurd rfl h
  | case3 cs ih =>
    obtain ⟨hclosed, hnext⟩ := ih h
    refine ⟨fun rest hrest => ?_, hnext⟩
    simp only [List.cons_append]
    rw [cutQuoted, if_pos rfl, if_pos rfl, hclosed rest hrest]
  | case4 c' cs hc' =>
    exact ⟨fun rest hrest => cutQuoted_close hrest, by simpa using hc'⟩
  | case5 c c' cs hc ih =>
    obtain ⟨hclosed, hnext⟩ := ih h
    refine ⟨fun rest hrest => ?_, hnext⟩
    rw [List.cons_append, cutQuoted_cons_of_ne hc, hclosed rest hrest]

theorem cutQuoted_cutQuoted (close : Char) (s : Text) :
    cutQuoted close (cutQuoted close s).1 = ((cutQuoted close s).1, []) := by
  fun_induction cutQuoted close s with
  | case1 => rfl
  | case2 c => rfl
  | case3 cs ih => rw [cutQuoted, if_pos rfl, if_pos rfl, ih]
  | case4 c' cs hc' => rfl
  | case5 c c' cs hc ih => rw [cutQuoted_cons_of_ne hc, ih]

/-! ## The tokens of a text -/

theorem shape_of_mem_tokenize {sql : Text} :
    ∀ t ∈ tokenize .standard sql, t.kind ≠ .comment → Shape t.kind t.text := by
  refine forall_tokenizeFrom ?_ 0 sql
  intro c cs l hreads offset hkind
  cases hreads with
  | space c cs blank => exact .space ⟨by simp, by simp [Text.allBlank, blank]⟩
  | number c cs digit => exact .number c _ digit fun x hx => List.mem_takeWhile_imp hx
  | word c cs letter plain => exact .word (Layout.isWord_takeWhile letter cs) (by dsimp only)
  | command c cs line rest letter known =>
    rw [Dialect.isCommand_standard] at known
    cases known
  | lineComment cs => exact absurd rfl hkind
  | blockComment cs => exact absurd rfl hkind
  | quoted c cs quote => exact .quoted c _ quote (cutQuoted_cutQuoted c cs)
  | single c cs symbol plain apart => exact .single c symbol plain
  | pair c c' cs pair => exact .pair c c' pair

/-- A token reaches up to the next one, and is closed there if it is quoted. -/
theorem isChain_stops (sql : Text) : (tokenize .standard sql).IsChain fun p t =>
    ClosedQuote p.text ∧ ∀ c ∈ t.text.head?, stops p.text c = true := by
  refine isChain_tokenizeFrom ?_ 0 sql
  intro c cs l hreads c' cs' l' hrest hreads' offset offset'
  have hhead : l'.text.head? = some c' := Layout.text_of_reads hreads'
  have hstart : l.text.head? = some c := Layout.text_of_reads hreads
  have hclosed : isQuoteChar c = false → ClosedQuote l.text := by
    intro hquote x body htext hx
    obtain rfl : x = c := by simpa [htext] using hstart
    rw [hquote] at hx
    cases hx
  simp only [hhead, Option.mem_def, Option.some.injEq, forall_eq']
  cases hreads with
  | space c cs blank =>
    exact ⟨hclosed (isQuoteChar_of_not_symbol (isSymbolChar_of_isBlank blank)), stops_blank blank _ _⟩
  | number c cs digit =>
    refine ⟨hclosed (isQuoteChar_of_not_symbol (isSymbolChar_of_isDigit digit)), ?_⟩
    rw [stops_number digit, Layout.eq_false_of_dropWhile hrest]
    rfl
  | word c cs letter plain =>
    refine ⟨hclosed (isQuoteChar_of_not_symbol (isSymbolChar_of_isLetter letter)), ?_⟩
    rw [stops_word (Layout.isWord_takeWhile letter cs), Layout.eq_false_of_dropWhile hrest]
    rfl
  | command c cs line rest letter known =>
    rw [Dialect.isCommand_standard] at known
    cases known
  | lineComment cs => exact ⟨hclosed rfl, stops_symbol rfl rfl _ _⟩
  | blockComment cs => exact ⟨hclosed rfl, stops_symbol rfl rfl _ _⟩
  | quoted c cs quote =>
    have hne : (cutQuoted c cs).2 ≠ [] := by simp_all
    obtain ⟨hbody, hnext⟩ := closed_cutQuoted hne
    refine ⟨?_, ?_⟩
    · intro x body htext hx
      obtain ⟨rfl, rfl⟩ := List.cons.inj htext
      exact hbody
    · rw [stops_quoted quote]
      simpa using hnext c' (by simp [show (cutQuoted c cs).2 = c' :: cs' from hrest])
  | single c cs symbol plain apart => exact ⟨hclosed plain, stops_symbol symbol plain _ _⟩
  | pair c c' cs pair =>
    have hquote := isQuoteChar_of_pair pair
    exact ⟨hclosed hquote, stops_symbol (Layout.isSymbolChar_of_pair pair) hquote _ _⟩

theorem closedQuote_of_mem_dropLast {sql : Text} :
    ∀ t ∈ (tokenize .standard sql).dropLast, ClosedQuote t.text := by
  have hchain := isChain_stops sql
  generalize tokenize .standard sql = ts at hchain
  induction ts with
  | nil => simp
  | cons p ts ih =>
    cases ts with
    | nil => simp
    | cons t ts =>
      rw [List.isChain_cons_cons] at hchain
      rw [List.dropLast_cons_cons]
      exact List.forall_mem_cons.mpr ⟨hchain.1.1, ih hchain.2⟩

/-! ## Tokens one after the other -/

/-- Tokens that the lexer reads apart unless symbols follow them. -/
structure Legible (ts : List Token) : Prop where
  shape : ∀ t ∈ ts, Shape t.kind t.text
  apart : ts.IsChain fun p t => t.kind ≠ .symbol → ∀ c ∈ t.text.head?, stops p.text c = true
  closed : ∀ t ∈ ts.dropLast, ClosedQuote t.text

theorem Legible.tail {t : Token} {ts : List Token} (h : Legible (t :: ts)) : Legible ts := by
  refine ⟨fun x hx => h.shape x (by simp [hx]), h.apart.tail, ?_⟩
  cases ts with
  | nil => simp
  | cons n ns => exact fun x hx => h.closed x (by simp [hx])

theorem Shape.text_ne_nil {kind : TokenKind} {text : Text} (h : Shape kind text) : text ≠ [] := by
  cases h with
  | space gap => exact gap.1
  | word word known =>
    obtain ⟨c, cs, rfl, -⟩ := word.exists_head
    simp
  | number c cs digit digits => simp
  | quoted c body quote whole => simp
  | single c symbol plain => simp
  | pair c c' pair => simp

/-- A symbol is made of punctuation. -/
theorem Shape.symbols {kind : TokenKind} {text : Text} (h : Shape kind text)
    (hkind : kind = .symbol) : ∀ c ∈ text, isSymbolChar c = true ∧ isQuoteChar c = false := by
  cases h with
  | single c symbol plain => simp [symbol, plain]
  | pair c c' pair =>
    simp [Layout.isSymbolChar_of_pair pair, isQuoteChar_of_pair pair, isSymbolChar_of_pair_snd pair]
  | word word known =>
    rcases wordKind_eq .standard text with h | h <;> simp [hkind, h] at known
  | space gap => cases hkind
  | number c cs digit digits => cases hkind
  | quoted c body quote whole => cases hkind

/-- The text of tokens starts with the first of them. -/
theorem Legible.head?_concat {ts : List Token} (h : Legible ts) :
    (Token.concat ts).head? = ts.head?.bind fun t => t.text.head? := by
  cases ts with
  | nil => rfl
  | cons t ts =>
    obtain ⟨c, cs, hc⟩ := List.exists_cons_of_ne_nil (h.shape t (by simp)).text_ne_nil
    simp [Token.concat, hc]

end SqlLayout.Lexer
