import SqlLayout.Proofs.Token.Shape

/-!
# Tokens on lines of their own

A lexeme does not depend on what used to stand behind it: cut off and put in front of a line feed,
or at the end of a text, it is read again (`relexes_lexeme`).  Only a lexeme that reaches to the end
of its text because nothing closes it has to stay there.  So the tokens of a text, one a line, are
read back with their classes and texts (`tokenize_lines`).
-/

namespace SqlLayout

/-- What the lexer makes of a text, wherever the tokens stand. -/
def lexemes (d : Dialect) (s : Text) : List (TokenKind × Text) :=
  (tokenize d s).map fun t => (t.kind, t.text)

namespace Lexer

/-- `EndsIn rest behind`: a lexeme that `behind` followed may get `rest` behind it instead.  Nothing
may follow any lexeme; a line feed may follow one that something else followed. -/
def EndsIn (rest behind : Text) : Prop :=
  rest = [] ∨ (∃ more, rest = '\n' :: more) ∧ behind ≠ []

/-- A reader gives the same lexeme when `rest` stands behind it. -/
def Relexes (f : Text → Lexeme) (cs : Text) : Prop :=
  ∀ rest, EndsIn rest (f cs).rest → f ((f cs).text.tail ++ rest) = ⟨(f cs).kind, (f cs).text, rest⟩

theorem EndsIn.head {rest behind : Text} (h : EndsIn rest behind) : ∀ c ∈ rest.head?, c = '\n' := by
  rcases h with rfl | ⟨⟨more, rfl⟩, -⟩ <;> simp

theorem EndsIn.closed {rest behind : Text} (h : EndsIn rest behind) : rest = [] ∨ behind ≠ [] :=
  h.imp_right And.right

/-! ## Cuts -/

theorem cutWhile_append_of_stops {p : Char → Bool} {run rest : Text} (hrun : ∀ c ∈ run, p c = true)
    (hrest : ∀ c ∈ rest.head?, p c = false) : cutWhile p (run ++ rest) = (run, rest) :=
  Prod.ext (span_append hrun hrest).1 (span_append hrun hrest).2

theorem cutWhile_takeWhile {p : Char → Bool} (hp : p '\n' = false) {cs rest behind : Text}
    (h : EndsIn rest behind) : cutWhile p (cs.takeWhile p ++ rest) = (cs.takeWhile p, rest) :=
  cutWhile_append_of_stops (fun _ => List.mem_takeWhile_imp) fun c hc => h.head c hc ▸ hp

theorem cutAfterNewline_cut {s rest : Text} (h : rest = [] ∨ (Text.cutAfterNewline s).2 ≠ []) :
    Text.cutAfterNewline ((Text.cutAfterNewline s).1 ++ rest) = ((Text.cutAfterNewline s).1, rest) := by
  fun_induction Text.cutAfterNewline s with
  | case1 =>
    obtain rfl : rest = [] := by simpa using h
    rfl
  | case2 cs => simp [Text.cutAfterNewline]
  | case3 c cs hc ih => rw [List.cons_append, Text.cutAfterNewline, if_neg hc, ih h]

theorem head?_cutBlockComment (c : Char) (cs : Text) :
    ∃ more, (cutBlockComment (c :: cs)).1 = c :: more := by
  cases cs with
  | nil => exact ⟨[], rfl⟩
  | cons c' cs =>
    rw [cutBlockComment]
    split
    · exact ⟨[c'], rfl⟩
    · exact ⟨_, rfl⟩

theorem cutBlockComment_cut {s rest : Text} (h : rest = [] ∨ (cutBlockComment s).2 ≠ []) :
    cutBlockComment ((cutBlockComment s).1 ++ rest) = ((cutBlockComment s).1, rest) := by
  fun_induction cutBlockComment s with
  | case1 | case2 c =>
    obtain rfl : rest = [] := by simpa using h
    rfl
  | case3 c c' cs hmark => rw [List.cons_append, List.cons_append, cutBlockComment, if_pos hmark]; rfl
  | case4 c c' cs hmark ih =>
    obtain ⟨more, hmore⟩ := head?_cutBlockComment c' cs
    have hrest := ih h
    rw [hmore] at hrest ⊢
    rw [List.cons_append, List.cons_append, cutBlockComment, if_neg hmark, ← List.cons_append, hrest]

theorem cutQuoted_cut {close : Char} (hclose : isQuoteChar close = true) {s rest : Text}
    (h : EndsIn rest (cutQuoted close s).2) :
    cutQuoted close ((cutQuoted close s).1 ++ rest) = ((cutQuoted close s).1, rest) := by
  rcases h.closed with rfl | hbehind
  · rw [List.append_nil]
    exact cutQuoted_cutQuoted close s
  · refine (closed_cutQuoted hbehind).1 rest fun c hc => ?_
    rw [h.head c hc]
    rintro rfl
    exact absurd hclose (by decide)

/-! ## Lexemes -/

theorem relexes_ofCut (kind : TokenKind) {c : Char} {cut : Text → Text × Text} {cs : Text}
    (hcut : ∀ rest, EndsIn rest (cut cs).2 → cut ((cut cs).1 ++ rest) = ((cut cs).1, rest)) :
    Relexes (fun cs => .ofCut kind c (cut cs)) cs := by
  intro rest hrest
  have h := hcut rest hrest
  simp only [Lexeme.ofCut, List.tail_cons] at h ⊢
  rw [h]

/-- A symbol on its own is read again unless a character that it joins follows. -/
theorem relexes_single {f : Text → Lexeme} {c : Char} {cs : Text} (hf : f cs = ⟨.symbol, [c], cs⟩)
    (hnil : f [] = ⟨.symbol, [c], []⟩)
    (hfeed : ∀ more, f ('\n' :: more) = ⟨.symbol, [c], '\n' :: more⟩) : Relexes f cs := by
  intro rest hrest
  rw [hf]
  rcases hrest with rfl | ⟨⟨more, rfl⟩, -⟩
  · exact hnil
  · exact hfeed more

theorem relexes_hyphen (cs : Text) : Relexes (hyphen '-') cs := by
  cases hmark : Dialect.isLineComment ('-' :: cs) with
  | false =>
    refine relexes_single (by rw [hyphen, hmark]; rfl) rfl fun more => ?_
    rfl
  | true =>
    obtain ⟨cs, rfl⟩ : ∃ more, cs = '-' :: more := by
      cases cs with
      | nil => cases hmark
      | cons c cs =>
        have hc : '-' = c := by
          simpa [Dialect.isLineComment, Text.startsWith, Dialect.lineCommentMark] using hmark
        exact ⟨cs, by rw [hc]⟩
    have hcomment : ∀ more : Text, hyphen '-' ('-' :: more) =
        .ofCut .comment '-' (Text.cutAfterNewline ('-' :: more)) := by
      intro more
      rw [hyphen, if_pos (by simp [Dialect.isLineComment, Text.startsWith, Dialect.lineCommentMark])]
    intro rest hrest
    rw [hcomment] at hrest ⊢
    have hcut := cutAfterNewline_cut (s := '-' :: cs) hrest.closed
    have hhead : (Text.cutAfterNewline ('-' :: cs)).1 = '-' :: (Text.cutAfterNewline cs).1 := by
      simp [Text.cutAfterNewline]
    simp only [Lexeme.ofCut, List.tail_cons] at hcut ⊢
    rw [hhead] at hcut ⊢
    rw [List.cons_append, hcomment, ← List.cons_append, hcut]
    rfl

theorem relexes_slash (cs : Text) : Relexes (slash '/') cs := by
  have single : ∀ cs : Text, slash '/' cs = ⟨.symbol, ['/'], cs⟩ → Relexes (slash '/') cs :=
    fun cs hcs => relexes_single hcs rfl fun more => rfl
  cases cs with
  | nil => exact single [] rfl
  | cons c cs =>
    by_cases hc : c = '*'
    · subst hc
      intro rest hrest
      have hcut := cutBlockComment_cut (s := cs) hrest.closed
      show (⟨.comment, '/' :: '*' :: (cutBlockComment ((cutBlockComment cs).1 ++ rest)).1,
        (cutBlockComment ((cutBlockComment cs).1 ++ rest)).2⟩ : Lexeme) = _
      rw [hcut]
      rfl
    · refine single (c :: cs) ?_
      rw [slash, if_neg (by simpa [Dialect.blockCommentStart] using hc)]

theorem relexes_symbol (c : Char) (cs : Text) : Relexes (symbol c) cs := by
  have hfeed : ∀ x, (x, '\n') ∉ symbolPairs := by simp [symbolPairs]
  have single : ∀ cs : Text, symbol c cs = ⟨.symbol, [c], cs⟩ → Relexes (symbol c) cs :=
    fun cs hcs => relexes_single hcs rfl fun more => by rw [symbol, if_neg (hfeed c)]
  cases cs with
  | nil => exact single [] rfl
  | cons c' cs =>
    by_cases hpair : (c, c') ∈ symbolPairs
    · have hread : ∀ more : Text, symbol c (c' :: more) = ⟨.symbol, [c, c'], more⟩ := by
        intro more
        rw [symbol, if_pos hpair]
      intro rest _
      rw [hread]
      exact hread rest
    · exact single (c' :: cs) (by rw [symbol, if_neg hpair])

/-- The word in front of a command line is the same word again. -/
theorem relexes_word (d : Dialect) (c : Char) (cs : Text) : Relexes (word d c) cs := by
  have hfeed : isWordChar '\n' = false := by decide
  intro rest hrest
  cases hcommand : d.isCommand (c :: cs.takeWhile isWordChar) with
  | false =>
    have hread : word d c cs = .ofCut (wordKind d (c :: cs.takeWhile isWordChar)) c
        (cutWhile isWordChar cs) := by
      simp only [word, cutWhile, hcommand, Bool.false_eq_true, ↓reduceIte]
      rfl
    rw [hread] at hrest ⊢
    simp only [Lexeme.ofCut, cutWhile, List.tail_cons] at hrest ⊢
    have hcut : cutWhile isWordChar (cs.takeWhile isWordChar ++ rest) =
        (cs.takeWhile isWordChar, rest) :=
      cutWhile_takeWhile hfeed hrest
    rw [word, hcut]
    simp [hcommand, Lexeme.ofCut, wordKind]
  | true =>
    generalize hline : (cs.dropWhile isWordChar).takeWhile (fun c => c != '\n' && c != '\r') = line
    have hread : word d c cs = ⟨.command, c :: cs.takeWhile isWordChar ++ line,
        (cs.dropWhile isWordChar).dropWhile fun c => c != '\n' && c != '\r'⟩ := by
      simp [word, cutWhile, hcommand, hline]
    rw [hread] at hrest ⊢
    have hstop : ∀ x ∈ (line ++ rest).head?, isWordChar x = false := by
      intro x hx
      cases line with
      | nil => exact hrest.head x hx ▸ hfeed
      | cons y ys =>
        obtain rfl : y = x := by simpa using hx
        cases hdrop : cs.dropWhile isWordChar with
        | nil => simp [hdrop] at hline
        | cons z zs =>
          have hz : z = y := by
            rw [hdrop, List.takeWhile_cons] at hline
            split at hline
            · exact (List.cons.inj hline).1
            · cases hline
          exact hz ▸ Layout.eq_false_of_dropWhile hdrop
    have hword : cutWhile isWordChar (cs.takeWhile isWordChar ++ (line ++ rest)) =
        (cs.takeWhile isWordChar, line ++ rest) :=
      cutWhile_append_of_stops (fun _ => List.mem_takeWhile_imp) hstop
    have hrun : cutWhile (fun c => c != '\n' && c != '\r') (line ++ rest) = (line, rest) := by
      rw [← hline]
      exact cutWhile_takeWhile (by decide) hrest
    simp only [List.cons_append, List.tail_cons, List.append_assoc]
    simp [word, hword, hcommand, hrun]

/-- A lexeme that is no white space is read again in front of a line feed. -/
theorem relexes_visible (d : Dialect) {c : Char} (hc : Text.isBlank c = false) (cs : Text) :
    Relexes (lexeme d c) cs := by
  by_cases hsemicolon : c = ';'
  · subst hsemicolon
    exact relexes_single rfl rfl fun more => rfl
  cases hdigit : Text.isDigit c with
  | true =>
    have heq : lexeme d c = fun cs => .ofCut .value c (cutWhile isNumberChar cs) :=
      funext (lexeme_digit d hdigit)
    rw [heq]
    exact relexes_ofCut .value fun rest hrest => cutWhile_takeWhile (by decide) hrest
  | false =>
  by_cases hhyphen : c = '-'
  · subst hhyphen
    exact relexes_hyphen cs
  have hmark : ¬ Dialect.lineCommentMark.head? = some c := by
    simpa [Dialect.lineCommentMark] using Ne.symm hhyphen
  cases hletter : isLetter c with
  | true =>
    have heq : lexeme d c = word d c := by
      funext cs
      simp [lexeme, hc, hsemicolon, hdigit, hmark, hletter]
    rw [heq]
    exact relexes_word d c cs
  | false =>
  by_cases hslash : c = '/'
  · subst hslash
    exact relexes_slash cs
  cases hquote : isQuoteChar c with
  | true =>
    have heq : lexeme d c = fun cs => .ofCut .value c (cutQuoted c cs) :=
      funext (lexeme_quote d hquote)
    rw [heq]
    exact relexes_ofCut .value fun rest hrest => cutQuoted_cut hquote hrest
  | false =>
    have heq : lexeme d c = symbol c := by
      funext cs
      rw [isQuoteChar_eq] at hquote
      simp [lexeme, hc, hsemicolon, hdigit, hmark, hletter, hslash, hquote]
    rw [heq]
    exact relexes_symbol c cs

/-- Every lexeme that is no white space is read again in front of a line feed, and any lexeme is at
the end of a text. -/
theorem relexes_lexeme (d : Dialect) {c : Char} (cs : Text) {rest : Text}
    (hrest : EndsIn rest (lexeme d c cs).rest) (hblank : rest ≠ [] → Text.isBlank c = false) :
    lexeme d c ((lexeme d c cs).text.tail ++ rest) =
      ⟨(lexeme d c cs).kind, (lexeme d c cs).text, rest⟩ := by
  cases hc : Text.isBlank c with
  | true =>
    obtain rfl : rest = [] := by
      by_contra hne
      simp [hblank hne] at hc
    have hrun := span_append (p := Text.isBlank) (a := cs.takeWhile Text.isBlank) (b := [])
      (fun _ => List.mem_takeWhile_imp) (by simp)
    rw [lexeme_blank d hc, lexeme_blank d hc, List.tail_cons, hrun.1, hrun.2]
  | false => exact relexes_visible d hc cs rest hrest

/-! ## Texts of lexemes -/

theorem map_tokenizeFrom (d : Dialect) (offset offset' : Nat) (s : Text) :
    (tokenizeFrom d offset s).map (fun t => (t.kind, t.text)) =
      (tokenizeFrom d offset' s).map fun t => (t.kind, t.text) := by
  fun_induction tokenizeFrom d offset s generalizing offset' with
  | case1 offset => simp [tokenizeFrom]
  | case2 offset c cs l ih =>
    rw [tokenizeFrom_cons, List.map_cons, List.map_cons]
    exact congrArg₂ List.cons rfl (ih _)

theorem lexemes_cons (d : Dialect) (c : Char) (cs : Text) :
    lexemes d (c :: cs) =
      ((lexeme d c cs).kind, (lexeme d c cs).text) :: lexemes d (lexeme d c cs).rest := by
  rw [lexemes, tokenize, tokenizeFrom_cons, List.map_cons, lexemes, tokenize,
    map_tokenizeFrom d _ 0]

theorem text_lexeme (d : Dialect) (c : Char) (cs : Text) :
    (lexeme d c cs).text = c :: (lexeme d c cs).text.tail := by
  obtain ⟨cs', htext⟩ := List.head?_eq_some_iff.mp (head?_lexeme_text d c cs)
  rw [htext, List.tail_cons]

/-- A lexeme is all that is read from its text. -/
theorem lexemes_text (d : Dialect) (c : Char) (cs : Text) :
    lexemes d (lexeme d c cs).text = [((lexeme d c cs).kind, (lexeme d c cs).text)] := by
  have hread : lexeme d c ((lexeme d c cs).text.tail ++ []) =
      ⟨(lexeme d c cs).kind, (lexeme d c cs).text, []⟩ := relexes_lexeme d cs (.inl rfl) (by simp)
  rw [List.append_nil] at hread
  conv_lhs => rw [text_lexeme d c cs, lexemes_cons, hread]
  simp [lexemes, tokenize, tokenizeFrom]

/-- A lexeme with a line feed behind it, in front of a text that does not start with white space. -/
theorem lexemes_line (d : Dialect) {c x : Char} {cs xs : Text} (hc : Text.isBlank c = false)
    (hx : Text.isBlank x = false) (hrest : (lexeme d c cs).rest ≠ []) :
    lexemes d ((lexeme d c cs).text ++ '\n' :: x :: xs) =
      ((lexeme d c cs).kind, (lexeme d c cs).text) :: (.space, ['\n']) :: lexemes d (x :: xs) := by
  have hread : lexeme d c ((lexeme d c cs).text.tail ++ '\n' :: x :: xs) =
      ⟨(lexeme d c cs).kind, (lexeme d c cs).text, '\n' :: x :: xs⟩ :=
    relexes_lexeme d cs (.inr ⟨⟨_, rfl⟩, hrest⟩) fun _ => hc
  have hfeed : lexeme d '\n' (x :: xs) = ⟨.space, ['\n'], x :: xs⟩ := by
    have hblank : Text.isBlank '\n' = true := by decide
    simp [lexeme, hblank, Lexeme.ofCut, cutWhile, hx]
  rw [text_lexeme d c cs, List.cons_append, lexemes_cons, hread, lexemes_cons, hfeed, ← text_lexeme]

end Lexer

/-- The texts of tokens, one a line. -/
def Token.lines (ts : List Token) : Text := ['\n'].intercalate (ts.map (·.text))

theorem Token.lines_cons_cons (t n : Token) (ts : List Token) :
    Token.lines (t :: n :: ts) = t.text ++ '\n' :: Token.lines (n :: ts) := by
  simp [Token.lines, List.intercalate]

theorem Token.exists_lines_cons {n : Token} {x : Char} (hx : n.text.head? = some x) (ns : List Token) :
    ∃ xs, Token.lines (n :: ns) = x :: xs := by
  obtain ⟨xs, htext⟩ := List.head?_eq_some_iff.mp hx
  cases ns with
  | nil => exact ⟨xs, by simp [Token.lines, htext]⟩
  | cons m ms => exact ⟨_, by rw [Token.lines_cons_cons, htext, List.cons_append]⟩

namespace Lexer

/-- Every token is the lexeme at the front of some text. -/
theorem exists_lexeme_of_mem {d : Dialect} {offset : Nat} {s : Text} {t : Token}
    (ht : t ∈ tokenizeFrom d offset s) :
    ∃ c cs, t.kind = (lexeme d c cs).kind ∧ t.text = (lexeme d c cs).text := by
  fun_induction tokenizeFrom d offset s with
  | case1 offset => simp at ht
  | case2 offset c cs l ih =>
    rcases List.mem_cons.mp ht with rfl | ht
    · exact ⟨c, cs, rfl, rfl⟩
    · exact ih ht

theorem isSpace_lexeme {d : Dialect} {c : Char} {cs : Text} {t : Token}
    (ht : t.kind = (lexeme d c cs).kind) : t.isSpace = Text.isBlank c := by
  rw [Bool.eq_iff_iff, ← Layout.kind_eq_space_iff (reads_lexeme d c cs), ← ht]
  simp [Token.isSpace]

theorem lexemes_lines (d : Dialect) (offset : Nat) (s : Text) :
    lexemes d (Token.lines (Token.visible (tokenizeFrom d offset s))) =
      ((Token.visible (tokenizeFrom d offset s)).map fun t => (t.kind, t.text)).intersperse
        (.space, ['\n']) := by
  fun_induction tokenizeFrom d offset s with
  | case1 offset => simp [Token.visible, Token.lines, lexemes, tokenize, tokenizeFrom]
  | case2 offset c cs l ih =>
    have hspace : (⟨l.kind, l.text, offset⟩ : Token).isSpace = Text.isBlank c := isSpace_lexeme rfl
    cases hc : Text.isBlank c with
    | true =>
      rw [Layout.visible_cons_space (hspace.trans hc)]
      exact ih
    | false =>
      rw [Layout.visible_cons (hspace.trans hc)]
      generalize hnext : Token.visible (tokenizeFrom d _ l.rest) = vs at ih
      cases vs with
      | nil => simpa [Token.lines, List.intercalate] using lexemes_text d c cs
      | cons n ns =>
        obtain ⟨hmem, hvisible⟩ : n ∈ tokenizeFrom d _ l.rest ∧ n.isSpace = false := by
          have hn : n ∈ Token.visible (tokenizeFrom d _ l.rest) := hnext ▸ List.mem_cons_self
          simpa [Token.visible] using hn
        have hrest : l.rest ≠ [] := by
          intro hnil
          simp [hnil, tokenizeFrom] at hmem
        obtain ⟨x, xs', hkind, htext⟩ := exists_lexeme_of_mem hmem
        obtain ⟨xs, hlines⟩ := Token.exists_lines_cons (htext ▸ head?_lexeme_text d x xs') ns
        have hx : Text.isBlank x = false := (isSpace_lexeme hkind).symm.trans hvisible
        rw [Token.lines_cons_cons, hlines, lexemes_line d hc hx hrest, ← hlines, ih]
        simp [l]

end Lexer

/-- The tokens of a text that are no white space, written one a line, are read back one a line with
the same classes and texts, and each of them is the only token of its own text. -/
theorem tokenize_lines (d : Dialect) (sql : Text) :
    lexemes d (Token.lines (Token.visible (tokenize d sql))) =
        ((Token.visible (tokenize d sql)).map fun t => (t.kind, t.text)).intersperse
          (.space, ['\n']) ∧
      ∀ t ∈ tokenize d sql, lexemes d t.text = [(t.kind, t.text)] := by
  refine ⟨Lexer.lexemes_lines d 0 sql, ?_⟩
  intro t ht
  obtain ⟨c, cs, hkind, htext⟩ := Lexer.exists_lexeme_of_mem ht
  rw [hkind, htext]
  exact Lexer.lexemes_text d c cs

end SqlLayout
