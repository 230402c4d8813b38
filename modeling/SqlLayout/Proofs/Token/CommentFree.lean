import SqlLayout.Proofs.Layout.Compound
import SqlLayout.Proofs.Token.Shape

/-!
# Texts without comments

A text has no comment token exactly when no two characters outside its quoted values open one
(`commentFree_iff`).  For tokens written one after the other this is a question about neighbours:
a comment starts where two symbols meet that open one (`Legible.commentFree_iff`).
-/

namespace SqlLayout.Lexer

/-- Whether two characters open a comment. -/
def opensAt (c c' : Char) : Bool := c == '-' && c' == '-' || c == '/' && c' == '*'

/-- No comment is open at any character of the text outside its quoted values. -/
inductive CommentFree : Text → Prop
  | nil : CommentFree []
  | quoted (c : Char) (cs : Text) (quote : isQuoteChar c = true)
      (rest : CommentFree (cutQuoted c cs).2) : CommentFree (c :: cs)
  | plain (c : Char) (cs : Text) (plain : isQuoteChar c = false)
      (apart : ∀ c' ∈ cs.head?, opensAt c c' = false) (rest : CommentFree cs) : CommentFree (c :: cs)

/-- Characters that open neither a quoted value nor a comment. -/
def isQuiet (c : Char) : Bool := !isQuoteChar c && c != '-' && c != '/'

theorem commentFree_quoted {c : Char} (quote : isQuoteChar c = true) (cs : Text) :
    CommentFree (c :: cs) ↔ CommentFree (cutQuoted c cs).2 := by
  constructor
  · intro h
    cases h with
    | quoted _ _ _ rest => exact rest
    | plain _ _ plain _ _ =>
      rw [quote] at plain
      cases plain
  · exact CommentFree.quoted c cs quote

theorem commentFree_plain {c : Char} (plain : isQuoteChar c = false) (cs : Text) :
    CommentFree (c :: cs) ↔ (∀ c' ∈ cs.head?, opensAt c c' = false) ∧ CommentFree cs := by
  constructor
  · intro h
    cases h with
    | quoted _ _ quote _ =>
      rw [plain] at quote
      cases quote
    | plain _ _ _ apart rest => exact ⟨apart, rest⟩
  · exact fun h => .plain c cs plain h.1 h.2

theorem opensAt_of_isQuiet {c : Char} (h : isQuiet c = true) (c' : Char) :
    opensAt c c' = false := by
  simp only [isQuiet, Bool.and_eq_true, bne_iff_ne] at h
  have hhyphen : (c == '-') = false := by simpa using h.1.2
  have hslash : (c == '/') = false := by simpa using h.2
  simp [opensAt, hhyphen, hslash]

/-- Quiet characters change nothing about comments behind them. -/
theorem commentFree_append {a : Text} (ha : ∀ c ∈ a, isQuiet c = true) (b : Text) :
    CommentFree (a ++ b) ↔ CommentFree b := by
  induction a with
  | nil => rfl
  | cons c cs ih =>
    have hc := ha c (by simp)
    have hplain : isQuoteChar c = false := by
      simp only [isQuiet, Bool.and_eq_true, Bool.not_eq_true'] at hc
      exact hc.1.1
    rw [List.cons_append, commentFree_plain hplain, ih fun x hx => ha x (by simp [hx])]
    exact and_iff_right fun c' _ => opensAt_of_isQuiet hc c'

/-! ## Quiet tokens -/

theorem isQuiet_of_not_symbol {c : Char} (h : isSymbolChar c = false) : isQuiet c = true := by
  have hhyphen : c ≠ '-' := by
    rintro rfl
    exact absurd h (by decide)
  have hslash : c ≠ '/' := by
    rintro rfl
    exact absurd h (by decide)
  simp [isQuiet, isQuoteChar_of_not_symbol h, hhyphen, hslash]

theorem isQuiet_of_isNumberChar {c : Char} (h : isNumberChar c = true) : isQuiet c = true := by
  simp only [isNumberChar, Bool.or_eq_true, beq_iff_eq] at h
  rcases h with ((hdigit | rfl) | rfl) | rfl
  · exact isQuiet_of_not_symbol (isSymbolChar_of_isDigit hdigit)
  all_goals decide

theorem isQuiet_of_isWordChar {c : Char} (h : isWordChar c = true) : isQuiet c = true := by
  simp only [isWordChar, Bool.or_eq_true, beq_iff_eq] at h
  rcases h with ((hletter | hdigit) | rfl) | rfl
  · exact isQuiet_of_not_symbol (isSymbolChar_of_isLetter hletter)
  · exact isQuiet_of_not_symbol (isSymbolChar_of_isDigit hdigit)
  all_goals decide

theorem isQuiet_of_isBlank {c : Char} (h : Text.isBlank c = true) : isQuiet c = true :=
  isQuiet_of_not_symbol (isSymbolChar_of_isBlank h)

theorem isQuiet_of_pair {c c' : Char} (h : (c, c') ∈ symbolPairs) :
    ∀ x ∈ [c, c'], isQuiet x = true := by
  have hall : ∀ p ∈ symbolPairs, ∀ x ∈ [p.1, p.2], isQuiet x = true := by decide
  exact hall _ h

theorem isNumberChar_of_isDigit {c : Char} (h : Text.isDigit c = true) : isNumberChar c = true := by
  simp [isNumberChar, h]

/-! ## The lexer -/

/-- A lexeme of a comment-free text is no comment, and the text behind it is comment-free. -/
theorem commentFree_of_reads {c : Char} {cs : Text} {l : Lexeme} (h : Reads .standard c cs l) :
    CommentFree (c :: cs) ↔ l.kind ≠ .comment ∧ CommentFree l.rest := by
  have run : ∀ p : Char → Bool, p c = true → (∀ x, p x = true → isQuiet x = true) →
      (CommentFree (c :: cs) ↔ CommentFree (cs.dropWhile p)) := by
    intro p hc hquiet
    have hsplit : c :: cs = (c :: cs.takeWhile p) ++ cs.dropWhile p := by simp
    rw [hsplit]
    refine commentFree_append (List.forall_mem_cons.mpr ⟨hquiet c hc, ?_⟩) _
    exact fun x hx => hquiet x (List.mem_takeWhile_imp hx)
  cases h with
  | space c cs blank =>
    rw [run Text.isBlank blank fun x => isQuiet_of_isBlank]
    simp
  | number c cs digit =>
    rw [run isNumberChar (isNumberChar_of_isDigit digit) fun x => isQuiet_of_isNumberChar]
    simp
  | word c cs letter plain =>
    rw [run isWordChar (Text.isWordChar_of_isLetter letter) fun x => isQuiet_of_isWordChar]
    have hkind : wordKind .standard (c :: cs.takeWhile isWordChar) ≠ .comment := by
      rcases wordKind_eq .standard (c :: cs.takeWhile isWordChar) with h | h <;> simp [h]
    simp [hkind]
  | command c cs line rest letter known =>
    rw [Dialect.isCommand_standard] at known
    cases known
  | lineComment cs =>
    rw [commentFree_plain (by decide)]
    simp [opensAt]
  | blockComment cs =>
    rw [commentFree_plain (by decide)]
    simp [opensAt]
  | quoted c cs quote => simp [commentFree_quoted quote]
  | single c cs symbol plain apart =>
    have hopens : ∀ c' ∈ cs.head?, opensAt c c' = false := by
      intro c' hc'
      have hjoins := apart c' hc'
      simp only [joins, Dialect.lineCommentMark, Dialect.blockCommentStart, Bool.or_eq_false_iff,
        decide_eq_false_iff_not, List.cons.injEq, and_true] at hjoins
      simpa [opensAt] using And.intro hjoins.1.2 hjoins.2
    rw [commentFree_plain plain, and_iff_right hopens]
    simp
  | pair c c' cs pair =>
    have hquiet := commentFree_append (isQuiet_of_pair pair) cs
    rw [List.cons_append, List.singleton_append] at hquiet
    simp [hquiet]

theorem commentFree_iff_tokenizeFrom (offset : Nat) (s : Text) :
    CommentFree s ↔ ∀ t ∈ tokenizeFrom .standard offset s, t.kind ≠ .comment := by
  fun_induction tokenizeFrom .standard offset s with
  | case1 offset => simp [CommentFree.nil]
  | case2 offset c cs l ih =>
    rw [List.forall_mem_cons, commentFree_of_reads (reads_lexeme .standard c cs), ← ih]

theorem commentFree_iff (s : Text) :
    CommentFree s ↔ ∀ t ∈ tokenize .standard s, t.kind ≠ .comment :=
  commentFree_iff_tokenizeFrom 0 s

/-! ## Tokens one after the other -/

theorem opensComment_of_ne {p : Token} (hhyphen : p.text ≠ ['-']) (hslash : p.text ≠ ['/'])
    (t : Token) : Layout.opensComment p t = false := by
  simp [Layout.opensComment, Token.isSymbol, hhyphen, hslash]

/-- A token that starts with a mark which pairs with nothing behind it is that mark. -/
theorem Shape.isSymbol_iff {t : Token} (h : Shape t.kind t.text) {c : Char}
    (hc : c = '-' ∨ c = '*') : t.isSymbol [c] = true ↔ t.text.head? = some c := by
  have hsymbol : isSymbolChar c = true := by rcases hc with rfl | rfl <;> decide
  have hquote : isQuoteChar c = false := by rcases hc with rfl | rfl <;> decide
  constructor
  · intro ht
    rw [Layout.text_of_isSymbol ht]
    rfl
  · intro hhead
    obtain ⟨kind, text, offset⟩ := t
    simp only at h hhead
    cases h with
    | space gap =>
      cases text with
      | nil => cases hhead
      | cons x xs =>
        obtain rfl : x = c := by simpa using hhead
        have hblank := gap.2
        rw [Text.allBlank_cons, Layout.isBlank_of_isSymbolChar hsymbol] at hblank
        cases hblank
    | number x xs digit digits =>
      obtain rfl : x = c := by simpa using hhead
      simp [isDigit_of_isSymbolChar hsymbol] at digit
    | quoted x body quote whole =>
      obtain rfl : x = c := by simpa using hhead
      rw [hquote] at quote
      cases quote
    | word word known =>
      obtain ⟨x, xs, rfl, hletter, -⟩ := word.exists_head
      obtain rfl : x = c := by simpa using hhead
      simp [isLetter_of_isSymbolChar hsymbol] at hletter
    | single x symbol plain =>
      obtain rfl : x = c := by simpa using hhead
      simp [Token.isSymbol]
    | pair x x' pair =>
      obtain rfl : x = c := by simpa using hhead
      have hall : ∀ p ∈ symbolPairs, p.1 ≠ '-' ∧ p.1 ≠ '*' := by decide
      rcases hc with rfl | rfl
      · exact absurd rfl (hall _ pair).1
      · exact absurd rfl (hall _ pair).2

theorem Legible.opensAt_iff {ts : List Token} (h : Legible ts) {p : Token} {c : Char}
    (hc : c = '-' ∨ c = '/') (hp : p.isSymbol [c] = true) :
    (∀ c' ∈ (Token.concat ts).head?, opensAt c c' = false) ↔
      ∀ t ∈ ts.head?, Layout.opensComment p t = false := by
  rw [h.head?_concat]
  cases ts with
  | nil => simp
  | cons t ts =>
    have hshape := h.shape t (by simp)
    obtain ⟨x, xs, hx⟩ := List.exists_cons_of_ne_nil hshape.text_ne_nil
    have hhyphen : t.isSymbol ['-'] = (x == '-') := by
      rw [Bool.eq_iff_iff, hshape.isSymbol_iff (.inl rfl), hx]
      simp
    have hstar : t.isSymbol ['*'] = (x == '*') := by
      rw [Bool.eq_iff_iff, hshape.isSymbol_iff (.inr rfl), hx]
      simp
    have htext := Layout.text_of_isSymbol hp
    rcases hc with rfl | rfl
    · have hother : p.isSymbol ['/'] = false := by simp [Token.isSymbol, htext]
      simp [hx, opensAt, Layout.opensComment, hp, hother, hhyphen]
    · have hother : p.isSymbol ['-'] = false := by simp [Token.isSymbol, htext]
      simp [hx, opensAt, Layout.opensComment, hp, hother, hstar]

/-- The lexer stops behind a quoted value that tokens follow. -/
theorem Legible.cutQuoted_concat {p : Token} {ts : List Token} (h : Legible (p :: ts)) {c : Char}
    {body : Text} (hp : p.text = c :: body) (quote : isQuoteChar c = true)
    (whole : cutQuoted c body = (body, [])) :
    cutQuoted c (body ++ Token.concat ts) = (body, Token.concat ts) := by
  cases ts with
  | nil => simpa [Token.concat] using whole
  | cons t ts =>
    have hclosed := h.closed p (by simp)
    have hstops := (List.isChain_cons_cons.mp h.apart).1
    refine hclosed c body hp quote (Token.concat (t :: ts)) ?_
    intro x hx
    rw [h.tail.head?_concat] at hx
    have hhead : x ∈ t.text.head? := by simpa using hx
    by_cases hkind : t.kind = .symbol
    · rintro rfl
      have hplain := ((h.shape t (by simp)).symbols hkind x (List.mem_of_mem_head? hhead)).2
      rw [hplain] at quote
      cases quote
    · have hstop := hstops hkind x hhead
      rw [hp, stops_quoted quote] at hstop
      simpa using hstop

/-- Tokens written one after the other form a comment exactly where two of them open one. -/
theorem Legible.commentFree_iff {ts : List Token} (h : Legible ts) :
    CommentFree (Token.concat ts) ↔ ts.IsChain fun p t => Layout.opensComment p t = false := by
  induction ts with
  | nil => simp [Token.concat, CommentFree.nil]
  | cons p ts ih =>
    have hconcat : Token.concat (p :: ts) = p.text ++ Token.concat ts := by simp [Token.concat]
    have ih := ih h.tail
    have quiet : (∀ c ∈ p.text, isQuiet c = true) → (CommentFree (Token.concat (p :: ts)) ↔
        (p :: ts).IsChain fun p t => Layout.opensComment p t = false) := by
      intro hquiet
      have hhyphen : p.text ≠ ['-'] := fun hp => absurd (hquiet '-' (by simp [hp])) (by decide)
      have hslash : p.text ≠ ['/'] := fun hp => absurd (hquiet '/' (by simp [hp])) (by decide)
      rw [hconcat, commentFree_append hquiet, ih, List.isChain_cons]
      exact (and_iff_right fun t _ => opensComment_of_ne hhyphen hslash t).symm
    have hshape := h.shape p (by simp)
    generalize hkind : p.kind = kind at hshape
    generalize htext : p.text = text at hshape
    cases hshape with
    | space gap =>
      rw [htext] at quiet
      exact quiet fun c hc => isQuiet_of_isBlank (by simpa using (List.all_eq_true.mp gap.2) c hc)
    | number x xs digit digits =>
      rw [htext] at quiet
      refine quiet (List.forall_mem_cons.mpr ⟨?_, fun c hc => isQuiet_of_isNumberChar (digits c hc)⟩)
      exact isQuiet_of_isNumberChar (isNumberChar_of_isDigit digit)
    | word word known =>
      rw [htext] at quiet
      exact quiet fun c hc => isQuiet_of_isWordChar (word.2 c hc)
    | pair x x' pair =>
      rw [htext] at quiet
      exact quiet (isQuiet_of_pair pair)
    | quoted x body quote whole =>
      have hnot : ∀ t, Layout.opensComment p t = false := by
        refine opensComment_of_ne ?_ ?_
        · rw [htext]
          rintro heq
          rw [(List.cons.inj heq).1] at quote
          exact absurd quote (by decide)
        · rw [htext]
          rintro heq
          rw [(List.cons.inj heq).1] at quote
          exact absurd quote (by decide)
      rw [hconcat, htext, List.cons_append, commentFree_quoted quote,
        h.cutQuoted_concat htext quote whole, ih, List.isChain_cons]
      exact (and_iff_right fun t _ => hnot t).symm
    | single x symbol plain =>
      by_cases hx : x = '-' ∨ x = '/'
      · have hp : p.isSymbol [x] = true := by simp [Token.isSymbol, hkind, htext]
        rw [hconcat, htext, List.singleton_append, commentFree_plain plain, ih, List.isChain_cons,
          h.tail.opensAt_iff hx hp]
      · rw [htext] at quiet
        refine quiet ?_
        simpa [isQuiet, plain, not_or] using hx

end SqlLayout.Lexer
