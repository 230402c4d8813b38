import SqlLayout.Proofs.Layout.Aligned
import SqlLayout.Proofs.Layout.Lockstep
import SqlLayout.Proofs.Text.AsciiCase

/-!
# Join words

The words of join clauses are keywords of the standard dialect, and so are the tokens of a walk that read
like one (`kind_of_isJoinWord`).  At a join word the walk breaks the line in front of it if the word opens a
clause, and does nothing else (`hand_pass_joinWord`).
-/

namespace SqlLayout.Layout

/-! ## The words -/

/-- Whether a token is the word `JOIN`. -/
def isJoin (t : Token) : Bool := Text.sameAsciiCase t.text "JOIN".toList

theorem joinWords_reserved : ∀ w ∈ Walk.joinWords, w ∈ Dialect.Words.reserved ∧
    ClauseRole.ofWord? w.toList = some .joins := by decide

theorem mem_standardWords_of_joinWord {w : String} (hw : w ∈ Walk.joinWords) : w ∈ Dialect.standardWords := by
  simp [Dialect.standardWords, (joinWords_reserved w hw).1]

/-- The upper case of a join word is in the list. -/
theorem exists_joinWord {text : Text} (h : Walk.isJoinWord text = true) :
    ∃ w ∈ Walk.joinWords, Text.upper text = w.toList := by
  obtain ⟨w, hw, hsame⟩ := List.any_eq_true.mp h
  have hlower : Text.asciiLower text = Text.asciiLower w.toList := by simpa [Text.sameAsciiCase] using hsame
  refine ⟨w, hw, ?_⟩
  rw [← Text.upper_asciiLower, hlower, Text.upper_asciiLower,
    Dialect.upper_standardWords (mem_standardWords_of_joinWord hw)]

theorem ofWord?_of_isJoinWord {text : Text} (h : Walk.isJoinWord text = true) :
    ClauseRole.ofWord? (Text.upper text) = some .joins := by
  obtain ⟨w, hw, hword⟩ := exists_joinWord h
  rw [hword]
  exact (joinWords_reserved w hw).2

/-- The standard dialect knows the join words as keywords. -/
theorem classify_of_isJoinWord {text : Text} (h : Walk.isJoinWord text = true) :
    Dialect.standard.classify text = some .keyword := by
  obtain ⟨w, hw, hword⟩ := exists_joinWord h
  rw [Dialect.classify, hword, ← Dialect.upper_standardWords (mem_standardWords_of_joinWord hw),
    ← Dialect.classify]
  exact Dialect.classify_standard_keyword (List.mem_append_left _ (joinWords_reserved w hw).1)

theorem head_of_isJoinWord {text : Text} (h : Walk.isJoinWord text = true) :
    ∃ c ∈ text.head?, Lexer.isLetter c = true := by
  obtain ⟨w, hw, hword⟩ := exists_joinWord h
  obtain ⟨c, hc, hletter⟩ := Dialect.head_standardWords (mem_standardWords_of_joinWord hw)
  exact exists_letter_of_upper (hword ▸ hc) hletter

/-! ## Runs of words -/

/-- A run of join words reaches `JOIN` if that is one of them. -/
theorem reachesJoin_of_mem {run : List Token} (hwords : ∀ t ∈ run, Walk.isJoinWord t.text = true)
    (hjoin : run.any isJoin = true) (texts : List Text) :
    Walk.reachesJoin (run.map Token.text ++ texts) = true := by
  induction run with
  | nil => cases hjoin
  | cons t run ih =>
    rw [List.any_cons, Bool.or_eq_true] at hjoin
    rw [List.map_cons, List.cons_append, Walk.reachesJoin]
    rcases hjoin with hjoin | hjoin
    · rw [← isJoin, hjoin, Bool.true_or]
    · rw [hwords t (by simp), ih (fun u hu => hwords u (by simp [hu])) hjoin]
      simp

/-- A run of other words that no join word follows does not. -/
theorem not_reachesJoin {run : List Token} (hother : run.any isJoin = false) {texts : List Text}
    (hends : ∀ text ∈ texts.head?, Walk.isJoinWord text = false) :
    Walk.reachesJoin (run.map Token.text ++ texts) = false := by
  induction run with
  | nil =>
    cases texts with
    | nil => rfl
    | cons text texts => exact reachesJoin_cons_of_not (hends text (by simp)) texts
  | cons t run ih =>
    rw [List.any_cons, Bool.or_eq_false_iff] at hother
    rw [List.map_cons, List.cons_append, Walk.reachesJoin, ← isJoin, hother.1, ih hother.2]
    simp

/-! ## Tokens that start with a letter -/

/-- A token of a text that starts with a letter is a keyword or a name, as the dialect knows its text. -/
theorem kind_of_mem_tokenize {sql : Text} : ∀ t ∈ tokenize .standard sql,
    (∃ c ∈ t.text.head?, Lexer.isLetter c = true) → t.kind = Lexer.wordKind .standard t.text := by
  refine Lexer.forall_tokenizeFrom ?_ 0 sql
  rintro c cs l hreads offset ⟨c', hc', hletter⟩
  have hstart : l.text.head? = some c := text_of_reads hreads
  obtain rfl : c = c' := by simpa [hstart] using hc'
  cases hreads with
  | word c cs letter plain => dsimp only
  | space c cs blank => simp [Lexer.isLetter, blank] at hletter
  | number c cs digit => simp [Lexer.isDigit_of_isLetter hletter] at digit
  | command c cs line rest letter known =>
    rw [Dialect.isCommand_standard] at known
    cases known
  | lineComment cs => exact absurd hletter (by decide)
  | blockComment cs => exact absurd hletter (by decide)
  | quoted c cs quote =>
    rw [Lexer.isLetter_of_isSymbolChar (isSymbolChar_of_isQuoteChar quote)] at hletter
    cases hletter
  | single c cs symbol plain apart =>
    rw [Lexer.isLetter_of_isSymbolChar symbol] at hletter
    cases hletter
  | pair c c' cs pair =>
    rw [Lexer.isLetter_of_isSymbolChar (isSymbolChar_of_pair pair)] at hletter
    cases hletter

/-- A token of the walk that starts with a letter is a keyword, or a name that the dialect does not know as
one. -/
theorem kind_of_letter {s : Style} {sql : Text} {t : Token}
    (ht : t ∈ Token.visible (normalize s (tokenize .standard sql)))
    (hletter : ∃ c ∈ t.text.head?, Lexer.isLetter c = true) :
    t.kind = .keyword ∨ t.kind = .name ∧ Dialect.standard.classify t.text ≠ some .keyword := by
  rw [visible_normalize] at ht
  obtain ⟨b, hb, rfl⟩ := List.mem_map.mp ht
  obtain ⟨t, ht, htoken⟩ := exists_recase_of_mem_glueBlocks hb
  by_cases hkeyword : t.kind = .keyword
  · left
    rw [Block.kind_token, htoken, kind_recase, hkeyword]
  · right
    rw [recase_of_kind_ne s hkeyword] at htoken
    obtain ⟨hmem, hvisible⟩ := List.mem_filter.mp ht
    obtain ⟨x, hx, -⟩ := exists_head_of_mem_tokenize t hmem
    have hword : t.kind = Lexer.wordKind .standard t.text := by
      refine kind_of_mem_tokenize t hmem ?_
      rw [Block.text_token, htoken, List.head?_append, hx] at hletter
      rwa [hx]
    have hname : t.kind = .name := by
      rcases Lexer.wordKind_eq .standard t.text with h | h
      · exact absurd (hword.trans h) hkeyword
      · exact hword.trans h
    have hmore : b.more = [] :=
      (joins_glueBlocks _ b hb).more_of_kind (by simp [htoken, hname]) (by simp [htoken, hname])
    have hsame : b.token = t := by simp [Block.token, hmore, htoken, Token.withText]
    rw [hsame]
    refine ⟨hname, fun hknown => hkeyword ?_⟩
    rw [hword, Lexer.wordKind, if_pos (by simp [hknown])]

/-- A token of the walk that reads like a join word is a keyword. -/
theorem kind_of_isJoinWord {s : Style} {sql : Text} {t : Token}
    (ht : t ∈ Token.visible (normalize s (tokenize .standard sql)))
    (hword : Walk.isJoinWord t.text = true) : t.kind = .keyword :=
  (kind_of_letter ht (head_of_isJoinWord hword)).resolve_right
    fun hname => hname.2 (classify_of_isJoinWord hword)

/-- A token of the walk that reads like a function is a word. -/
theorem namesFunction_of_isFunction {s : Style} {sql : Text} {t : Token}
    (ht : t ∈ Token.visible (normalize s (tokenize .standard sql)))
    (hfunction : Dialect.standard.isFunction t.text = true) : namesFunction .standard t = true := by
  have hkind : isWordKind t.kind = true := by
    rcases kind_of_letter ht (namesFunctions_standard _ hfunction) with hkind | ⟨hkind, -⟩ <;>
      rw [hkind] <;> rfl
  rw [namesFunction, hkind, hfunction]
  rfl

/-! ## The walk at a join word -/

section Steps

variable {d : Dialect} {s : Style} {h : Hand} {p : Piece}

theorem moveOf_joinWord (s : Style) (around : Surroundings) {t : Token} (f : Footing)
    (hkind : t.kind = .keyword) (hword : Walk.isJoinWord t.text = true) :
    moveOf s around t f = ⟨if around.joins then f.breakAt (f.level - 1) else none, none, f⟩ := by
  simp [moveOf, hkind, Move.onKeyword, ofWord?_of_isJoinWord hword]

/-- Behind a join word the walk stands as in front of it, with nothing in front of the next token. -/
theorem hand_pass_joinWord (hother : s.isDelimiter p.token.text = false) (hkind : p.token.kind = .keyword)
    (hword : Walk.isJoinWord p.token.text = true) (rest : List Text) :
    (h.pass d s rest p).hand = ⟨h.footing, .flow, p.token.text, some p.token⟩ := by
  have hshown : h.shown p.token = p.token := h.shown_of_kind_ne (by simp [hkind])
  have hopen : isOpenComment p.token = false := by
    simp [isOpenComment, isLineComment_of_kind_ne, hkind]
  simp [pass_of_other hother, Hand.visit, Hand.move, hshown, moveOf_joinWord s _ _ hkind hword,
    Hand.leadBehind, hother, hopen]

/-- What the walk puts in front of a join word. -/
theorem gap_pass_joinWord (hother : s.isDelimiter p.token.text = false) (hkind : p.token.kind = .keyword)
    (hword : Walk.isJoinWord p.token.text = true) {x : Token} (hlast : h.last = some x) (rest : List Text) :
    (h.pass d s rest p).gap =
      if !Walk.isJoinWord x.text && Walk.reachesJoin (p.token.text :: rest) && !h.footing.inCall then
        s.lineBreak (h.footing.level - 1)
      else h.gapBefore s p.gap p.token := by
  have hshown : h.shown p.token = p.token := h.shown_of_kind_ne (by simp [hkind])
  have hjoins : (h.around d rest (h.gapBefore s p.gap p.token) p.token).joins =
      (!Walk.isJoinWord x.text && Walk.reachesJoin (p.token.text :: rest)) := by
    simp [Hand.around, hword, hlast]
  simp only [pass_of_other hother, Hand.visit, Hand.move, hshown, moveOf_joinWord s _ _ hkind hword, hjoins,
    Hand.gapAfter, hother, hlast, Footing.breakAt, Option.isNone_some, Bool.or_false, Bool.false_eq_true,
    ↓reduceIte]
  cases hopens : !Walk.isJoinWord x.text && Walk.reachesJoin (p.token.text :: rest) with
  | false => rfl
  | true => cases hcall : h.footing.inCall <;> rfl

end Steps

end SqlLayout.Layout
