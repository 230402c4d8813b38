import SqlLayout.Proofs.Dialect.Standard
import SqlLayout.Proofs.Layout.Preservation
import SqlLayout.Proofs.Layout.Walked

/-!
# The walk gets tidy tokens

What the passes in front of the walk make of the tokens of a text is tidy, under the standard
dialect and a delimiter that is a mark (`tidy_normalize`).
-/

namespace SqlLayout.Layout

/-! ## White space -/

/-- White space stands between two tokens that need it. -/
def Apart (p t : Token) : Prop :=
  (p.isSpace = true → t.isSpace = false ∧ absorbsSpace t = false) ∧
    (t.isSpace = true → absorbsSpace p = false)

theorem apart_collapseAfter (p : Token) (ts : List Token) (hp : p.isSpace = false)
    (hts : Spaced (p :: ts)) : (p :: collapseAfter (absorbsSpace p) ts).IsChain Apart := by
  induction ts generalizing p with
  | nil => exact .singleton p
  | cons t ts ih =>
    have htail : Spaced (t :: ts) := hts.tail
    cases hspace : t.isSpace with
    | false =>
      rw [collapseAfter_visible hspace]
      refine List.isChain_cons_cons.mpr ⟨?_, ih t hspace htail⟩
      simp [Apart, hp, hspace]
    | true =>
      have hnext : ∀ n ∈ ts.head?, n.isSpace = false :=
        fun n hn => (List.isChain_cons.mp htail).1 n hn hspace
      have hshort : Spaced (p :: ts) :=
        List.isChain_cons.mpr ⟨fun n hn _ => hnext n hn, htail.tail⟩
      have hdropped : (p :: collapseAfter false ts).IsChain Apart := by
        rw [collapseAfter_eq hnext false (absorbsSpace p)]
        exact ih p hp hshort
      simp only [collapseAfter, hspace, ↓reduceIte]
      split
      · exact hdropped
      · next habsorbed =>
        simp only [Bool.or_eq_true, not_or, Bool.not_eq_true] at habsorbed
        have hspace' : (t.withText [' ']).isSpace = true := hspace
        refine List.isChain_cons_cons.mpr ⟨by simp [Apart, hp, habsorbed.1], ?_⟩
        refine List.isChain_cons.mpr ⟨?_, hdropped.tail⟩
        cases ts with
        | nil => simp [collapseAfter]
        | cons n ns =>
          have hn : n.isSpace = false := hnext n (by simp)
          have hword : absorbsSpace n = false := by simpa using habsorbed.2
          simp [collapseAfter, hn, Apart, hword]

theorem apart_collapse {ts : List Token} (hts : Spaced ts)
    (hfirst : ∀ t ∈ ts.head?, t.isSpace = false) : (collapse ts).IsChain Apart := by
  cases ts with
  | nil => exact .nil
  | cons t ts =>
    have hvisible : t.isSpace = false := hfirst t (by simp)
    have heq : collapse (t :: ts) = t :: collapseAfter (absorbsSpace t) ts := by
      simp [collapse, collapseAfter, hvisible]
    rw [heq]
    exact apart_collapseAfter t ts hvisible hts

/-- What relates neighbours by their classes relates the compounds made of them. -/
theorem Spells.isChain {R : Token → Token → Prop}
    (hR : ∀ p p' t t', p.kind = p'.kind → t.kind = t'.kind → R p t → R p' t')
    {fs cs : List Token} (h : Spells Compound fs cs) (hfs : fs.IsChain R) : cs.IsChain R := by
  induction h with
  | nil => exact .nil
  | @cons b fs t cs block rest ih =>
    obtain ⟨front, z, rfl, hz⟩ := block.exists_last
    obtain ⟨-, hrest, hjoin⟩ := List.isChain_append.mp hfs
    refine List.isChain_cons.mpr ⟨?_, ih hrest⟩
    intro n hn
    cases rest with
    | nil => simp at hn
    | cons block' rest' =>
      obtain ⟨a, more, rfl, ha⟩ := block'.exists_first
      rw [List.head?_cons, Option.mem_def, Option.some.injEq] at hn
      subst hn
      exact hR z t a _ hz ha (hjoin z (by simp) a (by simp))

theorem Spells.last {fs cs : List Token} (h : Spells Compound fs cs)
    (hlast : ∀ t ∈ fs.getLast?, t.isSpace = false) : ∀ t ∈ cs.getLast?, t.isSpace = false := by
  induction h with
  | nil => simp
  | @cons b fs t cs block rest ih =>
    cases rest with
    | nil =>
      obtain ⟨front, z, rfl, hz⟩ := block.exists_last
      have hvisible : z.isSpace = false := by simpa using hlast
      simpa [Token.isSpace, hz] using hvisible
    | @cons b' fs' t' cs' block' rest' =>
      obtain ⟨a, more, rfl, -⟩ := block'.exists_first
      rw [List.getLast?_cons_cons]
      refine ih fun x hx => hlast x ?_
      have hsome : (a :: more ++ fs').getLast? = some x := hx
      rw [List.getLast?_append, hsome]
      rfl

/-! ## Line comments -/

/-- Line comments that something follows end with their line feed. -/
def EndsComments (ts : List Token) : Prop :=
  ts.IsChain fun p _ => isLineComment p = true → Text.endsWith p.text '\n' = true

theorem endsComments_cons {t : Token} {ts : List Token} : EndsComments (t :: ts) ↔
    (ts ≠ [] → isLineComment t = true → Text.endsWith t.text '\n' = true) ∧ EndsComments ts := by
  unfold EndsComments
  rw [List.isChain_cons]
  cases ts with
  | nil => simp
  | cons a as => simp

theorem endsWith_cutAfterNewline {s : Text} (h : (Text.cutAfterNewline s).2 ≠ []) :
    (Text.cutAfterNewline s).1.getLast? = some '\n' := by
  fun_induction Text.cutAfterNewline s with
  | case1 => simp at h
  | case2 cs => rfl
  | case3 c cs hc ih =>
    have hlast := ih h
    rw [List.getLast?_cons, hlast]
    rfl

theorem endsComments_tokenize (d : Dialect) (sql : Text) : EndsComments (tokenize d sql) := by
  refine Lexer.isChain_tokenizeFrom ?_ 0 sql
  intro c cs l hreads c' cs' l' hrest hreads' offset offset' hline
  obtain ⟨line, rfl, rfl, rfl⟩ := hreads.of_lineComment (kind_of_isLineComment hline)
    (isLineComment_text hline)
  have hlast := endsWith_cutAfterNewline (s := line) (by simp_all)
  simp [Text.endsWith, List.getLast?_cons, hlast]

theorem isLineComment_recase (s : Style) (t : Token) :
    isLineComment (recase s t) = isLineComment t := by
  by_cases hkeyword : t.kind = .keyword
  · have hother : (TokenKind.keyword == TokenKind.comment) = false := rfl
    simp [isLineComment, kind_recase, hkeyword, hother]
  · rw [recase_of_kind_ne s hkeyword]

theorem recase_of_isLineComment {s : Style} {t : Token} (h : isLineComment t = true) :
    recase s t = t := recase_of_kind_ne s (by simp [kind_of_isLineComment h])

theorem endsComments_prepared (d : Dialect) (s : Style) (sql : Text) :
    EndsComments (prepared s (tokenize d sql)) := by
  have htrimmed : EndsComments (trimEdges (tokenize d sql)) :=
    isChain_trimEdges (endsComments_tokenize d sql)
  unfold EndsComments prepared
  rw [applyKeywordCase_eq, List.isChain_map]
  refine htrimmed.imp fun p _ hp hline => ?_
  rw [isLineComment_recase] at hline
  rw [recase_of_isLineComment hline]
  exact hp hline

theorem endsComments_collapseAfter (absorbed : Bool) {ts : List Token} (h : EndsComments ts) :
    EndsComments (collapseAfter absorbed ts) := by
  fun_induction collapseAfter absorbed ts with
  | case1 absorbed => exact h
  | case2 absorbed t ts hspace habsorbed ih => exact ih h.tail
  | case3 absorbed t ts hspace habsorbed ih =>
    refine endsComments_cons.mpr ⟨fun _ hline => ?_, ih h.tail⟩
    have hkind : t.kind = .space := by simpa [Token.isSpace] using hspace
    have hcomment : (t.withText [' ']).kind = .comment := kind_of_isLineComment hline
    simp [Token.withText, hkind] at hcomment
  | case4 absorbed t ts hspace ih =>
    refine endsComments_cons.mpr ⟨fun hne hline => ?_, ih h.tail⟩
    refine (endsComments_cons.mp h).1 ?_ hline
    rintro rfl
    exact hne rfl

theorem Spells.endsComments {fs cs : List Token} (h : Spells Compound fs cs)
    (hfs : EndsComments fs) : EndsComments cs := by
  induction h with
  | nil => exact .nil
  | @cons b fs t cs block rest ih =>
    have htail : EndsComments fs := (List.isChain_append.mp hfs).2.1
    refine endsComments_cons.mpr ⟨fun hne hline => ?_, ih htail⟩
    have hkind := kind_of_isLineComment hline
    obtain rfl := block.eq_of_kind (by simp [hkind]) (by simp [hkind])
    refine (endsComments_cons.mp hfs).1 ?_ hline
    cases rest with
    | nil => exact absurd rfl hne
    | cons block' rest' =>
      obtain ⟨a, more, rfl, -⟩ := block'.exists_first
      simp

/-! ## Delimiters and functions -/

theorem mem_collapseAfter {absorbed : Bool} {ts : List Token} {t : Token}
    (h : t ∈ collapseAfter absorbed ts) : t.isSpace = true ∨ t ∈ ts := by
  fun_induction collapseAfter absorbed ts with
  | case1 absorbed => simp at h
  | case2 absorbed x ts hspace habsorbed ih => exact (ih h).imp_right (List.mem_cons_of_mem x)
  | case3 absorbed x ts hspace habsorbed ih =>
    rcases List.mem_cons.mp h with rfl | h
    · exact .inl hspace
    · exact (ih h).imp_right (List.mem_cons_of_mem x)
  | case4 absorbed x ts hspace ih =>
    rcases List.mem_cons.mp h with rfl | h
    · exact .inr (by simp)
    · exact (ih h).imp_right (List.mem_cons_of_mem x)

theorem Spells.exists_block {fs cs : List Token} (h : Spells Compound fs cs) {t : Token}
    (ht : t ∈ cs) : ∃ b, Compound b t ∧ ∀ x ∈ b, x ∈ fs := by
  induction h with
  | nil => simp at ht
  | @cons b fs t' cs block rest ih =>
    rcases List.mem_cons.mp ht with rfl | ht
    · exact ⟨b, block, fun x hx => by simp [hx]⟩
    · obtain ⟨b', hb', hmem⟩ := ih ht
      exact ⟨b', hb', fun x hx => by simp [hmem x hx]⟩

/-- A token of the walk that is no symbol and no clause is a token of the text. -/
theorem exists_of_mem_normalize {d : Dialect} {s : Style} {sql : Text} {t : Token}
    (ht : t ∈ normalize s (tokenize d sql)) :
    t.isSpace = true ∨ t.kind = .symbol ∨ (∃ t' ∈ tokenize d sql, t = recase s t') ∨
      t.kind = .keyword ∧ 2 ≤ t.text.length := by
  obtain ⟨b, block, hmem⟩ := (spells_normalize s (tokenize d sql)).exists_block ht
  cases block with
  | one =>
    rcases mem_collapseAfter (hmem t (by simp)) with hspace | hprepared
    · exact .inl hspace
    · exact .inr (.inr (.inl (mem_prepared hprepared)))
  | clause a b c first space blank second =>
    refine .inr (.inr (.inr ⟨first, ?_⟩))
    have ha : a.text ≠ [] := by
      rcases mem_collapseAfter (hmem a (by simp)) with hspace | hprepared
      · simp [Token.isSpace, first] at hspace
      · obtain ⟨a', ha', rfl⟩ := mem_prepared hprepared
        have hvisible : a'.isSpace = false := by
          rw [kind_recase] at first
          simp [Token.isSpace, first]
        have hstarts := startsVisibly_recase s ha' hvisible
        intro hnil
        simp [startsVisibly, hnil] at hstarts
    have hpos := List.length_pos_iff.mpr ha
    simp only [Token.withText, List.length_append, List.length_cons]
    omega
  | outerJoin a b c first middle last =>
    have hkind : a.kind = .symbol := kind_of_isSymbol first
    exact .inr (.inl hkind)
  | angled a b c first middle last =>
    have hkind : a.kind = .symbol := kind_of_isSymbol first
    exact .inr (.inl hkind)

theorem isSymbolChar_delimiter {s : Style} (hmark : IsMark s) :
    ∃ c, s.delimiter = [c] ∧ Lexer.isSymbolChar c = true ∧ Lexer.isQuoteChar c = false := by
  rcases hmark with h | h | h <;> exact ⟨_, h, by decide, by decide⟩

/-- A token that is one punctuation mark is a symbol. -/
theorem kind_of_text_eq {d : Dialect} {sql : Text} {c : Char} (hsymbol : Lexer.isSymbolChar c = true)
    (hquote : Lexer.isQuoteChar c = false) :
    ∀ t ∈ tokenize d sql, t.text = [c] → t.kind = .symbol := by
  refine Lexer.forall_tokenizeFrom ?_ 0 sql
  intro c' cs l hreads offset htext
  have hhead := text_of_reads hreads
  obtain rfl : c = c' := by
    have hl : l.text = [c] := htext
    simpa [hl] using hhead
  have hletter := Lexer.isLetter_of_isSymbolChar hsymbol
  cases hreads with
  | space c cs blank =>
    rw [isBlank_of_isSymbolChar hsymbol] at blank
    cases blank
  | number c cs digit =>
    rw [Lexer.isDigit_of_isSymbolChar hsymbol] at digit
    cases digit
  | word c cs letter plain =>
    rw [hletter] at letter
    cases letter
  | command c cs line rest letter known =>
    rw [hletter] at letter
    cases letter
  | lineComment cs => simp at htext
  | blockComment cs => simp at htext
  | quoted c cs quote =>
    rw [hquote] at quote
    cases quote
  | single c cs symbol plain apart => rfl
  | pair c c' cs pair => rfl

theorem kind_of_isDelimiter {d : Dialect} {s : Style} (hmark : IsMark s) {sql : Text} :
    ∀ t ∈ normalize s (tokenize d sql), s.isDelimiter t.text = true → t.kind = .symbol := by
  intro t ht hdelimiter
  have htext := (isDelimiter_iff hmark t.text).mp hdelimiter
  obtain ⟨c, hc, hsymbol, hquote⟩ := isSymbolChar_delimiter hmark
  rw [hc] at htext
  rcases exists_of_mem_normalize ht with hspace | hkind | ⟨t', ht', rfl⟩ | ⟨-, hlength⟩
  · rw [isDelimiter_of_allBlank hmark (gaps_normalize d s sql t ht hspace).2] at hdelimiter
    cases hdelimiter
  · exact hkind
  · by_cases hkeyword : t'.kind = .keyword
    · have hword := Text.isWord_apply s.keywordCase (isWord_of_mem_tokenize t' ht' hkeyword)
      obtain ⟨x, xs, hx, hletter, -⟩ := hword.exists_head
      have hrecase : (recase s t').text = s.keywordCase.apply t'.text := by
        simp [recase, hkeyword, Token.withText]
      rw [hrecase, hx] at htext
      obtain rfl : x = c := by simpa using (List.cons.inj htext).1
      simp [Lexer.isLetter, hsymbol] at hletter
    · rw [recase_of_kind_ne s hkeyword] at htext ⊢
      exact kind_of_text_eq hsymbol hquote t' ht' htext
  · simp [htext] at hlength

/-- Upper case makes no letter. -/
theorem exists_letter_of_upper {text : Text} {c : Char} (hc : c ∈ (Text.upper text).head?)
    (hletter : Lexer.isLetter c = true) : ∃ x ∈ text.head?, Lexer.isLetter x = true := by
  cases text with
  | nil => simp [Text.upper] at hc
  | cons x xs =>
    cases hx : Lexer.isLetter x with
    | true => exact ⟨x, rfl, hx⟩
    | false =>
      have hupper : Text.upper (x :: xs) = x :: Text.upper xs := by
        simp [Text.upper, Text.upperChar_of_not_letter hx]
      rw [hupper, List.head?_cons, Option.mem_def, Option.some.injEq] at hc
      rw [hc, hletter] at hx
      cases hx

theorem namesFunctions_standard : NamesFunctions .standard := by
  intro text h
  obtain ⟨w, hw, hsame⟩ := Dialect.exists_function_of_isFunction h
  obtain ⟨c, hc, hletter⟩ := Dialect.head_standardWords (Dialect.mem_standardWords_of_function hw)
  rw [Dialect.upper_standardWords (Dialect.mem_standardWords_of_function hw)] at hsame
  exact exists_letter_of_upper (hsame ▸ hc) hletter

theorem not_function_of_endsLine : ∀ entry ∈ clauseWords, entry.1.endsLine = true →
    ∀ w ∈ entry.2, w ∉ Dialect.Words.functions := by decide +kernel

/-- No clause keyword that ends a line is a function. -/
theorem isFunction_of_endsLine {text : Text}
    (h : (ClauseRole.ofWord? (Text.upper text)).any ClauseRole.endsLine = true) :
    Dialect.standard.isFunction text = false := by
  obtain ⟨role, hrole, hends⟩ : ∃ role, ClauseRole.ofWord? (Text.upper text) = some role ∧
      role.endsLine = true := by
    simpa [Option.any_eq_true] using h
  obtain ⟨entry, hfind, rfl⟩ := Option.map_eq_some_iff.mp hrole
  obtain ⟨w, hw, hword⟩ : ∃ w ∈ entry.2, w.toList = Text.upper text := by
    simpa using List.find?_some hfind
  cases hfunction : Dialect.standard.isFunction text with
  | false => rfl
  | true =>
    obtain ⟨f, hf, hsame⟩ := Dialect.exists_function_of_isFunction hfunction
    rw [Dialect.upper_standardWords (Dialect.mem_standardWords_of_function hf), ← hword] at hsame
    obtain rfl : w = f := String.toList_inj.mp hsame
    exact absurd hf (not_function_of_endsLine entry (List.mem_of_find?_eq_some hfind) hends w hw)

theorem isFunction_of_head {text : Text} {c : Char} (hc : text.head? = some c)
    (hletter : Lexer.isLetter c = false) : Dialect.standard.isFunction text = false := by
  cases hfunction : Dialect.standard.isFunction text with
  | false => rfl
  | true =>
    obtain ⟨c', hc', hletter'⟩ := namesFunctions_standard text hfunction
    rw [hc, Option.mem_def, Option.some.injEq] at hc'
    rw [hc', hletter'] at hletter
    cases hletter

/-- The standard dialect has no commands. -/
theorem kind_ne_command {sql : Text} : ∀ t ∈ tokenize .standard sql, t.kind ≠ .command := by
  refine Lexer.forall_tokenizeFrom ?_ 0 sql
  intro c cs l hreads offset
  cases hreads with
  | command c cs line rest letter known =>
    rw [Dialect.isCommand_standard] at known
    cases known
  | word c cs letter plain =>
    rcases Lexer.wordKind_eq .standard (c :: cs.takeWhile Lexer.isWordChar) with h | h <;> simp [h]
  | space c cs blank => simp
  | number c cs digit => simp
  | lineComment cs => simp
  | blockComment cs => simp
  | quoted c cs quote => simp
  | single c cs symbol plain apart => simp
  | pair c c' cs pair => simp

theorem isFunction_of_mem_normalize {s : Style} {sql : Text} :
    ∀ t ∈ normalize s (tokenize .standard sql), endsLine t = true →
      Dialect.standard.isFunction t.text = false := by
  intro t ht hends
  unfold endsLine at hends
  split at hends
  · simp only [Bool.or_eq_true, beq_iff_eq] at hends
    rcases hends with htext | htext
    · exact isFunction_of_head (by rw [htext]; rfl) (by decide)
    · exact isFunction_of_head (by rw [htext]; rfl) (by decide)
  · exact isFunction_of_endsLine hends
  · simp only [Bool.and_eq_true, Dialect.isBlockComment, Text.startsWith, Dialect.blockCommentStart,
      List.isPrefixOf_iff_prefix] at hends
    obtain ⟨cs, hcs⟩ := hends.2
    exact isFunction_of_head (by rw [← hcs]; rfl) (by decide)
  · next hkind =>
    rcases exists_of_mem_normalize ht with hspace | hsymbol | ⟨t', ht', rfl⟩ | ⟨hkeyword, -⟩
    · simp [Token.isSpace, hkind] at hspace
    · simp [hkind] at hsymbol
    · rw [kind_recase] at hkind
      exact absurd hkind (kind_ne_command t' ht')
    · simp [hkind] at hkeyword
  all_goals cases hends

theorem apart_normalize (d : Dialect) (s : Style) (sql : Text) :
    (normalize s (tokenize d sql)).IsChain Apart := by
  refine (spells_normalize s _).isChain ?_ ?_
  · intro p p' t t' hp ht h
    simpa [Apart, absorbsSpace, Token.isSpace, hp, ht] using h
  · exact apart_collapse (spaced_prepared d s sql) (framed_prepared d s sql).1

theorem endsComments_normalize (d : Dialect) (s : Style) (sql : Text) :
    EndsComments (normalize s (tokenize d sql)) :=
  (spells_normalize s _).endsComments
    (endsComments_collapseAfter false (endsComments_prepared d s sql))

theorem last_normalize (d : Dialect) (s : Style) (sql : Text) :
    ∀ t ∈ (normalize s (tokenize d sql)).getLast?, t.isSpace = false :=
  (spells_normalize s _).last
    ((edits_collapse_prepared d s sql).preserves Edit.framed (framed_prepared d s sql)).2

/-- The tokens that the walk gets are tidy. -/
theorem tidy_normalize {s : Style} (hmark : IsMark s) (sql : Text) :
    Tidy .standard s (normalize s (tokenize .standard sql)) where
  apart := apart_normalize _ s sql
  lines := endsComments_normalize _ s sql
  gaps := gaps_normalize _ s sql
  marks := kind_of_isDelimiter hmark
  calls := isFunction_of_mem_normalize
  last := last_normalize _ s sql

/-- With a mark for a delimiter, the walk over a text always ends, as its scan does. -/
theorem exists_walked_normalize {s : Style} (hmark : IsMark s) (sql : Text) :
    ∃ ws, breakLines .standard s (normalize s (tokenize .standard sql)) = some ws ∧
      Walked .standard s .start (normalize s (tokenize .standard sql)) ws :=
  exists_walked hmark namesFunctions_standard (tidy_normalize hmark sql)

end SqlLayout.Layout
