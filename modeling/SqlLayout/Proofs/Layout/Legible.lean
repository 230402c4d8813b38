import SqlLayout.Proofs.Layout.Normalized
import SqlLayout.Proofs.Token.CommentFree

/-!
# Layouts of texts without comments

A text without comments always has a layout (`exists_arranged_of_noComments`), and the lexer reads
the tokens of the layout apart unless symbols follow them (`Arranged.exists_legible`).
-/

namespace SqlLayout.Layout

/-- No token is a comment. -/
def NoComments (ts : List Token) : Prop := ∀ t ∈ ts, t.kind ≠ .comment

instance (ts : List Token) : Decidable (NoComments ts) :=
  inferInstanceAs (Decidable (∀ t ∈ ts, t.kind ≠ .comment))

theorem Edit.noComments {s : Style} {a b : List Token} (h : Edit s a b) (ha : NoComments a) :
    NoComments b := by
  cases h with
  | retext l r t g space gap =>
    simp only [NoComments, List.forall_mem_append, List.forall_mem_cons] at ha ⊢
    exact ⟨ha.1, ha.2.1, ha.2.2⟩
  | insert l r p t g offset gap apart =>
    simp only [NoComments, List.forall_mem_append, List.forall_mem_cons] at ha ⊢
    exact ⟨ha.1, ha.2.1, by simp [Token.space], ha.2.2⟩
  | settle l r t =>
    simp only [NoComments, List.forall_mem_append, List.forall_mem_cons, kind_settle] at ha ⊢
    exact ha
  | dropAfter l r p t absorbs space =>
    simp only [NoComments, List.forall_mem_append, List.forall_mem_cons] at ha ⊢
    exact ⟨ha.1, ha.2.1, ha.2.2.2⟩
  | dropBefore l r t n space absorbs =>
    simp only [NoComments, List.forall_mem_append, List.forall_mem_cons] at ha ⊢
    exact ⟨ha.1, ha.2.2⟩

/-! ## The walk ends -/

theorem closeLineComment_of_noComments {s : Style} {w : Walk} (h : NoComments w.cursor.tokens) :
    w.closeLineComment s = w := by
  have hclosed : Walk.followsOpenLineComment s w.cursor = false := by
    unfold Walk.followsOpenLineComment
    split
    · next p ps t ts hbefore hafter =>
      have hp : p.kind ≠ .comment := h p (by simp [Cursor.tokens, hbefore])
      simp [isLineComment, hp]
    · rfl
  simp [Walk.closeLineComment, hclosed]

/-- Only an open line comment can make the walk run past its last token. -/
theorem exists_run {d : Dialect} {s : Style} (w : Walk) (h : NoComments w.cursor.tokens) :
    ∃ ts, w.run d s = some ts := by
  fun_induction Walk.run d s w with
  | case1 w hdone => exact ⟨_, rfl⟩
  | case2 w hmore hvisit =>
    rw [Walk.visit, closeLineComment_of_noComments h] at hvisit
    cases hafter : w.cursor.after with
    | nil => simp [hafter] at hmore
    | cons t ts => simp [hafter] at hvisit
  | case3 w hmore w' hvisit ih => exact ih ((Walk.edits_visit hvisit).preserves Edit.noComments h)

theorem noComments_prepared {s : Style} {ts : List Token} (h : NoComments ts) :
    NoComments (prepared s ts) := by
  intro t ht
  obtain ⟨t', ht', rfl⟩ := mem_prepared ht
  rw [kind_recase]
  exact h t' ht'

theorem noComments_normalize {s : Style} {ts : List Token} (h : NoComments ts) :
    NoComments (normalize s ts) := by
  intro t ht
  obtain ⟨b, block, hmem⟩ := (spells_normalize s ts).exists_block ht
  obtain ⟨a, rest, rfl, hkind⟩ := block.exists_first
  rw [← hkind]
  rcases mem_collapseAfter (hmem a (by simp)) with hspace | hprepared
  · have ha : a.kind = .space := by simpa [Token.isSpace] using hspace
    simp [ha]
  · exact noComments_prepared h a hprepared

/-- A text without comments has a layout. -/
theorem exists_arranged_of_noComments {d : Dialect} (s : Style) {sql : Text}
    (h : NoComments (tokenize d sql)) :
    ∃ ws ms fs, Arranged d s sql ws ms fs ∧
      format d s sql = some (keepFinalNewline sql (Token.concat fs)) := by
  obtain ⟨ws, hws⟩ : ∃ ws, breakLines d s (normalize s (tokenize d sql)) = some ws :=
    exists_run (Walk.start _) (noComments_normalize h)
  obtain ⟨out, hout⟩ : ∃ out, format d s sql = some out := by simp [format, arrange, hws]
  obtain ⟨ws, ms, fs, harranged, rfl⟩ := exists_arranged hout
  exact ⟨ws, ms, fs, harranged, hout⟩

/-! ## Keywords in the case of the style -/

theorem known_of_keyword {kind : TokenKind} {text : Text} (h : Lexer.Shape kind text)
    (hkind : kind = .keyword) :
    Text.IsWord text ∧ (Dialect.standard.classify text).isSome = true := by
  cases h with
  | word word known =>
    refine ⟨word, ?_⟩
    cases hknown : (Dialect.standard.classify text).isSome with
    | true => rfl
    | false =>
      rw [known, Lexer.wordKind, hknown] at hkind
      cases hkind
  | space gap => cases hkind
  | number c cs digit digits => cases hkind
  | quoted c body quote whole => cases hkind
  | single c symbol plain => cases hkind
  | pair c c' pair => cases hkind

theorem shape_recase (s : Style) {t : Token} (h : Lexer.Shape t.kind t.text) :
    Lexer.Shape (recase s t).kind (recase s t).text := by
  by_cases hkind : t.kind = .keyword
  · obtain ⟨hword, hknown⟩ := known_of_keyword h hkind
    rw [kind_recase, text_recase hkind]
    refine .word (Text.isWord_apply s.keywordCase hword) ?_
    simp [Lexer.wordKind, Dialect.classify_apply s.keywordCase hknown, hknown, hkind]
  · rwa [recase_of_kind_ne s hkind]

theorem eq_of_isNumberChar {c : Char} (hnumber : Lexer.isNumberChar c = true)
    (hletter : Lexer.isLetter c = true) : c = 'e' ∨ c = 'E' := by
  simp only [Lexer.isNumberChar, Lexer.isDigit_of_isLetter hletter, Bool.false_or, Bool.or_eq_true,
    beq_iff_eq] at hnumber
  rcases hnumber with (rfl | rfl) | rfl
  · exact absurd hletter (by decide)
  · exact .inl rfl
  · exact .inr rfl

/-- A token still ends in front of a keyword that is in the case of the style. -/
theorem stops_apply (k : KeywordCase) {text w : Text} (hword : Text.IsWord w)
    (hknown : (Dialect.standard.classify w).isSome = true)
    (h : ∀ c ∈ w.head?, Lexer.stops text c = true) :
    ∀ c ∈ (k.apply w).head?, Lexer.stops text c = true := by
  intro c hc
  obtain ⟨c', w', rfl, hletter', -⟩ := hword.exists_head
  have hletter : Lexer.isLetter c = true := by
    obtain ⟨x, xs, hx, hletter, -⟩ := (Text.isWord_apply k hword).exists_head
    obtain rfl : x = c := by simpa [hx] using hc
    exact hletter
  have hstop := h c' (by simp)
  unfold Lexer.stops at hstop ⊢
  split
  · rfl
  · next first rest =>
    simp only at hstop
    split at hstop
    · next hdigit =>
      rw [if_pos hdigit]
      cases hnumber : Lexer.isNumberChar c with
      | false => rfl
      | true =>
        obtain ⟨x, hx, he⟩ := Dialect.head_apply k hknown hc (eq_of_isNumberChar hnumber hletter)
        obtain rfl : c' = x := by simpa using hx
        have hnumber' : Lexer.isNumberChar c' = true := by rcases he with rfl | rfl <;> decide
        simp [hnumber'] at hstop
    · next hdigit =>
      rw [if_neg hdigit]
      split at hstop
      · simp [Text.isWordChar_of_isLetter hletter'] at hstop
      · next hfirst =>
        rw [if_neg hfirst]
        have hother : c ≠ first := by
          rintro rfl
          exact hfirst hletter
        simp [hother]

theorem stops_recase (s : Style) {p t : Token} (hp : Lexer.Shape p.kind p.text)
    (ht : Lexer.Shape t.kind t.text) (h : ∀ c ∈ t.text.head?, Lexer.stops p.text c = true) :
    ∀ c ∈ (recase s t).text.head?, Lexer.stops (recase s p).text c = true := by
  have hleft : ∀ c, Lexer.stops (recase s p).text c = Lexer.stops p.text c := by
    intro c
    by_cases hkind : p.kind = .keyword
    · obtain ⟨hword, -⟩ := known_of_keyword hp hkind
      rw [text_recase hkind, Lexer.stops_word hword,
        Lexer.stops_word (Text.isWord_apply s.keywordCase hword)]
    · rw [recase_of_kind_ne s hkind]
  by_cases hkind : t.kind = .keyword
  · obtain ⟨hword, hknown⟩ := known_of_keyword ht hkind
    rw [text_recase hkind]
    simpa only [hleft] using stops_apply s.keywordCase hword hknown h
  · rw [recase_of_kind_ne s hkind]
    simpa only [hleft] using h

/-! ## The tokens of the layout -/

theorem eq_of_forall₂_settles {a b : List Token} (ha : NoComments a)
    (h : List.Forall₂ Settles a b) : b = a := by
  induction h with
  | nil => rfl
  | @cons t t' a b hsettles rest ih =>
    have ht : t.kind ≠ .comment := ha t (by simp)
    have heq : t' = t := by
      rcases hsettles with rfl | rfl
      · rfl
      · exact settle_of_kind_ne ht
    rw [heq, ih fun x hx => ha x (by simp [hx])]

theorem mem_dropLast_filter {α : Type} {p : α → Bool} {l : List α} {a : α}
    (h : a ∈ (l.filter p).dropLast) : a ∈ l.dropLast := by
  induction l with
  | nil => simp at h
  | cons x l ih =>
    have hl : l ≠ [] ∨ l = [] := by
      cases l <;> simp
    rcases hl with hl | rfl
    · rw [List.dropLast_cons_of_ne_nil hl]
      by_cases hx : p x = true
      · rw [List.filter_cons_of_pos hx] at h
        by_cases hrest : l.filter p = []
        · simp [hrest] at h
        · rw [List.dropLast_cons_of_ne_nil hrest] at h
          rcases List.mem_cons.mp h with rfl | h
          · simp
          · exact List.mem_cons_of_mem x (ih h)
      · rw [List.filter_cons_of_neg hx] at h
        exact List.mem_cons_of_mem x (ih h)
    · by_cases hx : p x = true
      · simp [List.filter_cons_of_pos hx] at h
      · simp [List.filter_cons_of_neg hx] at h

namespace Arranged

variable {s : Style} {sql : Text} {ws ms fs : List Token}

/-- Without comments the visible tokens of the layout are those of the text. -/
theorem visible_eq (h : Arranged .standard s sql ws ms fs)
    (hfree : NoComments (tokenize .standard sql)) :
    Token.visible fs = (Token.visible (tokenize .standard sql)).map (recase s) := by
  have hvisible := h.edits.visible
  rw [visible_prepared] at hvisible
  refine eq_of_forall₂_settles ?_ hvisible
  intro t ht
  obtain ⟨t', ht', rfl⟩ := List.mem_map.mp ht
  rw [kind_recase]
  exact hfree t' (List.mem_filter.mp ht').1

theorem exists_of_mem (h : Arranged .standard s sql ws ms fs)
    (hfree : NoComments (tokenize .standard sql)) {t : Token} (ht : t ∈ fs)
    (hvisible : t.isSpace = false) : ∃ t' ∈ tokenize .standard sql, t = recase s t' := by
  have hmem : t ∈ Token.visible fs := List.mem_filter.mpr ⟨ht, by simp [hvisible]⟩
  rw [h.visible_eq hfree] at hmem
  obtain ⟨t', ht', rfl⟩ := List.mem_map.mp hmem
  exact ⟨t', (List.mem_filter.mp ht').1, rfl⟩

theorem shape (h : Arranged .standard s sql ws ms fs)
    (hfree : NoComments (tokenize .standard sql)) : ∀ t ∈ fs, Lexer.Shape t.kind t.text := by
  intro t ht
  cases hspace : t.isSpace with
  | true =>
    have hkind : t.kind = .space := by simpa [Token.isSpace] using hspace
    rw [hkind]
    exact .space (h.gaps t ht hspace)
  | false =>
    obtain ⟨t', ht', rfl⟩ := h.exists_of_mem hfree ht hspace
    exact shape_recase s (Lexer.shape_of_mem_tokenize t' ht' (hfree t' ht'))

end Arranged

/-- A token ends in front of white space. -/
theorem stops_of_isBlank {kind : TokenKind} {text : Text} (h : Lexer.Shape kind text) {c : Char}
    (hc : Text.isBlank c = true) : Lexer.stops text c = true := by
  obtain ⟨hword, hnumber⟩ := Lexer.not_wordChar_of_isBlank hc
  cases h with
  | space gap =>
    cases text with
    | nil => rfl
    | cons x xs =>
      have hx := gap.2
      rw [Text.allBlank_cons, Bool.and_eq_true] at hx
      exact Lexer.stops_blank hx.1 _ _
  | number x xs digit digits => simp [Lexer.stops_number digit, hnumber]
  | quoted x body quote whole =>
    have hne : c ≠ x := by
      rintro rfl
      simp [isBlank_of_isSymbolChar (isSymbolChar_of_isQuoteChar quote)] at hc
    simpa [Lexer.stops_quoted quote] using hne
  | word word known => simp [Lexer.stops_word word, hword]
  | single x symbol plain => exact Lexer.stops_symbol symbol plain _ _
  | pair x x' pair =>
    exact Lexer.stops_symbol (isSymbolChar_of_pair pair) (Lexer.isQuoteChar_of_pair pair) _ _

theorem stops_of_absorbsSpace {p : Token} (hp : Lexer.Shape p.kind p.text)
    (habsorbs : absorbsSpace p = true) (hcomment : p.kind ≠ .comment) (c : Char) :
    Lexer.stops p.text c = true := by
  have hkind : p.kind = .symbol := by simpa [absorbsSpace, hcomment] using habsorbs
  obtain ⟨x, xs, htext⟩ := List.exists_cons_of_ne_nil hp.text_ne_nil
  obtain ⟨hsymbol, hquote⟩ := hp.symbols hkind x (by simp [htext])
  rw [htext, Lexer.stops_symbol hsymbol hquote]

theorem closedQuote_of_isGap {text : Text} (h : IsGap text) : Lexer.ClosedQuote text := by
  rintro c body rfl hquote
  have hblank := h.2
  rw [Text.allBlank_cons, Bool.and_eq_true] at hblank
  simp [Lexer.isQuoteChar_of_not_symbol (Lexer.isSymbolChar_of_isBlank hblank.1)] at hquote

theorem closedQuote_recase (s : Style) {t : Token} (hshape : Lexer.Shape t.kind t.text)
    (h : Lexer.ClosedQuote t.text) : Lexer.ClosedQuote (recase s t).text := by
  by_cases hkind : t.kind = .keyword
  · obtain ⟨hword, -⟩ := known_of_keyword hshape hkind
    rw [text_recase hkind]
    obtain ⟨x, xs, hx, hletter, -⟩ := (Text.isWord_apply s.keywordCase hword).exists_head
    intro c body htext hquote
    obtain rfl : x = c := (List.cons.inj (hx.symm.trans htext)).1
    simp [Lexer.isLetter, isSymbolChar_of_isQuoteChar hquote] at hletter
  · rwa [recase_of_kind_ne s hkind]

namespace Arranged

variable {s : Style} {sql : Text} {ws ms fs : List Token}

/-- The lexer reads neighbours of the text apart, in the case of the style too. -/
theorem touching_prepared (s : Style) (hfree : NoComments (tokenize .standard sql)) :
    Touching (fun p t => ∀ c ∈ t.text.head?, Lexer.stops p.text c = true)
      (prepared s (tokenize .standard sql)) := by
  have hshape : ∀ t ∈ trimEdges (tokenize .standard sql), Lexer.Shape t.kind t.text := by
    intro t ht
    have hmem := mem_of_mem_trimEdges ht
    exact Lexer.shape_of_mem_tokenize t hmem (hfree t hmem)
  have hchain := isChain_trimEdges (Lexer.isChain_stops sql)
  unfold Touching prepared
  rw [applyKeywordCase_eq, List.isChain_map]
  refine hchain.imp_of_mem_imp fun p t hp ht h => ?_
  exact .inr (.inr (.inr (.inr (stops_recase s (hshape p hp) (hshape t ht) h.2))))

theorem legible (h : Arranged .standard s sql ws ms fs)
    (hfree : NoComments (tokenize .standard sql)) : Lexer.Legible fs where
  shape := h.shape hfree
  apart := by
    have hcomments : NoComments fs := by
      intro t ht
      cases hspace : t.isSpace with
      | true =>
        have hkind : t.kind = .space := by simpa [Token.isSpace] using hspace
        simp [hkind]
      | false =>
        obtain ⟨t', ht', rfl⟩ := h.exists_of_mem hfree ht hspace
        rw [kind_recase]
        exact hfree t' ht'
    have htouching := h.edits.preserves Edit.touching (touching_prepared s hfree)
    refine htouching.imp_of_mem_imp fun p t hp ht htouch hsymbol c hc => ?_
    rcases htouch with hspace | hspace | habsorbs | habsorbs | hstops
    · obtain ⟨x, xs, hx⟩ := List.exists_cons_of_ne_nil (h.gaps p hp hspace).1
      have hblank := (h.gaps p hp hspace).2
      rw [hx, Text.allBlank_cons, Bool.and_eq_true] at hblank
      rw [hx]
      exact Lexer.stops_blank hblank.1 _ _
    · have hblank := (h.gaps t ht hspace).2
      exact stops_of_isBlank (h.shape hfree p hp)
        (List.all_eq_true.mp hblank c (List.mem_of_mem_head? hc))
    · exact stops_of_absorbsSpace (h.shape hfree p hp) habsorbs (hcomments p hp) c
    · exact absurd (by simpa [absorbsSpace, hcomments t ht] using habsorbs) hsymbol
    · exact hstops c hc
  closed := by
    intro t ht
    cases hspace : t.isSpace with
    | true => exact closedQuote_of_isGap (h.gaps t (List.dropLast_subset fs ht) hspace)
    | false =>
      -- the last token is visible, so this one is followed by a visible one
      obtain ⟨front, z, rfl⟩ : ∃ front z, fs = front ++ [z] := by
        have hne : fs ≠ [] := by
          rintro rfl
          simp at ht
        exact ⟨fs.dropLast, fs.getLast hne, (List.dropLast_append_getLast hne).symm⟩
      have hz : z.isSpace = false := h.framed.2 z (by simp)
      rw [List.dropLast_concat] at ht
      have hmem : t ∈ (Token.visible (front ++ [z])).dropLast := by
        have hlast : Token.visible [z] = [z] := by simp [Token.visible, hz]
        rw [visible_append, hlast, List.dropLast_concat]
        exact List.mem_filter.mpr ⟨ht, by simp [hspace]⟩
      rw [h.visible_eq hfree, ← List.map_dropLast] at hmem
      obtain ⟨t', ht', rfl⟩ := List.mem_map.mp hmem
      have hmem' := mem_dropLast_filter ht'
      have hshape : Lexer.Shape t'.kind t'.text := by
        have hmem := List.dropLast_subset _ hmem'
        exact Lexer.shape_of_mem_tokenize t' hmem (hfree t' hmem)
      exact closedQuote_recase s hshape (Lexer.closedQuote_of_mem_dropLast t' hmem')

/-- A quoted value at the end of the layout is closed if a line feed is put behind it. -/
theorem closedQuote_of_last (h : Arranged .standard s sql ws ms fs)
    (hfree : NoComments (tokenize .standard sql)) (hsql : Text.endsWith sql '\n' = true)
    (hout : Text.endsWith (Token.concat fs) '\n' = false) :
    ∀ z ∈ fs.getLast?, Lexer.ClosedQuote z.text := by
  intro z hz
  obtain ⟨front, rfl⟩ : ∃ front, fs = front ++ [z] :=
    ⟨fs.dropLast, (List.dropLast_append_getLast? z hz).symm⟩
  obtain ⟨z', hz', rfl⟩ := h.exists_of_mem hfree (by simp) (h.framed.2 z (by simp))
  have hshape := Lexer.shape_of_mem_tokenize z' hz' (hfree z' hz')
  have hne : tokenize .standard sql ≠ [] := List.ne_nil_of_mem hz'
  obtain ⟨others, last, hsplit⟩ : ∃ others last, tokenize .standard sql = others ++ [last] :=
    ⟨_, _, (List.dropLast_append_getLast hne).symm⟩
  by_cases hkind : z'.kind = .keyword
  · refine closedQuote_recase s hshape ?_
    obtain ⟨hword, -⟩ := known_of_keyword hshape hkind
    obtain ⟨x, xs, hx, hletter, -⟩ := hword.exists_head
    intro c body htext hquote
    obtain rfl : x = c := (List.cons.inj (hx.symm.trans htext)).1
    simp [Lexer.isLetter, isSymbolChar_of_isQuoteChar hquote] at hletter
  · rw [recase_of_kind_ne s hkind] at hout ⊢
    have hclosed := @Lexer.closedQuote_of_mem_dropLast sql
    rw [hsplit, List.dropLast_concat] at hclosed
    rw [hsplit, List.mem_append, List.mem_singleton] at hz'
    refine hclosed z' (hz'.resolve_right ?_)
    rintro rfl
    -- the text ends with this token, and so does the layout
    have hconcat : Token.concat (others ++ [z']) = sql := by
      rw [← hsplit]
      exact Lexer.concat_tokenizeFrom .standard 0 sql
    obtain ⟨x, xs, hx⟩ := List.exists_cons_of_ne_nil hshape.text_ne_nil
    have hend : ∀ ts : List Token, (Token.concat (ts ++ [z'])).getLast? = z'.text.getLast? := by
      intro ts
      simp [Token.concat, hx, List.getLast?_cons]
    rw [Text.endsWith, ← hconcat, hend] at hsql
    rw [Text.endsWith, hend, hsql] at hout
    cases hout

/-- The text of the layout is that of tokens which the lexer reads apart unless symbols follow. -/
theorem exists_legible (h : Arranged .standard s sql ws ms fs)
    (hfree : NoComments (tokenize .standard sql)) :
    ∃ es, Lexer.Legible (fs ++ es) ∧ (∀ e ∈ es, e.isSpace = true) ∧
      Token.concat (fs ++ es) = keepFinalNewline sql (Token.concat fs) := by
  unfold keepFinalNewline
  split
  · next hends =>
    rw [Bool.and_eq_true, Bool.not_eq_true'] at hends
    have hgap : IsGap ['\n'] := ⟨by decide, by decide⟩
    refine ⟨[Token.space ['\n'] 0], ⟨?_, ?_, ?_⟩, by simp [Token.isSpace, Token.space],
      by simp [Token.concat, Token.space]⟩
    · intro t ht
      rcases List.mem_append.mp ht with ht | ht
      · exact h.shape hfree t ht
      · rw [List.mem_singleton.mp ht]
        exact .space hgap
    · refine (h.legible hfree).apart.append (.singleton _) ?_
      intro p hp t ht _ c hc
      obtain rfl : Token.space ['\n'] 0 = t := by simpa using ht
      obtain rfl : '\n' = c := by simpa [Token.space] using hc
      exact stops_of_isBlank (h.shape hfree p (List.mem_of_getLast? hp)) (by decide)
    · rw [List.dropLast_concat]
      intro t ht
      by_cases hlast : t ∈ fs.dropLast
      · exact (h.legible hfree).closed t hlast
      · have hne : fs ≠ [] := List.ne_nil_of_mem ht
        have hsplit := List.dropLast_append_getLast hne
        have hz : t = fs.getLast hne := by
          rw [← hsplit, List.mem_append, List.mem_singleton] at ht
          exact ht.resolve_left hlast
        refine h.closedQuote_of_last hfree hends.1 hends.2 t ?_
        rw [hz, List.getLast?_eq_getLast_of_ne_nil hne]
        rfl
  · exact ⟨[], by simpa using h.legible hfree, by simp, by simp⟩

end Arranged

end SqlLayout.Layout
