import SqlLayout.Proofs.Layout.Lockstep

/-!
# Layouts are fixed points

A layout whose tokens are read back with the classes and texts that it shows is its own layout
(`format_format`): levels, breaks, joined brackets, trimmed comments and the line feed at the end
come out the same a second time.
-/

namespace SqlLayout.Layout

/-! ## Tokens of a layout -/

/-- Only the walk changes what is shown of a token. -/
theorem map_token_lay (d : Dialect) (s : Style) (ps : List Piece) :
    (lay d s ps).map Piece.token =
      ((placeBlocks d s .start (glueBlocks ps)).flatMap Block.pieces).map Piece.token := by
  rw [lay, map_token_fillBlocks, map_token_compactBlocks]

/-- Of the tokens of a text, those that are words or values take a blank. -/
theorem isBare_of_mem_tokenize {d : Dialect} {sql : Text} : ∀ t ∈ tokenize d sql,
    t.isSpace = false → isWordKind t.kind = true → isBare t = true := by
  refine Lexer.forall_tokenizeFrom ?_ 0 sql
  intro c cs l hreads offset hspace hword
  have hhead : (!Lexer.isSymbolChar c || Lexer.isQuoteChar c) = true := by
    cases hreads with
    | space c cs blank => cases hspace
    | number c cs digit => simp [Lexer.isSymbolChar_of_isDigit digit]
    | word c cs letter plain => simp [Lexer.isSymbolChar_of_isLetter letter]
    | command c cs line rest letter known => simp [Lexer.isSymbolChar_of_isLetter letter]
    | lineComment cs => cases hword
    | blockComment cs => cases hword
    | quoted c cs quote => simp [quote]
    | single c cs symbol plain apart => cases hword
    | pair c c' cs pair => cases hword
  rw [isBare, hspace, hword, text_of_reads hreads]
  simpa using hhead

theorem isBare_recase {d : Dialect} {sql : Text} (s : Style) {t : Token} (ht : t ∈ tokenize d sql)
    (hspace : t.isSpace = false) (hword : isWordKind t.kind = true) :
    isBare (recase s t) = true := by
  by_cases hkeyword : t.kind = .keyword
  · obtain ⟨c, cs, htext, hletter, -⟩ := (Text.isWord_apply s.keywordCase
      (isWord_of_mem_tokenize t ht hkeyword)).exists_head
    rw [isBare, isSpace_recase, hspace, kind_recase, hword, text_recase hkeyword, htext]
    simp [Lexer.isSymbolChar_of_isLetter hletter]
  · rw [recase_of_kind_ne s hkeyword]
    exact isBare_of_mem_tokenize t ht hspace hword

/-! ## The line feed at the end -/

theorem exists_end (sql text : Text) : ∃ e, keepFinalNewline sql text = text ++ e ∧
    Text.allBlank e = true ∧ (e ≠ [] → Text.endsWith sql '\n' = true) := by
  unfold keepFinalNewline
  split
  · next hends =>
    rw [Bool.and_eq_true] at hends
    exact ⟨['\n'], rfl, by decide, fun _ => hends.1⟩
  · exact ⟨[], by simp, rfl, by simp⟩

theorem keepFinalNewline_keepFinalNewline (sql text : Text) :
    keepFinalNewline (keepFinalNewline sql text) text = keepFinalNewline sql text := by
  cases hadds : Text.endsWith sql '\n' && !Text.endsWith text '\n' with
  | true =>
    have hkeep : keepFinalNewline sql text = text ++ ['\n'] := by
      rw [keepFinalNewline, if_pos hadds]
    have hends : Text.endsWith (text ++ ['\n']) '\n' = true := by simp [Text.endsWith]
    rw [Bool.and_eq_true] at hadds
    rw [hkeep, keepFinalNewline, if_pos (by rw [hends, hadds.2]; rfl)]
  | false =>
    have hkeep : keepFinalNewline sql text = text := by
      rw [keepFinalNewline, if_neg (by simp [hadds])]
    rw [hkeep, keepFinalNewline, if_neg (by simp)]

theorem getLast?_render {ps : List Piece} {p : Piece} (hp : p ∈ ps.getLast?)
    (hne : p.token.text ≠ []) : (Piece.render ps).getLast? = p.token.text.getLast? := by
  obtain ⟨front, rfl⟩ : ∃ front, ps = front ++ [p] :=
    ⟨ps.dropLast, (List.dropLast_append_getLast? p hp).symm⟩
  rw [Block.render_append, Piece.render_cons, Piece.render_nil, List.append_nil,
    List.getLast?_append_of_ne_nil _ (by simp [hne]), List.getLast?_append_of_ne_nil _ hne]

/-! ## Reading the layout of a text -/

theorem forall₂_of_looks {s : Style} {ts ts' : List Token} (h : looks s ts' = looks s ts) :
    List.Forall₂ (fun p q => Alike (recase s p.token) (recase s q.token)) (Piece.ofTokens ts)
      (Piece.ofTokens ts') := by
  have hlooks : (Piece.ofTokens ts).map (fun p => look s p.token) =
      (Piece.ofTokens ts').map fun q => look s q.token := by
    rw [looks, looks, ← Piece.map_token_ofTokensAfter [], ← Piece.map_token_ofTokensAfter [],
      List.map_map, List.map_map] at h
    exact h.symm
  have hforall := List.forall₂_map_left_iff.mp (List.forall₂_map_right_iff.mp
    (List.forall₂_eq_eq_eq ▸ hlooks))
  refine hforall.imp fun p q hpq => ?_
  rw [look, look, Prod.mk.injEq] at hpq
  exact ⟨by rw [kind_recase, kind_recase, hpq.1], hpq.2.symm⟩

section Layouts

variable {d : Dialect} {s : Style} {sql : Text}

theorem mem_of_mem_ofTokens {ts : List Token} {p : Piece} (hp : p ∈ Piece.ofTokens ts) :
    p.token ∈ ts ∧ p.token.isSpace = false := by
  have hmem : p.token ∈ Token.visible ts := by
    rw [← Piece.map_token_ofTokensAfter []]
    exact List.mem_map_of_mem hp
  simpa [Token.visible] using hmem

/-- Nothing stands in front of the first token of a layout when it is read back. -/
theorem flush_of_read {os qs : List Piece} {rest e : Text} (hread : Read qs rest)
    (hlength : qs.length = os.length) (hfirst : ∀ o ∈ os.head?, o.gap = [])
    (hvisible : ∀ o ∈ os.head?, startsVisibly o.token.text = true)
    (hsame : Piece.render qs ++ rest = Piece.render os ++ e) :
    Piece.render (flush qs) ++ rest = Piece.render (flush os) ++ e := by
  cases os with
  | nil =>
    obtain rfl := List.eq_nil_of_length_eq_zero hlength
    exact hsame
  | cons o os =>
    cases qs with
    | nil => simp at hlength
    | cons q qs =>
      have hgap : o.gap = [] := hfirst o (by simp)
      have htext : q.gap ++ (q.token.text ++ (Piece.render qs ++ rest)) =
          [] ++ (o.token.text ++ (Piece.render os ++ e)) := by
        simpa [hgap] using hsame
      obtain ⟨-, hbehind⟩ := append_inj_of_startsVisibly hread.1 rfl
        (startsVisibly_append hread.2.1.visible _)
        (startsVisibly_append (hvisible o (by simp)) _) htext
      simpa [flush] using hbehind

/-- When the tokens of a layout look like those of its text, they stand where the layout shows
these. -/
theorem readsBack_of_looks (hmark : IsMark s) {out : Text}
    (hout : out = keepFinalNewline sql
      (Piece.render (lay d s (reduce s (Piece.ofTokens (tokenize d sql))))))
    (hlooks : looks s (tokenize d out) = looks s (tokenize d sql)) :
    ReadsBack ShownGap none ((Piece.ofTokens (tokenize d sql)).map (recasePiece s))
      (lay d s (reduce s (Piece.ofTokens (tokenize d sql))))
      ((Piece.ofTokens (tokenize d out)).map (recasePiece s)) := by
  have hlaid := laid_lay d hmark sql
  have halike := forall₂_of_looks hlooks
  obtain ⟨rest, hsql, hread⟩ := exists_read d sql
  obtain ⟨rest', hout', hread'⟩ := exists_read d out
  generalize lay d s (reduce s (Piece.ofTokens (tokenize d sql))) = os at hout hlaid ⊢
  obtain ⟨e, hkeep, he, hends⟩ := exists_end sql (Piece.render os)
  have hshows : List.Forall₂ (fun p o => Shows s p.token o.token)
      (Piece.ofTokens (tokenize d sql)) os := by
    have hall := hlaid.shows
    rw [← Piece.map_token_ofTokensAfter []] at hall
    exact List.forall₂_map_left_iff.mp (List.forall₂_map_right_iff.mp hall)
  have hvisible : ∀ p ∈ Piece.ofTokens (tokenize d sql), ∀ t, Shows s p.token t →
      startsVisibly t.text = true := by
    intro p hp t ht
    obtain ⟨hmem, hspace⟩ := mem_of_mem_ofTokens hp
    exact ht.startsVisibly hmem hspace
  have hsame : Piece.render (Piece.ofTokens (tokenize d out)) ++ rest' = Piece.render os ++ e := by
    rw [← hout', hout, hkeep]
  refine readsBack (e := e) none hread hread' hshows hvisible hlaid.blank ?_ halike (by simp) ?_
  · -- the line feed at the end of the layout is the one at the end of the text
    intro hrest hne p hp
    obtain ⟨c, hc, -⟩ := exists_head_of_mem_tokenize _ (mem_of_mem_ofTokens (List.mem_of_getLast? hp)).1
    have hne' : p.token.text ≠ [] := by
      intro hnil
      simp [hnil] at hc
    have hsqlends := hends hne
    rw [hsql, hrest, List.append_nil, Text.endsWith, getLast?_render hp hne'] at hsqlends
    exact hsqlends
  · refine flush_of_read hread' (halike.length_eq.symm.trans hshows.length_eq) hlaid.first ?_ hsame
    intro o ho
    obtain ⟨os', rfl⟩ : ∃ os', os = o :: os' := ⟨os.tail, (List.cons_head?_tail ho).symm⟩
    obtain ⟨p, ps, hp, -, hps⟩ := List.forall₂_cons_right_iff.mp hshows
    exact hvisible p (by simp [hps]) o.token hp

/-- The pieces of a text that looks like another, reduced, and a layout of the other. -/
theorem readsBack_reduce (hmark : IsMark s) {out : Text}
    (hread : ReadsBack ShownGap none ((Piece.ofTokens (tokenize d sql)).map (recasePiece s))
      (lay d s (reduce s (Piece.ofTokens (tokenize d sql))))
      ((Piece.ofTokens (tokenize d out)).map (recasePiece s))) :
    ReadsBack LooserGap none (reduce s (Piece.ofTokens (tokenize d sql)))
      (lay d s (reduce s (Piece.ofTokens (tokenize d sql))))
      (reduce s (Piece.ofTokens (tokenize d out))) := by
  refine hread.reduceAfter (regaps_lay d hmark (marks_glueBlocks d hmark sql)) (by simp) ?_ ?_
  · intro p hp
    obtain ⟨p, hmem, rfl⟩ := List.mem_map.mp hp
    exact (isSpace_recase s p.token).trans (mem_of_mem_ofTokens hmem).2
  · intro p hp hword
    obtain ⟨p, hmem, rfl⟩ := List.mem_map.mp hp
    obtain ⟨htoken, hspace⟩ := mem_of_mem_ofTokens hmem
    exact isBare_recase s htoken hspace ((kind_recase s p.token) ▸ hword)

/-- Both texts have one layout. -/
theorem render_lay_eq (hmark : IsMark s) {ps qs : List Piece}
    (hread : ReadsBack LooserGap none ps (lay d s ps) qs) (hspread : Spread ps)
    (hmarks : ∀ b ∈ glueBlocks ps, s.isDelimiter b.token.text = true → b.token.kind = .symbol) :
    Piece.render (lay d s qs) = Piece.render (lay d s ps) := by
  have hplain : ∀ ps : List Piece, ∀ b ∈ glueBlocks ps, b.Plain :=
    fun ps b hb => (joins_glueBlocks ps b hb).plain
  have hglued := readsBack_glueBlocks hread hspread (map_token_lay d s ps)
  rw [map_piece_placeBlocks d s .start (hplain ps)] at hglued
  have hlike : Hand.start.Like .start := ⟨rfl, rfl, rfl, rfl⟩
  have hplaced := loosened_place hmark hlike (by
    intro p hp
    obtain ⟨b, hb, rfl⟩ := List.mem_map.mp hp
    exact hmarks b hb) hglued
  rw [← map_piece_placeBlocks d s .start (hplain ps), ← map_piece_placeBlocks d s .start (hplain qs)]
    at hplaced
  rw [lay, lay, Block.render_flatMap_pieces, Block.render_flatMap_pieces]
  exact render_fillBlocks hmark (loosened_compactBlocks hplaced)

end Layouts

/-- Every text has a layout, and the layout is its own layout when its tokens look like those of the
text. -/
theorem format_format (d : Dialect) (s : Style) (hs : s.delimiter = [';']) (sql : Text) :
    ∃ out, format d s sql = some out ∧
      (looks s (tokenize d out) = looks s (tokenize d sql) → format d s out = some out) := by
  have hmark : IsMark s := .inl hs
  refine ⟨_, format_eq d hmark sql, fun hlooks => ?_⟩
  have hread := readsBack_reduce hmark (readsBack_of_looks hmark rfl hlooks)
  have hsame := render_lay_eq hmark hread (spread_reduce d s sql) (marks_glueBlocks d hmark sql)
  rw [format_eq d hmark, hsame, keepFinalNewline_keepFinalNewline]

/-- A line comment that loses a blank on the first run loses nothing on the second. -/
theorem format_format_comment :
    looks .default (tokenize .standard "1, -- a\n2".toList) =
        looks .default (tokenize .standard "1, -- a \n2".toList) ∧
      ∃ out, format .standard .default "1, -- a \n2".toList = some out ∧
        format .standard .default out = some out := by
  have hlooks : looks .default (tokenize .standard "1, -- a\n2".toList) =
      looks .default (tokenize .standard "1, -- a \n2".toList) := by decide +kernel
  obtain ⟨out, hout, hfixed⟩ := format_format .standard .default rfl "1, -- a \n2".toList
  have hformat : format .standard .default "1, -- a \n2".toList =
      some "1, -- a\n2".toList := by decide +kernel
  obtain rfl : out = "1, -- a\n2".toList := Option.some.inj (hout.symm.trans hformat)
  exact ⟨hlooks, _, hout, hfixed hlooks⟩

end SqlLayout.Layout
