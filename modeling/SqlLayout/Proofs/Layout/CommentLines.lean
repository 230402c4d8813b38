import SqlLayout.Proofs.Layout.LineComments
import SqlLayout.Proofs.Layout.Placement

/-!
# Line comments of a layout

Whether a line feed stands between a line comment and the token behind it depends on the text
between the two only (`endsLines_congr`).  With a semicolon for a delimiter it does exactly when the
scan over the tokens meets no comment that swallows what follows it (`endsLines_iff_swallows`).
-/

namespace SqlLayout.Layout

/-! ## Shown comments -/

theorem Shows.isLineComment {s : Style} {t t' : Token} (h : Shows s t t') :
    Layout.isLineComment t' = Layout.isLineComment t := by
  obtain ⟨text, htext, rfl⟩ := h
  simp only [shownTexts] at htext
  by_cases hkeyword : t.kind = .keyword
  · rw [isLineComment_of_kind_ne (by simp [Token.withText, hkeyword]),
      isLineComment_of_kind_ne (by simp [hkeyword])]
  · rw [if_neg hkeyword] at htext
    split at htext
    · next hline =>
      rcases List.mem_cons.mp htext with rfl | htext
      · rfl
      · have hsettle : settle t = t.withText (Text.trimEnd t.text) := by simp [settle, hline]
        rw [List.mem_singleton] at htext
        rw [htext, ← hsettle, isLineComment_settle]
    · rw [List.mem_singleton] at htext
      rw [htext]
      rfl

theorem ShownAlike.isLineComment {s : Style} {t t' : Token} (h : ShownAlike s t t') :
    Layout.isLineComment t = Layout.isLineComment t' := by
  obtain ⟨u, ht, ht'⟩ := h
  rw [ht.isLineComment, ht'.isLineComment]

/-- Whether lines are ended depends on what the tokens are and on the text between their starts. -/
theorem endsLines_congr {s : Style} {os os' : List Piece} (h : SameSpans (ShownAlike s) os os') :
    EndsLines os ↔ EndsLines os' := by
  induction h with
  | nil => exact Iff.rfl
  | single => simp [EndsLines]
  | cons tokens text _ ih =>
    unfold EndsLines at ih ⊢
    rw [List.isChain_cons_cons, List.isChain_cons_cons, tokens.isLineComment, text, ih]

/-! ## Line feeds of comments -/

theorem mem_of_mem_trimEnd {text : Text} {c : Char} (h : c ∈ Text.trimEnd text) : c ∈ text := by
  obtain ⟨w, -, htext⟩ := Text.exists_trimEnd_append text
  rw [htext]
  simp [h]

theorem trimEnd_append {w : Text} (text : Text) (hw : Text.allBlank w = true) :
    Text.trimEnd (text ++ w) = Text.trimEnd text := by
  have hall : ∀ c ∈ w.reverse, Text.isBlank c = true := by simpa [Text.allBlank] using hw
  unfold Text.trimEnd
  rw [List.reverse_append, List.dropWhile_append_of_pos hall]

/-- The only line feed of a cut line is its last character. -/
theorem exists_cutAfterNewline (text : Text) : ∃ line, '\n' ∉ line ∧
    ((Text.cutAfterNewline text).1 = line ∨ (Text.cutAfterNewline text).1 = line ++ ['\n']) := by
  fun_induction Text.cutAfterNewline text with
  | case1 => exact ⟨[], by simp, .inl rfl⟩
  | case2 cs => exact ⟨[], by simp, .inr rfl⟩
  | case3 c cs hc ih =>
    obtain ⟨line, hline, hcut⟩ := ih
    refine ⟨c :: line, by simp [hline, Ne.symm hc], ?_⟩
    rcases hcut with hcut | hcut
    · exact .inl (by rw [hcut])
    · exact .inr (by rw [hcut, List.cons_append])

/-- The only line feed of a line comment is its last character. -/
theorem exists_line_of_mem_tokenize {d : Dialect} {sql : Text} :
    ∀ t ∈ tokenize d sql, isLineComment t = true →
      ∃ line, '\n' ∉ line ∧ (t.text = line ∨ t.text = line ++ ['\n']) := by
  refine Lexer.forall_tokenizeFrom ?_ 0 sql
  intro c cs l hreads offset hline
  obtain ⟨cs, rfl, rfl, rfl⟩ := hreads.of_lineComment (kind_of_isLineComment hline)
    (isLineComment_text hline)
  obtain ⟨line, hfeed, hcut⟩ := exists_cutAfterNewline cs
  refine ⟨'-' :: '-' :: line, by simp [hfeed], ?_⟩
  rcases hcut with hcut | hcut
  · exact .inl (by rw [hcut])
  · exact .inr (by rw [hcut, List.cons_append, List.cons_append])

theorem feed_not_mem_of_mem_tokenize {d : Dialect} {sql : Text} :
    ∀ t ∈ tokenize d sql, isLineComment t = true → '\n' ∉ Text.trimEnd t.text := by
  intro t ht hline
  obtain ⟨line, hfeed, htext⟩ := exists_line_of_mem_tokenize t ht hline
  have htrim : Text.trimEnd t.text = Text.trimEnd line := by
    rcases htext with htext | htext
    · rw [htext]
    · rw [htext]
      exact trimEnd_append line (by decide)
  rw [htrim]
  exact fun hmem => hfeed (mem_of_mem_trimEnd hmem)

theorem feed_not_mem_settle {d : Dialect} {s : Style} {sql : Text} :
    ∀ t ∈ normalize s (tokenize d sql), isLineComment t = true → '\n' ∉ (settle t).text := by
  intro t ht hline
  have hkind := kind_of_isLineComment hline
  have hsettle : (settle t).text = Text.trimEnd t.text := by simp [settle, hline, Token.withText]
  rw [hsettle]
  rcases exists_of_mem_normalize ht with hspace | hsymbol | ⟨t', ht', rfl⟩ | ⟨hkeyword, -⟩
  · simp [Token.isSpace, hkind] at hspace
  · simp [hkind] at hsymbol
  · rw [kind_recase] at hkind
    rw [recase_of_kind_ne s (by simp [hkind])] at hline ⊢
    exact feed_not_mem_of_mem_tokenize t' ht' hline
  · simp [hkind] at hkeyword

/-! ## Layouts -/

/-- Arranged tokens end the lines of their comments exactly when the scan over the tokens meets no
comment that swallows what follows it. -/
theorem Arranged.endsLines_iff {s : Style} (hmark : IsMark s) {sql : Text} {ws ms fs : List Token}
    (h : Arranged .standard s sql ws ms fs) :
    EndsLines (Piece.ofTokens fs) ↔
      swallows .standard s .start (Token.visible (normalize s (tokenize .standard sql))) = false := by
  obtain ⟨ws', hbreak, hwalked⟩ := exists_walked_normalize hmark sql
  obtain rfl : ws' = ws := Option.some.inj (hbreak.symm.trans h.walked)
  have htidy := tidy_normalize hmark sql
  have hgaps : Gaps ws' := (Walk.edits_run hbreak).preserves Edit.gaps htidy.gaps
  have hfilled : LinesEnd ms ↔ Closes ws' := h.filled.linesEnd_iff hgaps
  have hcloses := hwalked.closes_iff hmark htidy hgaps feed_not_mem_settle
    (by simp [Scan.Outside, Scan.start])
  rw [Piece.ofTokens, endsLines_ofTokensAfter, h.spells.linesEnd, hfilled, hcloses]

/-- Every text has a layout, and wherever one finds the tokens of the text in it: behind each line
comment, and before the next token, there is a line feed exactly when the scan over the tokens meets
no comment that swallows what follows it. -/
theorem endsLines_iff_swallows (s : Style) (hs : s.delimiter = [';']) (sql : Text) :
    ∃ out, format .standard s sql = some out ∧
      (∃ os, Laid s (tokenize .standard sql) os ∧ out = keepFinalNewline sql (Piece.render os)) ∧
      ∀ os, Laid s (tokenize .standard sql) os → out = keepFinalNewline sql (Piece.render os) →
        (EndsLines os ↔ swallows .standard s .start
          (Token.visible (normalize s (tokenize .standard sql))) = false) := by
  have hmark : IsMark s := .inl hs
  obtain ⟨ws, hbreak, -⟩ := exists_walked_normalize hmark sql
  obtain ⟨out, hout⟩ : ∃ out, format .standard s sql = some out := by
    simp [format, arrange, hbreak]
  obtain ⟨ws, ms, fs, harranged, rfl⟩ := exists_arranged hout
  refine ⟨_, hout, ⟨_, harranged.laid, by rw [harranged.render_eq]⟩, ?_⟩
  intro os hos hsame
  rw [← harranged.render_eq] at hsame
  rw [endsLines_congr (hos.sameSpans harranged.laid hsame.symm)]
  exact harranged.endsLines_iff hmark

/-- A comment behind a value keeps its line feed. -/
theorem endsLines_iff_swallows_value :
    ∃ out os, format .standard .default "1 -- a\n2".toList = some out ∧
      Laid .default (tokenize .standard "1 -- a\n2".toList) os ∧
      out = keepFinalNewline "1 -- a\n2".toList (Piece.render os) ∧ EndsLines os := by
  obtain ⟨out, hout, ⟨os, hlaid, hsame⟩, hiff⟩ := endsLines_iff_swallows .default rfl "1 -- a\n2".toList
  exact ⟨out, os, hout, hlaid, hsame, (hiff os hlaid hsame).mpr (by decide +kernel)⟩

/-- The second of two line comments behind a comma ends up on the line of the first. -/
theorem not_endsLines_comma :
    ∃ out os, format .standard .default "1, -- a\n-- b\n2".toList = some out ∧
      Laid .default (tokenize .standard "1, -- a\n-- b\n2".toList) os ∧
      out = keepFinalNewline "1, -- a\n-- b\n2".toList (Piece.render os) ∧ ¬ EndsLines os :=
  ⟨"1, -- a -- b\n2".toList,
    [⟨[], .value, ['1'], 0⟩, ⟨[], .symbol, [','], 1⟩, ⟨[' '], .comment, "-- a".toList, 3⟩,
      ⟨[' '], .comment, "-- b".toList, 8⟩, ⟨['\n'], .value, ['2'], 13⟩], by decide +kernel⟩

end SqlLayout.Layout
