import SqlLayout.Proofs.Layout.Legible
import SqlLayout.Proofs.Layout.Placement
import SqlLayout.Proofs.Token.Reread

/-!
# Keywords of a layout

A dot stands without blanks in a layout, so a keyword next to it is read as part of a longer name.
Where no such thing happens (`ties`), the keywords of a layout are those of the text, in the case of
the style (`keywords_format`).
-/

namespace SqlLayout.Layout

open Lexer (Run)

/-- Whether a keyword stands so close to a dot, a star or a number that the lexer takes it for part
of something else, or finds a new one there.  The gap in front of a piece ends what the lexer is in
the middle of. -/
def ties : Run → List Piece → Bool
  | _, [] => false
  | run, p :: ps =>
    let run := if p.gap.isEmpty then run else .none
    run.ties p.token || ties (run.after p.token) ps

/-! ## Pieces and tokens -/

theorem Run.ties_space (run : Run) {t : Token} (h : t.isSpace = true) :
    run.ties t = false ∧ run.after t = .none := by
  have hkind : t.kind = .space := by simpa [Token.isSpace] using h
  have hjoint : Lexer.isJoint t = false := by simp [Lexer.isJoint, isSymbol_of_isSpace h]
  cases run <;> simp [Run.ties, Run.after, hkind, hjoint]

theorem ties_ofTokensAfter (run : Run) (gap : Text) {ts : List Token} (hgaps : Gaps ts) :
    ties run (Piece.ofTokensAfter gap ts) =
      Lexer.tiesFrom (if gap.isEmpty then run else .none) ts := by
  induction ts generalizing run gap with
  | nil => rfl
  | cons t ts ih =>
    have hrest : Gaps ts := fun x hx => hgaps x (by simp [hx])
    cases hspace : t.isSpace with
    | true =>
      have hne : t.text ≠ [] := (hgaps t (by simp) hspace).1
      obtain ⟨hties, hafter⟩ := Run.ties_space (if gap.isEmpty then run else .none) hspace
      rw [Piece.ofTokensAfter_space hspace, ih run _ hrest, Lexer.tiesFrom, hties, hafter]
      simp [hne]
    | false =>
      rw [Piece.ofTokensAfter_visible hspace, ties, Lexer.tiesFrom, ih _ [] hrest]
      simp

theorem tiesFrom_spaces (run : Run) {es : List Token} (hes : ∀ e ∈ es, e.isSpace = true) :
    Lexer.tiesFrom run es = false := by
  induction es generalizing run with
  | nil => rfl
  | cons e es ih =>
    obtain ⟨hties, hafter⟩ := Run.ties_space run (hes e (by simp))
    rw [Lexer.tiesFrom, hties, hafter, ih .none fun x hx => hes x (by simp [hx])]
    rfl

theorem tiesFrom_append_spaces (run : Run) (ts : List Token) {es : List Token}
    (hes : ∀ e ∈ es, e.isSpace = true) :
    Lexer.tiesFrom run (ts ++ es) = Lexer.tiesFrom run ts := by
  induction ts generalizing run with
  | nil => exact tiesFrom_spaces run hes
  | cons t ts ih => rw [List.cons_append, Lexer.tiesFrom, Lexer.tiesFrom, ih]

theorem keywords_append_spaces (ts : List Token) {es : List Token}
    (hes : ∀ e ∈ es, e.isSpace = true) : Token.keywords (ts ++ es) = Token.keywords ts := by
  have hnone : es.filter (fun t => t.kind == .keyword) = [] := by
    rw [List.filter_eq_nil_iff]
    intro e he
    have hkind : e.kind = .space := by simpa [Token.isSpace] using hes e he
    simp [hkind]
  simp [Token.keywords, hnone]

theorem keywords_visible (ts : List Token) :
    Token.keywords (Token.visible ts) = Token.keywords ts := by
  unfold Token.keywords Token.visible
  rw [List.filter_filter]
  congr 1
  refine List.filter_congr fun t _ => ?_
  cases hkind : t.kind <;> simp [Token.isSpace, hkind]

theorem keywords_map_recase (s : Style) (ts : List Token) :
    Token.keywords (ts.map (recase s)) = (Token.keywords ts).map s.keywordCase.apply := by
  induction ts with
  | nil => rfl
  | cons t ts ih =>
    unfold Token.keywords at ih ⊢
    by_cases hkind : t.kind = .keyword
    · simp [kind_recase, hkind, text_recase hkind, ih]
    · simp [kind_recase, hkind, ih]

/-! ## One way to find the tokens -/

theorem Shows.eq_recase {s : Style} {t t' : Token} (h : Shows s t t') (ht : t.kind ≠ .comment) :
    t' = recase s t := by
  obtain ⟨text, htext, rfl⟩ := h
  by_cases hkeyword : t.kind = .keyword
  · have hsame : text = s.keywordCase.apply t.text := by simpa [shownTexts, hkeyword] using htext
    simp [recase, hkeyword, hsame]
  · have hline : Layout.isLineComment t = false := isLineComment_of_kind_ne ht
    have hsame : text = t.text := by simpa [shownTexts, hkeyword, hline] using htext
    rw [recase_of_kind_ne s hkeyword, hsame]
    rfl

theorem Laid.map_token {s : Style} {ts : List Token} {os : List Piece} (h : Laid s ts os)
    (hfree : NoComments ts) : os.map Piece.token = (Token.visible ts).map (recase s) := by
  have hcomments : NoComments (Token.visible ts) := fun t ht => hfree t (List.mem_filter.mp ht).1
  have hshows := h.shows
  generalize Token.visible ts = us at hshows hcomments
  generalize os.map Piece.token = vs at hshows
  induction hshows with
  | nil => rfl
  | cons ht hts ih =>
    rw [ht.eq_recase (hcomments _ (by simp)), ih fun x hx => hcomments x (by simp [hx])]
    rfl

theorem SameSpans.eq {os os' : List Piece} (h : SameSpans (· = ·) os os')
    (hfirst : os.head?.map Piece.gap = os'.head?.map Piece.gap) : os = os' := by
  have hpiece : ∀ {p p' : Piece}, p.token = p'.token → p.gap = p'.gap → p = p' := by
    rintro ⟨g, t⟩ ⟨g', t'⟩ rfl rfl
    rfl
  induction h with
  | nil => rfl
  | single token => rw [hpiece token (by simpa using hfirst)]
  | cons token text _ ih =>
    rw [token] at text
    have hnext := List.append_cancel_left text
    rw [hpiece token (by simpa using hfirst), ih (by simp [hnext])]

/-- Without comments there is one way to find the tokens of a text in its layout. -/
theorem Laid.unique {s : Style} {sql : Text} {os os' : List Piece}
    (h : Laid s (tokenize .standard sql) os) (h' : Laid s (tokenize .standard sql) os')
    (hfree : NoComments (tokenize .standard sql))
    (hsame : keepFinalNewline sql (Piece.render os) = keepFinalNewline sql (Piece.render os')) :
    os = os' := by
  have htokens := (h.map_token hfree).trans (h'.map_token hfree).symm
  have hspans : SameSpans (· = ·) os os' :=
    sameSpans_of_spans (List.forall₂_eq_eq_eq ▸ htokens) (h.spans_eq_of_keepFinalNewline h' hsame)
  exact hspans.eq (h.head?_gap h')

/-! ## Layouts -/

/-- A text without comments has a layout.  Wherever one finds the tokens of the text in it: if the
layout has no comment and no keyword is tied, its keywords are those of the text, in order and in
the case of the style. -/
theorem keywords_format (s : Style) (sql : Text) (hfree : NoComments (tokenize .standard sql)) :
    ∃ out, format .standard s sql = some out ∧
      (∃ os, Laid s (tokenize .standard sql) os ∧ out = keepFinalNewline sql (Piece.render os)) ∧
      ∀ os, Laid s (tokenize .standard sql) os → out = keepFinalNewline sql (Piece.render os) →
        NoComments (tokenize .standard out) → ties .none os = false →
        Token.keywords (tokenize .standard out) =
          (Token.keywords (tokenize .standard sql)).map s.keywordCase.apply := by
  obtain ⟨ws, ms, fs, harranged, hout⟩ := exists_arranged_of_noComments s hfree
  obtain ⟨es, hlegible, hspaces, hconcat⟩ := harranged.exists_legible hfree
  refine ⟨_, hout, ⟨_, harranged.laid, by rw [harranged.render_eq]⟩, ?_⟩
  intro os hos hsame hcomments hties
  rw [← harranged.render_eq] at hsame
  obtain rfl := hos.unique harranged.laid hfree hsame.symm
  have hties' : Lexer.tiesFrom .none (fs ++ es) = false := by
    rw [tiesFrom_append_spaces _ _ hspaces]
    rw [Piece.ofTokens, ties_ofTokensAfter .none [] harranged.gaps] at hties
    exact hties
  rw [← hconcat] at hcomments ⊢
  have hread := hlegible.keywordsIn_concat ((Lexer.commentFree_iff _).mpr hcomments)
    (.none []) (by simp [Lexer.stops]) hties'
  have hkeywords : Token.keywords fs =
      (Token.keywords (tokenize .standard sql)).map s.keywordCase.apply := by
    rw [← keywords_visible, harranged.visible_eq hfree, keywords_map_recase, keywords_visible]
  rw [← hkeywords, ← keywords_append_spaces fs hspaces]
  exact hread

theorem tokenize_null {c : Char} (hc : Lexer.isWordChar c = false) (cs : Text) :
    tokenize .standard ("null".toList ++ c :: cs) =
      ⟨.keyword, "null".toList, 0⟩ :: Lexer.tokenizeFrom .standard 4 (c :: cs) :=
  Lexer.tokenize_keyword ⟨⟨'n', by decide, by decide⟩, by decide⟩
    ((Dialect.isSome_classify_standard _).mpr ⟨"NULL", by decide +kernel, by decide +kernel⟩)
    (by simpa using hc)

theorem tokenize_null_one : tokenize .standard "null 1".toList =
    [⟨.keyword, "null".toList, 0⟩, ⟨.space, [' '], 4⟩, ⟨.value, ['1'], 5⟩] := by
  have hrest : Lexer.tokenizeFrom .standard 4 (' ' :: "1".toList) =
      [⟨.space, [' '], 4⟩, ⟨.value, ['1'], 5⟩] := by decide +kernel
  have htokens := tokenize_null (c := ' ') (by decide) "1".toList
  rw [hrest] at htokens
  exact htokens

theorem noComments_of_isQuiet {text : Text} (h : ∀ c ∈ text, Lexer.isQuiet c = true) :
    NoComments (tokenize .standard text) := by
  refine (Lexer.commentFree_iff text).mp ?_
  simpa using (Lexer.commentFree_append h []).mpr .nil

/-- A keyword with a blank behind it is kept. -/
theorem keywords_format_blank :
    ∃ out, format .standard .default "null 1".toList = some out ∧
      Token.keywords (tokenize .standard out) = ["NULL".toList] := by
  obtain ⟨out, hout, -, hkeep⟩ :=
    keywords_format .default "null 1".toList (noComments_of_isQuiet (by decide))
  have hformat : format .standard .default "null 1".toList = some "NULL 1".toList := by
    rw [format, tokenize_null_one]
    decide +kernel
  obtain rfl : out = "NULL 1".toList := Option.some.inj (hout.symm.trans hformat)
  have hlaid : Laid .default (tokenize .standard "null 1".toList)
      [⟨[], .keyword, "NULL".toList, 0⟩, ⟨[' '], .value, ['1'], 5⟩] := by
    rw [tokenize_null_one]
    decide +kernel
  refine ⟨_, hout, ?_⟩
  rw [hkeep _ hlaid (by decide +kernel) (noComments_of_isQuiet (by decide)) (by decide +kernel),
    tokenize_null_one]
  decide +kernel

theorem tokenize_null_dot : tokenize .standard "null . 1".toList =
    [⟨.keyword, "null".toList, 0⟩, ⟨.space, [' '], 4⟩, ⟨.symbol, ['.'], 5⟩, ⟨.space, [' '], 6⟩,
      ⟨.value, ['1'], 7⟩] := by
  have hrest : Lexer.tokenizeFrom .standard 4 (' ' :: ". 1".toList) =
      [⟨.space, [' '], 4⟩, ⟨.symbol, ['.'], 5⟩, ⟨.space, [' '], 6⟩, ⟨.value, ['1'], 7⟩] := by
    decide +kernel
  have htokens := tokenize_null (c := ' ') (by decide) ". 1".toList
  rw [hrest] at htokens
  exact htokens

/-- A keyword in front of a dot is lost. -/
theorem keywords_format_dot :
    ∃ out, NoComments (tokenize .standard "null . 1".toList) ∧
      format .standard .default "null . 1".toList = some out ∧
      NoComments (tokenize .standard out) ∧
      Token.keywords (tokenize .standard out) ≠
        (Token.keywords (tokenize .standard "null . 1".toList)).map
          Style.default.keywordCase.apply := by
  have hformat : format .standard .default "null . 1".toList = some "NULL.1".toList := by
    rw [format, tokenize_null_dot]
    decide +kernel
  refine ⟨"NULL.1".toList, noComments_of_isQuiet (by decide), hformat,
    noComments_of_isQuiet (by decide), ?_⟩
  -- the layout is one word with a dot in it
  have hword : Text.IsWord "NULL.1".toList := ⟨⟨'N', by decide, by decide⟩, by decide⟩
  have hnone : Token.keywords (tokenize .standard "NULL.1".toList) = [] :=
    Lexer.keywordsIn_joint hword ⟨'.', by decide, .inl rfl⟩
  rw [hnone, tokenize_null_dot]
  decide

end SqlLayout.Layout
