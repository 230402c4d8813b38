import SqlLayout.Proofs.Layout.JoinClauses
import SqlLayout.Proofs.Layout.Opened

/-!
# Line breaks of join clauses

The join words of a text stand in no compound, so a run of them among its tokens is one that the walk gets
(`exists_gluedRun`), and what the walk does at the run a layout shows at the tokens of the text
(`join_clauses_break_once`).  A token counts as a join word by its text in the case of the style: a keyword
such as `ınner` becomes one in upper case, so by the tokens as they are written a layout can break a join
clause twice (`not_join_clauses_break_once_dotless`).
-/

namespace SqlLayout.Layout

/-! ## Join words of a text -/

theorem joinWords_apart : ∀ w ∈ Walk.joinWords, ∀ entry ∈ compoundClauses, w ≠ entry.1 ∧ w ≠ entry.2 := by
  decide

/-- A join word stands in no compound. -/
theorem Block.Joins.more_of_joinWord {b : Block} (h : b.Joins) {p : Piece} (hp : p ∈ b.pieces)
    (hkind : p.token.kind = .keyword) (hword : Walk.isJoinWord p.token.text = true) : b.more = [] := by
  cases h with
  | single q => rfl
  | clause q r pair =>
    obtain ⟨w, hw, hupper⟩ := exists_joinWord hword
    obtain ⟨entry, hentry, hfirst, hsecond⟩ := exists_clause pair
    obtain ⟨hfirst', hsecond'⟩ := joinWords_apart w hw entry hentry
    rcases List.mem_pair.mp hp with rfl | rfl
    · exact absurd (String.toList_inj.mp (hupper.symm.trans hfirst.symm)) hfirst'
    · exact absurd (String.toList_inj.mp (hupper.symm.trans hsecond.symm)) hsecond'
  | mark q r t triple =>
    have hkinds : ∀ x ∈ [q, r, t], x.token.kind ≠ .keyword := by
      rcases isMarkTriple_cases triple with ⟨hq, hr, ht⟩ | ⟨hq, hr, ht⟩
      · simp [kind_of_isSymbol hq, kind_of_isSymbol hr, kind_of_isSymbol ht]
      · simp [kind_of_isSymbol hq, hr, kind_of_isSymbol ht]
    exact absurd hkind (hkinds p hp)

section Words

variable {s : Style} {sql : Text}

/-- No compound reads like a join word. -/
theorem more_of_isJoinWord {b : Block}
    (hb : b ∈ glueBlocks (reduce s (Piece.ofTokens (tokenize .standard sql)))) (hword : Walk.isJoinWord b.token.text = true) : b.more = [] := by
  by_contra hmore
  rcases classify_of_compound hb hmore with hkind | hunknown
  · have hmem : b.token ∈ Token.visible (normalize s (tokenize .standard sql)) := by
      rw [visible_normalize]
      exact List.mem_map_of_mem hb
    rw [kind_of_isJoinWord hmem hword] at hkind
    cases hkind
  · rw [classify_of_isJoinWord hword] at hunknown
    cases hunknown

/-- A token of a text that reads like a join word in the case of the style is a keyword. -/
theorem kind_of_isJoinWord_recase {t : Token} (ht : t ∈ tokenize .standard sql)
    (hword : Walk.isJoinWord (recase s t).text = true) : t.kind = .keyword := by
  by_contra hkind
  rw [recase_of_kind_ne s hkind] at hword
  refine hkind ((kind_of_mem_tokenize t ht (head_of_isJoinWord hword)).trans ?_)
  simp [Lexer.wordKind, classify_of_isJoinWord hword]

end Words

/-! ## Runs that the walk gets -/

/-- The words `run` between the tokens `front` and `back` of a text, in the case of the style, are the
tokens of the pieces `rb`, which the walk gets one by one between the blocks `fb` and `bb`. -/
structure GluedRun (s : Style) (sql : Text) (front run back : List Token) (fb : List Block)
    (rb : List Piece) (bb : List Block) : Prop where
  tokens : Token.visible (tokenize .standard sql) = front ++ (run ++ back)
  runs : JoinWords (front.map (recase s)) (run.map (recase s)) (back.map (recase s))
  blocks : glueBlocks (reduce s (Piece.ofTokens (tokenize .standard sql))) = fb ++ (rb.map .ofPiece ++ bb)
  front_eq : (fb.flatMap Block.pieces).map Piece.token = front.map (recase s)
  run_eq : rb.map Piece.token = run.map (recase s)
  back_eq : (bb.flatMap Block.pieces).map Piece.token = back.map (recase s)

section Runs

variable {s : Style} {sql : Text} {front run back : List Token}

/-- The walk gets the words of every run. -/
theorem exists_gluedRun (htokens : Token.visible (tokenize .standard sql) = front ++ (run ++ back))
    (hruns : JoinWords (front.map (recase s)) (run.map (recase s)) (back.map (recase s))) (hne : run ≠ []) :
    ∃ fb rb bb, GluedRun s sql front run back fb rb bb := by
  have hjoins := joins_glueBlocks (reduce s (Piece.ofTokens (tokenize .standard sql)))
  have hflat := flatMap_pieces_glueBlocks (reduce s (Piece.ofTokens (tokenize .standard sql)))
  have hmap := map_token_reduce s (tokenize .standard sql)
  rw [← hflat, htokens, List.map_append, List.map_append] at hmap
  obtain ⟨fp, behind, hpieces, hfront, hbehind⟩ := List.map_eq_append_iff.mp hmap
  obtain ⟨rb, bp, rfl, hrun, hback⟩ := List.map_eq_append_iff.mp hbehind
  have halone : ∀ b ∈ glueBlocks (reduce s (Piece.ofTokens (tokenize .standard sql))), ∀ p ∈ rb,
      p ∈ b.pieces → b.more = [] := by
    intro b hb p hp hmem
    have htoken : p.token ∈ run.map (recase s) := hrun ▸ List.mem_map_of_mem hp
    have hword := hruns.words _ htoken
    obtain ⟨t, ht, heq⟩ := List.mem_map.mp htoken
    have htmem : t ∈ Token.visible (tokenize .standard sql) := by simp [htokens, ht]
    rw [← heq] at hword
    have hkind := kind_of_isJoinWord_recase (List.mem_filter.mp htmem).1 hword
    exact (hjoins b hb).more_of_joinWord hmem (by rw [← heq, kind_recase, hkind]) (heq ▸ hword)
  obtain ⟨q, rb, rfl⟩ : ∃ q qs, rb = q :: qs := List.exists_cons_of_ne_nil fun hempty =>
    hne (by simpa [hempty] using hrun.symm)
  obtain ⟨fb, behind, hblocks, rfl, hbehind⟩ :=
    exists_blocks_cons hpieces fun b hb => halone b hb q (List.mem_cons_self ..)
  obtain ⟨bb, rfl, rfl⟩ := exists_blocks_append hbehind fun b hb p hp =>
    halone b (by simp [hblocks, hb]) p (List.mem_cons_of_mem q hp)
  exact ⟨fb, q :: rb, bb, htokens, hruns, hblocks, hfront, hrun, hback⟩

namespace GluedRun

variable {fb bb : List Block} {rb os ps : List Piece} {outer : List Token} {p : Token}

theorem mem_front (h : GluedRun s sql front run back fb rb bb) {b : Block} (hb : b ∈ fb) :
    b ∈ glueBlocks (reduce s (Piece.ofTokens (tokenize .standard sql))) := by
  simp [h.blocks, hb]

theorem mem_back (h : GluedRun s sql front run back fb rb bb) {b : Block} (hb : b ∈ bb) :
    b ∈ glueBlocks (reduce s (Piece.ofTokens (tokenize .standard sql))) := by
  simp [h.blocks, hb]

theorem length_front (h : GluedRun s sql front run back fb rb bb) :
    (fb.flatMap Block.pieces).length = front.length := by
  simpa using congrArg List.length h.front_eq

/-- The walk gets the run, and no join word on either side. -/
theorem joinRun (h : GluedRun s sql front run back fb rb bb) :
    JoinRun (normalize s (tokenize .standard sql)) (fb.map Block.token) (run.map (recase s))
      (bb.map Block.token) := by
  refine ⟨⟨h.runs.words, ?_, ?_⟩, ?_⟩
  · intro t ht
    rw [List.getLast?_map] at ht
    obtain ⟨b, hb, rfl⟩ := Option.map_eq_some_iff.mp ht
    refine Bool.eq_false_iff.mpr fun hword => ?_
    have hmore := more_of_isJoinWord (h.mem_front (List.mem_of_getLast? hb)) hword
    obtain ⟨init, rfl⟩ := List.getLast?_eq_some_iff.mp hb
    have hlast := congrArg List.getLast? h.front_eq
    obtain ⟨p, more⟩ := b
    subst hmore
    rw [Block.token_single, h.runs.starts p.token (by simpa [Block.pieces] using hlast.symm)] at hword
    cases hword
  · intro t ht
    rw [List.head?_map] at ht
    obtain ⟨b, hb, rfl⟩ := Option.map_eq_some_iff.mp ht
    refine Bool.eq_false_iff.mpr fun hword => ?_
    have hmore := more_of_isJoinWord (h.mem_back (List.mem_of_head? hb)) hword
    obtain ⟨rest, rfl⟩ := List.head?_eq_some_iff.mp hb
    have hhead := congrArg List.head? h.back_eq
    obtain ⟨p, more⟩ := b
    subst hmore
    rw [Block.token_single, h.runs.ends p.token (by simpa [Block.pieces] using hhead.symm)] at hword
    cases hword
  · rw [visible_normalize, h.blocks, ← h.run_eq]
    simp [Function.comp_def]

/-- A reader of the text finds the calls that a reader of the blocks does. -/
theorem past_eq (h : GluedRun s sql front run back fb rb bb) :
    CallTrail.start.past .standard (fb.map Block.token) = CallTrail.start.past .standard front := by
  rw [← CallTrail.past_compounds (fun b hb => h.mem_front hb), h.front_eq]
  have hmem : ∀ t ∈ front, t ∈ tokenize .standard sql := by
    intro t ht
    have hvisible : t ∈ Token.visible (tokenize .standard sql) := by simp [h.tokens, ht]
    exact (List.mem_filter.mp hvisible).1
  exact CallTrail.past_recase .standard hmem _

/-- From a word of the run up to the next token the text is the same. -/
theorem spans_word (h : GluedRun s sql front run back fb rb bb)
    (hopens : Opens (glueBlocks (reduce s (Piece.ofTokens (tokenize .standard sql)))) os ps) {k : Nat}
    (hk : k < run.length) : (spans ps)[front.length + k]? = (spans os)[fb.length + k]? := by
  have hlength : rb.length = run.length := by simpa using congrArg List.length h.run_eq
  have hk' : k < rb.length := hlength ▸ hk
  have hrun : rb = rb.take k ++ rb[k] :: rb.drop (k + 1) := by
    rw [← List.drop_eq_getElem_cons hk', List.take_append_drop]
  rw [h.blocks, hrun, List.map_append, List.map_cons, List.append_assoc, ← List.append_assoc,
    List.cons_append] at hopens
  have hspan := hopens.spans_single (.single _) rfl
  simpa [h.length_front, Function.comp_def, Block.pieces, Block.ofPiece, hk'.le, List.flatMap_map] using hspan

/-- Between two words of the run there is one blank. -/
theorem blankBetween (hmark : IsMark s) (h : GluedRun s sql front run back fb rb bb)
    (hopens : Opens (glueBlocks (reduce s (Piece.ofTokens (tokenize .standard sql))))
      (layGlued .standard s (Piece.ofTokens (normalize s (tokenize .standard sql)))) ps) :
    BlankBetween (spans ps) front.length (run.map (recase s)) := by
  intro mid t u rest hsplit
  have hstretch := h.joinRun.blankBetween hmark mid t u rest hsplit
  have hlength := congrArg List.length hsplit
  simp only [List.length_map, List.length_append, List.length_cons] at hlength hstretch
  rw [h.spans_word hopens (by omega), hstretch]

/-- A block that closes a bracket behind the run is the token behind it. -/
theorem exists_close (h : GluedRun s sql front run back fb rb bb)
    (hclose : ∃ e ∈ (bb.map Block.token).head?, e.isSymbol [')'] = true) :
    ∃ e ∈ back.head?, e.isSymbol [')'] = true := by
  obtain ⟨e, he, hclose⟩ := hclose
  rw [List.head?_map] at he
  obtain ⟨⟨y, more⟩, hb, rfl⟩ := Option.map_eq_some_iff.mp he
  obtain rfl := (joins_glueBlocks _ _ (h.mem_back (List.mem_of_head? hb))).more_of_isSymbol hclose
  obtain ⟨rest, rfl⟩ := List.head?_eq_some_iff.mp hb
  obtain ⟨e, back', rfl, htoken, -⟩ := List.map_eq_cons_iff.mp h.back_eq.symm
  rw [Block.token_single, ← htoken, (shows_of_settles (.inl rfl)).isSymbol] at hclose
  exact ⟨e, rfl, hclose⟩

/-- The block in front of the run ends with the token in front of it. -/
theorem exists_block (h : GluedRun s sql (outer ++ [p]) run back fb rb bb) :
    ∃ init b, fb = init ++ [b] ∧ (init.flatMap Block.pieces).length + b.more.length = outer.length ∧
      ((b.more.getLast?).getD b.head).token = recase s p := by
  obtain ⟨init, b, rfl⟩ : ∃ init b, fb = init ++ [b] := by
    refine (List.eq_nil_or_concat' fb).resolve_left ?_
    rintro rfl
    simpa using h.front_eq
  have hlength := h.length_front
  have hlast := congrArg List.getLast? h.front_eq
  refine ⟨init, b, rfl, ?_, ?_⟩
  · simp only [List.flatMap_append, List.flatMap_cons, List.flatMap_nil, List.append_nil, Block.pieces,
      List.length_append, List.length_cons, List.length_nil] at hlength
    omega
  · simpa [Block.pieces, List.getLast?_cons] using hlast

/-- A pair of brackets that is joined around the run is one of the text. -/
theorem joinedPair (h : GluedRun s sql (outer ++ [p]) run back fb rb bb) {texts texts' : List Text} {n : Nat}
    (hpair : JoinedPair texts n (recase s p) (run.map (recase s)) (bb.map Block.token))
    (hopen : texts'[outer.length]? = texts[n]?) (hword : texts'[outer.length + 1]? = texts[n + 1]?) :
    JoinedPair texts' outer.length p (run.map (recase s)) back := by
  obtain ⟨hopens, hcloses, ⟨t, hrun, hsingle⟩, htight⟩ := hpair
  have hsymbol : p.isSymbol ['('] = true := by
    rwa [(shows_of_settles (.inl rfl)).isSymbol] at hopens
  rw [recase_of_kind_ne s (by simp [kind_of_isSymbol hsymbol])] at htight
  exact ⟨hsymbol, h.exists_close hcloses, ⟨t, hrun, hword.trans hsingle⟩, hopen.trans htight⟩

/-- In front of a run with `JOIN` in it the line breaks, unless the run is alone in brackets that the layout
joins. -/
theorem breaks_or_joined (hmark : IsMark s) (h : GluedRun s sql (outer ++ [p]) run back fb rb bb)
    (hopens : Opens (glueBlocks (reduce s (Piece.ofTokens (tokenize .standard sql))))
      (layGlued .standard s (Piece.ofTokens (normalize s (tokenize .standard sql)))) ps)
    (hcall : (CallTrail.start.past .standard (outer ++ [p])).inCall = false)
    (hjoin : (run.map (recase s)).any isJoin = true) :
    (∃ text, (spans ps)[outer.length]? = some text ∧ BreaksBehind (Shows s p) text) ∨
      JoinedPair (spans ps) outer.length p (run.map (recase s)) back := by
  have hne : 0 < run.length := List.length_pos_of_ne_nil fun hempty => by simp [hempty] at hjoin
  have hword := h.spans_word hopens hne
  obtain ⟨init, b, rfl, hlength, hlast⟩ := h.exists_block
  have hjoins := joins_glueBlocks _ b (h.mem_front (by simp))
  have hcase := h.joinRun.breaks_or_joined hmark (by rwa [h.past_eq]) hjoin (List.map_append ..)
  rw [List.length_map] at hcase
  obtain ⟨q, rb, rfl⟩ : ∃ q qs, rb = q :: qs := List.exists_cons_of_ne_nil fun hempty =>
    hne.ne' (by simpa [hempty] using (congrArg List.length h.run_eq).symm)
  rw [h.blocks, List.append_assoc, List.singleton_append, List.map_cons, List.cons_append] at hopens
  obtain ⟨t, x, gap, hos, hps, hsame, hmore⟩ := hopens.spans_last hjoins
  rw [hlength] at hps
  cases hlastMore : b.more.getLast? with
  | none =>
    have hnil := List.getLast?_eq_none_iff.mp hlastMore
    obtain rfl := hsame hnil
    have htoken : b.token = recase s p := by
      rw [← hlast, hnil]
      simp [Block.token, hnil, Token.withText]
    rw [htoken] at hcase
    refine hcase.imp ?_ fun hpair => h.joinedPair hpair (hps.trans hos.symm) (by simpa using hword)
    rintro ⟨text, htext, hbreak⟩
    exact ⟨text, hps.trans (hos.symm.trans htext), hbreak.imp fun _ => shows_of_settles⟩
  | some z =>
    left
    have hsome : b.more ≠ [] := fun hempty => by simp [hempty] at hlastMore
    obtain ⟨rfl, rfl⟩ := hmore z hlastMore
    rcases hcase with ⟨text, htext, t, gap', ht, rfl, hblank, hfeed⟩ | hpair
    · obtain rfl := hjoins.eq_token_of_settles hsome ht
      obtain rfl : gap = gap' := by simpa [hos] using htext
      rw [hlastMore] at hlast
      exact ⟨_, hps, z.token, gap, hlast ▸ shows_of_settles (.inl rfl), rfl, hblank, hfeed⟩
    · exact absurd (hjoins.more_of_isSymbol hpair.opens) hsome

end GluedRun

end Runs

/-! ## The layout of join clauses -/

/-- The layout `out` of a text breaks its join clauses once, where a token reads as `view` shows it: let
`run` be join words between the tokens `front` and `back`, with no more of them on either side.  Wherever one
finds the tokens of the text in the layout, between two words of the run there is one blank; and in front of
a run with `JOIN` in it the line breaks, unless the text starts there, a function call is open, or the run is
alone in a pair of brackets that the layout joins.  The walk comes to the words of any other run and does
nothing there. -/
def JoinsBreakOnce (view : Token → Token) (s : Style) (sql out : Text) : Prop :=
  ∀ front run back, Token.visible (tokenize .standard sql) = front ++ (run ++ back) →
    JoinWords (front.map view) (run.map view) (back.map view) →
      (∀ os, Laid s (tokenize .standard sql) os → out = keepFinalNewline sql (Piece.render os) →
        BlankBetween (spans os) front.length (run.map (recase s)) ∧
        ((CallTrail.start.past .standard front).inCall = false → (run.map view).any isJoin = true →
          ∀ outer p, front = outer ++ [p] →
            ¬ JoinedPair (spans os) outer.length p (run.map (recase s)) back →
            ∃ text, (spans os)[outer.length]? = some text ∧ BreaksBehind (Shows s p) text)) ∧
      ((run.map view).any isJoin = false → ∃ before after,
        Token.visible (normalize s (tokenize .standard sql)) = before ++ (run.map (recase s) ++ after) ∧
        LeavesAlone .standard s (normalize s (tokenize .standard sql)) before.length (run.map (recase s)))

/-- Every text has a layout, in which its tokens can be found, and it breaks the join clauses of the tokens in
the case of the style once. -/
theorem join_clauses_break_once (s : Style) (hs : s.delimiter = [';']) (sql : Text) :
    ∃ out, format .standard s sql = some out ∧
      (∃ os, Laid s (tokenize .standard sql) os ∧ out = keepFinalNewline sql (Piece.render os)) ∧
      JoinsBreakOnce (recase s) s sql out := by
  have hmark : IsMark s := .inl hs
  obtain ⟨ps, hopens, hlaid⟩ := exists_laid_opens (located_layGlued .standard hmark sql)
  have hout := format_eq_layGlued .standard hmark sql
  rw [← hopens.render_eq] at hout
  refine ⟨_, hout, ⟨ps, hlaid, rfl⟩, fun front run back htokens hruns => ?_⟩
  by_cases hne : run = []
  · subst hne
    refine ⟨fun os _ _ => ⟨fun mid t u rest hsplit => ?_, fun _ hjoin => ?_⟩, fun _ => ?_⟩
    · simp at hsplit
    · simp at hjoin
    · exact ⟨_, [], (List.append_nil _).symm, fun k u hu => by simp at hu⟩
  obtain ⟨fb, rb, bb, hglued⟩ := exists_gluedRun htokens hruns hne
  refine ⟨fun os hos hsame => ?_, fun hother => ?_⟩
  · rw [hos.spans_eq_of_keepFinalNewline hlaid hsame.symm]
    refine ⟨hglued.blankBetween hmark hopens, ?_⟩
    rintro hcall hjoin outer p rfl hpair
    exact (hglued.breaks_or_joined hmark hopens hcall hjoin).resolve_right hpair
  · exact ⟨_, _, hglued.joinRun.tokens, hglued.joinRun.leavesAlone hmark hother⟩

/-- `LEFT JOIN` starts a line and stays on it, and `RIGHT` on its own does nothing. -/
theorem join_clauses_break_once_left_join :
    ∃ out os, format .standard .default "1 left join 2 right 3".toList = some out ∧
      Laid .default (tokenize .standard "1 left join 2 right 3".toList) os ∧
      out = keepFinalNewline "1 left join 2 right 3".toList (Piece.render os) ∧
      (spans os)[1]? = some "LEFT ".toList ∧
      (∃ text, (spans os)[0]? = some text ∧ BreaksBehind (Shows .default ⟨.value, ['1'], 0⟩) text) ∧
      ∃ before after, Token.visible (normalize .default (tokenize .standard "1 left join 2 right 3".toList)) =
          before ++ ([⟨.keyword, "RIGHT".toList, 14⟩] ++ after) ∧
        LeavesAlone .standard .default
          (normalize .default (tokenize .standard "1 left join 2 right 3".toList)) before.length
          [⟨.keyword, "RIGHT".toList, 14⟩] := by
  -- the list of all keywords is too long to be searched by evaluation
  have hleft : Dialect.standard.classify ['l', 'e', 'f', 't'] = some .keyword :=
    classify_of_isJoinWord (by decide)
  have hjoin : Dialect.standard.classify ['j', 'o', 'i', 'n'] = some .keyword :=
    classify_of_isJoinWord (by decide)
  have hright : Dialect.standard.classify ['r', 'i', 'g', 'h', 't'] = some .keyword :=
    classify_of_isJoinWord (by decide)
  have htokens : Token.visible (tokenize .standard "1 left join 2 right 3".toList) =
      [⟨.value, ['1'], 0⟩, ⟨.keyword, "left".toList, 2⟩, ⟨.keyword, "join".toList, 7⟩, ⟨.value, ['2'], 12⟩,
        ⟨.keyword, "right".toList, 14⟩, ⟨.value, ['3'], 20⟩] := by
    simp [tokenize, Lexer.tokenizeFrom, Lexer.lexeme, Lexer.word, Lexer.cutWhile, Lexer.Lexeme.ofCut,
      Lexer.isLetter, Lexer.isNumberChar, Lexer.isWordChar, Lexer.isSymbolChar, Text.isBlank, Text.isDigit,
      Dialect.lineCommentMark, Dialect.nameSeparator, Dialect.isCommand_standard, hleft, hjoin, hright]
    decide
  have hupper : (recase .default ⟨.keyword, "left".toList, 2⟩).text = "LEFT".toList ∧
      recase .default ⟨.keyword, "right".toList, 14⟩ = ⟨.keyword, "RIGHT".toList, 14⟩ := by decide
  obtain ⟨out, hout, ⟨os, hlaid, hsame⟩, hruns⟩ :=
    join_clauses_break_once .default rfl "1 left join 2 right 3".toList
  have hclause := (hruns [⟨.value, ['1'], 0⟩] [⟨.keyword, "left".toList, 2⟩, ⟨.keyword, "join".toList, 7⟩]
    [⟨.value, ['2'], 12⟩, ⟨.keyword, "right".toList, 14⟩, ⟨.value, ['3'], 20⟩] htokens
    ⟨by decide, by decide, by decide⟩).1 os hlaid hsame
  have hother := (hruns [⟨.value, ['1'], 0⟩, ⟨.keyword, "left".toList, 2⟩, ⟨.keyword, "join".toList, 7⟩,
    ⟨.value, ['2'], 12⟩] [⟨.keyword, "right".toList, 14⟩] [⟨.value, ['3'], 20⟩] htokens
    ⟨by decide, by decide, by decide⟩).2 (by decide)
  have hblank := hclause.1 [] _ _ [] rfl
  have hbreak := hclause.2 (by decide +kernel) (by decide) [] _ rfl
    fun hpair => absurd hpair.opens (by decide)
  rw [hupper.1] at hblank
  rw [List.map_cons, hupper.2] at hother
  exact ⟨out, os, hout, hlaid, hsame, hblank, hbreak, hother⟩

/-- By the tokens as they are written it does not: `ınner` is `INNER` in upper case, so the line breaks in
front of it and not in front of `join`. -/
theorem not_join_clauses_break_once_dotless :
    ∃ out, format .standard .default "1 ınner join 2".toList = some out ∧
      ¬ JoinsBreakOnce id .default "1 ınner join 2".toList out := by
  have hmark : IsMark .default := .inl rfl
  have hjoin : Dialect.standard.classify ['j', 'o', 'i', 'n'] = some .keyword :=
    classify_of_isJoinWord (by decide)
  have hinner : Dialect.standard.classify ['ı', 'n', 'n', 'e', 'r'] = some .keyword := by
    have hupper : Text.upper ['ı', 'n', 'n', 'e', 'r'] = Text.upper "INNER".toList := by decide +kernel
    rw [Dialect.classify, hupper, ← Dialect.classify]
    exact classify_of_isJoinWord (by decide)
  have htokens : Token.visible (tokenize .standard "1 ınner join 2".toList) = [⟨.value, ['1'], 0⟩] ++
      ([⟨.keyword, "ınner".toList, 2⟩, ⟨.keyword, "join".toList, 9⟩] ++ [⟨.value, ['2'], 14⟩]) := by
    simp [tokenize, Lexer.tokenizeFrom, Lexer.lexeme, Lexer.word, Lexer.cutWhile, Lexer.Lexeme.ofCut,
      Lexer.isLetter, Lexer.isNumberChar, Lexer.isWordChar, Lexer.isSymbolChar, Text.isBlank, Text.isDigit,
      Dialect.lineCommentMark, Dialect.nameSeparator, Dialect.isCommand_standard, hinner, hjoin]
    decide
  have hupper : (recase .default ⟨.keyword, "ınner".toList, 2⟩).text = "INNER".toList := by decide +kernel
  obtain ⟨ps, hopens, hlaid⟩ :=
    exists_laid_opens (located_layGlued .standard hmark "1 ınner join 2".toList)
  obtain ⟨fb, rb, bb, hglued⟩ := exists_gluedRun (s := .default) htokens
    ⟨by decide +kernel, by decide, by decide⟩ (by simp)
  have hblank := hglued.blankBetween hmark hopens [] _ _ [] rfl
  rw [hupper] at hblank
  refine ⟨_, format_eq_layGlued .standard hmark _, fun hclaim => ?_⟩
  obtain ⟨text, htext, t, gap, -, rfl, -, hfeed⟩ := ((hclaim [⟨.value, ['1'], 0⟩,
    ⟨.keyword, "ınner".toList, 2⟩] [⟨.keyword, "join".toList, 9⟩] [⟨.value, ['2'], 14⟩] htokens
    ⟨by decide, by decide, by decide⟩).1 ps hlaid (by rw [hopens.render_eq])).2 (by decide +kernel)
    (by decide) [⟨.value, ['1'], 0⟩] _ rfl fun hpair => absurd hpair.opens (by decide)
  obtain hstretch := Option.some.inj (hblank.symm.trans htext)
  have hmem : '\n' ∈ "INNER".toList ++ [' '] := by
    rw [hstretch]
    exact List.mem_append_right _ hfeed
  revert hmem
  decide

end SqlLayout.Layout
