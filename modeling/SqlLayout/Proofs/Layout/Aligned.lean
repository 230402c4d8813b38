import SqlLayout.Proofs.Layout.Crowds
import SqlLayout.Proofs.Layout.Normalized

/-!
# Where closing brackets stand

Behind a bracket pair the walk has the brackets and the level that it had in front.  Outside function
calls the closing bracket of a pair starts a line at that level or closes a nest without white space in
it, unless the scan over the tokens meets brackets that crowd (`closes_iff_crowds`).
-/

namespace SqlLayout.Layout

/-! ## Glued tokens in a layout -/

instance (t t' : Token) : Decidable (Settles t t') := inferInstanceAs (Decidable (t' = t ∨ t' = settle t))

/-- The pieces `os` show the tokens `ts` that are not white space, in order, line comments with or without
the white space at their end, with nothing but white space between them and nothing in front. -/
structure Located (ts : List Token) (os : List Piece) : Prop where
  shows : List.Forall₂ Settles (Token.visible ts) (os.map Piece.token)
  blank : ∀ o ∈ os, Text.allBlank o.gap = true
  first : ∀ o ∈ os.head?, o.gap = []

instance (ts : List Token) (os : List Piece) : Decidable (Located ts os) :=
  decidable_of_iff (List.Forall₂ Settles (Token.visible ts) (os.map Piece.token) ∧
      (∀ o ∈ os, Text.allBlank o.gap = true) ∧ ∀ o ∈ os.head?, o.gap = [])
    ⟨fun h => ⟨h.1, h.2.1, h.2.2⟩, fun h => ⟨h.shows, h.blank, h.first⟩⟩

theorem Settles.eq_of_kind_ne {t t' : Token} (h : Settles t t') (ht : t.kind ≠ .comment) : t' = t := by
  rcases h with h | h
  · exact h
  · rw [h, settle_of_kind_ne ht]

theorem hasCore_settles (t : Token) : HasCore (Settles t) := by
  obtain ⟨w, hw, ht⟩ := Text.exists_trimEnd_append t.text
  refine ⟨Text.trimEnd t.text, ?_⟩
  rintro t' (rfl | rfl)
  · exact ⟨w, hw, ht⟩
  · unfold settle
    split
    · exact ⟨[], rfl, by simp [Token.withText]⟩
    · exact ⟨w, hw, ht⟩

/-- A compound of the walk starts with a token of the text, in the case of the style. -/
theorem exists_recase_of_mem_glueBlocks {d : Dialect} {s : Style} {sql : Text} {b : Block}
    (hb : b ∈ glueBlocks (reduce s (Piece.ofTokens (tokenize d sql)))) :
    ∃ t ∈ Token.visible (tokenize d sql), b.head.token = recase s t := by
  have hhead : b.head ∈ reduce s (Piece.ofTokens (tokenize d sql)) := by
    rw [← flatMap_pieces_glueBlocks (reduce s (Piece.ofTokens (tokenize d sql)))]
    exact List.mem_flatMap.mpr ⟨b, hb, by simp [Block.pieces]⟩
  have htokens := List.mem_map_of_mem (f := Piece.token) hhead
  rw [map_token_reduce] at htokens
  obtain ⟨t, ht, htoken⟩ := List.mem_map.mp htokens
  exact ⟨t, ht, htoken.symm⟩

/-- The walk gets tokens that start visibly. -/
theorem startsVisibly_normalize {d : Dialect} {s : Style} {sql : Text} {t : Token}
    (ht : t ∈ Token.visible (normalize s (tokenize d sql))) : startsVisibly t.text = true := by
  rw [visible_normalize] at ht
  obtain ⟨b, hb, rfl⟩ := List.mem_map.mp ht
  obtain ⟨t, ht, htoken⟩ := exists_recase_of_mem_glueBlocks hb
  obtain ⟨hmem, hvisible⟩ := List.mem_filter.mp ht
  rw [Block.text_token, htoken]
  exact startsVisibly_append (startsVisibly_recase s hmem (by simpa using hvisible)) _

/-- Two ways to find the glued tokens in the same layout find them in the same places. -/
theorem Located.spans_eq {d : Dialect} {s : Style} {sql : Text} {os os' : List Piece}
    (h : Located (normalize s (tokenize d sql)) os) (h' : Located (normalize s (tokenize d sql)) os')
    (hsame : keepFinalNewline sql (Piece.render os) = keepFinalNewline sql (Piece.render os')) :
    spans os = spans os' := by
  obtain ⟨e, he⟩ := exists_keepFinalNewline sql (Piece.render os)
  obtain ⟨e', he'⟩ := exists_keepFinalNewline sql (Piece.render os')
  rw [he, he'] at hsame
  refine Layout.spans_eq hasCore_settles ?_ h.shows h'.shows h.blank h'.blank
    (head?_gap_eq h.shows h'.shows h.first h'.first) hsame
  rintro u hu t (rfl | rfl)
  · exact startsVisibly_normalize hu
  · unfold settle
    split
    · exact startsVisibly_trimEnd (startsVisibly_normalize hu)
    · exact startsVisibly_normalize hu

/-- The pieces of a layout, from the pieces that the walk gets. -/
def layGlued (d : Dialect) (s : Style) (ps : List Piece) : List Piece :=
  (layBlocks d s (ps.map Block.ofPiece)).flatMap Block.pieces

section Glued

variable (d : Dialect) {s : Style}

theorem writes_ofTokens_normalize (s : Style) (sql : Text) :
    Writes (Piece.ofTokens (normalize s (tokenize d sql))) (normalize s (tokenize d sql)) := by
  have hwrites := writes_glueBlocks d s sql
  rwa [← hwrites.ofTokens] at hwrites

theorem neat_ofTokens_normalize (hmark : IsMark s) (sql : Text) :
    Neat s (Piece.ofTokens (normalize s (tokenize d sql))) := by
  rw [(writes_glueBlocks d s sql).ofTokens]
  exact neat_glueBlocks d hmark sql

theorem gap_head?_normalize (s : Style) (sql : Text) :
    ∀ p ∈ (Piece.ofTokens (normalize s (tokenize d sql))).head?, p.gap = [] := by
  rw [(writes_glueBlocks d s sql).ofTokens, List.head?_map]
  intro p hp
  obtain ⟨b, hb, rfl⟩ := Option.map_eq_some_iff.mp hp
  exact gap_head?_glueBlocks (gap_head?_reduce s (Piece.ofTokens (tokenize d sql))) b hb

theorem joins_ofPiece (ps : List Piece) : ∀ b ∈ ps.map Block.ofPiece, b.Joins := by
  simpa using fun p _ => .single p

theorem map_piece_ofPiece (ps : List Piece) : (ps.map Block.ofPiece).map Block.piece = ps := by
  simp [Function.comp_def, Block.piece_ofPiece]

theorem format_eq_layGlued (hmark : IsMark s) (sql : Text) :
    format d s sql = some (keepFinalNewline sql
      (Piece.render (layGlued d s (Piece.ofTokens (normalize s (tokenize d sql)))))) := by
  have hpiece : ((Piece.ofTokens (normalize s (tokenize d sql))).map Block.ofPiece).map Block.piece =
      (glueBlocks (reduce s (Piece.ofTokens (tokenize d sql)))).map Block.piece := by
    rw [map_piece_ofPiece, (writes_glueBlocks d s sql).ofTokens]
  obtain ⟨ts, harrange, hwrites⟩ := exists_arrange_of_piece d hmark sql hpiece
    fun b hb => (joins_ofPiece _ b hb).plain
  rw [format, harrange, layGlued, Block.render_flatMap_pieces, ← hwrites.concat]
  rfl

theorem located_layGlued (hmark : IsMark s) (sql : Text) :
    Located (normalize s (tokenize d sql))
      (layGlued d s (Piece.ofTokens (normalize s (tokenize d sql)))) := by
  have hneat := neat_ofTokens_normalize d hmark sql
  have hfirst := gap_head?_normalize d s sql
  have htokens : (Piece.ofTokens (normalize s (tokenize d sql))).map Piece.token =
      Token.visible (normalize s (tokenize d sql)) := Piece.map_token_ofTokensAfter [] _
  generalize Piece.ofTokens (normalize s (tokenize d sql)) = ps at hneat hfirst htokens ⊢
  have hregaps := regaps_layBlocks d hmark (joins_ofPiece ps) fun b hb => by
    obtain ⟨p, hp, rfl⟩ := List.mem_map.mp hb
    rw [Block.token_ofPiece]
    exact hneat.marks p hp
  have hpieces : (ps.map Block.ofPiece).flatMap Block.pieces = ps := by
    simp [List.flatMap_map, Block.pieces, Block.ofPiece]
  rw [hpieces] at hregaps
  refine ⟨htokens ▸ hregaps.settles, hregaps.allBlank hneat.blank, ?_⟩
  refine gap_head?_flatMap_pieces (gap_head?_layBlocks ?_)
  simpa [List.head?_map, Block.ofPiece] using hfirst

end Glued

/-! ## Pairs in a layout -/

/-- Among the visible tokens of a list, `a` opens a bracket that `e` closes, with `inside` in between. -/
structure BracketPair (ts front : List Token) (a : Token) (inside : List Token) (e : Token)
    (back : List Token) : Prop where
  tokens : Token.visible ts = front ++ a :: (inside ++ e :: back)
  opens : a.isSymbol ['('] = true
  closes : e.isSymbol [')'] = true
  balanced : openedIn 0 inside = some 0

/-- `ClosesPair s level texts a inside`: the stretches `texts` of a layout, from a bracket `a` with `inside`
in it on, have no white space up to the closing bracket, with a nest in between, or the closing bracket
starts a line at the level. -/
def ClosesPair (s : Style) (level : Int) (texts : List Text) (a : Token) (inside : List Token) : Prop :=
  Nest inside ∧ texts.take (inside.length + 1) = ((a :: inside).map fun t => (settle t).text) ∨
    ∃ text, texts[inside.length]? = some text ∧ s.lineBreak level <:+ text

section Pairs

variable {d : Dialect} {s : Style} {ps front inside back : List Piece} {a e : Piece}

theorem Settles.isSymbol {t t' : Token} (h : Settles t t') (text : Text) :
    t'.isSymbol text = t.isSymbol text := by
  rcases h with rfl | rfl
  · rfl
  · exact isSymbol_settle t text

theorem Settles.eq_settle {t t' : Token} (h : Settles t t') (hsettled : settle t' = t') : t' = settle t := by
  rcases h with rfl | rfl
  · exact hsettled.symm
  · rfl

theorem openedIn_congr {ts us : List Token} (h : List.Forall₂ Settles ts us) (n : Nat) :
    openedIn n us = openedIn n ts := by
  induction h generalizing n with
  | nil => rfl
  | cons ht _ ih => simp only [openedIn, ht.isSymbol, ih]

theorem map_text_of_settles {ts : List Token} {ps : List Piece}
    (h : List.Forall₂ Settles ts (ps.map Piece.token)) (hsettled : ∀ p ∈ ps, settle p.token = p.token) :
    (ps.map fun p => p.token.text) = ts.map fun t => (settle t).text := by
  induction ts generalizing ps with
  | nil =>
    rw [List.forall₂_nil_left_iff, List.map_eq_nil_iff] at h
    rw [h]
    rfl
  | cons t ts ih =>
    obtain ⟨t', ts', ht, hts, hmap⟩ := List.forall₂_cons_left_iff.mp h
    obtain ⟨p, ps, rfl, rfl, rfl⟩ := List.map_eq_cons_iff.mp hmap
    rw [List.map_cons, List.map_cons, ← ht.eq_settle (hsettled p (by simp)),
      ih hts fun q hq => hsettled q (by simp [hq])]

/-- A nest that is written without white space closes. -/
theorem Nests.closes {os outer inner : List Piece} {b : Piece} (h : Nests os outer b inner)
    {front inside : List Token} {t : Token}
    (hsettles : List.Forall₂ Settles (front ++ t :: inside) ((outer ++ b :: inner).map Piece.token))
    (ht : t.isSymbol ['('] = true) (hinside : openedIn 0 inside = some 0) (s : Style) (level : Int) :
    ClosesPair s level ((spans os).drop front.length) t inside := by
  have hfront := List.forall₂_take front.length hsettles
  have hrest := List.forall₂_drop front.length hsettles
  rw [List.take_left] at hfront
  rw [List.drop_left] at hrest
  obtain ⟨t', inside', htt', hinside', hdrop⟩ := List.forall₂_cons_left_iff.mp hrest
  -- the bracket that is closed is the one that the nest stands in
  have hparts : outer.map Piece.token ++ b.token :: inner.map Piece.token =
      ((outer ++ b :: inner).map Piece.token).take front.length ++ t' :: inside' := by
    rw [← hdrop, List.take_append_drop, List.map_append, List.map_cons]
  obtain ⟨houter, rfl, rfl⟩ := eq_of_balanced hparts h.opens ((htt'.isSymbol _).trans ht) h.nest.balanced
    ((openedIn_congr hinside' 0).trans hinside)
  have hlength : outer.length = front.length := by
    have hlen := congrArg List.length houter
    rw [← hfront.length_eq] at hlen
    simpa using hlen
  have hlength' : inner.length = inside.length := by simpa using hinside'.length_eq.symm
  refine .inl ⟨h.nest.of_forall₂ (hinside'.imp fun _ _ hsame => hsame.isSymbol), ?_⟩
  rw [drop_spans, ← hlength, ← hlength', h.tight]
  have hshown : List.Forall₂ Settles (t :: inside) ((b :: inner).map Piece.token) := .cons htt' hinside'
  exact map_text_of_settles hshown h.settled

/-- The pieces that the walk places, joined. -/
theorem tightened_layGlued (hmark : IsMark s) (hneat : Neat s ps) (hfree : crowds d s .start ps = false) :
    Tightened (place d s .start ps) (layGlued d s ps) := by
  rw [layGlued, layBlocks, placeBlocks_ofPiece]
  rw [crowds_eq_crowded hmark hneat] at hfree
  exact (bundles_compactBlocks hfree (settled_place hmark hneat)).tightened s

/-- Where no brackets crowd, the pairs outside function calls close. -/
theorem closes_of_uncrowded (hmark : IsMark s) (hneat : Neat s ps) (hfree : crowds d s .start ps = false)
    (hps : ps = front ++ a :: (inside ++ e :: back)) (ha : a.token.isSymbol ['('] = true)
    (he : e.token.isSymbol [')'] = true) (hinside : openedIn 0 (inside.map Piece.token) = some 0)
    (hcall : (Hand.start.past d s (front ++ [a]) (inside ++ e :: back)).footing.inCall = false) :
    ClosesPair s (Hand.start.past d s front (a :: (inside ++ e :: back))).footing.level
      ((spans (layGlued d s ps)).drop front.length) a.token (inside.map Piece.token) := by
  have htight := tightened_layGlued (d := d) hmark hneat hfree
  obtain ⟨outer, hplace, hsettles⟩ :=
    exists_place_append (d := d) (s := s) .start (front ++ a :: inside) (e :: back)
  have hgap := gap_pass_close (d := d) (h := Hand.start.past d s front (a :: (inside ++ e :: back)))
    hmark ha he hinside (by rwa [Hand.past_append] at hcall) (back.map (·.token.text))
  generalize hlevel : (Hand.start.past d s front (a :: (inside ++ e :: back))).footing.level = level at hgap ⊢
  rw [Hand.past_append, List.append_assoc, List.cons_append, ← hps] at hplace
  rw [List.map_append, List.map_cons] at hsettles
  generalize (Hand.start.past d s front (a :: (inside ++ e :: back))).past d s (a :: inside) (e :: back) = k
    at hplace hgap
  have he' : (k.shown e.token).isSymbol [')'] = true := by rwa [isSymbol_shown]
  rw [place] at hplace
  rcases htight.cases_close hplace he' (by rw [hgap]; exact lineBreak_ne_nil s level) with
    ⟨front', e', back', hos, hlength, hkept⟩ | ⟨outer', b, inner, rfl, hnests⟩
  · have hline : e'.gap = s.lineBreak level := hkept.trans hgap
    have hlength' : front'.length = front.length + inside.length + 1 := by
      have hlen := hsettles.length_eq
      simp only [List.length_append, List.length_cons, List.length_map] at hlen
      omega
    obtain ⟨init, z, rfl⟩ : ∃ init z, front' = init ++ [z] := by
      refine (List.eq_nil_or_concat' front').resolve_left ?_
      rintro rfl
      simp at hlength'
    have hinit : init.length = front.length + inside.length := by simpa using hlength'
    refine .inr ⟨z.token.text ++ s.lineBreak level, ?_, List.suffix_append _ _⟩
    rw [List.getElem?_drop, List.length_map, ← hinit, ← hline]
    exact getElem?_spans (by simp [hos]) (by simp [hos])
  · have hcloses := hnests.closes hsettles ha hinside s level
    rwa [List.length_map] at hcloses

theorem map_token_layGlued (ps : List Piece) :
    (layGlued d s ps).map Piece.token = (place d s .start ps).map Piece.token := by
  rw [layGlued, layBlocks, map_token_fillBlocks, map_token_compactBlocks, placeBlocks_ofPiece]
  simp [List.flatMap_map, Block.pieces, Block.ofPiece]

/-- A layout shows the placed tokens, one by one. -/
theorem exists_layGlued (hplace : place d s .start ps = front ++ a :: back) :
    ∃ x, (layGlued d s ps)[front.length]? = some x ∧ x.token = a.token := by
  rw [← Option.map_eq_some_iff, ← List.getElem?_map, map_token_layGlued, hplace]
  simp

/-- From a token to one that is joined to it, a layout has no white space. -/
theorem getElem?_spans_of_tucks (hplace : place d s .start ps = front ++ a :: e :: back)
    (htucked : ((compactBlocks ((place d s .start ps).map .ofPiece)).flatMap
      Block.tucks)[front.length + 1]? = some true) :
    (spans (layGlued d s ps))[front.length]? = some a.token.text := by
  rw [← tucks_fillBlocks s] at htucked
  obtain ⟨o, ho, hempty⟩ := exists_gap_of_tucks (tight_fillBlocks s (tight_compactBlocks _)) htucked
  rw [← placeBlocks_ofPiece] at ho
  obtain ⟨x, hx, hxtoken⟩ := exists_layGlued hplace
  rw [getElem?_spans hx ho, hxtoken, hempty, List.append_nil]

/-- Where brackets crowd, a pair outside function calls does not close. -/
theorem exists_not_closes_of_crowds (hmark : IsMark s) (hneat : Neat s ps)
    (hcrowds : crowds d s .start ps = true) :
    ∃ front a e back, ps = front ++ a :: e :: back ∧ a.token.isSymbol ['('] = true ∧
      e.token.isSymbol [')'] = true ∧
      (Hand.start.past d s (front ++ [a]) (e :: back)).footing.inCall = false ∧
      ∀ level, ¬ ClosesPair s level ((spans (layGlued d s ps)).drop front.length) a.token [] := by
  rw [crowds_eq_crowded hmark hneat] at hcrowds
  obtain ⟨front', a', e', back', hplace, ha, he, hgap, htucked⟩ := hasTucked_of_crowded hcrowds
  have hstretch := getElem?_spans_of_tucks hplace htucked
  rw [text_of_isSymbol ha] at hstretch
  obtain ⟨front, a, rest, rfl, hlength, hrest⟩ := exists_of_place_eq_append hplace
  cases rest with
  | nil => simp [place] at hrest
  | cons e back =>
    simp only [place, List.cons.injEq] at hrest
    obtain ⟨rfl, rfl, -⟩ := hrest
    have ha' : a.token.isSymbol ['('] = true := by rwa [isSymbol_shown] at ha
    have he' : e.token.isSymbol [')'] = true := by rwa [isSymbol_shown] at he
    refine ⟨front, a, e, back, rfl, ha', he', ?_, ?_⟩
    · have hempty := isEmpty_gap_behind_open (d := d)
        (h := Hand.start.past d s front (a :: e :: back)) hmark ((e :: back).map (·.token.text))
        (back.map (·.token.text)) ha' (q := e) (by simp [isBracket, he'])
        (hneat.tight e (by simp) (absorbsSpace_of_isSymbol he'))
      rw [Hand.past_append]
      exact hempty.symm.trans (by simpa using hgap)
    · rintro level (⟨hnest, -⟩ | ⟨text, htext, hsuffix⟩)
      · exact hnest.ne_nil rfl
      · rw [List.getElem?_drop, List.length_nil, Nat.add_zero, hlength, hstretch] at htext
        obtain rfl := Option.some.inj htext
        have hfeed := hsuffix.subset (feed_mem_lineBreak s level)
        simp at hfeed

end Pairs

/-! ## Pairs of a text -/

/-- The pieces of a bracket pair. -/
structure PiecePair (ps front : List Piece) (a : Piece) (inside : List Piece) (e : Piece)
    (back : List Piece) : Prop where
  pieces : ps = front ++ a :: (inside ++ e :: back)
  opens : a.token.isSymbol ['('] = true
  closes : e.token.isSymbol [')'] = true
  balanced : openedIn 0 (inside.map Piece.token) = some 0

theorem BracketPair.exists_pieces {ts front inside back : List Token} {a e : Token}
    (h : BracketPair ts front a inside e back) :
    ∃ front' a' inside' e' back', PiecePair (Piece.ofTokens ts) front' a' inside' e' back' ∧
      front'.map Piece.token = front ∧ a'.token = a ∧ inside'.map Piece.token = inside := by
  have htokens : (Piece.ofTokens ts).map Piece.token = front ++ a :: (inside ++ e :: back) :=
    (Piece.map_token_ofTokensAfter [] ts).trans h.tokens
  obtain ⟨front', parts, hps, rfl, hparts⟩ := List.map_eq_append_iff.mp htokens
  obtain ⟨a', parts, rfl, rfl, hbehind⟩ := List.map_eq_cons_iff.mp hparts
  obtain ⟨inside', parts, rfl, rfl, hclosing⟩ := List.map_eq_append_iff.mp hbehind
  obtain ⟨e', back', rfl, rfl, rfl⟩ := List.map_eq_cons_iff.mp hclosing
  exact ⟨front', a', inside', e', back', ⟨hps, h.opens, h.closes, h.balanced⟩, rfl, rfl, rfl⟩

theorem PiecePair.bracketPair {ts : List Token} {front inside back : List Piece} {a e : Piece}
    (h : PiecePair (Piece.ofTokens ts) front a inside e back) :
    BracketPair ts (front.map Piece.token) a.token (inside.map Piece.token) e.token
      (back.map Piece.token) := by
  refine ⟨?_, h.opens, h.closes, h.balanced⟩
  rw [← Piece.map_token_ofTokensAfter [], ← Piece.ofTokens, h.pieces]
  simp

/-- The footing of the walk over a text when it first has some of the tokens behind it. -/
theorem exists_behind?_normalize (d : Dialect) {s : Style} (hmark : IsMark s) (sql : Text)
    {ps qs : List Piece} (hps : Piece.ofTokens (normalize s (tokenize d sql)) = ps ++ qs) :
    ∃ v, (Walk.start (normalize s (tokenize d sql))).behind? d s ps.length = some v ∧
      v.footing = (Hand.start.past d s ps qs).footing := by
  have hneat := neat_ofTokens_normalize d hmark sql
  have hwrites := writes_ofTokens_normalize d s sql
  have hfirst := gap_head?_normalize d s sql
  rw [hps] at hneat hwrites hfirst
  exact exists_behind? hmark hneat hwrites hfirst

/-- Behind a bracket pair the walk over a text has the brackets and the level that it had in front. -/
theorem exists_restored (d : Dialect) {s : Style} (hmark : IsMark s) (sql : Text)
    {front inside back : List Token} {a e : Token}
    (h : BracketPair (normalize s (tokenize d sql)) front a inside e back) :
    ∃ w w', (Walk.start (normalize s (tokenize d sql))).behind? d s front.length = some w ∧
      (Walk.start (normalize s (tokenize d sql))).behind? d s (front.length + inside.length + 2) = some w' ∧
      w'.brackets = w.brackets ∧ w'.level = w.level := by
  obtain ⟨front, a, inside, e, back, hpair, rfl, rfl, rfl⟩ := h.exists_pieces
  obtain ⟨w, hw, hfooting⟩ := exists_behind?_normalize d hmark sql hpair.pieces
  have hbehind : Piece.ofTokens (normalize s (tokenize d sql)) = (front ++ a :: (inside ++ [e])) ++ back := by
    simp [hpair.pieces]
  obtain ⟨w', hw', hfooting'⟩ := exists_behind?_normalize d hmark sql hbehind
  have hsame := footing_past_pair (d := d) (h := Hand.start.past d s front (a :: (inside ++ e :: back)))
    hmark hpair.opens hpair.closes hpair.balanced back
  rw [Hand.past_append] at hfooting'
  simp only [List.cons_append, List.append_assoc, List.nil_append] at hfooting'
  rw [← hfooting, ← hfooting'] at hsame
  refine ⟨w, w', by simpa using hw, ?_, hsame⟩
  rw [← hw']
  congr 1
  simp only [List.length_map, List.length_append, List.length_cons, List.length_nil]
  omega

/-- In a text where brackets crowd, a pair with no function call open behind its first bracket does not
close. -/
theorem exists_not_closes (d : Dialect) {s : Style} (hmark : IsMark s) (sql : Text)
    (hcrowds : crowds d s .start (Piece.ofTokens (normalize s (tokenize d sql))) = true) :
    ∃ front a e back w v, BracketPair (normalize s (tokenize d sql)) front a [] e back ∧
      (Walk.start (normalize s (tokenize d sql))).behind? d s front.length = some w ∧
      (Walk.start (normalize s (tokenize d sql))).behind? d s (front.length + 1) = some v ∧
      v.inCall = false ∧ ∀ level, ¬ ClosesPair s level
        ((spans (layGlued d s (Piece.ofTokens (normalize s (tokenize d sql))))).drop front.length) a [] := by
  obtain ⟨front, a, e, back, hps, ha, he, hcall, hnot⟩ :=
    exists_not_closes_of_crowds hmark (neat_ofTokens_normalize d hmark sql) hcrowds
  have hpair : PiecePair (Piece.ofTokens (normalize s (tokenize d sql))) front a [] e back :=
    ⟨hps, ha, he, rfl⟩
  obtain ⟨w, hw, -⟩ := exists_behind?_normalize d hmark sql hps
  have hbehind : Piece.ofTokens (normalize s (tokenize d sql)) = (front ++ [a]) ++ e :: back := by simp [hps]
  obtain ⟨v, hv, hfooting⟩ := exists_behind?_normalize d hmark sql hbehind
  refine ⟨_, _, _, _, w, v, hpair.bracketPair, by simpa using hw, by simpa using hv, ?_, ?_⟩
  · rw [← Walk.inCall_footing, hfooting, hcall]
  · simpa using hnot

/-- Every text has a layout, in which the glued tokens can be found.  Behind each bracket pair the walk has
the brackets and the level that it had in front.  And wherever one finds the glued tokens: each pair with
no function call open behind its first bracket closes, at the level that the walk has in front, exactly
when the scan over the tokens meets no brackets that crowd. -/
theorem closes_iff_crowds (d : Dialect) (s : Style) (hs : s.delimiter = [';']) (sql : Text) :
    ∃ out, format d s sql = some out ∧
      (∃ os, Located (normalize s (tokenize d sql)) os ∧ out = keepFinalNewline sql (Piece.render os)) ∧
      (∀ front a inside e back, BracketPair (normalize s (tokenize d sql)) front a inside e back →
        ∃ w w', (Walk.start (normalize s (tokenize d sql))).behind? d s front.length = some w ∧
          (Walk.start (normalize s (tokenize d sql))).behind? d s (front.length + inside.length + 2) =
            some w' ∧
          w'.brackets = w.brackets ∧ w'.level = w.level) ∧
      ∀ os, Located (normalize s (tokenize d sql)) os → out = keepFinalNewline sql (Piece.render os) →
        ((∀ front a inside e back, BracketPair (normalize s (tokenize d sql)) front a inside e back →
          ∀ w v, (Walk.start (normalize s (tokenize d sql))).behind? d s front.length = some w →
            (Walk.start (normalize s (tokenize d sql))).behind? d s (front.length + 1) = some v →
            v.inCall = false → ClosesPair s w.level ((spans os).drop front.length) a inside) ↔
          crowds d s .start (Piece.ofTokens (normalize s (tokenize d sql))) = false) := by
  have hmark : IsMark s := .inl hs
  have hlocated := located_layGlued d hmark sql
  have hneat := neat_ofTokens_normalize d hmark sql
  refine ⟨_, format_eq_layGlued d hmark sql, ⟨_, hlocated, rfl⟩, ?_, ?_⟩
  · exact fun front a inside e back hpair => exists_restored d hmark sql hpair
  intro os hos hsame
  rw [hos.spans_eq hlocated hsame.symm]
  constructor
  · intro hcloses
    by_contra hcrowds
    rw [Bool.not_eq_false] at hcrowds
    obtain ⟨front, a, e, back, w, v, hpair, hw, hv, hcall, hnot⟩ := exists_not_closes d hmark sql hcrowds
    exact hnot w.level (hcloses front a [] e back hpair w v hw hv hcall)
  · intro hfree front a inside e back h w v hw hv hcall
    obtain ⟨front, a, inside, e, back, hpair, rfl, rfl, rfl⟩ := h.exists_pieces
    obtain ⟨w', hw', hfooting⟩ := exists_behind?_normalize d hmark sql hpair.pieces
    have hbehind : Piece.ofTokens (normalize s (tokenize d sql)) =
        (front ++ [a]) ++ (inside ++ e :: back) := by simp [hpair.pieces]
    obtain ⟨v', hv', hfooting'⟩ := exists_behind?_normalize d hmark sql hbehind
    obtain rfl : w' = w := by simpa [hw'] using hw
    obtain rfl : v' = v := by
      rw [List.length_append, List.length_singleton] at hv'
      simpa [hv'] using hv
    have hcloses := closes_of_uncrowded (d := d) hmark hneat hfree hpair.pieces hpair.opens hpair.closes
      hpair.balanced (by rw [← hfooting', Walk.inCall_footing, hcall])
    rw [← hfooting] at hcloses
    simpa [Walk.footing] using hcloses

/-- Two values in brackets close on a line of their own, one value in its brackets without white space. -/
theorem closes_iff_crowds_values :
    ∃ out os, format .standard .default "((1), (2, 3))".toList = some out ∧
      Located (normalize .default (tokenize .standard "((1), (2, 3))".toList)) os ∧
      out = keepFinalNewline "((1), (2, 3))".toList (Piece.render os) ∧
      ∀ front a inside e back,
        BracketPair (normalize .default (tokenize .standard "((1), (2, 3))".toList)) front a inside e back →
        ∀ w v, (Walk.start (normalize .default (tokenize .standard "((1), (2, 3))".toList))).behind?
            .standard .default front.length = some w →
          (Walk.start (normalize .default (tokenize .standard "((1), (2, 3))".toList))).behind?
            .standard .default (front.length + 1) = some v →
          v.inCall = false → ClosesPair .default w.level ((spans os).drop front.length) a inside := by
  have hpieces : Piece.ofTokens (normalize .default (tokenize .standard "((1), (2, 3))".toList)) =
      [⟨[], .symbol, ['('], 0⟩, ⟨[], .symbol, ['('], 1⟩, ⟨[], .value, ['1'], 2⟩, ⟨[], .symbol, [')'], 3⟩,
        ⟨[], .symbol, [','], 4⟩, ⟨[], .symbol, ['('], 6⟩, ⟨[], .value, ['2'], 7⟩, ⟨[], .symbol, [','], 8⟩,
        ⟨[], .value, ['3'], 10⟩, ⟨[], .symbol, [')'], 11⟩, ⟨[], .symbol, [')'], 12⟩] := by
    decide +kernel
  obtain ⟨out, hout, ⟨os, hlocated, hsame⟩, -, hiff⟩ :=
    closes_iff_crowds .standard .default rfl "((1), (2, 3))".toList
  refine ⟨out, os, hout, hlocated, hsame, (hiff os hlocated hsame).mpr ?_⟩
  rw [hpieces]
  simp [crowds, Token.isSymbol]

/-- The closing bracket of an empty pair is taken for the one token between two others. -/
theorem not_closes_brackets :
    ∃ out os front a e back w v, format .standard .default "( ( ) )".toList = some out ∧
      Located (normalize .default (tokenize .standard "( ( ) )".toList)) os ∧
      out = keepFinalNewline "( ( ) )".toList (Piece.render os) ∧
      BracketPair (normalize .default (tokenize .standard "( ( ) )".toList)) front a [] e back ∧
      (Walk.start (normalize .default (tokenize .standard "( ( ) )".toList))).behind? .standard .default
        front.length = some w ∧
      (Walk.start (normalize .default (tokenize .standard "( ( ) )".toList))).behind? .standard .default
        (front.length + 1) = some v ∧
      v.inCall = false ∧ ¬ ClosesPair .default w.level ((spans os).drop front.length) a [] := by
  have hmark : IsMark .default := .inl rfl
  have hpieces : Piece.ofTokens (normalize .default (tokenize .standard "( ( ) )".toList)) =
      [⟨[], .symbol, ['('], 0⟩, ⟨[], .symbol, ['('], 2⟩, ⟨[], .symbol, [')'], 4⟩,
        ⟨[], .symbol, [')'], 6⟩] := by decide +kernel
  have hblank : Dialect.standard.isFunction [' '] = false := isFunction_of_head rfl (by decide)
  have hopen : Dialect.standard.isFunction ['('] = false := isFunction_of_head rfl (by decide)
  have hprevious (h : Hand) (rest : List Text) {p : Piece} (hp : p.token.isSymbol ['('] = true) :
      (h.pass .standard .default rest p).hand.previous = ['('] := by
    rw [pass_of_bracket hmark _ _ (.inl hp), Hand.visit, shown_of_bracket _ (.inl hp),
      text_of_isSymbol hp]
  have hcrowds : crowds .standard .default .start
      (Piece.ofTokens (normalize .default (tokenize .standard "( ( ) )".toList))) = true := by
    rw [hpieces]
    simp [crowds, Footing.inCall, brackets_pass hmark, hprevious, Token.isSymbol, Hand.start, hblank,
      hopen]
  obtain ⟨front, a, e, back, w, v, hpair, hw, hv, hcall, hnot⟩ := exists_not_closes _ hmark _ hcrowds
  exact ⟨_, _, front, a, e, back, w, v, format_eq_layGlued _ hmark _, located_layGlued _ hmark _, rfl, hpair,
    hw, hv, hcall, hnot w.level⟩

end SqlLayout.Layout
