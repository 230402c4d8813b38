import SqlLayout.Proofs.Layout.Normalized

/-!
# Pieces written as tokens

A pass of the layout works on tokens, of which some are white space; a statement about a pass is
easier to make about pieces.  `Writes ps ts` says that the tokens `ts` are the pieces `ps` written
out, each gap as one white space token or none.  The tokens that the layout starts from write the
pieces of the text with their gaps reduced to a blank or nothing (`writes_reduce`).
-/

namespace SqlLayout.Layout

/-! ## Writing pieces -/

/-- `Fills g gs`: the white space `g` as tokens, one or none. -/
def Fills (g : Text) (gs : List Token) : Prop :=
  g = [] ∧ gs = [] ∨ g ≠ [] ∧ ∃ t : Token, t.isSpace = true ∧ t.text = g ∧ gs = [t]

/-- `Writes ps ts`: the tokens `ts` are the pieces `ps`, written out. -/
inductive Writes : List Piece → List Token → Prop
  | nil : Writes [] []
  | cons {p : Piece} {ps : List Piece} {gs ts : List Token} (gap : Fills p.gap gs)
      (visible : p.token.isSpace = false) (solid : Text.allBlank p.token.text = false)
      (rest : Writes ps ts) : Writes (p :: ps) (gs ++ p.token :: ts)

namespace Fills

theorem nil : Fills [] [] := .inl ⟨rfl, rfl⟩

theorem single {t : Token} (ht : t.isSpace = true) (htext : t.text ≠ []) : Fills t.text [t] :=
  .inr ⟨htext, t, ht, rfl, rfl⟩

theorem space {g : Text} (hg : g ≠ []) (offset : Nat) : Fills g [Token.space g offset] :=
  single (t := Token.space g offset) rfl hg

theorem withText {t : Token} (ht : t.isSpace = true) {g : Text} (hg : g ≠ []) :
    Fills g [t.withText g] :=
  single (t := t.withText g) ht hg

variable {g : Text} {gs : List Token}

theorem concat (h : Fills g gs) : Token.concat gs = g := by
  rcases h with ⟨rfl, rfl⟩ | ⟨-, t, -, rfl, rfl⟩
  · rfl
  · simp [Token.concat]

theorem isSpace (h : Fills g gs) : ∀ t ∈ gs, t.isSpace = true := by
  rcases h with ⟨-, rfl⟩ | ⟨-, t, ht, -, rfl⟩
  · simp
  · simpa using ht

theorem reverse (h : Fills g gs) : gs.reverse = gs := by
  rcases h with ⟨-, rfl⟩ | ⟨-, t, -, -, rfl⟩ <;> rfl

theorem eq_nil (h : Fills [] gs) : gs = [] := by
  rcases h with ⟨-, rfl⟩ | ⟨hne, -⟩
  · rfl
  · exact absurd rfl hne

theorem exists_single (h : Fills g gs) (hg : g ≠ []) :
    ∃ t : Token, t.isSpace = true ∧ t.text = g ∧ gs = [t] := by
  rcases h with ⟨rfl, -⟩ | ⟨-, ht⟩
  · exact absurd rfl hg
  · exact ht

end Fills

namespace Writes

variable {ps : List Piece} {ts : List Token}

/-- Tokens that write pieces read like them. -/
theorem concat (h : Writes ps ts) : Token.concat ts = Piece.render ps := by
  induction h with
  | nil => rfl
  | cons gap visible solid rest ih =>
    have hgap := gap.concat
    simp only [Token.concat, List.flatMap_append, List.flatMap_cons] at hgap ih ⊢
    rw [hgap, ih, Piece.render_cons]

theorem wordTexts (h : Writes ps ts) : Walk.wordTexts ts = ps.map (·.token.text) := by
  induction h with
  | nil => rfl
  | @cons p ps gs ts gap visible solid rest ih =>
    have hgs : (gs.filter fun t => !t.isSpace) = [] := by simpa using gap.isSpace
    simp only [Walk.wordTexts] at ih
    simp [Walk.wordTexts, List.filter_append, hgs, visible, ih]

theorem eq_nil (h : Writes [] ts) : ts = [] := by
  cases h
  rfl

theorem ne_nil (h : Writes ps ts) (hps : ps ≠ []) : ts ≠ [] := by
  cases h with
  | nil => exact absurd rfl hps
  | cons => simp

end Writes

/-- Tokens without white space at the ends or two white space tokens in a row write their pieces. -/
theorem writes_ofTokensAfter {g : Text} {gs ts : List Token} (hgs : Fills g gs)
    (hspaced : Spaced (gs ++ ts)) (hgaps : Gaps ts) (hsolid : Solid ts)
    (hlast : ∀ t ∈ (gs ++ ts).getLast?, t.isSpace = false) :
    Writes (Piece.ofTokensAfter g ts) (gs ++ ts) := by
  induction ts generalizing g gs with
  | nil =>
    rcases hgs with ⟨rfl, rfl⟩ | ⟨-, t, ht, -, rfl⟩
    · exact .nil
    · rw [hlast t (by simp)] at ht
      cases ht
  | cons t ts ih =>
    have hgaps' : Gaps ts := fun x hx => hgaps x (by simp [hx])
    have hsolid' : Solid ts := fun x hx => hsolid x (by simp [hx])
    cases hspace : t.isSpace with
    | true =>
      rcases hgs with ⟨rfl, rfl⟩ | ⟨-, x, hx, -, rfl⟩
      · rw [Piece.ofTokensAfter_space hspace]
        exact ih (.single hspace (hgaps t (by simp) hspace).1) hspaced hgaps' hsolid' hlast
      · rw [(List.isChain_cons_cons.mp hspaced).1 hx] at hspace
        cases hspace
    | false =>
      rw [Piece.ofTokensAfter_visible hspace]
      refine .cons (p := ⟨g, t⟩) hgs hspace (hsolid t (by simp) hspace) ?_
      refine ih .nil hspaced.right_of_append.tail hgaps' hsolid' ?_
      intro x hx
      refine hlast x ?_
      have hne : ts ≠ [] := by
        rintro rfl
        simp at hx
      obtain ⟨a, as, rfl⟩ := List.exists_cons_of_ne_nil hne
      simpa [List.getLast?_append] using hx

theorem writes_ofTokens {ts : List Token} (hspaced : Spaced ts) (hgaps : Gaps ts)
    (hsolid : Solid ts) (hframed : Framed ts) : Writes (Piece.ofTokens ts) ts :=
  writes_ofTokensAfter .nil hspaced hgaps hsolid hframed.2

/-! ## Reduced pieces -/

/-- A piece with its keyword in the case of the style. -/
def recasePiece (s : Style) (p : Piece) : Piece := ⟨p.gap, recase s p.token⟩

/-- The pieces with their gaps reduced: nothing next to a symbol or a comment, else one blank.
`absorbed` says whether the first piece follows a token that needs no white space. -/
def reduceAfter (absorbed : Bool) : List Piece → List Piece
  | [] => []
  | p :: ps =>
    ⟨if absorbed || absorbsSpace p.token || p.gap.isEmpty then [] else [' '], p.token⟩ ::
      reduceAfter (absorbsSpace p.token) ps

/-- The pieces of a text as the layout starts from them. -/
def reduce (s : Style) (ps : List Piece) : List Piece := reduceAfter true (ps.map (recasePiece s))

theorem map_token_reduceAfter (absorbed : Bool) (ps : List Piece) :
    (reduceAfter absorbed ps).map Piece.token = ps.map Piece.token := by
  induction ps generalizing absorbed with
  | nil => rfl
  | cons p ps ih => simp [reduceAfter, ih]

/-- Reduced pieces carry the tokens in the case of the style. -/
theorem map_token_reduce (s : Style) (ts : List Token) :
    (reduce s (Piece.ofTokens ts)).map Piece.token = (Token.visible ts).map (recase s) := by
  rw [reduce, map_token_reduceAfter, List.map_map, ← Piece.map_token_ofTokensAfter [], List.map_map]
  rfl

/-- Collapsing white space reduces gaps. -/
theorem Writes.collapseAfter {ps : List Piece} {ts : List Token} (h : Writes ps ts)
    (absorbed : Bool) :
    Writes (reduceAfter absorbed ps) (Layout.collapseAfter absorbed ts) := by
  induction h generalizing absorbed with
  | nil => exact .nil
  | @cons p ps gs ts gap visible solid rest ih =>
    rcases gap with ⟨hgap, rfl⟩ | ⟨hgap, g, hg, htext, rfl⟩
    · have hcollapse : Layout.collapseAfter absorbed ([] ++ p.token :: ts) =
          [] ++ p.token :: Layout.collapseAfter (absorbsSpace p.token) ts := by
        simp [Layout.collapseAfter, visible]
      rw [hcollapse, reduceAfter]
      simp only [hgap, List.isEmpty_nil, Bool.or_true, ↓reduceIte]
      exact .cons (p := ⟨[], p.token⟩) .nil visible solid (ih _)
    · have hempty : p.gap.isEmpty = false := by simpa using hgap
      rw [reduceAfter]
      simp only [hempty, Bool.or_false, List.singleton_append, Layout.collapseAfter, hg, visible,
        ↓reduceIte, List.head?_cons, Option.any_some, Bool.false_eq_true]
      split
      · exact .cons (p := ⟨[], p.token⟩) .nil visible solid (ih _)
      · have hblank : Fills [' '] [g.withText [' ']] := .withText hg (by simp)
        exact .cons (p := ⟨[' '], p.token⟩) hblank visible solid (ih _)

theorem ofTokensAfter_append {back : List Token} (hback : ∀ t ∈ back, t.isSpace = true) (g : Text)
    (ts : List Token) : Piece.ofTokensAfter g (ts ++ back) = Piece.ofTokensAfter g ts := by
  induction ts generalizing g with
  | nil =>
    induction back generalizing g with
    | nil => rfl
    | cons t back ih =>
      rw [List.nil_append, Piece.ofTokensAfter_space (hback t (by simp))]
      exact ih (fun x hx => hback x (by simp [hx])) _
  | cons t ts ih =>
    cases hspace : t.isSpace with
    | true => rw [List.cons_append, Piece.ofTokensAfter_space hspace, ih, Piece.ofTokensAfter_space hspace]
    | false =>
      rw [List.cons_append, Piece.ofTokensAfter_visible hspace, ih, Piece.ofTokensAfter_visible hspace]

/-- The white space in front of the first piece is not in its reduced form. -/
theorem reduce_ofTokensAfter (s : Style) (g : Text) {front : List Token}
    (hfront : ∀ t ∈ front, t.isSpace = true) (ts : List Token) :
    reduce s (Piece.ofTokensAfter g (front ++ ts)) = reduce s (Piece.ofTokens ts) := by
  induction front generalizing g with
  | nil =>
    -- the first piece is the same up to its gap, which is dropped
    have hgap : ∀ (us : List Token) (g g' : Text),
        reduce s (Piece.ofTokensAfter g us) = reduce s (Piece.ofTokensAfter g' us) := by
      intro us
      induction us with
      | nil => intros; rfl
      | cons u us ih =>
        intro g g'
        cases hspace : u.isSpace with
        | true => rw [Piece.ofTokensAfter_space hspace, Piece.ofTokensAfter_space hspace, ih]
        | false =>
          rw [Piece.ofTokensAfter_visible hspace, Piece.ofTokensAfter_visible hspace]
          simp [reduce, reduceAfter, recasePiece]
    exact hgap ts g []
  | cons t front ih =>
    rw [List.cons_append, Piece.ofTokensAfter_space (hfront t (by simp))]
    exact ih _ fun x hx => hfront x (by simp [hx])

theorem reduce_trimEdges (s : Style) (ts : List Token) :
    reduce s (Piece.ofTokens (trimEdges ts)) = reduce s (Piece.ofTokens ts) := by
  obtain ⟨front, back, hts, hfront, hback⟩ := exists_trimEdges ts
  conv_rhs => rw [hts, Piece.ofTokens, ofTokensAfter_append hback, reduce_ofTokensAfter s [] hfront]

theorem ofTokensAfter_applyKeywordCase (s : Style) (g : Text) (ts : List Token) :
    Piece.ofTokensAfter g (applyKeywordCase s ts) =
      (Piece.ofTokensAfter g ts).map (recasePiece s) := by
  rw [applyKeywordCase_eq]
  induction ts generalizing g with
  | nil => rfl
  | cons t ts ih =>
    rw [List.map_cons]
    cases hspace : t.isSpace with
    | true =>
      have hkind : t.kind = .space := by simpa [Token.isSpace] using hspace
      have hrecase : recase s t = t := recase_of_kind_ne s (by simp [hkind])
      rw [hrecase, Piece.ofTokensAfter_space hspace, Piece.ofTokensAfter_space hspace, ih]
    | false =>
      rw [Piece.ofTokensAfter_visible ((isSpace_recase s t).trans hspace),
        Piece.ofTokensAfter_visible hspace, ih]
      rfl

/-- The tokens that the layout starts from write the reduced pieces of the text. -/
theorem writes_reduce (d : Dialect) (s : Style) (sql : Text) :
    Writes (reduce s (Piece.ofTokens (tokenize d sql)))
      (collapse (prepared s (tokenize d sql))) := by
  have hwrites : Writes (Piece.ofTokens (prepared s (tokenize d sql)))
      (prepared s (tokenize d sql)) :=
    writes_ofTokens (spaced_prepared d s sql) (gaps_prepared d s sql) (solid_prepared d s sql)
      (framed_prepared d s sql)
  have hfirst := Piece.head?_gap _ (framed_prepared d s sql).1
  have hreduced : reduceAfter false (Piece.ofTokens (prepared s (tokenize d sql))) =
      reduce s (Piece.ofTokens (tokenize d sql)) := by
    rw [← reduce_trimEdges, reduce, Piece.ofTokens, prepared, ofTokensAfter_applyKeywordCase]
    rw [Piece.ofTokens, prepared, ofTokensAfter_applyKeywordCase] at hfirst
    rw [Piece.ofTokens]
    cases hps : (Piece.ofTokensAfter [] (trimEdges (tokenize d sql))).map (recasePiece s) with
    | nil => rfl
    | cons p ps =>
      rw [hps] at hfirst
      simp [reduceAfter, hfirst p (by simp)]
  rw [← hreduced]
  exact hwrites.collapseAfter false

/-! ## What reduced pieces are like -/

theorem prefix_gap {g : Text} {ts : List Token} {q : Piece}
    (hq : q ∈ (Piece.ofTokensAfter g ts).head?) : g <+: q.gap := by
  induction ts generalizing g with
  | nil => simp [Piece.ofTokensAfter] at hq
  | cons t ts ih =>
    cases hspace : t.isSpace with
    | true =>
      rw [Piece.ofTokensAfter_space hspace] at hq
      exact (List.prefix_append g t.text).trans (ih hq)
    | false =>
      rw [Piece.ofTokensAfter_visible hspace] at hq
      obtain rfl : ⟨g, t⟩ = q := by simpa using hq
      exact List.prefix_rfl

/-- What holds of neighbours in a token list holds of pieces with nothing between them. -/
theorem isChain_ofTokensAfter {R : Token → Token → Prop} {ts : List Token} (h : ts.IsChain R)
    (hgaps : Gaps ts) (g : Text) :
    (Piece.ofTokensAfter g ts).IsChain fun p q => q.gap = [] → R p.token q.token := by
  induction ts generalizing g with
  | nil => exact .nil
  | cons t ts ih =>
    have hrest := ih h.tail fun x hx => hgaps x (by simp [hx])
    cases hspace : t.isSpace with
    | true =>
      rw [Piece.ofTokensAfter_space hspace]
      exact hrest _
    | false =>
      rw [Piece.ofTokensAfter_visible hspace]
      refine List.isChain_cons.mpr ⟨?_, hrest []⟩
      intro q hq hgap
      cases ts with
      | nil => simp [Piece.ofTokensAfter] at hq
      | cons n ns =>
        cases hn : n.isSpace with
        | true =>
          rw [Piece.ofTokensAfter_space hn] at hq
          have hprefix := prefix_gap hq
          rw [hgap, List.prefix_nil] at hprefix
          exact absurd hprefix (hgaps n (by simp) hn).1
        | false =>
          rw [Piece.ofTokensAfter_visible hn] at hq
          obtain rfl : ⟨[], n⟩ = q := by simpa using hq
          exact (List.isChain_cons_cons.mp h).1

/-- What follows a keyword does not go on with it. -/
theorem isChain_keyword (d : Dialect) (sql : Text) : (tokenize d sql).IsChain fun p t =>
    p.kind = .keyword → ∀ c ∈ t.text.head?, Lexer.isWordChar c = false := by
  refine Lexer.isChain_tokenizeFrom ?_ 0 sql
  intro c cs l hreads c' cs' l' hrest hreads' offset offset' hkind x hx
  obtain rfl : c' = x := by simpa [text_of_reads hreads'] using hx
  obtain ⟨-, -, rfl⟩ := hreads.of_keyword hkind
  exact eq_false_of_dropWhile hrest

/-- Pieces as the layout starts from them: gaps of one blank or nothing, away from symbols and
comments, and always one between two keywords. -/
structure Spread (ps : List Piece) : Prop where
  blank : ∀ p ∈ ps, p.gap = [] ∨ p.gap = [' ']
  tight : ∀ p ∈ ps, absorbsSpace p.token = true → p.gap = []
  behind : ps.IsChain fun p q => absorbsSpace p.token = true → q.gap = []
  words : ps.IsChain fun p q => p.token.kind = .keyword → q.token.kind = .keyword → q.gap ≠ []

namespace Spread

theorem suffix {ps qs : List Piece} (h : Spread ps) (hsuffix : qs <:+ ps) : Spread qs where
  blank := fun p hp => h.blank p (hsuffix.subset hp)
  tight := fun p hp => h.tight p (hsuffix.subset hp)
  behind := h.behind.suffix hsuffix
  words := h.words.suffix hsuffix

end Spread

theorem spread_reduceAfter {ps : List Piece} (absorbed : Bool)
    (hwords : ps.IsChain fun p q =>
      p.token.kind = .keyword → q.token.kind = .keyword → q.gap ≠ []) :
    Spread (reduceAfter absorbed ps) := by
  induction ps generalizing absorbed with
  | nil => constructor <;> simp [reduceAfter]
  | cons p ps ih =>
    have hrest := ih (absorbsSpace p.token) hwords.tail
    rw [reduceAfter]
    refine ⟨List.forall_mem_cons.mpr ⟨?_, hrest.blank⟩, List.forall_mem_cons.mpr ⟨?_, hrest.tight⟩,
      List.isChain_cons.mpr ⟨?_, hrest.behind⟩, List.isChain_cons.mpr ⟨?_, hrest.words⟩⟩
    · dsimp only
      split
      · exact .inl rfl
      · exact .inr rfl
    · intro habsorbs
      simp [habsorbs]
    · intro q hq habsorbs
      cases ps with
      | nil => simp [reduceAfter] at hq
      | cons n ns =>
        rw [reduceAfter, List.head?_cons, Option.mem_def, Option.some.injEq] at hq
        simp [← hq, habsorbs]
    · intro q hq hp hq'
      cases ps with
      | nil => simp [reduceAfter] at hq
      | cons n ns =>
        rw [reduceAfter, List.head?_cons, Option.mem_def, Option.some.injEq] at hq
        subst hq
        dsimp only at hp hq'
        have hgap := (List.isChain_cons_cons.mp hwords).1 hp hq'
        have hempty : n.gap.isEmpty = false := by simpa using hgap
        have hp' : absorbsSpace p.token = false := by simp [absorbsSpace, hp]
        have hn' : absorbsSpace n.token = false := by simp [absorbsSpace, hq']
        simp [hempty, hp', hn']

/-- The reduced pieces of a text are spread. -/
theorem spread_reduce (d : Dialect) (s : Style) (sql : Text) :
    Spread (reduce s (Piece.ofTokens (tokenize d sql))) := by
  refine spread_reduceAfter true ?_
  rw [List.isChain_map]
  have hchain := isChain_ofTokensAfter (isChain_keyword d sql) (gaps_tokenize d sql) []
  have hword : ∀ p ∈ Piece.ofTokens (tokenize d sql), p.token.kind = .keyword →
      ∃ c ∈ p.token.text.head?, Lexer.isWordChar c = true := by
    intro p hp hkind
    have hmem : p.token ∈ Token.visible (tokenize d sql) := by
      rw [← Piece.map_token_ofTokensAfter []]
      exact List.mem_map_of_mem hp
    obtain ⟨c, cs, hcs, hletter, -⟩ :=
      (isWord_of_mem_tokenize _ (List.mem_filter.mp hmem).1 hkind).exists_head
    exact ⟨c, by rw [hcs]; rfl, Text.isWordChar_of_isLetter hletter⟩
  refine List.IsChain.imp_of_mem_imp ?_ hchain
  intro p q hp hq hnext hkind hkind' hgap
  simp only [recasePiece, kind_recase] at hkind hkind' hgap
  obtain ⟨c, hc, hwordChar⟩ := hword q hq hkind'
  rw [hnext hgap hkind c hc] at hwordChar
  cases hwordChar

end SqlLayout.Layout
