import SqlLayout.Proofs.Layout.Placed

/-!
# The layout in closed form

A block is a token of the layout together with the pieces that it was joined from: a compound, or a
bracket pair around one token.  Every pass of the layout is a function on blocks, and the layout of
a text is the pieces of its blocks, written one after the other (`format_eq`).
-/

namespace SqlLayout.Layout

/-- Pieces that the layout treats as one token. -/
structure Block where
  head : Piece
  more : List Piece
  deriving DecidableEq, Repr

namespace Block

/-- A piece on its own. -/
def ofPiece (p : Piece) : Block := ⟨p, []⟩

/-- All pieces of a block. -/
def pieces (b : Block) : List Piece := b.head :: b.more

/-- The token that the pieces form together. -/
def token (b : Block) : Token := b.head.token.withText (b.head.token.text ++ Piece.render b.more)

/-- A block as one piece. -/
def piece (b : Block) : Piece := ⟨b.head.gap, b.token⟩

/-- The block behind other white space. -/
def withGap (b : Block) (gap : Text) : Block := ⟨⟨gap, b.head.token⟩, b.more⟩

/-- A block with two others behind it, as one block without white space between the three. -/
def enclose (a c e : Block) : Block :=
  ⟨a.head, a.more ++ ((c.withGap []).pieces ++ (e.withGap []).pieces)⟩

@[simp] theorem piece_gap (b : Block) : b.piece.gap = b.head.gap := rfl

@[simp] theorem piece_token (b : Block) : b.piece.token = b.token := rfl

@[simp] theorem kind_token (b : Block) : b.token.kind = b.head.token.kind := rfl

theorem text_token (b : Block) : b.token.text = b.head.token.text ++ Piece.render b.more := rfl

@[simp] theorem token_ofPiece (p : Piece) : (ofPiece p).token = p.token := by
  simp [ofPiece, token, Token.withText]

@[simp] theorem token_single (p : Piece) : (⟨p, []⟩ : Block).token = p.token := token_ofPiece p

@[simp] theorem token_withGap (b : Block) (gap : Text) : (b.withGap gap).token = b.token := rfl

theorem render_append (ps qs : List Piece) :
    Piece.render (ps ++ qs) = Piece.render ps ++ Piece.render qs := by
  simp [Piece.render]

theorem render_pieces (b : Block) : Piece.render b.pieces = b.head.gap ++ b.token.text := by
  simp [pieces, text_token]

theorem text_enclose (a c e : Block) :
    (a.enclose c e).token.text = a.token.text ++ (c.token.text ++ e.token.text) := by
  simp [enclose, text_token, render_append, pieces, withGap]

/-- Blocks read like their pieces. -/
theorem render_flatMap_pieces (bs : List Block) :
    Piece.render (bs.flatMap pieces) = Piece.render (bs.map piece) := by
  induction bs with
  | nil => rfl
  | cons b bs ih =>
    rw [List.flatMap_cons, render_append, render_pieces, ih]
    simp

end Block

/-! ## Compounds -/

/-- Whether two tokens are a two-word clause. -/
def isClausePair (p q : Token) : Bool :=
  p.kind = .keyword && q.kind = .keyword && isCompoundClause (Text.upper p.text) (Text.upper q.text)

/-- Whether three tokens are an outer join mark or a name between angle brackets. -/
def isMarkTriple (p q r : Token) : Bool :=
  p.isSymbol ['('] && q.isSymbol ['+'] && r.isSymbol [')'] ||
    p.isSymbol ['<'] && decide (q.kind = .name) && r.isSymbol ['>']

theorem kinds_of_isClausePair {p q : Token} (h : isClausePair p q = true) :
    p.kind = .keyword ∧ q.kind = .keyword := by
  simp only [isClausePair, Bool.and_eq_true, decide_eq_true_eq] at h
  exact h.1

/-- The words of a clause are in the list. -/
theorem exists_clause {p q : Token} (h : isClausePair p q = true) : ∃ entry ∈ compoundClauses,
    entry.1.toList = Text.upper p.text ∧ entry.2.toList = Text.upper q.text := by
  simp only [isClausePair, Bool.and_eq_true] at h
  simpa [isCompoundClause] using h.2

theorem isMarkTriple_cases {p q r : Token} (h : isMarkTriple p q r = true) :
    (p.isSymbol ['('] = true ∧ q.isSymbol ['+'] = true ∧ r.isSymbol [')'] = true) ∨
      (p.isSymbol ['<'] = true ∧ q.kind = .name ∧ r.isSymbol ['>'] = true) := by
  simpa [isMarkTriple, and_assoc] using h

/-- A mark begins and ends with a symbol and has no comment inside. -/
theorem kinds_of_isMarkTriple {p q r : Token} (h : isMarkTriple p q r = true) :
    p.kind = .symbol ∧ q.kind ≠ .comment ∧ r.kind = .symbol := by
  rcases isMarkTriple_cases h with ⟨hp, hq, hr⟩ | ⟨hp, hq, hr⟩
  · exact ⟨kind_of_isSymbol hp, by simp [kind_of_isSymbol hq], kind_of_isSymbol hr⟩
  · exact ⟨kind_of_isSymbol hp, by simp [hq], kind_of_isSymbol hr⟩

/-- How many of the pieces `ps` behind `p` belong to the compound that starts there. -/
def compoundRest (p : Piece) (ps : List Piece) : Nat :=
  match ps with
  | [] => 0
  | [q] => if isClausePair p.token q.token then 1 else 0
  | q :: r :: _ =>
    if isClausePair p.token q.token then 1
    else if isMarkTriple p.token q.token r.token then 2
    else 0

/-- Joins compounds from left to right. -/
def glueBlocks : List Piece → List Block
  | [] => []
  | p :: ps =>
    ⟨p, ps.take (compoundRest p ps)⟩ :: glueBlocks (ps.drop (compoundRest p ps))
termination_by ps => ps.length
decreasing_by simp only [List.length_drop, List.length_cons]; omega

/-- Blocks that joining compounds makes. -/
inductive Block.Joins : Block → Prop
  | single (p : Piece) : Joins ⟨p, []⟩
  | clause (p q : Piece) (pair : isClausePair p.token q.token = true) : Joins ⟨p, [q]⟩
  | mark (p q r : Piece) (triple : isMarkTriple p.token q.token r.token = true) : Joins ⟨p, [q, r]⟩

namespace Block.Joins

variable {b : Block}

/-- Only keywords and symbols begin a compound. -/
theorem more_of_kind (h : b.Joins) (hkeyword : b.head.token.kind ≠ .keyword)
    (hsymbol : b.head.token.kind ≠ .symbol) : b.more = [] := by
  cases h with
  | single p => rfl
  | clause p q pair => exact absurd (kinds_of_isClausePair pair).1 hkeyword
  | mark p q r triple => exact absurd (kinds_of_isMarkTriple triple).1 hsymbol

/-- A compound is longer than one character. -/
theorem more_of_isSymbol (h : b.Joins) {c : Char} (hsymbol : b.token.isSymbol [c] = true) :
    b.more = [] := by
  cases h with
  | single p => rfl
  | clause p q pair =>
    have hkind := kind_of_isSymbol hsymbol
    rw [Block.kind_token, (kinds_of_isClausePair pair).1] at hkind
    cases hkind
  | mark p q r triple =>
    have hlength := congrArg List.length (text_of_isSymbol hsymbol)
    rcases isMarkTriple_cases triple with ⟨hp, -, hr⟩ | ⟨hp, -, hr⟩ <;>
      simp [Block.text_token, text_of_isSymbol hp, text_of_isSymbol hr] at hlength

end Block.Joins

/-- A mark is no bracket and no delimiter of one character. -/
theorem isSymbol_of_isMarkTriple {p q r : Piece} (h : isMarkTriple p.token q.token r.token = true)
    (c : Char) : (⟨p, [q, r]⟩ : Block).token.isSymbol [c] = false := by
  rw [Bool.eq_false_iff]
  intro hsymbol
  cases (Block.Joins.mark p q r h).more_of_isSymbol hsymbol

theorem joins_take_compoundRest (p : Piece) (ps : List Piece) :
    (⟨p, ps.take (compoundRest p ps)⟩ : Block).Joins := by
  match ps with
  | [] => exact .single p
  | [q] =>
    rw [compoundRest]
    split
    · next hclause => exact .clause p q hclause
    · exact .single p
  | q :: r :: ps =>
    rw [compoundRest]
    split
    · next hclause => exact .clause p q hclause
    · split
      · next hmark => exact .mark p q r hmark
      · exact .single p

theorem joins_glueBlocks (ps : List Piece) : ∀ b ∈ glueBlocks ps, b.Joins := by
  fun_induction glueBlocks ps with
  | case1 => simp
  | case2 p ps ih => exact List.forall_mem_cons.mpr ⟨joins_take_compoundRest p ps, ih⟩

theorem flatMap_pieces_glueBlocks (ps : List Piece) : (glueBlocks ps).flatMap Block.pieces = ps := by
  fun_induction glueBlocks ps with
  | case1 => rfl
  | case2 p ps ih =>
    rw [List.flatMap_cons, ih]
    simp [Block.pieces]

theorem glueCompounds_space {g : Token} (hg : g.isSpace = true) (ts : List Token) :
    glueCompounds (g :: ts) = g :: glueCompounds ts := by
  have hkind : g.kind = .space := by simpa [Token.isSpace] using hg
  rcases ts with - | ⟨b, - | ⟨c, ts⟩⟩
  · rfl
  · rfl
  · have hnone : glue? g b c = none := by simp [glue?, hkind, Token.isSymbol]
    rw [glueCompounds, hnone]

theorem glueCompounds_append {g : Text} {gs : List Token} (hgs : Fills g gs) (ts : List Token) :
    glueCompounds (gs ++ ts) = gs ++ glueCompounds ts := by
  rcases hgs with ⟨-, rfl⟩ | ⟨-, t, ht, -, rfl⟩
  · rfl
  · exact glueCompounds_space ht ts

/-- Two keywords with a blank between them are one token when they are a clause. -/
theorem glue?_apart {p g q : Token} (hg : g.isSpace = true) :
    glue? p g q = if isClausePair p q then some (p.withText (p.text ++ ' ' :: q.text)) else none := by
  have hkind : g.kind = .space := by simpa [Token.isSpace] using hg
  have hplus : g.isSymbol ['+'] = false := isSymbol_of_isSpace hg _
  simp [glue?, hg, hplus, hkind, isClausePair]

/-- Three tokens without white space between them are one token when they are a mark. -/
theorem glue?_tight {p q r : Token} (hq : q.isSpace = false) :
    glue? p q r = if isMarkTriple p q r then some (p.withText (p.text ++ (q.text ++ r.text))) else none := by
  unfold glue? isMarkTriple
  simp only [hq, Bool.and_false, Bool.false_and, Bool.false_eq_true, ↓reduceIte]
  cases hjoin : p.isSymbol ['('] && q.isSymbol ['+'] && r.isSymbol [')'] with
  | true =>
    simp only [Bool.and_eq_true] at hjoin
    simp [text_of_isSymbol hjoin.1.1, text_of_isSymbol hjoin.1.2, text_of_isSymbol hjoin.2]
  | false => simp

theorem absorbsSpace_of_isSymbol {t : Token} {symbol : Text} (h : t.isSymbol symbol = true) :
    absorbsSpace t = true := by
  simp [absorbsSpace, kind_of_isSymbol h]

/-- A mark has no white space inside. -/
theorem Spread.tight_of_isMarkTriple {p q r : Piece} {ps : List Piece} (h : Spread (p :: q :: r :: ps))
    (hmark : isMarkTriple p.token q.token r.token = true) : q.gap = [] ∧ r.gap = [] := by
  obtain ⟨hp, -, hr⟩ := kinds_of_isMarkTriple hmark
  exact ⟨(List.isChain_cons_cons.mp h.behind).1 (by simp [absorbsSpace, hp]),
    h.tight r (by simp) (by simp [absorbsSpace, hr])⟩

theorem Spread.apart_of_isClausePair {p q : Piece} {ps : List Piece} (h : Spread (p :: q :: ps))
    (hclause : isClausePair p.token q.token = true) : q.gap = [' '] := by
  obtain ⟨hp, hq⟩ := kinds_of_isClausePair hclause
  have hgap := (List.isChain_cons_cons.mp h.words).1 hp hq
  rcases h.blank q (by simp) with hnil | hblank
  · exact absurd hnil hgap
  · exact hblank

theorem compoundRest_cons {p q : Piece} (ps : List Piece) (hclause : isClausePair p.token q.token = true) :
    compoundRest p (q :: ps) = 1 := by
  cases ps <;> simp [compoundRest, hclause]

section Front

variable {p q r : Piece} {qs rs : List Piece} {ts : List Token}

/-- The token behind two others is that of the next piece, or white space, with which they are no
mark. -/
theorem Writes.exists_third (h : Writes (r :: rs) ts) (hspread : Spread (p :: q :: r :: rs)) :
    ∃ c cs, ts = c :: cs ∧
      (isMarkTriple p.token q.token r.token = true ∧ c = r.token ∧ r.gap = [] ∧ Writes rs cs ∨
        isMarkTriple p.token q.token r.token = false ∧ isMarkTriple p.token q.token c = false) := by
  cases h with
  | @cons _ _ gs ts gap visible solid rest =>
    by_cases hr : r.gap = []
    · rw [hr] at gap
      obtain rfl := gap.eq_nil
      refine ⟨r.token, ts, rfl, ?_⟩
      cases hmark : isMarkTriple p.token q.token r.token with
      | true => exact .inl ⟨rfl, rfl, hr, rest⟩
      | false => exact .inr ⟨rfl, rfl⟩
    · obtain ⟨g, hg, -, rfl⟩ := gap.exists_single hr
      refine ⟨g, r.token :: ts, rfl, .inr ⟨?_, ?_⟩⟩
      · cases hmark : isMarkTriple p.token q.token r.token with
        | false => rfl
        | true => exact absurd (hspread.tight_of_isMarkTriple hmark).2 hr
      · simp [isMarkTriple, isSymbol_of_isSpace hg]

/-- Joining at the front where no white space stands behind the first token. -/
theorem exists_glueCompounds_tight (hspread : Spread (p :: q :: qs)) (hgap : q.gap = [])
    (visible : q.token.isSpace = false) (rest : Writes qs ts)
    (whole : Writes (q :: qs) (q.token :: ts)) :
    ∃ rest, glueCompounds (p.token :: q.token :: ts) =
        (⟨p, (q :: qs).take (compoundRest p (q :: qs))⟩ : Block).token :: glueCompounds rest ∧
      Writes ((q :: qs).drop (compoundRest p (q :: qs))) rest := by
  have hclause : isClausePair p.token q.token = false := by
    cases hclause : isClausePair p.token q.token with
    | false => rfl
    | true => simp [hspread.apart_of_isClausePair hclause] at hgap
  cases qs with
  | nil =>
    obtain rfl := rest.eq_nil
    refine ⟨[q.token], ?_, ?_⟩
    · simp [compoundRest, hclause, glueCompounds]
    · simpa [compoundRest, hclause] using whole
  | cons r rs =>
    obtain ⟨c, cs, rfl, hthird⟩ := rest.exists_third hspread
    rw [glueCompounds, glue?_tight visible]
    rcases hthird with ⟨hmark, rfl, hr, hcs⟩ | ⟨hmark, hmark'⟩
    · refine ⟨cs, ?_, ?_⟩
      · simp [compoundRest, hclause, hmark, Block.token, hgap, hr]
      · simpa [compoundRest, hclause, hmark] using hcs
    · refine ⟨q.token :: c :: cs, ?_, ?_⟩
      · simp [compoundRest, hclause, hmark, hmark']
      · simpa [compoundRest, hclause, hmark] using whole

/-- Joining at the front where white space stands behind the first token. -/
theorem exists_glueCompounds_apart {g : Token} (hspread : Spread (p :: q :: qs)) (hgap : q.gap ≠ [])
    (hg : g.isSpace = true) (rest : Writes qs ts) (whole : Writes (q :: qs) (g :: q.token :: ts)) :
    ∃ rest, glueCompounds (p.token :: g :: q.token :: ts) =
        (⟨p, (q :: qs).take (compoundRest p (q :: qs))⟩ : Block).token :: glueCompounds rest ∧
      Writes ((q :: qs).drop (compoundRest p (q :: qs))) rest := by
  have hmark : ∀ r rs, qs = r :: rs → isMarkTriple p.token q.token r.token = false := by
    rintro r rs rfl
    cases hmark : isMarkTriple p.token q.token r.token with
    | false => rfl
    | true => exact absurd (hspread.tight_of_isMarkTriple hmark).1 hgap
  rw [glueCompounds, glue?_apart hg]
  cases hclause : isClausePair p.token q.token with
  | true =>
    refine ⟨ts, ?_, ?_⟩
    · simp [compoundRest_cons qs hclause, Block.token, hspread.apart_of_isClausePair hclause]
    · simpa [compoundRest_cons qs hclause] using rest
  | false =>
    have hcount : compoundRest p (q :: qs) = 0 := by
      cases qs with
      | nil => simp [compoundRest, hclause]
      | cons r rs => simp [compoundRest, hclause, hmark r rs rfl]
    refine ⟨g :: q.token :: ts, by simp [hcount], ?_⟩
    rw [hcount]
    exact whole

/-- Joining the compound at the front, on the tokens and on the pieces that they write. -/
theorem exists_glueCompounds (hspread : Spread (p :: qs)) (h : Writes qs ts) :
    ∃ rest, glueCompounds (p.token :: ts) =
        (⟨p, qs.take (compoundRest p qs)⟩ : Block).token :: glueCompounds rest ∧
      Writes (qs.drop (compoundRest p qs)) rest := by
  cases h with
  | nil => exact ⟨[], by simp [compoundRest, glueCompounds], .nil⟩
  | @cons q qs gs ts gap visible solid rest =>
    have hwhole : Writes (q :: qs) (gs ++ q.token :: ts) := .cons gap visible solid rest
    by_cases hgap : q.gap = []
    · rw [hgap] at gap
      obtain rfl := gap.eq_nil
      exact exists_glueCompounds_tight hspread hgap visible rest hwhole
    · obtain ⟨g, hg, -, rfl⟩ := gap.exists_single hgap
      exact exists_glueCompounds_apart hspread hgap hg rest hwhole

end Front

/-- Joining compounds, on the tokens and on the pieces that they write. -/
theorem Writes.glueBlocks {ps : List Piece} {ts : List Token} (h : Writes ps ts) (hspread : Spread ps) :
    Writes ((Layout.glueBlocks ps).map Block.piece) (glueCompounds ts) := by
  fun_induction Layout.glueBlocks ps generalizing ts with
  | case1 =>
    cases h
    exact .nil
  | case2 p ps ih =>
    cases h with
    | @cons _ _ gs ts gap visible solid rest =>
      obtain ⟨rest', hglue, hwrites⟩ := exists_glueCompounds hspread rest
      rw [glueCompounds_append gap, hglue]
      refine .cons (p := Block.piece _) gap visible ?_ (ih hwrites (hspread.suffix ?_))
      · simp [Block.text_token, Text.allBlank_append, solid]
      · exact (List.drop_suffix _ ps).trans (List.suffix_cons p ps)

/-! ## The walk -/

/-- The blocks as the walk leaves them. -/
def placeBlocks (d : Dialect) (s : Style) : Hand → List Block → List Block
  | _, [] => []
  | h, b :: bs =>
    ⟨⟨(h.pass d s (bs.map (·.token.text)) b.piece).gap, h.shown b.head.token⟩, b.more⟩ ::
      placeBlocks d s (h.pass d s (bs.map (·.token.text)) b.piece).hand bs

/-- Comments stay on their own. -/
def Block.Plain (b : Block) : Prop := b.head.token.kind = .comment → b.more = []

theorem Block.Joins.plain {b : Block} (h : b.Joins) : b.Plain := by
  intro hkind
  exact h.more_of_kind (by simp [hkind]) (by simp [hkind])

theorem token_shown (h : Hand) (gap : Text) {b : Block} (hb : b.Plain) :
    (⟨⟨gap, h.shown b.head.token⟩, b.more⟩ : Block).token = h.shown b.token := by
  by_cases hkind : b.head.token.kind = .comment
  · simp [Block.token, hb hkind, Token.withText]
  · rw [h.shown_of_kind_ne hkind, h.shown_of_kind_ne (t := b.token) hkind]
    rfl

theorem map_piece_placeBlocks (d : Dialect) (s : Style) (h : Hand) {bs : List Block}
    (hplain : ∀ b ∈ bs, b.Plain) :
    (placeBlocks d s h bs).map Block.piece = place d s h (bs.map Block.piece) := by
  induction bs generalizing h with
  | nil => rfl
  | cons b bs ih =>
    have htexts : (bs.map Block.piece).map (·.token.text) = bs.map (·.token.text) := by simp
    rw [placeBlocks, List.map_cons, List.map_cons, place, htexts,
      ih _ fun x hx => hplain x (by simp [hx])]
    exact congrArg₂ List.cons (congrArg (Piece.mk _) (token_shown h _ (hplain b (by simp)))) rfl

/-! ## Bracket pairs around one token -/

/-- Whether three blocks are a bracket pair with one token between white space. -/
def isEnclosed (a c e : Block) : Bool :=
  a.token.isSymbol ['('] && !c.head.gap.isEmpty && !e.head.gap.isEmpty && e.token.isSymbol [')']

/-- Joins a bracket pair around one token at the front of a list. -/
def compactFrontBlocks : List Block → List Block
  | a :: c :: e :: bs => if isEnclosed a c e then a.enclose c e :: bs else a :: c :: e :: bs
  | bs => bs

/-- Joins every bracket pair around one token, from the end of the list on. -/
def compactBlocks : List Block → List Block
  | [] => []
  | b :: bs => compactFrontBlocks (b :: compactBlocks bs)

theorem compact_append {g : Text} {gs : List Token} (hgs : Fills g gs) (ts : List Token) :
    compact (gs ++ ts) = gs ++ compact ts := by
  rcases hgs with ⟨-, rfl⟩ | ⟨-, t, ht, -, rfl⟩
  · rfl
  · exact compact_cons_of_kind_ne (isSymbol_of_isSpace ht _) ts

/-- A bracket pair has white space on both sides of what it holds. -/
theorem compactFront_of_solid {a x : Token} (hx : Text.allBlank x.text = false) (ts : List Token) :
    compactFront (a :: x :: ts) = a :: x :: ts := by
  match ts with
  | c :: d :: e :: ts => simp [compactFront, isSingleValue, Token.isBlank, hx]
  | [] | [_] | [_, _] => rfl

theorem compactFront_of_solid_right {a b c x : Token} (hx : Text.allBlank x.text = false)
    (ts : List Token) : compactFront (a :: b :: c :: x :: ts) = a :: b :: c :: x :: ts := by
  match ts with
  | e :: ts => simp [compactFront, isSingleValue, Token.isBlank, hx]
  | [] => rfl

theorem token_enclose {a c e : Block} (ha : a.token.isSymbol ['('] = true)
    (he : e.token.isSymbol [')'] = true) :
    (a.enclose c e).token = a.token.withText ('(' :: c.token.text ++ [')']) := by
  have htext := Block.text_enclose a c e
  rw [text_of_isSymbol ha, text_of_isSymbol he] at htext
  show (a.enclose c e).head.token.withText (a.enclose c e).token.text = _
  rw [htext]
  rfl

/-- A pair of brackets with white space on both sides of a token is the same on tokens and blocks. -/
theorem isSingleValue_eq_isEnclosed {b c e : Block} {g g' : Token} (hc : c.head.gap ≠ [])
    (he : e.head.gap ≠ []) (hg : g.text = c.head.gap) (hg' : g'.text = e.head.gap)
    (hleft : Text.allBlank c.head.gap = true) (hright : Text.allBlank e.head.gap = true) :
    isSingleValue b.token g g' e.token = isEnclosed b c e := by
  rw [← hg] at hleft
  rw [← hg'] at hright
  have hc' : c.head.gap.isEmpty = false := by simpa using hc
  have he' : e.head.gap.isEmpty = false := by simpa using he
  simp [isSingleValue, isEnclosed, Token.isBlank, hleft, hright, hc', he']

/-- Joining the bracket pair around a token with white space on both sides. -/
theorem Writes.compactFront_apart {b c e : Block} {bs : List Block} {gs ts : List Token} {g g' : Token}
    (hsingle : isSingleValue b.token g g' e.token = isEnclosed b c e)
    (hgs : Fills b.head.gap gs) (hb : b.token.isSpace = false)
    (hb' : Text.allBlank b.token.text = false) (rest : Writes (bs.map Block.piece) ts)
    (hkeep : Writes ((b :: c :: e :: bs).map Block.piece)
      (gs ++ b.token :: g :: c.token :: g' :: e.token :: ts)) :
    Writes ((compactFrontBlocks (b :: c :: e :: bs)).map Block.piece)
      (gs ++ Layout.compactFront (b.token :: g :: c.token :: g' :: e.token :: ts)) := by
  simp only [Layout.compactFront, compactFrontBlocks, hsingle]
  split
  · next henclosed =>
    simp only [isEnclosed, Bool.and_eq_true] at henclosed
    rw [← token_enclose henclosed.1.1.1 henclosed.2]
    refine .cons (p := (b.enclose c e).piece) hgs hb ?_ rest
    rw [Block.piece_token, Block.text_enclose, Text.allBlank_append, hb']
    rfl
  · exact hkeep

/-- Joining the bracket pair at the front, on the tokens and on the blocks that they write. -/
theorem Writes.compactFront {b : Block} {bs : List Block} {gs ts : List Token}
    (h : Writes (bs.map Block.piece) ts) (hblank : ∀ x ∈ bs, Text.allBlank x.head.gap = true)
    (hgs : Fills b.head.gap gs) (hb : b.token.isSpace = false)
    (hb' : Text.allBlank b.token.text = false) :
    Writes ((compactFrontBlocks (b :: bs)).map Block.piece)
      (gs ++ Layout.compactFront (b.token :: ts)) := by
  have hkeep : Writes ((b :: bs).map Block.piece) (gs ++ b.token :: ts) :=
    .cons (p := b.piece) hgs hb hb' h
  match bs with
  | [] =>
    obtain rfl := h.eq_nil
    exact hkeep
  | [c] =>
    cases h with
    | @cons _ _ gs' ts' gap visible solid rest =>
      obtain rfl := rest.eq_nil
      have hshort : Layout.compactFront (b.token :: (gs' ++ [c.piece.token])) =
          b.token :: (gs' ++ [c.piece.token]) := by
        rcases gap with ⟨-, rfl⟩ | ⟨-, g, -, -, rfl⟩ <;> rfl
      rw [hshort]
      exact hkeep
  | c :: e :: bs =>
    cases h with
    | @cons _ _ gs₁ ts₁ gap₁ visible₁ solid₁ rest =>
      cases rest with
      | @cons _ _ gs₂ ts₂ gap₂ visible₂ solid₂ rest =>
        by_cases hc : c.head.gap = []
        · have hopen : isEnclosed b c e = false := by simp [isEnclosed, hc]
          rw [Block.piece_gap, hc] at gap₁
          obtain rfl := gap₁.eq_nil
          rw [List.nil_append, compactFront_of_solid solid₁]
          simpa [compactFrontBlocks, hopen] using hkeep
        · obtain ⟨g, -, hgtext, rfl⟩ := gap₁.exists_single hc
          by_cases he : e.head.gap = []
          · have hopen : isEnclosed b c e = false := by simp [isEnclosed, he]
            rw [Block.piece_gap, he] at gap₂
            obtain rfl := gap₂.eq_nil
            rw [List.nil_append, List.singleton_append, compactFront_of_solid_right solid₂]
            simpa [compactFrontBlocks, hopen] using hkeep
          · obtain ⟨g', -, hgtext', rfl⟩ := gap₂.exists_single he
            exact compactFront_apart (isSingleValue_eq_isEnclosed hc he hgtext hgtext'
              (hblank c (by simp)) (hblank e (by simp))) hgs hb hb' rest hkeep

/-- What holds of blocks, and of a bracket pair when it holds of the blocks in it, holds of the
compacted blocks. -/
theorem forall_compactBlocks {P : Block → Prop} {bs : List Block} (hblocks : ∀ b ∈ bs, P b)
    (henclose : ∀ a c e, P a → P c → P e → isEnclosed a c e = true → P (a.enclose c e)) :
    ∀ b ∈ compactBlocks bs, P b := by
  induction bs with
  | nil => simp [compactBlocks]
  | cons b bs ih =>
    have hall : ∀ x ∈ b :: compactBlocks bs, P x :=
      List.forall_mem_cons.mpr ⟨hblocks b (by simp), ih fun x hx => hblocks x (by simp [hx])⟩
    rw [compactBlocks]
    generalize compactBlocks bs = cs at hall
    match cs with
    | [] | [_] => exact hall
    | c :: e :: cs =>
      rw [compactFrontBlocks]
      split
      · next henclosed =>
        exact List.forall_mem_cons.mpr
          ⟨henclose b c e (hall b (by simp)) (hall c (by simp)) (hall e (by simp)) henclosed,
            fun x hx => hall x (by simp [hx])⟩
      · exact hall

theorem blank_compactBlocks {bs : List Block} (hblank : ∀ x ∈ bs, Text.allBlank x.head.gap = true) :
    ∀ x ∈ compactBlocks bs, Text.allBlank x.head.gap = true :=
  forall_compactBlocks hblank fun _ _ _ ha _ _ _ => ha

theorem Writes.compactBlocks {bs : List Block} {ts : List Token} (h : Writes (bs.map Block.piece) ts)
    (hblank : ∀ x ∈ bs, Text.allBlank x.head.gap = true) :
    Writes ((Layout.compactBlocks bs).map Block.piece) (compact ts) := by
  induction bs generalizing ts with
  | nil =>
    obtain rfl := h.eq_nil
    exact .nil
  | cons b bs ih =>
    cases h with
    | @cons _ _ gs ts gap visible solid rest =>
      have hrest : ∀ x ∈ bs, Text.allBlank x.head.gap = true := fun x hx => hblank x (by simp [hx])
      rw [compact_append gap]
      exact (ih rest hrest).compactFront (blank_compactBlocks hrest) gap visible solid

/-! ## Blanks between neighbours -/

/-- Puts gaps in front of the blocks of a list that follows the token `p`. -/
def fillAfter (s : Style) (p : Token) : List Block → List Block
  | [] => []
  | b :: bs =>
    (if b.head.gap.isEmpty then b.withGap ((gap? s p b.token).getD []) else b) ::
      fillAfter s b.token bs

/-- Puts the gaps between neighbours. -/
def fillBlocks (s : Style) : List Block → List Block
  | [] => []
  | b :: bs => b :: fillAfter s b.token bs

theorem gap?_ne_nil {s : Style} {p t : Token} {g : Text} (h : gap? s p t = some g) : g ≠ [] :=
  (isGap_of_gap? h).1

theorem Writes.fillAfter {s : Style} {p : Token} (hp : p.isSpace = false) {bs : List Block}
    {ts : List Token} (h : Writes (bs.map Block.piece) ts) :
    ∃ rest, insertGaps s (p :: ts) = p :: rest ∧
      Writes ((Layout.fillAfter s p bs).map Block.piece) rest := by
  induction bs generalizing p ts with
  | nil =>
    obtain rfl := h.eq_nil
    exact ⟨[], rfl, .nil⟩
  | cons b bs ih =>
    cases h with
    | @cons _ _ gs ts gap visible solid rest =>
      obtain ⟨more, hmore, hwrites⟩ := ih visible rest
      by_cases hgap : b.head.gap = []
      · rw [Block.piece_gap, hgap] at gap
        obtain rfl := gap.eq_nil
        rw [List.nil_append]
        simp only [Layout.fillAfter, hgap, List.isEmpty_nil, ↓reduceIte, List.map_cons]
        cases hfill : gap? s p b.token with
        | none =>
          refine ⟨b.token :: more, ?_, ?_⟩
          · rw [Block.piece_token] at hmore
            rw [Block.piece_token, insertGaps, hfill, hmore]
          · exact .cons (p := (b.withGap []).piece) .nil visible solid hwrites
        | some g =>
          refine ⟨Token.space g b.token.offset :: b.token :: more, ?_, ?_⟩
          · rw [Block.piece_token] at hmore
            rw [Block.piece_token, insertGaps, hfill, hmore]
          · exact .cons (p := (b.withGap g).piece) (.space (gap?_ne_nil hfill) _) visible solid hwrites
      · obtain ⟨g, hg, htext, rfl⟩ := gap.exists_single hgap
        have hempty : b.head.gap.isEmpty = false := by simpa using hgap
        simp only [Layout.fillAfter, hempty, Bool.false_eq_true, ↓reduceIte, List.map_cons]
        refine ⟨g :: b.token :: more, ?_, .cons gap visible solid hwrites⟩
        rw [Block.piece_token] at hmore
        rw [List.singleton_append, Block.piece_token, insertGaps_space (.inr hg),
          insertGaps_space (.inl hg), hmore]

theorem Writes.fillBlocks {s : Style} {bs : List Block} {ts : List Token}
    (h : Writes (bs.map Block.piece) ts) (hfirst : ∀ b ∈ bs.head?, b.head.gap = []) :
    Writes ((Layout.fillBlocks s bs).map Block.piece) (insertGaps s ts) := by
  cases bs with
  | nil =>
    obtain rfl := h.eq_nil
    exact .nil
  | cons b bs =>
    cases h with
    | @cons _ _ gs ts gap visible solid rest =>
      have hgap : Fills b.piece.gap [] := by
        rw [Block.piece_gap, hfirst b (by simp)]
        exact .nil
      rw [Block.piece_gap, hfirst b (by simp)] at gap
      obtain rfl := gap.eq_nil
      obtain ⟨more, hmore, hwrites⟩ := rest.fillAfter (s := s) visible
      rw [List.nil_append, hmore]
      exact .cons hgap visible solid hwrites

/-! ## Tokens of blocks -/

theorem map_token_compactFrontBlocks (bs : List Block) :
    ((compactFrontBlocks bs).flatMap Block.pieces).map Piece.token =
      (bs.flatMap Block.pieces).map Piece.token := by
  match bs with
  | [] | [_] | [_, _] => rfl
  | a :: c :: e :: bs =>
    rw [compactFrontBlocks]
    split
    · simp [Block.enclose, Block.pieces, Block.withGap]
    · rfl

theorem map_token_compactBlocks (bs : List Block) :
    ((compactBlocks bs).flatMap Block.pieces).map Piece.token =
      (bs.flatMap Block.pieces).map Piece.token := by
  induction bs with
  | nil => rfl
  | cons b bs ih =>
    rw [compactBlocks, map_token_compactFrontBlocks, List.flatMap_cons, List.flatMap_cons,
      List.map_append, List.map_append, ih]

theorem map_token_fillAfter (s : Style) (p : Token) (bs : List Block) :
    ((fillAfter s p bs).flatMap Block.pieces).map Piece.token =
      (bs.flatMap Block.pieces).map Piece.token := by
  induction bs generalizing p with
  | nil => rfl
  | cons b bs ih =>
    rw [fillAfter, List.flatMap_cons, List.flatMap_cons, List.map_append, List.map_append, ih]
    split <;> rfl

theorem map_token_fillBlocks (s : Style) (bs : List Block) :
    ((fillBlocks s bs).flatMap Block.pieces).map Piece.token =
      (bs.flatMap Block.pieces).map Piece.token := by
  cases bs with
  | nil => rfl
  | cons b bs =>
    rw [fillBlocks, List.flatMap_cons, List.flatMap_cons, List.map_append, List.map_append,
      map_token_fillAfter]

/-! ## All passes -/

/-- The blocks of a layout, from the blocks that the walk gets. -/
def layBlocks (d : Dialect) (s : Style) (bs : List Block) : List Block :=
  fillBlocks s (compactBlocks (placeBlocks d s .start bs))

/-- The pieces of a layout, from the reduced pieces of its text. -/
def lay (d : Dialect) (s : Style) (ps : List Piece) : List Piece :=
  (fillBlocks s (compactBlocks (placeBlocks d s .start (glueBlocks ps)))).flatMap Block.pieces

theorem lay_eq (d : Dialect) (s : Style) (ps : List Piece) :
    lay d s ps = (layBlocks d s (glueBlocks ps)).flatMap Block.pieces := rfl

theorem Writes.blank {ps : List Piece} {ts : List Token} (h : Writes ps ts) (hgaps : Gaps ts) :
    ∀ p ∈ ps, Text.allBlank p.gap = true := by
  induction h with
  | nil => simp
  | @cons p ps gs ts gap visible solid rest ih =>
    refine List.forall_mem_cons.mpr ⟨?_, ih fun t ht => hgaps t (by simp [ht])⟩
    rcases gap with ⟨hgap, -⟩ | ⟨-, g, hg, htext, rfl⟩
    · rw [hgap]
      rfl
    · rw [← htext]
      exact (hgaps g (by simp) hg).2

theorem gap_head?_reduce (s : Style) (ps : List Piece) : ∀ p ∈ (reduce s ps).head?, p.gap = [] := by
  cases ps with
  | nil => simp [reduce, reduceAfter]
  | cons p ps => simp [reduce, reduceAfter]

theorem head?_glueBlocks (ps : List Piece) :
    (glueBlocks ps).head?.map (·.head) = ps.head? := by
  cases ps with
  | nil => simp [glueBlocks]
  | cons p ps => simp [glueBlocks]

/-- The first block stays where it is. -/
theorem gap_head?_placeBlocks {d : Dialect} {s : Style} {bs : List Block}
    (hfirst : ∀ b ∈ bs.head?, b.head.gap = []) :
    ∀ b ∈ (placeBlocks d s .start bs).head?, b.head.gap = [] := by
  cases bs with
  | nil => simp [placeBlocks]
  | cons b bs =>
    have hgap := hfirst b (by simp)
    simp [placeBlocks, Hand.pass, Hand.skips?, Hand.start, Hand.visit, Hand.gapAfter, Hand.gapBefore,
      hgap]

theorem gap_head?_compactBlocks (bs : List Block) :
    (compactBlocks bs).head?.map (·.head.gap) = bs.head?.map (·.head.gap) := by
  cases bs with
  | nil => rfl
  | cons b bs =>
    rw [compactBlocks]
    match compactBlocks bs with
    | [] | [_] => rfl
    | c :: e :: cs =>
      rw [compactFrontBlocks]
      split <;> rfl

theorem gap_head?_glueBlocks {ps : List Piece} (hfirst : ∀ p ∈ ps.head?, p.gap = []) :
    ∀ b ∈ (glueBlocks ps).head?, b.head.gap = [] := by
  intro b hb
  refine hfirst b.head ?_
  rw [← head?_glueBlocks]
  exact Option.mem_map_of_mem _ hb

/-- A layout has nothing in front of its first block. -/
theorem gap_head?_layBlocks {d : Dialect} {s : Style} {bs : List Block}
    (hfirst : ∀ b ∈ bs.head?, b.head.gap = []) : ∀ b ∈ (layBlocks d s bs).head?, b.head.gap = [] := by
  have hplaced := gap_head?_compactBlocks (placeBlocks d s .start bs)
  intro b hb
  rw [layBlocks] at hb
  generalize compactBlocks (placeBlocks d s .start bs) = cs at hb hplaced
  cases cs with
  | nil => simp [fillBlocks] at hb
  | cons c cs =>
    obtain rfl : c = b := by simpa [fillBlocks] using hb
    obtain ⟨b', hb', hgap⟩ := Option.map_eq_some_iff.mp hplaced.symm
    exact hgap.symm.trans (gap_head?_placeBlocks hfirst b' hb')

theorem gap_head?_flatMap_pieces {bs : List Block} (hfirst : ∀ b ∈ bs.head?, b.head.gap = []) :
    ∀ p ∈ (bs.flatMap Block.pieces).head?, p.gap = [] := by
  cases bs with
  | nil => simp
  | cons b bs => simpa [Block.pieces] using hfirst b rfl

/-- The tokens that the walk gets write the glued pieces of the text. -/
theorem writes_glueBlocks (d : Dialect) (s : Style) (sql : Text) :
    Writes ((glueBlocks (reduce s (Piece.ofTokens (tokenize d sql)))).map Block.piece)
      (normalize s (tokenize d sql)) :=
  (writes_reduce d s sql).glueBlocks (spread_reduce d s sql)

/-- The walk gets blocks with one blank or nothing in front of them. -/
theorem blank_glueBlocks (d : Dialect) (s : Style) (sql : Text) :
    ∀ b ∈ glueBlocks (reduce s (Piece.ofTokens (tokenize d sql))),
      b.head.gap = [] ∨ b.head.gap = [' '] := by
  intro b hb
  refine (spread_reduce d s sql).blank b.head ?_
  rw [← flatMap_pieces_glueBlocks (reduce s (Piece.ofTokens (tokenize d sql)))]
  exact List.mem_flatMap.mpr ⟨b, hb, by simp [Block.pieces]⟩

theorem neat_glueBlocks (d : Dialect) {s : Style} (hmark : IsMark s) (sql : Text) :
    Neat s ((glueBlocks (reduce s (Piece.ofTokens (tokenize d sql)))).map Block.piece) :=
  (writes_glueBlocks d s sql).neat (apart_normalize d s sql)
    (endsComments_normalize d s sql) (gaps_normalize d s sql) (kind_of_isDelimiter hmark)

theorem marks_glueBlocks (d : Dialect) {s : Style} (hmark : IsMark s) (sql : Text) :
    ∀ b ∈ glueBlocks (reduce s (Piece.ofTokens (tokenize d sql))),
      s.isDelimiter b.token.text = true → b.token.kind = .symbol :=
  fun b hb => (neat_glueBlocks d hmark sql).marks b.piece (List.mem_map_of_mem hb)

/-- The tokens of a layout write the blocks that the passes make, from any blocks that show the glued
pieces of the text. -/
theorem exists_arrange_of_piece (d : Dialect) {s : Style} (hmark : IsMark s) (sql : Text) {bs : List Block}
    (hpiece : bs.map Block.piece =
      (glueBlocks (reduce s (Piece.ofTokens (tokenize d sql)))).map Block.piece)
    (hplain : ∀ b ∈ bs, b.Plain) :
    ∃ ts, arrange d s (tokenize d sql) = some ts ∧
      Writes ((layBlocks d s bs).map Block.piece) ts := by
  have hglued := writes_glueBlocks d s sql
  have hneat := neat_glueBlocks d hmark sql
  have hfirst : ∀ p ∈ (bs.map Block.piece).head?, p.gap = [] := by
    have hglued := gap_head?_glueBlocks (gap_head?_reduce s (Piece.ofTokens (tokenize d sql)))
    rw [hpiece, List.head?_map]
    intro p hp
    obtain ⟨b, hb, rfl⟩ := Option.map_eq_some_iff.mp hp
    exact hglued b hb
  rw [← hpiece] at hglued hneat
  obtain ⟨ws, hbreak, hplaced⟩ := exists_breakLines (d := d) hmark hneat hglued hfirst
  rw [← map_piece_placeBlocks d s .start hplain] at hplaced
  have hblank : ∀ b ∈ placeBlocks d s .start bs, Text.allBlank b.head.gap = true := by
    intro b hb
    exact hplaced.blank ((Walk.edits_run hbreak).preserves Edit.gaps (gaps_normalize d s sql)) b.piece
      (List.mem_map_of_mem hb)
  refine ⟨insertGaps s (compact ws), by rw [arrange, hbreak]; rfl, ?_⟩
  refine (hplaced.compactBlocks hblank).fillBlocks fun b hb => ?_
  have hcompact := gap_head?_compactBlocks (placeBlocks d s .start bs)
  rw [Option.mem_def.mp hb] at hcompact
  obtain ⟨b', hb', hgap⟩ := Option.map_eq_some_iff.mp hcompact.symm
  refine hgap.symm.trans (gap_head?_placeBlocks (fun b hb => ?_) b' hb')
  exact hfirst b.piece (by rw [List.head?_map]; exact Option.mem_map_of_mem _ hb)

/-- The tokens of a layout write the blocks that the passes make. -/
theorem exists_arrange (d : Dialect) {s : Style} (hmark : IsMark s) (sql : Text) :
    ∃ ts, arrange d s (tokenize d sql) = some ts ∧
      Writes ((layBlocks d s (glueBlocks (reduce s (Piece.ofTokens (tokenize d sql))))).map Block.piece)
        ts :=
  exists_arrange_of_piece d hmark sql rfl fun b hb => (joins_glueBlocks _ b hb).plain

/-- The layout of a text in closed form: with a mark for a delimiter, it is the pieces of the text
as the passes on blocks lay them out, one after the other. -/
theorem format_eq (d : Dialect) {s : Style} (hmark : IsMark s) (sql : Text) :
    format d s sql = some (keepFinalNewline sql
      (Piece.render (lay d s (reduce s (Piece.ofTokens (tokenize d sql)))))) := by
  obtain ⟨ts, harrange, hwrites⟩ := exists_arrange d hmark sql
  rw [format, harrange, lay_eq, Block.render_flatMap_pieces, ← hwrites.concat]
  rfl

end SqlLayout.Layout
