import SqlLayout.Proofs.Layout.Kept
import SqlLayout.Proofs.Layout.ReadBack

/-!
# Two runs of the layout

A layout puts blanks between words that had nothing between them, and the tokens read back from it
start from these.  On two such texts every pass does the same (`Loosened`): the walk breaks lines in
the same places, the same brackets are joined, and the blanks that one text already has are the ones
that the other gets at the end.
-/

namespace SqlLayout.Layout

/-- Tokens of one class and text. -/
structure Same (t t' : Token) : Prop where
  kind : t'.kind = t.kind
  text : t'.text = t.text

/-- A token that gets a blank behind a word. -/
def isBare (t : Token) : Bool :=
  !t.isSpace && isWordKind t.kind &&
    t.text.head?.any fun c => !Lexer.isSymbolChar c || Lexer.isQuoteChar c

/-- Whether a token of class `k` gets a blank in front of the bare token `t`. -/
def needsBlank (k : TokenKind) (t : Token) : Bool :=
  k != .space && isWordKind k && !(k == .name && t.kind == .value)

/-- `Loosens prev t g g'`: the gap `g` in front of `t`, behind a token of class `prev`, and the gap
`g'` at the same place of another text, which may have the blank that goes there anyway. -/
def Loosens (prev : Option TokenKind) (t : Token) (g g' : Text) : Prop :=
  g' = g ∨ g = [] ∧ g' = [' '] ∧ isBare t = true ∧ ∃ k ∈ prev, needsBlank k t = true

/-- `Loosened prev ps qs`: the same tokens, with looser gaps. -/
inductive Loosened : Option TokenKind → List Piece → List Piece → Prop
  | nil (prev : Option TokenKind) : Loosened prev [] []
  | cons {prev : Option TokenKind} {p q : Piece} {ps qs : List Piece} (same : Same p.token q.token)
      (gap : Loosens prev p.token p.gap q.gap) (rest : Loosened (some p.token.kind) ps qs) :
      Loosened prev (p :: ps) (q :: qs)

/-- The gap read back is looser than the gap of the text. -/
def LooserGap (prev : Option TokenKind) (p _ q : Piece) : Prop :=
  Loosens prev p.token p.gap q.gap

namespace Loosens

variable {prev : Option TokenKind} {t : Token} {g g' : Text}

/-- Next to a symbol or a comment no gap is looser. -/
theorem eq_of_not_word (h : Loosens prev t g g') (ht : isWordKind t.kind = false) : g' = g := by
  rcases h with h | ⟨-, -, hbare, -⟩
  · exact h
  · simp [isBare, ht] at hbare

theorem eq_of_not_word_before (h : Loosens prev t g g') (hprev : ∀ k ∈ prev, isWordKind k = false) :
    g' = g := by
  rcases h with h | ⟨-, -, -, k, hk, hneeds⟩
  · exact h
  · simp [needsBlank, hprev k hk] at hneeds

theorem eq_of_ne_nil (h : Loosens prev t g g') (hg : g ≠ []) : g' = g := by
  rcases h with h | ⟨hnil, -⟩
  · exact h
  · exact absurd hnil hg

theorem congr (h : Loosens prev t g g') {t' : Token} (hbare : isBare t = true → isBare t' = true)
    (hkind : t'.kind = t.kind) : Loosens prev t' g g' := by
  rcases h with h | ⟨hnil, hblank, ht, k, hk, hneeds⟩
  · exact .inl h
  · exact .inr ⟨hnil, hblank, hbare ht, k, hk, by rwa [needsBlank, hkind]⟩

end Loosens

/-! ## Reduced pieces -/

/-- A gap as the layout starts from it. -/
def reducedGap (g : Text) : Text := if g.isEmpty then [] else [' ']

/-- A gap between two words, reduced before the layout and again behind it. -/
theorem loosens_of_keeps {k : TokenKind} {t : Token} {g g' : Text}
    (hkeeps : Keeps k t.kind (reducedGap g) g') (hk : isWordKind k = true) (hspace : k ≠ .space)
    (ht : isWordKind t.kind = true) (hbare : isBare t = true) :
    Loosens (some k) t (reducedGap g) (reducedGap g') := by
  by_cases hg : g = []
  · by_cases hg' : g' = []
    · exact .inl (by rw [hg, hg'])
    · refine .inr ⟨by simp [reducedGap, hg], by simp [reducedGap, hg'], hbare, k, rfl, ?_⟩
      have hattached : k ≠ .name ∨ t.kind ≠ .value := by
        rw [← not_and_or]
        exact fun hpair => hg' (hkeeps.attached hpair.1 hpair.2 (by simp [reducedGap, hg]))
      simpa [needsBlank, hspace, hk] using hattached
  · have hg' : g' ≠ [] := hkeeps.apart hk ht (by simp [reducedGap, hg])
    exact .inl (by simp [reducedGap, hg, hg'])

theorem reduceAfter_cons_word {absorbed : Bool} {p : Piece} (habsorbed : absorbed = false)
    (hp : isWordKind p.token.kind = true) (ps : List Piece) :
    Layout.reduceAfter absorbed (p :: ps) =
      ⟨reducedGap p.gap, p.token⟩ :: Layout.reduceAfter (absorbsSpace p.token) ps := by
  rw [isWordKind_kind, Bool.not_eq_true'] at hp
  simp only [reduceAfter, habsorbed, hp, Bool.false_or]
  rfl

theorem reduceAfter_cons_tight {absorbed : Bool} {p : Piece}
    (htight : absorbed = true ∨ isWordKind p.token.kind = false) (ps : List Piece) :
    Layout.reduceAfter absorbed (p :: ps) =
      ⟨[], p.token⟩ :: Layout.reduceAfter (absorbsSpace p.token) ps := by
  rw [isWordKind_kind, Bool.not_eq_false'] at htight
  rcases htight with habsorbed | hp
  · simp [reduceAfter, habsorbed]
  · simp [reduceAfter, hp]

/-- Whether a token of class `prev`, or the start of the text, needs no white space behind it. -/
def absorbsBehind (prev : Option TokenKind) : Bool := prev.all fun k => !isWordKind k

/-- Words that a layout keeps apart are apart when it is read back. -/
theorem ReadsBack.reduceAfter {prev : Option TokenKind} {ps os qs : List Piece}
    (h : ReadsBack ShownGap prev ps os qs)
    (hregaps : Regaps prev (Layout.reduceAfter (absorbsBehind prev) ps) os)
    (hspace : ∀ k ∈ prev, k ≠ .space) (hvisible : ∀ p ∈ ps, p.token.isSpace = false)
    (hbare : ∀ p ∈ ps, isWordKind p.token.kind = true → isBare p.token = true) :
    ReadsBack LooserGap prev (Layout.reduceAfter (absorbsBehind prev) ps) os
      (Layout.reduceAfter (absorbsBehind prev) qs) := by
  induction h with
  | nil prev => exact .nil prev
  | @cons prev p o q ps os qs alike whole gap rest ih =>
    have hkind : ∀ k ∈ some p.token.kind, k ≠ .space := by
      intro k hk heq
      obtain rfl : p.token.kind = k := by simpa using hk
      have hp := hvisible p (by simp)
      simp [Token.isSpace, heq] at hp
    have hbehind : absorbsSpace p.token = absorbsBehind (some p.token.kind) := by
      simp [absorbsBehind, isWordKind_kind]
    have hbehind' : absorbsSpace q.token = absorbsBehind (some p.token.kind) := by
      rw [← hbehind, absorbsSpace, absorbsSpace, alike.kind]
    have hrest := fun hregaps => ih hregaps hkind (fun x hx => hvisible x (by simp [hx]))
      fun x hx => hbare x (by simp [hx])
    by_cases htight : absorbsBehind prev = true ∨ isWordKind p.token.kind = false
    · have htight' : absorbsBehind prev = true ∨ isWordKind q.token.kind = false := by
        rwa [alike.kind]
      rw [reduceAfter_cons_tight htight, hbehind] at hregaps ⊢
      rw [reduceAfter_cons_tight htight', hbehind']
      cases hregaps with
      | cons token blank keeps hregaps =>
        exact .cons (p := ⟨[], p.token⟩) (q := ⟨[], q.token⟩) alike whole (.inl rfl) (hrest hregaps)
    · simp only [not_or, Bool.not_eq_true, Bool.not_eq_false] at htight
      obtain ⟨hprev, hp⟩ := htight
      have hq : isWordKind q.token.kind = true := by rwa [alike.kind]
      obtain ⟨k, rfl, hk⟩ : ∃ k, prev = some k ∧ isWordKind k = true := by
        cases prev with
        | none => cases hprev
        | some k => exact ⟨k, rfl, by simpa [absorbsBehind] using hprev⟩
      rw [reduceAfter_cons_word hprev hp, hbehind] at hregaps ⊢
      rw [reduceAfter_cons_word hprev hq, hbehind']
      cases hregaps with
      | cons token blank keeps hregaps =>
        refine .cons (p := ⟨_, p.token⟩) (q := ⟨_, q.token⟩) alike whole ?_ (hrest hregaps)
        have hgap : q.gap = o.gap := gap k rfl (by rintro rfl; cases hk)
        show Loosens (some k) p.token (reducedGap p.gap) (reducedGap q.gap)
        rw [hgap]
        exact loosens_of_keeps (keeps k rfl) hk (hspace k rfl) hp (hbare p (by simp) hp)

/-! ## Compounds -/

namespace Alike

variable {t t' : Token}

theorem text_eq_of_kind_ne (h : Alike t t') (ht : t.kind ≠ .comment) : t'.text = t.text :=
  h.text_eq (isLineComment_of_kind_ne ht)

theorem of_same (h : Same t t') : Alike t t' := by
  refine ⟨h.kind, ?_⟩
  rw [settle, settle, isLineComment_congr h.kind h.text]
  split <;> simp [Token.withText, h.text]

theorem isSymbol (h : Alike t t') (text : Text) : t'.isSymbol text = t.isSymbol text := by
  by_cases hkind : t.kind = .symbol
  · rw [Token.isSymbol, Token.isSymbol, h.kind, h.text_eq_of_kind_ne (by simp [hkind])]
  · rw [isSymbol_of_kind_ne hkind, isSymbol_of_kind_ne (by rwa [h.kind])]

end Alike

theorem isClausePair_congr {p p' q q' : Token} (hp : Alike p p') (hq : Alike q q') :
    isClausePair p' q' = isClausePair p q := by
  rw [isClausePair, isClausePair, hp.kind, hq.kind]
  by_cases hkinds : p.kind = .keyword ∧ q.kind = .keyword
  · rw [hp.text_eq_of_kind_ne (by simp [hkinds.1]), hq.text_eq_of_kind_ne (by simp [hkinds.2])]
  · rcases not_and_or.mp hkinds with hkind | hkind <;> simp [hkind]

theorem isMarkTriple_congr {p p' q q' r r' : Token} (hp : Alike p p') (hq : Alike q q')
    (hr : Alike r r') : isMarkTriple p' q' r' = isMarkTriple p q r := by
  simp only [isMarkTriple, hp.isSymbol, hq.isSymbol, hr.isSymbol, hq.kind]

theorem compoundRest_congr {p p' : Piece} {ps ps' : List Piece} (hp : Alike p.token p'.token)
    (hps : List.Forall₂ (fun q q' => Alike q.token q'.token) ps ps') :
    compoundRest p' ps' = compoundRest p ps := by
  cases hps with
  | nil => rfl
  | cons hq hps =>
    cases hps with
    | nil => simp only [compoundRest, isClausePair_congr hp hq]
    | cons hr hps =>
      simp only [compoundRest, isClausePair_congr hp hq, isMarkTriple_congr hp hq hr]

theorem compoundRest_le (p : Piece) (ps : List Piece) : compoundRest p ps ≤ ps.length := by
  match ps with
  | [] => exact Nat.le_refl 0
  | [q] =>
    rw [compoundRest]
    split <;> simp
  | q :: r :: ps =>
    rw [compoundRest]
    repeat' split
    all_goals simp

section ReadsBack

variable {G : Option TokenKind → Piece → Piece → Piece → Prop} {prev : Option TokenKind}
  {ps os qs : List Piece}

theorem ReadsBack.alike (h : ReadsBack G prev ps os qs) :
    List.Forall₂ (fun p q => Alike p.token q.token) ps qs := by
  induction h with
  | nil => exact .nil
  | cons alike whole gap rest ih => exact .cons alike ih

theorem ReadsBack.take_drop (h : ReadsBack G prev ps os qs) (n : Nat) :
    ReadsBack G prev (ps.take n) (os.take n) (qs.take n) ∧
      ReadsBack G (lastKind prev (ps.take n)) (ps.drop n) (os.drop n) (qs.drop n) := by
  induction h generalizing n with
  | nil prev =>
    simp only [List.take_nil, List.drop_nil]
    exact ⟨.nil _, .nil _⟩
  | cons alike whole gap rest ih =>
    cases n with
    | zero => exact ⟨.nil _, .cons alike whole gap rest⟩
    | succ n =>
      obtain ⟨htake, hdrop⟩ := ih n
      simp only [List.take_succ_cons, List.drop_succ_cons, lastKind_cons]
      exact ⟨.cons alike whole gap htake, hdrop⟩

end ReadsBack

/-- Behind its first token a compound is read back as it was. -/
theorem render_more_of_readsBack {p : Piece} {more os more' : List Piece}
    (hjoins : (⟨p, more⟩ : Block).Joins)
    (hwords : (p :: more).IsChain fun p q =>
      p.token.kind = .keyword → q.token.kind = .keyword → q.gap ≠ [])
    (hread : ReadsBack LooserGap (some p.token.kind) more os more') :
    Piece.render more' = Piece.render more := by
  cases hjoins with
  | single p =>
    cases hread
    rfl
  | clause p q pair =>
    obtain ⟨hp, hq⟩ := kinds_of_isClausePair pair
    cases hread with
    | cons alike whole gap rest =>
      cases rest
      have hgap := (List.isChain_cons_cons.mp hwords).1 hp hq
      simp [gap.eq_of_ne_nil hgap, alike.text_eq_of_kind_ne (by simp [hq])]
  | mark p q r triple =>
    obtain ⟨hp, hq, hr⟩ := kinds_of_isMarkTriple triple
    cases hread with
    | cons alike whole gap rest =>
      cases rest with
      | cons alike' whole' gap' rest =>
        cases rest
        have hgap := gap.eq_of_not_word_before (by simp [hp, isWordKind])
        have hgap' := gap'.eq_of_not_word (by simp [hr, isWordKind])
        simp [hgap, hgap', alike.text_eq_of_kind_ne hq, alike'.text_eq_of_kind_ne (by simp [hr])]

theorem alike_token {p q : Piece} {more more' : List Piece} (hp : Alike p.token q.token)
    (hplain : (⟨p, more⟩ : Block).Plain) (hmore : Piece.render more' = Piece.render more) :
    Alike (⟨p, more⟩ : Block).token (⟨q, more'⟩ : Block).token := by
  by_cases hkind : p.token.kind = .comment
  · have hnil : more = [] := hplain hkind
    rw [hnil, Piece.render_nil] at hmore
    simpa [Block.token, hnil, hmore, Token.withText] using hp
  · refine .of_same ⟨hp.kind, ?_⟩
    rw [Block.text_token, Block.text_token, hmore, hp.text_eq_of_kind_ne hkind]

theorem isBare_token {b : Block} (h : isBare b.head.token = true) : isBare b.token = true := by
  simp only [isBare, Bool.and_eq_true] at h ⊢
  refine ⟨h.1, ?_⟩
  rw [Block.text_token]
  cases htext : b.head.token.text with
  | nil => simp [htext] at h
  | cons c cs => simpa [htext] using h.2

/-- Compounds are joined in the same places. -/
theorem readsBack_glueBlocks {d : Dialect} {s : Style} {h : Hand} {prev : Option TokenKind}
    {ps os qs : List Piece} (hread : ReadsBack LooserGap prev ps os qs) (hspread : Spread ps)
    (hos : os.map Piece.token =
      ((placeBlocks d s h (glueBlocks ps)).flatMap Block.pieces).map Piece.token) :
    ReadsBack LooserGap prev ((glueBlocks ps).map Block.piece)
      ((placeBlocks d s h (glueBlocks ps)).map Block.piece) ((glueBlocks qs).map Block.piece) := by
  fun_induction glueBlocks ps generalizing h prev os qs with
  | case1 =>
    cases hread
    rw [glueBlocks]
    exact .nil prev
  | case2 p ps ih =>
    cases hread with
    | @cons _ _ o q _ os qs alike whole gap rest =>
      have hcount := compoundRest_congr alike rest.alike
      obtain ⟨htake, hdrop⟩ := rest.take_drop (compoundRest p ps)
      have hjoins := joins_take_compoundRest p ps
      have hlast : lastKind (some p.token.kind) (ps.take (compoundRest p ps)) =
          some p.token.kind := by
        have heven := hjoins.even none
        rwa [Block.pieces, lastKind_cons] at heven
      have hmore := render_more_of_readsBack hjoins (hspread.words.take (compoundRest p ps + 1)) htake
      rw [placeBlocks, List.flatMap_cons, Block.pieces, List.cons_append, List.map_cons,
        List.map_cons, List.cons.injEq, List.map_append] at hos
      obtain ⟨ho, hos⟩ := hos
      have hrest := congrArg (List.drop (compoundRest p ps)) hos
      rw [List.drop_left' (by simp [compoundRest_le]), ← List.map_drop] at hrest
      rw [glueBlocks, hcount, placeBlocks, List.map_cons, List.map_cons, List.map_cons]
      rw [hlast] at hdrop
      refine .cons (p := Block.piece _) (q := Block.piece _) (alike_token alike hjoins.plain hmore)
        (fun hshown => ?_) ?_ (ih hdrop (hspread.suffix ?_) hrest)
      · rw [Block.piece_token, Block.piece_token, Block.text_token, Block.text_token] at hshown
        rw [Block.piece_token, Block.piece_token, Block.text_token, Block.text_token, hmore]
        exact congrArg (· ++ _) (whole (by rw [ho]; exact List.append_cancel_right hshown))
      · exact gap.congr (isBare_token (b := ⟨p, ps.take (compoundRest p ps)⟩)) rfl
      · exact (List.drop_suffix _ ps).trans (List.suffix_cons p ps)

/-! ## The walk -/

namespace Same

variable {t t' : Token}

theorem isSymbol (h : Same t t') (text : Text) : t'.isSymbol text = t.isSymbol text := by
  rw [Token.isSymbol, Token.isSymbol, h.kind, h.text]

theorem isOpenComment (h : Same t t') : Layout.isOpenComment t' = Layout.isOpenComment t := by
  rw [Layout.isOpenComment, Layout.isOpenComment, isLineComment_congr h.kind h.text, h.text]

theorem moveOf (h : Same t t') (s : Style) (a : Surroundings) (f : Footing) :
    Layout.moveOf s a t' f = Layout.moveOf s a t f := by
  rw [Layout.moveOf, Layout.moveOf, h.kind, h.text]

end Same

theorem Alike.isDelimiter {s : Style} (hmark : IsMark s) {t t' : Token} (h : Alike t t') :
    s.isDelimiter t'.text = s.isDelimiter t.text := by
  rw [← isDelimiter_settle hmark t', h.text, isDelimiter_settle hmark]

/-- A line comment is no join word. -/
theorem isJoinWord_of_isLineComment {text : Text} (h : Dialect.isLineComment text = true) :
    Walk.isJoinWord text = false := by
  obtain ⟨cs, rfl⟩ := (isLineComment_iff text).mp h
  simp [Walk.isJoinWord, Walk.joinWords, Text.sameAsciiCase, Text.asciiLower]

theorem reachesJoin_cons_of_not {text : Text} (h : Walk.isJoinWord text = false)
    (texts : List Text) : Walk.reachesJoin (text :: texts) = false := by
  have hjoin : Text.sameAsciiCase text "JOIN".toList = false := by
    simp only [Walk.isJoinWord, Walk.joinWords, List.any_cons, Bool.or_eq_false_iff] at h
    exact h.2.2.2.2.1
  rw [Walk.reachesJoin, h, hjoin]
  rfl

/-- Whether join words reach `JOIN` does not depend on what comments end with. -/
theorem reachesJoin_congr {ts us : List Token} (h : List.Forall₂ Alike ts us) :
    Walk.reachesJoin (us.map Token.text) = Walk.reachesJoin (ts.map Token.text) := by
  induction h with
  | nil => rfl
  | @cons t u ts us ht hts ih =>
    rw [List.map_cons, List.map_cons]
    cases hline : isLineComment t with
    | false => rw [Walk.reachesJoin, Walk.reachesJoin, ht.text_eq hline, ih]
    | true =>
      have hline' := ht.isLineComment.trans hline
      simp only [isLineComment, Bool.and_eq_true] at hline hline'
      rw [reachesJoin_cons_of_not (isJoinWord_of_isLineComment hline.2),
        reachesJoin_cons_of_not (isJoinWord_of_isLineComment hline'.2)]

/-- The class and the text of a token. -/
def shape (t : Token) : TokenKind × Text := (t.kind, t.text)

theorem Same.shape {t t' : Token} (h : Same t t') : Layout.shape t' = Layout.shape t := by
  rw [Layout.shape, Layout.shape, h.kind, h.text]

/-- Hands that differ in nothing but where the last token stood. -/
structure Hand.Like (h h' : Hand) : Prop where
  footing : h'.footing = h.footing
  lead : h'.lead = h.lead
  previous : h'.previous = h.previous
  last : h'.last.map shape = h.last.map shape

/-- The class of the token in front. -/
def Hand.lastKind? (h : Hand) : Option TokenKind := h.last.map (·.kind)

section Walk

variable {d : Dialect} {s : Style} {h h' : Hand} {p q : Piece}

theorem Hand.Like.any_last (hlike : h.Like h') (f : TokenKind × Text → Bool) :
    (h'.last.any fun t => f (shape t)) = h.last.any fun t => f (shape t) := by
  have hany : ∀ x : Option Token, (x.any fun t => f (shape t)) = (x.map shape).any f := by
    intro x
    cases x <;> rfl
  rw [hany, hany, hlike.last]

theorem Hand.Like.isNone_last (hlike : h.Like h') : h'.last.isNone = h.last.isNone := by
  have hnone := congrArg Option.isNone hlike.last
  simpa only [Option.isNone_map] using hnone

/-- Tokens that are alike are shown the same. -/
theorem Alike.shown (hlike : h.Like h') (halike : Alike p.token q.token)
    (hwhole : (h.shown p.token).text = p.token.text → q.token.text = p.token.text) :
    Same (h.shown p.token) (h'.shown q.token) := by
  refine ⟨by rw [h.kind_shown, h'.kind_shown, halike.kind], ?_⟩
  unfold Hand.shown at hwhole ⊢
  rw [hlike.lead]
  split
  · next hlead =>
    rw [hlead] at hwhole
    exact hwhole rfl
  · next level hlead =>
    rw [hlead] at hwhole
    exact hwhole rfl
  · exact halike.text
  · exact halike.text

theorem loosens_gapBefore (hmark : IsMark s) (hlike : h.Like h') (halike : Alike p.token q.token)
    (hgap : Loosens h.lastKind? p.token p.gap q.gap) :
    Loosens h.lastKind? p.token (h.gapBefore s p.gap p.token) (h'.gapBefore s q.gap q.token) := by
  unfold Hand.gapBefore
  rw [hlike.lead, hlike.footing, halike.isDelimiter hmark]
  have hbreak : ∀ line, breakText line q.token = breakText line p.token := by
    intro line
    rw [breakText, breakText, halike.isLineComment]
  split
  · exact hgap
  · exact .inl (hbreak _)
  · exact .inl rfl
  · split
    · exact hgap
    · exact .inl (hbreak _)

/-- What the walk sees around tokens that are shown the same. -/
theorem around_congr (hlike : h.Like h') {t t' : Token} (hsame : Same t t') {g g' : Text}
    (hgap : Loosens h.lastKind? p.token g g') {ps qs : List Piece}
    (hrest : List.Forall₂ (fun p q => Alike p.token q.token) ps qs) :
    h'.around d (qs.map (·.token.text)) g' t' = h.around d (ps.map (·.token.text)) g t := by
  have hreaches : Walk.reachesJoin (t'.text :: qs.map (·.token.text)) =
      Walk.reachesJoin (t.text :: ps.map (·.token.text)) := by
    have htokens : List.Forall₂ Alike (ps.map Piece.token) (qs.map Piece.token) := by simpa using hrest
    have hmore := reachesJoin_congr htokens
    simp only [List.map_map, Function.comp_def] at hmore
    rw [Walk.reachesJoin, Walk.reachesJoin, hsame.text, hmore]
  have hjoin := hlike.any_last fun x => Walk.isJoinWord x.2
  have hcomment := hlike.any_last fun x => x.1 == .comment
  have hafter : (g'.isEmpty && h'.last.any fun t => t.kind == .comment) =
      (g.isEmpty && h.last.any fun t => t.kind == .comment) := by
    simp only [shape] at hcomment
    rw [hcomment]
    cases hlast : h.last.any fun t => t.kind == .comment with
    | false => simp
    | true =>
      have heq : g' = g := hgap.eq_of_not_word_before (by
        intro k hk
        obtain ⟨t, ht, rfl⟩ := Option.map_eq_some_iff.mp hk
        rw [ht, Option.any_some, beq_iff_eq] at hlast
        rw [hlast]
        rfl)
      rw [heq]
  simp only [shape] at hjoin
  rw [Hand.around, Hand.around, hlike.previous, hsame.text, hjoin, ← hsame.text, hreaches,
    hlike.isNone_last, hafter, hsame.text]

theorem like_skip (hlike : h.Like h') (hsame : Same p.token q.token) (level : Int) :
    (h.skip s level p.token).hand.Like (h'.skip s level q.token).hand :=
  ⟨hlike.footing, rfl, rfl, congrArg some hsame.shape⟩

theorem like_visit (hmark : IsMark s) (hlike : h.Like h') (halike : Alike p.token q.token)
    (hsame : Same (h.shown p.token) (h'.shown q.token))
    (hgap : Loosens h.lastKind? p.token p.gap q.gap) {ps qs : List Piece}
    (hrest : List.Forall₂ (fun p q => Alike p.token q.token) ps qs) :
    Loosens h.lastKind? p.token (h.visit d s (ps.map (·.token.text)) p.gap p.token).gap
        (h'.visit d s (qs.map (·.token.text)) q.gap q.token).gap ∧
      (h.visit d s (ps.map (·.token.text)) p.gap p.token).hand.Like
        (h'.visit d s (qs.map (·.token.text)) q.gap q.token).hand := by
  have hbefore := loosens_gapBefore hmark hlike halike hgap
  have hmove : h'.move d s (qs.map (·.token.text)) q.gap q.token =
      h.move d s (ps.map (·.token.text)) p.gap p.token := by
    rw [Hand.move, Hand.move, around_congr hlike hsame hbefore hrest, hsame.moveOf, hlike.footing]
  unfold Hand.visit
  rw [hmove]
  refine ⟨?_, rfl, ?_, hsame.text, congrArg some hsame.shape⟩
  · show Loosens _ _ (h.gapAfter s _ _ _) (h'.gapAfter s _ _ _)
    unfold Hand.gapAfter
    rw [hsame.text, hlike.isNone_last]
    split
    · exact hbefore
    · cases (h.move d s (ps.map (·.token.text)) p.gap p.token).here with
      | none => exact hbefore
      | some level => exact .inl rfl
  · show Hand.leadBehind s _ _ = Hand.leadBehind s _ _
    rw [Hand.leadBehind, Hand.leadBehind, hsame.text, hsame.isOpenComment]

theorem like_pass (hmark : IsMark s) (hlike : h.Like h') (halike : Alike p.token q.token)
    (hmarks : s.isDelimiter p.token.text = true → p.token.kind = .symbol)
    (hsame : Same (h.shown p.token) (h'.shown q.token))
    (hgap : Loosens h.lastKind? p.token p.gap q.gap) {ps qs : List Piece}
    (hrest : List.Forall₂ (fun p q => Alike p.token q.token) ps qs) :
    Loosens h.lastKind? p.token (h.pass d s (ps.map (·.token.text)) p).gap
        (h'.pass d s (qs.map (·.token.text)) q).gap ∧
      (h.pass d s (ps.map (·.token.text)) p).hand.Like
        (h'.pass d s (qs.map (·.token.text)) q).hand := by
  have hskips : h'.skips? s q.token = h.skips? s p.token := by
    rw [Hand.skips?, Hand.skips?, hlike.lead, halike.isDelimiter hmark]
  cases hskip : h.skips? s p.token with
  | some level =>
    have hkind := hmarks (Hand.lead_of_skips? hskip).2
    have hraw : Same p.token q.token :=
      ⟨halike.kind, halike.text_eq_of_kind_ne (by simp [hkind])⟩
    simp only [Hand.pass, hskips, hskip]
    exact ⟨.inl rfl, like_skip hlike hraw level⟩
  | none =>
    simp only [Hand.pass, hskips, hskip]
    exact like_visit hmark hlike halike hsame hgap hrest

theorem isBare_shown {t : Token} (hbare : isBare t = true) : isBare (h.shown t) = true := by
  have hkind : t.kind ≠ .comment := by
    intro hkind
    simp [isBare, hkind, isWordKind] at hbare
  rwa [h.shown_of_kind_ne hkind]

theorem lastKind?_pass (rest : List Text) (p : Piece) :
    (h.pass d s rest p).hand.lastKind? = some p.token.kind := by
  unfold Hand.pass
  split
  · rfl
  · exact congrArg some (h.kind_shown p.token)

/-- The walk does the same on both texts. -/
theorem loosened_place (hmark : IsMark s) (hlike : h.Like h') {ps qs : List Piece}
    (hmarks : ∀ p ∈ ps, s.isDelimiter p.token.text = true → p.token.kind = .symbol)
    (hread : ReadsBack LooserGap h.lastKind? ps (place d s h ps) qs) :
    Loosened h.lastKind? (place d s h ps) (place d s h' qs) := by
  induction ps generalizing h h' qs with
  | nil =>
    cases hread
    exact .nil _
  | cons p ps ih =>
    rw [place] at hread ⊢
    cases hread with
    | @cons _ _ _ q _ _ qs alike whole gap rest =>
      have hsame := alike.shown hlike whole
      obtain ⟨hgap, hhand⟩ := like_pass (d := d) hmark hlike alike (hmarks p (by simp)) hsame gap
        rest.alike
      rw [← lastKind?_pass (h := h) (d := d) (s := s) (ps.map (·.token.text)) p] at rest
      rw [place]
      have hrest := ih hhand (fun x hx => hmarks x (by simp [hx])) rest
      rw [lastKind?_pass, ← h.kind_shown p.token] at hrest
      exact .cons hsame (hgap.congr isBare_shown (h.kind_shown _)) hrest

end Walk

/-! ## Bracket pairs -/

section Brackets

variable {prev : Option TokenKind} {a b c e a' b' c' e' : Block} {bs bs' : List Block}

/-- Next to brackets the gaps are the same, so the same pairs are joined. -/
theorem isEnclosed_congr (ha : Same a.token a'.token) (he : Same e.token e'.token)
    (hc : Loosens (some a.token.kind) c.token c.head.gap c'.head.gap)
    (hgap : Loosens (some c.token.kind) e.token e.head.gap e'.head.gap) :
    isEnclosed a' c' e' = isEnclosed a c e := by
  rw [isEnclosed, isEnclosed, ha.isSymbol, he.isSymbol]
  cases hopen : a.token.isSymbol ['('] with
  | false => rfl
  | true =>
    cases hclose : e.token.isSymbol [')'] with
    | false => simp
    | true =>
      have hcgap := hc.eq_of_not_word_before (by
        intro k hk
        obtain rfl : a.token.kind = k := by simpa using hk
        rw [kind_of_isSymbol hopen]
        rfl)
      have hegap := hgap.eq_of_not_word (by rw [kind_of_isSymbol hclose]; rfl)
      rw [hcgap, hegap]

theorem same_enclose (ha : Same a.token a'.token) (hc : Same c.token c'.token)
    (he : Same e.token e'.token) : Same (a.enclose c e).token (a'.enclose c' e').token := by
  refine ⟨ha.kind, ?_⟩
  rw [Block.text_enclose, Block.text_enclose, ha.text, hc.text, he.text]

theorem isBare_eq_false {t : Token} (h : t.kind = .symbol) : isBare t = false := by
  simp [isBare, h, isWordKind]

theorem compactFrontBlocks_of_short (h : bs.length < 3) : compactFrontBlocks bs = bs := by
  match bs with
  | [] | [_] | [_, _] => rfl
  | _ :: _ :: _ :: rest =>
    simp only [List.length_cons] at h
    omega

theorem exists_three (h : ¬ bs.length < 3) : ∃ a c e rest, bs = a :: c :: e :: rest := by
  match bs with
  | a :: c :: e :: rest => exact ⟨a, c, e, rest, rfl⟩
  | [] | [_] | [_, _] => simp at h

theorem Loosened.length_eq {ps qs : List Piece} (h : Loosened prev ps qs) :
    qs.length = ps.length := by
  induction h with
  | nil => rfl
  | cons same gap rest ih => rw [List.length_cons, List.length_cons, ih]

theorem loosened_compactFrontBlocks (h : Loosened prev (bs.map Block.piece) (bs'.map Block.piece)) :
    Loosened prev ((compactFrontBlocks bs).map Block.piece)
      ((compactFrontBlocks bs').map Block.piece) := by
  have hlength : bs'.length = bs.length := by simpa using h.length_eq
  by_cases hshort : bs.length < 3
  · rwa [compactFrontBlocks_of_short hshort, compactFrontBlocks_of_short (by rwa [hlength])]
  · obtain ⟨a, c, e, bs, rfl⟩ := exists_three hshort
    rw [← hlength] at hshort
    obtain ⟨a', c', e', bs', rfl⟩ := exists_three hshort
    obtain _ | ⟨ha, gapa, _ | ⟨hc, gapc, _ | ⟨he, gape, hrest⟩⟩⟩ := id h
    rw [compactFrontBlocks, compactFrontBlocks, isEnclosed_congr ha he gapc gape]
    split
    · next henclosed =>
      simp only [isEnclosed, Bool.and_eq_true] at henclosed
      have hkind : a.token.kind = .symbol := kind_of_isSymbol henclosed.1.1.1
      have hkind' : e.token.kind = .symbol := kind_of_isSymbol henclosed.2
      refine .cons (p := (a.enclose c e).piece) (q := (a'.enclose c' e').piece)
        (same_enclose ha hc he) (gapa.congr ?_ rfl) ?_
      · intro hbare
        rw [Block.piece_token, isBare_eq_false hkind] at hbare
        cases hbare
      · rw [Block.piece_token, hkind'] at hrest
        rwa [show (a.enclose c e).piece.token.kind = .symbol from hkind]
    · exact h

theorem loosened_compactBlocks (h : Loosened prev (bs.map Block.piece) (bs'.map Block.piece)) :
    Loosened prev ((compactBlocks bs).map Block.piece) ((compactBlocks bs').map Block.piece) := by
  induction bs generalizing prev bs' with
  | nil =>
    cases bs' with
    | nil => exact h
    | cons b' bs' => cases h
  | cons b bs ih =>
    cases bs' with
    | nil => cases h
    | cons b' bs' =>
      cases h with
      | cons same gap rest =>
        rw [compactBlocks, compactBlocks]
        exact loosened_compactFrontBlocks (.cons same gap (ih rest))

end Brackets

/-! ## Blanks between neighbours -/

/-- A bare token is neither a bracket nor a separator. -/
theorem head?_ne_of_isBare {t : Token} (ht : isBare t = true) {c : Char}
    (hc : Lexer.isSymbolChar c = true) (hquote : Lexer.isQuoteChar c = false) :
    t.text.head? ≠ some c := by
  intro hhead
  simp [isBare, hhead, hc, hquote] at ht

theorem isDelimiter_of_isBare {s : Style} (hmark : IsMark s) {t : Token} (ht : isBare t = true) :
    s.isDelimiter t.text = false := by
  refine isDelimiter_of_ne hmark fun htext => ?_
  rcases hmark with hmark | hmark | hmark <;>
    exact absurd (by rw [htext, hmark]; rfl) (head?_ne_of_isBare ht (by decide) (by decide))

/-- A blank goes in front of a bare token behind a word. -/
theorem gap?_of_isBare {s : Style} (hmark : IsMark s) {p t : Token} (ht : isBare t = true)
    (hp : needsBlank p.kind t = true) : gap? s p t = some [' '] := by
  have hdelimiter := isDelimiter_of_isBare hmark ht
  have hopen : Text.startsWith t.text ['('] = false := by
    cases htext : t.text with
    | nil => rfl
    | cons c cs =>
      have hc : c ≠ '(' := by
        rintro rfl
        exact head?_ne_of_isBare ht (c := '(') (by decide) (by decide) (by rw [htext]; rfl)
      simp [Text.startsWith, List.isPrefixOf, hc.symm]
  have hcomma : t.text ≠ [','] := fun htext =>
    head?_ne_of_isBare ht (c := ',') (by decide) (by decide) (by rw [htext]; rfl)
  simp only [isBare, isWordKind, Bool.and_eq_true, Bool.not_eq_true', Bool.or_eq_false_iff,
    beq_eq_false_iff_ne] at ht
  simp only [needsBlank, isWordKind, Bool.and_eq_true, bne_iff_ne, Bool.not_eq_true',
    Bool.or_eq_false_iff, beq_eq_false_iff_ne, Bool.and_eq_false_iff] at hp
  obtain ⟨⟨htspace, htsymbol, -⟩, -⟩ := ht
  obtain ⟨⟨hpspace, hpsymbol, hpcomment⟩, hpair⟩ := hp
  have hpspace' : p.isSpace = false := by simpa [Token.isSpace] using hpspace
  have hnames : (decide (t.kind = .value) && decide (p.kind = .name)) = false := by
    rcases hpair with hpair | hpair <;> simp [hpair]
  unfold gap?
  simp [hpspace', htspace, hpcomment, hopen, hcomma, hdelimiter, hnames, isEmbedded,
    isSymbol_of_kind_ne hpsymbol, isSymbol_of_kind_ne htsymbol, htsymbol]

theorem gap?_same (s : Style) {p p' t t' : Token} (hp : Same p p') (ht : Same t t') :
    gap? s p' t' = gap? s p t := by
  obtain ⟨kp, xp, op⟩ := p
  obtain ⟨kt, xt, ot⟩ := t
  obtain ⟨rfl, rfl⟩ := hp
  obtain ⟨rfl, rfl⟩ := ht
  rfl

/-- The gap that a token gets behind the token `p`. -/
def filledGap (s : Style) (p t : Token) (g : Text) : Text :=
  if g.isEmpty then (gap? s p t).getD [] else g

/-- A gap that is looser is filled to the same. -/
theorem filledGap_eq {s : Style} (hmark : IsMark s) {p p' t t' : Token} (hp : Same p p')
    (ht : Same t t') {g g' : Text} (h : Loosens (some p.kind) t g g') :
    filledGap s p' t' g' = filledGap s p t g := by
  rcases h with rfl | ⟨rfl, rfl, hbare, k, hk, hneeds⟩
  · rw [filledGap, filledGap, gap?_same s hp ht]
  · obtain rfl : p.kind = k := by simpa using hk
    simp [filledGap, gap?_of_isBare hmark hbare hneeds]

theorem map_piece_fillAfter (s : Style) (p : Token) (b : Block) (bs : List Block) :
    (fillAfter s p (b :: bs)).map Block.piece =
      ⟨filledGap s p b.token b.head.gap, b.token⟩ :: (fillAfter s b.token bs).map Block.piece := by
  rw [fillAfter, List.map_cons, filledGap]
  split <;> rfl

theorem render_fillAfter {s : Style} (hmark : IsMark s) {p p' : Token} (hp : Same p p')
    {bs bs' : List Block}
    (h : Loosened (some p.kind) (bs.map Block.piece) (bs'.map Block.piece)) :
    Piece.render ((fillAfter s p' bs').map Block.piece) =
      Piece.render ((fillAfter s p bs).map Block.piece) := by
  induction bs generalizing p p' bs' with
  | nil =>
    cases bs' with
    | nil => rfl
    | cons b' bs' => cases h
  | cons b bs ih =>
    cases bs' with
    | nil => cases h
    | cons b' bs' =>
      cases h with
      | cons same gap rest =>
        have hgap := filledGap_eq hmark hp same gap
        have hrest := ih same rest
        rw [Block.piece_token, Block.piece_token] at hgap hrest
        rw [map_piece_fillAfter, map_piece_fillAfter, Piece.render_cons, Piece.render_cons, hrest]
        rw [Block.piece_gap, Block.piece_gap] at hgap
        rw [hgap]
        exact congrArg (_ ++ ·) (congrArg (· ++ _) same.text)

theorem render_fillBlocks {s : Style} (hmark : IsMark s) {bs bs' : List Block}
    (h : Loosened none (bs.map Block.piece) (bs'.map Block.piece)) :
    Piece.render ((fillBlocks s bs').map Block.piece) =
      Piece.render ((fillBlocks s bs).map Block.piece) := by
  cases bs with
  | nil =>
    cases bs' with
    | nil => rfl
    | cons b' bs' => cases h
  | cons b bs =>
    cases bs' with
    | nil => cases h
    | cons b' bs' =>
      cases h with
      | cons same gap rest =>
        have hgap := gap.eq_of_not_word_before (by simp)
        rw [fillBlocks, fillBlocks, List.map_cons, List.map_cons, Piece.render_cons,
          Piece.render_cons, hgap, same.text]
        exact congrArg (_ ++ ·) (congrArg (_ ++ ·) (render_fillAfter hmark same rest))

end SqlLayout.Layout
