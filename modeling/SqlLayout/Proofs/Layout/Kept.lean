import SqlLayout.Proofs.Layout.Block

/-!
# What a layout keeps between words

Every pass on blocks leaves the tokens in place and changes gaps only (`Regaps`).  White space
between two words stays, and a value that touches the name in front of it still does
(`regaps_lay`).  So the pieces of the closed form lay out the tokens of the text (`laid_lay`).
-/

namespace SqlLayout.Layout

/-- Tokens that keep the white space next to them. -/
def isWordKind (k : TokenKind) : Bool := !(k == .symbol || k == .comment)

theorem isWordKind_kind (t : Token) : isWordKind t.kind = !absorbsSpace t := rfl

/-- `Keeps k k' g g'`: between a token of class `k` and one of class `k'`, the gap `g` may become
`g'`. -/
structure Keeps (k k' : TokenKind) (g g' : Text) : Prop where
  apart : isWordKind k = true → isWordKind k' = true → g ≠ [] → g' ≠ []
  attached : k = .name → k' = .value → g = [] → g' = []

namespace Keeps

variable {k k' : TokenKind} {g g' g'' : Text}

theorem refl (k k' : TokenKind) (g : Text) : Keeps k k' g g := ⟨fun _ _ h => h, fun _ _ h => h⟩

theorem trans (h : Keeps k k' g g') (h' : Keeps k k' g' g'') : Keeps k k' g g'' :=
  ⟨fun hk hk' hg => h'.apart hk hk' (h.apart hk hk' hg),
    fun hk hk' hg => h'.attached hk hk' (h.attached hk hk' hg)⟩

/-- Next to a symbol anything may happen. -/
theorem of_symbol (h : k = .symbol ∨ k' = .symbol) : Keeps k k' g g' := by
  rcases h with rfl | rfl
  · exact ⟨by simp [isWordKind], by simp⟩
  · exact ⟨by simp [isWordKind], by simp⟩

end Keeps

/-- `Regaps prev ps qs`: behind a token of class `prev`, the pieces `qs` are the pieces `ps` with
other gaps. -/
inductive Regaps : Option TokenKind → List Piece → List Piece → Prop
  | nil (prev : Option TokenKind) : Regaps prev [] []
  | cons {prev : Option TokenKind} {p q : Piece} {ps qs : List Piece}
      (token : Settles p.token q.token)
      (blank : Text.allBlank p.gap = true → Text.allBlank q.gap = true)
      (gap : ∀ k ∈ prev, Keeps k p.token.kind p.gap q.gap)
      (rest : Regaps (some p.token.kind) ps qs) : Regaps prev (p :: ps) (q :: qs)

/-- The class of the last piece, or `prev` when there is none. -/
def lastKind (prev : Option TokenKind) (ps : List Piece) : Option TokenKind :=
  (ps.getLast?.map (·.token.kind)).or prev

theorem lastKind_cons (prev : Option TokenKind) (p : Piece) (ps : List Piece) :
    lastKind prev (p :: ps) = lastKind (some p.token.kind) ps := by
  cases ps with
  | nil => rfl
  | cons q qs => simp [lastKind, List.getLast?_cons]

theorem lastKind_append (prev : Option TokenKind) (ps qs : List Piece) :
    lastKind prev (ps ++ qs) = lastKind (lastKind prev ps) qs := by
  simp [lastKind, List.getLast?_append, Option.map_or, Option.or_assoc]

theorem Settles.kind {t t' : Token} (h : Settles t t') : t'.kind = t.kind := by
  rcases h with rfl | rfl
  · rfl
  · exact kind_settle t

namespace Regaps

theorem refl (prev : Option TokenKind) (ps : List Piece) : Regaps prev ps ps := by
  induction ps generalizing prev with
  | nil => exact .nil prev
  | cons p ps ih => exact .cons (.inl rfl) id (fun k _ => .refl k _ _) (ih _)

theorem trans {prev : Option TokenKind} {ps qs rs : List Piece} (h : Regaps prev ps qs)
    (h' : Regaps prev qs rs) : Regaps prev ps rs := by
  induction h generalizing rs with
  | nil => exact h'
  | cons token blank gap rest ih =>
    cases h' with
    | cons token' blank' gap' rest' =>
      rw [token.kind] at gap' rest'
      exact .cons (token.trans token') (fun h => blank' (blank h))
        (fun k hk => (gap k hk).trans (gap' k hk)) (ih rest')

theorem append {prev : Option TokenKind} {ps qs ps' qs' : List Piece} (h : Regaps prev ps qs)
    (h' : Regaps (lastKind prev ps) ps' qs') : Regaps prev (ps ++ ps') (qs ++ qs') := by
  induction h with
  | nil => exact h'
  | cons token blank gap rest ih =>
    rw [lastKind_cons] at h'
    exact .cons token blank gap (ih h')

theorem settles {prev : Option TokenKind} {ps qs : List Piece} (h : Regaps prev ps qs) :
    List.Forall₂ Settles (ps.map Piece.token) (qs.map Piece.token) := by
  induction h with
  | nil => exact .nil
  | cons token blank gap rest ih => exact .cons token ih

theorem allBlank {prev : Option TokenKind} {ps qs : List Piece} (h : Regaps prev ps qs)
    (hps : ∀ p ∈ ps, Text.allBlank p.gap = true) : ∀ q ∈ qs, Text.allBlank q.gap = true := by
  induction h with
  | nil => exact hps
  | cons token blank gap rest ih =>
    exact List.forall_mem_cons.mpr ⟨blank (hps _ (by simp)), ih fun p hp => hps p (by simp [hp])⟩

end Regaps

/-! ## Blocks -/

/-- A block ends with a token of its own class. -/
def Block.Even (b : Block) : Prop := ∀ prev, lastKind prev b.pieces = some b.head.token.kind

theorem Block.Joins.even {b : Block} (h : b.Joins) : b.Even := by
  intro prev
  rw [Block.pieces, lastKind_cons]
  cases h with
  | single p => rfl
  | clause p q pair =>
    obtain ⟨hp, hq⟩ := kinds_of_isClausePair pair
    exact congrArg some (hq.trans hp.symm)
  | mark p q r triple =>
    obtain ⟨hp, -, hr⟩ := kinds_of_isMarkTriple triple
    exact congrArg some (hr.trans hp.symm)

theorem Block.Even.withGap {b : Block} (h : b.Even) (gap : Text) : (b.withGap gap).Even := by
  intro prev
  have hlast := h prev
  rw [Block.pieces, lastKind_cons] at hlast ⊢
  exact hlast

/-- A bracket pair is a symbol from end to end. -/
theorem Block.Even.enclose {a c e : Block} (ha : a.token.isSymbol ['('] = true) (he : e.Even)
    (hlast : e.token.isSymbol [')'] = true) : (a.enclose c e).Even := by
  intro prev
  have hpieces : (a.enclose c e).pieces =
      (a.pieces ++ (c.withGap []).pieces) ++ (e.withGap []).pieces := by
    simp [Block.enclose, Block.pieces]
  have hkind : e.head.token.kind = a.head.token.kind :=
    (kind_of_isSymbol hlast).trans (kind_of_isSymbol ha).symm
  rw [hpieces, lastKind_append, he.withGap [] _]
  exact congrArg some hkind

/-- Blocks with other gaps in front of them. -/
theorem regaps_cons {prev : Option TokenKind} {b b' : Block} {ps qs : List Piece} (hb : b.Even)
    (htoken : Settles b.head.token b'.head.token) (hmore : b'.more = b.more)
    (hblank : Text.allBlank b.head.gap = true → Text.allBlank b'.head.gap = true)
    (hgap : ∀ k ∈ prev, Keeps k b.head.token.kind b.head.gap b'.head.gap)
    (h : Regaps (some b.head.token.kind) ps qs) :
    Regaps prev (b.pieces ++ ps) (b'.pieces ++ qs) := by
  have hpieces : Regaps prev b.pieces b'.pieces := by
    rw [Block.pieces, Block.pieces, hmore]
    exact .cons htoken hblank hgap (.refl _ _)
  refine hpieces.append ?_
  rwa [hb]

/-! ## The walk -/

section Walk

variable {d : Dialect} {s : Style} {h : Hand}

theorem settles_shown (h : Hand) (t : Token) : Settles t (h.shown t) := by
  unfold Hand.shown
  split
  all_goals first
    | exact .inl rfl
    | exact .inr rfl

theorem gapBefore_ne_nil (h : Hand) {gap : Text} (hgap : gap ≠ []) (t : Token) :
    h.gapBefore s gap t ≠ [] := by
  unfold Hand.gapBefore
  split
  · exact hgap
  · exact (isGap_breakText (isGap_lineBreak s _) t).1
  · exact ((isGap_lineBreak s _).append (isGap_lineBreak s _)).1
  · split
    · exact hgap
    · exact (isGap_breakText (isGap_lineBreak s _) t).1

theorem gapAfter_ne_nil (h : Hand) (m : Move) {gap : Text} (hgap : gap ≠ []) (t : Token) :
    h.gapAfter s m gap t ≠ [] := by
  unfold Hand.gapAfter
  split
  · exact hgap
  · cases m.here with
    | none => exact hgap
    | some level => exact lineBreak_ne_nil s level

/-- A piece that is no delimiter is visited. -/
theorem pass_of_other {rest : List Text} {p : Piece} (hother : s.isDelimiter p.token.text = false) :
    h.pass d s rest p = h.visit d s rest p.gap p.token := by
  have hskip : h.skips? s p.token = none := by
    unfold Hand.skips?
    split
    · simp [hother]
    · rfl
  simp only [Hand.pass, hskip]

/-- Nothing is put in front of a value. -/
theorem here_of_value (hmark : IsMark s) (a : Surroundings) {t : Token} (f : Footing)
    (hkind : t.kind = .value) (hother : s.isDelimiter t.text = false) :
    (moveOf s a t f).here = none := by
  simp [moveOf, hkind, Move.onWord, isDelimiter_upper hmark, hother, Move.stay]

/-- Nothing is put behind a name. -/
theorem next_of_name (hmark : IsMark s) (a : Surroundings) {t : Token} (f : Footing)
    (hkind : t.kind = .name) (hother : s.isDelimiter t.text = false) :
    (moveOf s a t f).next = none := by
  simp only [moveOf, hkind, Move.onName, Move.onWord, isDelimiter_upper hmark, hother,
    Bool.false_eq_true, ↓reduceIte]
  split <;> rfl

theorem lead_of_name (hmark : IsMark s) {rest : List Text} {p : Piece}
    (hkind : p.token.kind = .name) (hother : s.isDelimiter p.token.text = false) :
    (h.pass d s rest p).hand.lead = .flow := by
  have hshown : h.shown p.token = p.token := h.shown_of_kind_ne (by simp [hkind])
  have hnext : (h.move d s rest p.gap p.token).next = none := by
    rw [Hand.move, hshown]
    exact next_of_name hmark _ _ hkind hother
  have hopen : isOpenComment p.token = false := by
    simp [isOpenComment, isLineComment_of_kind_ne, hkind]
  rw [pass_of_other hother]
  simp [Hand.visit, Hand.leadBehind, hshown, hother, hnext, hopen]

theorem keeps_pass (hmark : IsMark s) {k : TokenKind} (rest : List Text) {p : Piece}
    (hmarks : s.isDelimiter p.token.text = true → p.token.kind = .symbol)
    (hname : k = .name → h.lead = .flow) :
    Keeps k p.token.kind p.gap (h.pass d s rest p).gap := by
  cases hdelimiter : s.isDelimiter p.token.text with
  | true => exact .of_symbol (.inr (hmarks hdelimiter))
  | false =>
    rw [pass_of_other hdelimiter]
    refine ⟨fun _ _ hgap => gapAfter_ne_nil h _ (gapBefore_ne_nil h hgap _) _, ?_⟩
    intro hk hkind hgap
    have hshown : h.shown p.token = p.token := h.shown_of_kind_ne (by simp [hkind])
    have hhere : (h.move d s rest p.gap p.token).here = none := by
      rw [Hand.move, hshown]
      exact here_of_value hmark _ _ hkind hdelimiter
    simp only [Hand.visit, Hand.gapAfter, hhere, Hand.gapBefore, hname hk, Option.elim_none, ite_self]
    exact hgap

/-- What the walk puts in front of a piece is white space. -/
theorem allBlank_pass {rest : List Text} {p : Piece} (hp : Text.allBlank p.gap = true) :
    Text.allBlank (h.pass d s rest p).gap = true := by
  have hbefore : Text.allBlank (h.gapBefore s p.gap p.token) = true := by
    unfold Hand.gapBefore
    split
    · exact hp
    · exact (isGap_breakText (isGap_lineBreak s _) _).2
    · exact ((isGap_lineBreak s _).append (isGap_lineBreak s _)).2
    · split
      · exact hp
      · exact (isGap_breakText (isGap_lineBreak s _) _).2
  unfold Hand.pass
  split
  · rfl
  · simp only [Hand.visit, Hand.gapAfter]
    split
    · exact hbefore
    · cases (h.move d s rest p.gap p.token).here with
      | none => exact hbefore
      | some level => exact (isGap_lineBreak s level).2

theorem regaps_placeBlocks (hmark : IsMark s) {bs : List Block} (prev : Option TokenKind)
    (hjoins : ∀ b ∈ bs, b.Joins)
    (hmarks : ∀ b ∈ bs, s.isDelimiter b.token.text = true → b.token.kind = .symbol)
    (hname : prev = some .name → h.lead = .flow) :
    Regaps prev (bs.flatMap Block.pieces) ((placeBlocks d s h bs).flatMap Block.pieces) := by
  induction bs generalizing h prev with
  | nil => exact .nil prev
  | cons b bs ih =>
    have hb := hjoins b (by simp)
    have hb' := hmarks b (by simp)
    rw [placeBlocks, List.flatMap_cons, List.flatMap_cons]
    have hkeeps : ∀ k ∈ prev, Keeps k b.piece.token.kind b.piece.gap
        (h.pass d s (bs.map (·.token.text)) b.piece).gap := by
      intro k hk
      refine keeps_pass hmark _ hb' ?_
      rintro rfl
      exact hname hk
    refine regaps_cons hb.even (settles_shown h _) rfl (allBlank_pass (p := b.piece)) hkeeps
      (ih _ ?_ ?_ ?_)
    · exact fun x hx => hjoins x (by simp [hx])
    · exact fun x hx => hmarks x (by simp [hx])
    · intro hkind
      have hkind' : b.token.kind = .name := Option.some.inj hkind
      refine lead_of_name (p := b.piece) hmark hkind' ?_
      cases hdelimiter : s.isDelimiter b.piece.token.text with
      | false => rfl
      | true => exact absurd (hkind'.symm.trans (hb' hdelimiter)) (by decide)

end Walk

/-! ## Bracket pairs and blanks -/

theorem even_compactBlocks {bs : List Block} (heven : ∀ b ∈ bs, b.Even) :
    ∀ b ∈ compactBlocks bs, b.Even := by
  refine forall_compactBlocks heven fun a c e _ _ he henclosed => ?_
  simp only [isEnclosed, Bool.and_eq_true] at henclosed
  exact he.enclose henclosed.1.1.1 henclosed.2

/-- Joining a bracket pair changes gaps next to its brackets only. -/
theorem regaps_compactFrontBlocks (prev : Option TokenKind) {bs : List Block} (heven : ∀ b ∈ bs, b.Even) :
    Regaps prev (bs.flatMap Block.pieces) ((compactFrontBlocks bs).flatMap Block.pieces) := by
  match bs with
  | [] | [_] | [_, _] => exact .refl _ _
  | a :: c :: e :: bs =>
    rw [compactFrontBlocks]
    split
    · next henclosed =>
      simp only [isEnclosed, Bool.and_eq_true] at henclosed
      have ha : a.token.kind = .symbol := kind_of_isSymbol henclosed.1.1.1
      have he : e.token.kind = .symbol := kind_of_isSymbol henclosed.2
      have hflat : (a.enclose c e :: bs).flatMap Block.pieces =
          a.pieces ++ ((c.withGap []).pieces ++ ((e.withGap []).pieces ++ bs.flatMap Block.pieces)) := by
        simp [Block.enclose, Block.pieces]
      rw [hflat]
      refine regaps_cons (heven a (by simp)) (.inl rfl) rfl id (fun k _ => .refl _ _ _) ?_
      refine regaps_cons (heven c (by simp)) (.inl rfl) rfl (fun _ => rfl) ?_ ?_
      · intro k hk
        obtain rfl : a.head.token.kind = k := by simpa using hk
        exact .of_symbol (.inl ha)
      · refine regaps_cons (heven e (by simp)) (.inl rfl) rfl (fun _ => rfl) ?_ (.refl _ _)
        exact fun k _ => .of_symbol (.inr he)
    · exact .refl _ _

theorem regaps_compactBlocks (prev : Option TokenKind) {bs : List Block} (heven : ∀ b ∈ bs, b.Even) :
    Regaps prev (bs.flatMap Block.pieces) ((compactBlocks bs).flatMap Block.pieces) := by
  induction bs generalizing prev with
  | nil => exact .nil prev
  | cons b bs ih =>
    have heven' : ∀ x ∈ bs, x.Even := fun x hx => heven x (by simp [hx])
    rw [compactBlocks]
    have hrest : ∀ x ∈ b :: compactBlocks bs, x.Even :=
      List.forall_mem_cons.mpr ⟨heven b (by simp), even_compactBlocks heven'⟩
    refine Regaps.trans ?_ (regaps_compactFrontBlocks prev hrest)
    rw [List.flatMap_cons, List.flatMap_cons]
    exact (Regaps.refl prev b.pieces).append (ih _ heven')

/-- A value behind a name gets no blank. -/
theorem gap?_attached (s : Style) {p t : Token} (hp : p.kind = .name) (ht : t.kind = .value) :
    gap? s p t = none := by
  unfold gap?
  repeat' split
  all_goals simp_all

theorem regaps_fillAfter (s : Style) {p : Token} {bs : List Block} (heven : ∀ b ∈ bs, b.Even) :
    Regaps (some p.kind) (bs.flatMap Block.pieces) ((fillAfter s p bs).flatMap Block.pieces) := by
  induction bs generalizing p with
  | nil => exact .nil _
  | cons b bs ih =>
    have hrest := ih (p := b.token) fun x hx => heven x (by simp [hx])
    rw [fillAfter, List.flatMap_cons, List.flatMap_cons]
    split
    · next hempty =>
      have hgap : b.head.gap = [] := by simpa using hempty
      refine regaps_cons (heven b (by simp)) (.inl rfl) rfl (fun _ => ?_) ?_ hrest
      · cases hfill : gap? s p b.token with
        | none => rfl
        | some g => exact (isGap_of_gap? hfill).2
      intro k hk
      obtain rfl : p.kind = k := by simpa using hk
      refine ⟨fun _ _ hne => absurd hgap hne, fun hp hb _ => ?_⟩
      have hnone : gap? s p b.token = none := gap?_attached s hp hb
      simp [Block.withGap, hnone]
    · exact regaps_cons (heven b (by simp)) (.inl rfl) rfl id (fun k _ => .refl _ _ _) hrest

theorem regaps_fillBlocks (s : Style) {bs : List Block} (heven : ∀ b ∈ bs, b.Even) :
    Regaps none (bs.flatMap Block.pieces) ((fillBlocks s bs).flatMap Block.pieces) := by
  cases bs with
  | nil => exact .nil _
  | cons b bs =>
    rw [fillBlocks, List.flatMap_cons, List.flatMap_cons]
    refine regaps_cons (heven b (by simp)) (.inl rfl) rfl id (by simp) ?_
    exact regaps_fillAfter s (p := b.token) fun x hx => heven x (by simp [hx])

/-! ## All passes -/

theorem even_placeBlocks {d : Dialect} {s : Style} {h : Hand} {bs : List Block}
    (heven : ∀ b ∈ bs, b.Even) : ∀ b ∈ placeBlocks d s h bs, b.Even := by
  induction bs generalizing h with
  | nil => simp [placeBlocks]
  | cons b bs ih =>
    rw [placeBlocks]
    refine List.forall_mem_cons.mpr ⟨?_, ih fun x hx => heven x (by simp [hx])⟩
    intro prev
    have hlast := heven b (by simp) prev
    rw [Block.pieces, lastKind_cons] at hlast ⊢
    rw [h.kind_shown]
    exact hlast

theorem regaps_layBlocks (d : Dialect) {s : Style} (hmark : IsMark s) {bs : List Block}
    (hjoins : ∀ b ∈ bs, b.Joins)
    (hmarks : ∀ b ∈ bs, s.isDelimiter b.token.text = true → b.token.kind = .symbol) :
    Regaps none (bs.flatMap Block.pieces) ((layBlocks d s bs).flatMap Block.pieces) := by
  have hplaced := regaps_placeBlocks (d := d) (h := .start) hmark none hjoins hmarks (by simp)
  have heven : ∀ b ∈ placeBlocks d s .start bs, b.Even := even_placeBlocks fun b hb => (hjoins b hb).even
  exact (hplaced.trans (regaps_compactBlocks none heven)).trans
    (regaps_fillBlocks s (even_compactBlocks heven))

/-- The layout leaves the pieces in place, keeps white space between words, and attaches a value to
the name in front of it when it was. -/
theorem regaps_lay (d : Dialect) {s : Style} (hmark : IsMark s) {ps : List Piece}
    (hmarks : ∀ b ∈ glueBlocks ps, s.isDelimiter b.token.text = true → b.token.kind = .symbol) :
    Regaps none ps (lay d s ps) := by
  have hregaps := regaps_layBlocks d hmark (joins_glueBlocks ps) hmarks
  rwa [flatMap_pieces_glueBlocks] at hregaps

theorem gap_head?_lay {d : Dialect} {s : Style} {ps : List Piece}
    (hfirst : ∀ p ∈ ps.head?, p.gap = []) : ∀ p ∈ (lay d s ps).head?, p.gap = [] :=
  gap_head?_flatMap_pieces (gap_head?_layBlocks (gap_head?_glueBlocks hfirst))

/-- The pieces of the closed form lay out the tokens of the text. -/
theorem laid_lay (d : Dialect) {s : Style} (hmark : IsMark s) (sql : Text) :
    Laid s (tokenize d sql) (lay d s (reduce s (Piece.ofTokens (tokenize d sql)))) := by
  have hregaps := regaps_lay d hmark (marks_glueBlocks d hmark sql)
  refine ⟨?_, hregaps.allBlank ?_, gap_head?_lay (gap_head?_reduce s _)⟩
  · have hsettles := hregaps.settles
    rw [map_token_reduce, List.forall₂_map_left_iff] at hsettles
    exact hsettles.imp fun t t' => shows_of_settles
  · intro p hp
    rcases (spread_reduce d s sql).blank p hp with hgap | hgap
    all_goals
      rw [hgap]
      decide

end SqlLayout.Layout
