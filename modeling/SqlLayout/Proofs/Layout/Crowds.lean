import SqlLayout.Proofs.Layout.Tightened

/-!
# Where brackets crowd

What the walk puts in front of brackets is known from the brackets that are open, so a scan over the
tokens tells where three of them crowd (`crowds_eq_crowded`).  The walk outside function calls puts a
break behind every opening bracket, hence settles a comment there (`settled_place`).
-/

namespace SqlLayout.Layout

/-- Whether the walk, outside function calls, meets a bracket pair with nothing in it that stands right
behind an opening bracket or in front of a closing bracket which closes something. -/
def crowds (d : Dialect) (s : Style) : Hand → List Piece → Bool
  | h, p :: q :: r :: ps =>
    let behind := (h.pass d s ((q :: r :: ps).map (·.token.text)) p).hand
    let inner := (behind.pass d s ((r :: ps).map (·.token.text)) q).hand
    p.token.isSymbol ['('] && r.token.isSymbol [')'] && !behind.footing.inCall &&
        (q.token.isSymbol ['('] && !inner.footing.inCall ||
          q.token.isSymbol [')'] && !h.footing.brackets.isEmpty) ||
      crowds d s behind (q :: r :: ps)
  | _, _ => false

/-! ## Placed pieces -/

section Place

variable {d : Dialect} {s : Style}

/-- The placed pieces fall into those in front and what the walk makes of the others from there on. -/
theorem exists_place_append (h : Hand) (ps qs : List Piece) :
    ∃ outer, place d s h (ps ++ qs) = outer ++ place d s (h.past d s ps qs) qs ∧
      List.Forall₂ Settles (ps.map Piece.token) (outer.map Piece.token) := by
  induction ps generalizing h with
  | nil => exact ⟨[], rfl, .nil⟩
  | cons p ps ih =>
    obtain ⟨outer, hplace, hsettles⟩ := ih (h.pass d s ((ps ++ qs).map (·.token.text)) p).hand
    refine ⟨⟨(h.pass d s ((ps ++ qs).map (·.token.text)) p).gap, h.shown p.token⟩ :: outer, ?_,
      .cons (settles_shown h p.token) hsettles⟩
    rw [List.cons_append, place, hplace]
    rfl

theorem length_place (h : Hand) (ps : List Piece) : (place d s h ps).length = ps.length := by
  induction ps generalizing h with
  | nil => rfl
  | cons p ps ih => simp [place, ih]

theorem Block.piece_ofPiece (p : Piece) : (ofPiece p).piece = p := by
  simp [piece, ofPiece, token, Token.withText]

/-- The walk takes blocks of one piece for their pieces. -/
theorem placeBlocks_ofPiece (h : Hand) (ps : List Piece) :
    placeBlocks d s h (ps.map .ofPiece) = (place d s h ps).map .ofPiece := by
  induction ps generalizing h with
  | nil => rfl
  | cons p ps ih =>
    have hpiece := Block.piece_ofPiece p
    have htexts : (ps.map Block.ofPiece).map (·.token.text) = ps.map (·.token.text) := by simp
    rw [List.map_cons, placeBlocks, hpiece, htexts, ih, place]
    rfl

/-- A split of the placed pieces is one of the pieces. -/
theorem exists_of_place_eq_append {h : Hand} {ps front back : List Piece} {a : Piece}
    (hplace : place d s h ps = front ++ a :: back) :
    ∃ outer p rest, ps = outer ++ p :: rest ∧ outer.length = front.length ∧
      a :: back = place d s (h.past d s outer (p :: rest)) (p :: rest) := by
  have hlength : front.length < ps.length := by
    rw [← length_place (d := d) (s := s) h ps, hplace]
    simp
  have hsplit : ps.take front.length ++ ps[front.length] :: ps.drop (front.length + 1) = ps := by
    rw [List.getElem_cons_drop, List.take_append_drop]
  obtain ⟨outer, houter, hsettles⟩ := exists_place_append (d := d) (s := s) h (ps.take front.length)
    (ps[front.length] :: ps.drop (front.length + 1))
  rw [hsplit, hplace] at houter
  have hlength' : front.length = outer.length := by
    simpa [Nat.le_of_lt hlength] using hsettles.length_eq
  exact ⟨_, _, _, hsplit.symm, by simp [Nat.le_of_lt hlength], (List.append_inj houter hlength').2⟩

end Place

/-! ## Gaps next to brackets -/

section Gaps

variable {d : Dialect} {s : Style} {h : Hand}

/-- Outside function calls the walk breaks behind an opening bracket. -/
theorem lead_pass_open (hmark : IsMark s) (rest : List Text) {p : Piece}
    (hp : p.token.isSymbol ['('] = true) :
    (h.pass d s rest p).hand.lead =
      if (h.pass d s rest p).hand.footing.inCall then .flow else .line (h.footing.level + 1) := by
  have hopen : isOpenComment p.token = false := by
    simp [isOpenComment, isLineComment_of_kind_ne, kind_of_isSymbol hp]
  simp only [pass_of_bracket hmark _ _ (.inl hp), Hand.visit, Hand.move, shown_of_bracket _ (.inl hp),
    moveOf_open _ hp, Hand.leadBehind, isDelimiter_of_bracket hmark (.inl hp), Footing.breakAt, hopen,
    Bool.false_eq_true, ↓reduceIte]
  split <;> rfl

theorem lead_pass_close (hmark : IsMark s) (rest : List Text) {p : Piece}
    (hp : p.token.isSymbol [')'] = true) : (h.pass d s rest p).hand.lead = .flow := by
  have hopen : isOpenComment p.token = false := by
    simp [isOpenComment, isLineComment_of_kind_ne, kind_of_isSymbol hp]
  have hnext : (h.move d s rest p.gap p.token).next = none := by
    rw [Hand.move, shown_of_bracket _ (.inr hp)]
    cases hbrackets : h.footing.brackets with
    | nil => rw [moveOf_close_nil hmark _ hp hbrackets]; rfl
    | cons b bs => rw [moveOf_close _ hp hbrackets]
  simp [pass_of_bracket hmark _ _ (.inr hp), Hand.visit, Hand.leadBehind, shown_of_bracket _ (.inr hp),
    isDelimiter_of_bracket hmark (.inr hp), hnext, hopen]

theorem last_pass_ne_none (rest : List Text) (p : Piece) : (h.pass d s rest p).hand.last ≠ none := by
  unfold Hand.pass
  split <;> simp [Hand.skip, Hand.visit]

/-- A closing bracket gets a break when it closes something and no function call is open. -/
theorem isEmpty_gap_close (hmark : IsMark s) (hlast : h.last ≠ none) (hlead : h.lead = .flow)
    (rest : List Text) {p : Piece} (hp : p.token.isSymbol [')'] = true) (hgap : p.gap = []) :
    (h.pass d s rest p).gap.isEmpty = (h.footing.brackets.isEmpty || h.footing.inCall) := by
  have hsome : h.last.isNone = false := by
    rwa [Option.isNone_eq_false_iff, Option.isSome_iff_ne_none]
  simp only [pass_of_bracket hmark _ _ (.inr hp), Hand.visit, Hand.move, shown_of_bracket _ (.inr hp),
    Hand.gapAfter, isDelimiter_of_bracket hmark (.inr hp), hsome, Hand.gapBefore, hlead, hgap]
  cases hbrackets : h.footing.brackets with
  | nil => simp [moveOf_close_nil hmark _ hp hbrackets, Move.stay]
  | cons b bs =>
    have hne := lineBreak_ne_nil s b.level
    cases hcall : h.footing.inCall <;> simp [moveOf_close _ hp hbrackets, Footing.breakAt, hcall, hne]

/-- Behind an opening bracket a bracket gets a break unless a function call is open. -/
theorem isEmpty_gap_behind_open (hmark : IsMark s) (rest rest' : List Text) {p q : Piece}
    (hp : p.token.isSymbol ['('] = true) (hq : isBracket q.token = true) (hgap : q.gap = []) :
    ((h.pass d s rest p).hand.pass d s rest' q).gap.isEmpty =
      (h.pass d s rest p).hand.footing.inCall := by
  have hlast := last_pass_ne_none (d := d) (s := s) (h := h) rest p
  have hlead := lead_pass_open (d := d) (h := h) hmark rest hp
  have hbrackets := brackets_pass (d := d) (h := h) hmark rest p
  rw [if_pos hp] at hbrackets
  generalize (h.pass d s rest p).hand = k at hlast hlead hbrackets ⊢
  have hsome : k.last.isNone = false := by
    rwa [Option.isNone_eq_false_iff, Option.isSome_iff_ne_none]
  simp only [isBracket, Bool.or_eq_true] at hq
  cases hcall : k.footing.inCall with
  | true =>
    rw [hcall, if_pos rfl] at hlead
    rw [gap_pass_of_inCall hcall hlead, hgap]
    rfl
  | false =>
    rw [hcall, if_neg (by simp)] at hlead
    have hline : breakText (s.lineBreak (h.footing.level + 1)) q.token =
        s.lineBreak (h.footing.level + 1) := by
      refine breakText_of_kind_ne ?_
      rcases hq with hq | hq <;> simp [kind_of_isSymbol hq]
    simp only [pass_of_bracket hmark _ _ hq, Hand.visit, Hand.move, shown_of_bracket _ hq, Hand.gapAfter,
      isDelimiter_of_bracket hmark hq, hsome, Hand.gapBefore, hlead, hline]
    rcases hq with hq | hq
    · simp [moveOf_open _ hq, lineBreak_ne_nil]
    · simp [moveOf_close _ hq hbrackets, Footing.breakAt, hcall, lineBreak_ne_nil]

/-- Behind an opening bracket a comment with white space in front of it has been settled. -/
theorem settle_shown_behind_open (hmark : IsMark s) (rest rest' : List Text) {p q : Piece}
    (hp : p.token.isSymbol ['('] = true) (hgap : q.gap = [])
    (hplaced : ((h.pass d s rest p).hand.pass d s rest' q).gap ≠ []) :
    settle ((h.pass d s rest p).hand.shown q.token) = (h.pass d s rest p).hand.shown q.token := by
  by_cases hkind : q.token.kind = .comment
  · have hlead := lead_pass_open (d := d) (h := h) hmark rest hp
    generalize (h.pass d s rest p).hand = k at hplaced hlead ⊢
    cases hcall : k.footing.inCall with
    | true =>
      rw [hcall, if_pos rfl] at hlead
      rw [gap_pass_of_inCall hcall hlead, hgap] at hplaced
      exact absurd rfl hplaced
    | false =>
      rw [hcall, if_neg (by simp)] at hlead
      simp [Hand.shown, hlead, settle_settle]
  · exact settle_of_kind_ne (by rwa [Hand.kind_shown])

end Gaps

/-! ## Crowds of placed pieces -/

section Crowds

variable {d : Dialect} {s : Style} {h : Hand}

theorem settled_place (hmark : IsMark s) {ps : List Piece} (hneat : Neat s ps) :
    (place d s h ps).IsChain fun p q => p.token.isSymbol ['('] = true → q.gap ≠ [] →
      settle q.token = q.token := by
  induction ps generalizing h with
  | nil => exact .nil
  | cons p ps ih =>
    rw [place, List.isChain_cons]
    refine ⟨fun q hq hp hgap => ?_, ih hneat.tail⟩
    cases ps with
    | nil => simp [place] at hq
    | cons r ps =>
      obtain rfl := Option.some.inj hq
      have hp' : p.token.isSymbol ['('] = true := by rwa [isSymbol_shown] at hp
      exact settle_shown_behind_open hmark _ _ hp'
        (hneat.gap_head? (absorbsSpace_of_isSymbol hp') r (by simp)) hgap

/-- What the scan finds are the crowds of the placed pieces. -/
theorem isCrowd_place (hmark : IsMark s) {p q r : Piece} (hq : isBracket q.token = true → q.gap = [])
    (hr : r.token.isSymbol [')'] = true → r.gap = []) (rest rest' rest'' : List Text) :
    isCrowd ⟨(h.pass d s rest p).gap, h.shown p.token⟩
      ⟨((h.pass d s rest p).hand.pass d s rest' q).gap, (h.pass d s rest p).hand.shown q.token⟩
      ⟨(((h.pass d s rest p).hand.pass d s rest' q).hand.pass d s rest'' r).gap,
        ((h.pass d s rest p).hand.pass d s rest' q).hand.shown r.token⟩ =
      (p.token.isSymbol ['('] && r.token.isSymbol [')'] && !(h.pass d s rest p).hand.footing.inCall &&
        (q.token.isSymbol ['('] && !((h.pass d s rest p).hand.pass d s rest' q).hand.footing.inCall ||
          q.token.isSymbol [')'] && !h.footing.brackets.isEmpty)) := by
  simp only [isCrowd, isBracket, isEnclosed_ofPiece, isSymbol_shown]
  cases hp : p.token.isSymbol ['('] with
  | false => simp
  | true =>
    cases hclose : r.token.isSymbol [')'] with
    | false => simp
    | true =>
      have hr := hr hclose
      have hr' : isBracket r.token = true := by simp [isBracket, hclose]
      cases hopen : q.token.isSymbol ['('] with
      | true =>
        have hq' : isBracket q.token = true := by simp [isBracket, hopen]
        rw [isEmpty_gap_behind_open hmark rest rest' hp hq' (hq hq'),
          isEmpty_gap_behind_open hmark rest' rest'' hopen hr' hr]
        simp [isSymbol_of_isSymbol hopen]
      | false =>
        cases hclose' : q.token.isSymbol [')'] with
        | false => simp
        | true =>
          have hq' : isBracket q.token = true := by simp [isBracket, hclose']
          have hbehind := brackets_pass (d := d) (h := h) hmark rest p
          rw [if_pos hp] at hbehind
          have hinner := brackets_pass (d := d) (h := (h.pass d s rest p).hand) hmark rest' q
          rw [hopen, if_neg (by simp), if_pos hclose', hbehind, List.tail_cons] at hinner
          rw [isEmpty_gap_behind_open hmark rest rest' hp hq' (hq hq'), isEmpty_gap_close hmark
            (last_pass_ne_none rest' q) (lead_pass_close hmark rest' hclose') rest'' hclose hr, hinner]
          cases hcall : (h.pass d s rest p).hand.footing.inCall with
          | true => simp
          | false =>
            have houter : ((h.pass d s rest p).hand.pass d s rest' q).hand.footing.inCall = false := by
              rw [Footing.inCall, hbehind, List.any_cons, Bool.or_eq_false_iff] at hcall
              rw [Footing.inCall, hinner]
              exact hcall.2
            simp [houter]

theorem crowds_eq_crowded (hmark : IsMark s) {ps : List Piece} (hneat : Neat s ps) :
    crowds d s h ps = crowded (place d s h ps) := by
  induction ps generalizing h with
  | nil => rfl
  | cons p ps ih =>
    match ps with
    | [] | [_] => rfl
    | q :: r :: ps =>
      have hrest := ih (h := (h.pass d s ((q :: r :: ps).map (·.token.text)) p).hand) hneat.tail
      have hq : isBracket q.token = true → q.gap = [] := by
        intro hbracket
        simp only [isBracket, Bool.or_eq_true] at hbracket
        exact hneat.tight q (by simp) (hbracket.elim absorbsSpace_of_isSymbol absorbsSpace_of_isSymbol)
      have hr : r.token.isSymbol [')'] = true → r.gap = [] :=
        fun hclose => hneat.tight r (by simp) (absorbsSpace_of_isSymbol hclose)
      have hcrowd := isCrowd_place (d := d) (h := h) hmark (p := p) hq hr
        ((q :: r :: ps).map (·.token.text)) ((r :: ps).map (·.token.text)) (ps.map (·.token.text))
      rw [crowds, hrest, ← hcrowd]
      rfl

end Crowds

end SqlLayout.Layout
