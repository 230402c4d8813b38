import SqlLayout.Proofs.Layout.Aligned

/-!
# White space that joined brackets leave

A piece that stands behind another piece of its block is tucked: it has no white space in front of it.  All
other pieces keep what the walk put there (`getElem?_pieces_compactBlocks`, `getElem?_pieces_fillBlocks`),
and a token that is no bracket is tucked only right between two brackets (`exists_brackets_of_tucks`).
-/

namespace SqlLayout.Layout

/-! ## Pieces that are not tucked -/

theorem Block.length_pieces (b : Block) : b.pieces.length = b.tucks.length := by
  simp [tucks, pieces]

/-- All pieces of a block but the first are tucked. -/
theorem Block.getElem?_tucks (b : Block) {k : Nat} (hk : k ≠ 0) (hlt : k < b.tucks.length) :
    b.tucks[k]? = some true := by
  obtain ⟨k, rfl⟩ := Nat.exists_eq_succ_of_ne_zero hk
  have hmore : k < b.more.length := by simpa [tucks] using hlt
  simp [tucks, hmore]

theorem Block.length_tucks_enclose (p : Piece) (c e : Block) :
    ((ofPiece p).enclose c e).tucks.length = c.tucks.length + e.tucks.length + 1 := by
  simp [tucks_enclose, ofPiece]

/-- A piece that is not tucked when the pair at the front is joined was not tucked before, and stays as it
is. -/
theorem getElem?_pieces_compactFrontBlocks (p : Piece) {bs : List Block} {k : Nat}
    (h : ((compactFrontBlocks (.ofPiece p :: bs)).flatMap Block.tucks)[k + 1]? = some false) :
    (bs.flatMap Block.tucks)[k]? = some false ∧
      ((compactFrontBlocks (.ofPiece p :: bs)).flatMap Block.pieces)[k + 1]? =
        (bs.flatMap Block.pieces)[k]? := by
  match bs with
  | [] | [_] => exact ⟨h, rfl⟩
  | c :: e :: bs =>
    rw [compactFrontBlocks] at h ⊢
    split at h
    · next henclosed =>
      have hpair := Block.length_tucks_enclose p c e
      rw [if_pos henclosed]
      simp only [List.flatMap_cons, ← List.append_assoc] at h ⊢
      rw [List.getElem?_append, hpair] at h
      split at h
      · next hlt =>
        simp [Block.tucks_enclose, Block.ofPiece, Nat.lt_of_succ_lt_succ hlt] at h
      · next hge =>
        -- what is behind the pair is one place further on than it was without the bracket in front
        rw [Nat.add_sub_add_right] at h
        rw [List.getElem?_append_right (by simp; omega),
          List.getElem?_append_right (by simp [Block.length_pieces]; omega),
          List.getElem?_append_right (by simp [Block.length_pieces]; omega)]
        refine ⟨by simpa using h, ?_⟩
        simp [Block.length_pieces, hpair]
    · next henclosed =>
      rw [if_neg henclosed]
      exact ⟨h, rfl⟩

/-- The first piece stays the first one. -/
theorem exists_compactFrontBlocks (p : Piece) (bs : List Block) :
    ∃ b cs, compactFrontBlocks (.ofPiece p :: bs) = b :: cs ∧ b.head = p := by
  match bs with
  | [] | [_] => exact ⟨_, _, rfl, rfl⟩
  | c :: e :: bs =>
    rw [compactFrontBlocks]
    split <;> exact ⟨_, _, rfl, rfl⟩

/-- A piece that is not tucked stays as it is. -/
theorem getElem?_pieces_compactBlocks {qs : List Piece} {k : Nat}
    (h : ((compactBlocks (qs.map .ofPiece)).flatMap Block.tucks)[k]? = some false) :
    ((compactBlocks (qs.map .ofPiece)).flatMap Block.pieces)[k]? = qs[k]? := by
  induction qs generalizing k with
  | nil => rfl
  | cons p qs ih =>
    rw [List.map_cons, compactBlocks] at h ⊢
    cases k with
    | zero =>
      obtain ⟨b, cs, hblocks, hb⟩ := exists_compactFrontBlocks p (compactBlocks (qs.map .ofPiece))
      simp [hblocks, Block.pieces, hb]
    | succ k =>
      obtain ⟨hrest, hsame⟩ := getElem?_pieces_compactFrontBlocks p h
      rw [hsame, ih hrest, List.getElem?_cons_succ]

theorem getElem?_pieces_fillAfter (s : Style) (p : Token) {bs : List Block} {k : Nat} {q : Piece}
    (hq : (bs.flatMap Block.pieces)[k]? = some q) (hgap : q.gap ≠ []) :
    ((fillAfter s p bs).flatMap Block.pieces)[k]? = some q := by
  induction bs generalizing p k with
  | nil => simp at hq
  | cons b bs ih =>
    rw [List.flatMap_cons] at hq
    rw [fillAfter, List.flatMap_cons]
    have hlength : (if b.head.gap.isEmpty then b.withGap ((gap? s p b.token).getD []) else b).pieces.length =
        b.pieces.length := by
      split <;> rfl
    rw [List.getElem?_append] at hq ⊢
    rw [hlength]
    split at hq
    · next hlt =>
      rw [if_pos hlt]
      cases k with
      | zero =>
        obtain rfl : b.head = q := by simpa [Block.pieces] using hq
        simp [hgap, Block.pieces]
      | succ k => split <;> exact hq
    · next hge =>
      rw [if_neg hge]
      exact ih _ hq

/-- Nothing is put where there is white space. -/
theorem getElem?_pieces_fillBlocks (s : Style) {bs : List Block} {k : Nat} {q : Piece}
    (hq : (bs.flatMap Block.pieces)[k]? = some q) (hgap : q.gap ≠ []) :
    ((fillBlocks s bs).flatMap Block.pieces)[k]? = some q := by
  cases bs with
  | nil => exact hq
  | cons b bs =>
    rw [List.flatMap_cons, List.getElem?_append] at hq
    rw [fillBlocks, List.flatMap_cons, List.getElem?_append]
    split at hq
    · next hlt => rwa [if_pos hlt]
    · next hge =>
      rw [if_neg hge]
      exact getElem?_pieces_fillAfter s _ hq hgap

/-! ## Tucked pieces -/

/-- Blocks of more than one piece start with a bracket. -/
theorem opens_compactBlocks (qs : List Piece) :
    ∀ b ∈ compactBlocks (qs.map .ofPiece), b.more ≠ [] → b.head.token.isSymbol ['('] = true := by
  refine forall_compactBlocks (by simp [Block.ofPiece]) fun a c e ha _ _ henclosed _ => ?_
  simp only [isEnclosed, Bool.and_eq_true] at henclosed
  show a.head.token.isSymbol ['('] = true
  by_cases hmore : a.more = []
  · obtain ⟨p, more⟩ := a
    obtain rfl : more = [] := hmore
    rw [← Block.token_ofPiece p]
    exact henclosed.1.1.1
  · exact ha hmore

/-- A piece that is tucked when the pair at the front is joined was tucked before, or starts one of the two
blocks behind the bracket. -/
theorem cases_tucks_compactFrontBlocks {p : Piece} {bs : List Block} {k : Nat}
    (h : ((compactFrontBlocks (.ofPiece p :: bs)).flatMap Block.tucks)[k + 1]? = some true) :
    (bs.flatMap Block.tucks)[k]? = some true ∨
      ∃ c e rest, bs = c :: e :: rest ∧ isEnclosed (.ofPiece p) c e = true ∧
        (k = 0 ∨ k = c.tucks.length) := by
  match bs with
  | [] | [_] => exact .inl h
  | c :: e :: bs =>
    rw [compactFrontBlocks] at h
    split at h
    · next henclosed =>
      by_cases hk : k = 0 ∨ k = c.tucks.length
      · exact .inr ⟨c, e, bs, rfl, henclosed, hk⟩
      · left
        rw [not_or] at hk
        rw [List.flatMap_cons, List.getElem?_append, Block.length_tucks_enclose] at h
        rw [List.flatMap_cons, List.flatMap_cons, List.getElem?_append, List.getElem?_append]
        split
        · next hlt => exact c.getElem?_tucks hk.1 hlt
        · next hge =>
          split
          · next hlt => exact e.getElem?_tucks (by omega) hlt
          · next hge' =>
            rw [if_neg (by omega)] at h
            rw [← h]
            congr 1
            omega
    · exact .inl h

/-- A block that reads as a closing bracket is one. -/
theorem isSymbol_head_of_close {b : Block} (hopens : b.more ≠ [] → b.head.token.isSymbol ['('] = true)
    (hclose : b.token.isSymbol [')'] = true) : b.more = [] ∧ b.head.token.isSymbol [')'] = true := by
  have hmore : b.more = [] := by
    by_contra hmore
    have htext := text_of_isSymbol hclose
    rw [Block.text_token, text_of_isSymbol (hopens hmore)] at htext
    cases htext
  obtain ⟨p, more⟩ := b
  obtain rfl : more = [] := hmore
  exact ⟨rfl, Block.token_ofPiece p ▸ hclose⟩

theorem map_token_compactBlocks_ofPiece (qs : List Piece) :
    ((compactBlocks (qs.map .ofPiece)).flatMap Block.pieces).map Piece.token = qs.map Piece.token := by
  rw [map_token_compactBlocks]
  simp [List.flatMap_map, Block.pieces, Block.ofPiece]

/-- A token that is no bracket is tucked right between two brackets only, and then the closing bracket is
tucked as well. -/
theorem exists_brackets_of_tucks {front back : List Piece} {q : Piece} (hq : isBracket q.token = false)
    (h : ((compactBlocks ((front ++ q :: back).map .ofPiece)).flatMap Block.tucks)[front.length]? =
      some true) :
    ∃ outer a e rest, front = outer ++ [a] ∧ back = e :: rest ∧ a.token.isSymbol ['('] = true ∧
      e.token.isSymbol [')'] = true ∧
      ((compactBlocks ((front ++ q :: back).map .ofPiece)).flatMap Block.tucks)[front.length + 1]? =
        some true := by
  induction front with
  | nil =>
    obtain ⟨b, cs, hblocks, -⟩ := exists_compactFrontBlocks q (compactBlocks (back.map .ofPiece))
    simp [compactBlocks, hblocks, Block.tucks] at h
  | cons p front ih =>
    rw [List.cons_append, List.map_cons, compactBlocks, List.length_cons] at h ⊢
    rcases cases_tucks_compactFrontBlocks h with h | ⟨c, e, rest, hblocks, henclosed, hk⟩
    · obtain ⟨outer, a, e, rest, rfl, rfl, ha, he, htucked⟩ := ih h
      exact ⟨p :: outer, a, e, rest, rfl, rfl, ha, he, getElem?_tucks_compactFrontBlocks p htucked⟩
    · have htokens := map_token_compactBlocks_ofPiece (front ++ q :: back)
      have hopens := opens_compactBlocks (front ++ q :: back)
      rw [hblocks] at htokens hopens ⊢
      have hjoin := henclosed
      simp only [isEnclosed, Bool.and_eq_true, Block.token_ofPiece] at hjoin
      obtain ⟨⟨⟨hp, -⟩, -⟩, hclose⟩ := hjoin
      obtain ⟨-, he⟩ := isSymbol_head_of_close (hopens e (by simp)) hclose
      rcases hk with hk | hk
      · -- the token is all that the pair at the front holds
        obtain rfl := List.eq_nil_of_length_eq_zero hk
        have hc : c.more = [] := by
          by_contra hmore
          have hq' : c.head.token = q.token := by simpa [Block.pieces] using congrArg List.head? htokens
          simp [isBracket, ← hq', hopens c (by simp) hmore] at hq
        simp only [List.flatMap_cons, Block.pieces, hc, List.cons_append, List.nil_append, List.map_cons,
          List.cons.injEq] at htokens
        obtain ⟨e', rest', rfl, he', -⟩ := List.map_eq_cons_iff.mp htokens.2.symm
        refine ⟨[], p, e', rest', rfl, rfl, hp, he' ▸ he, ?_⟩
        have hlong : 2 < ((Block.ofPiece p).enclose c e).tucks.length := by
          rw [Block.length_tucks_enclose]
          simp only [Block.tucks, List.length_cons]
          omega
        simp only [List.length_nil, compactFrontBlocks, if_pos henclosed, List.flatMap_cons]
        rw [List.getElem?_append_left hlong]
        exact Block.getElem?_tucks _ (by simp) hlong
      · -- the token would be the closing bracket of that pair
        have hlength : (c.pieces.map Piece.token).length = (front.map Piece.token).length := by
          simp [Block.length_pieces, hk]
        rw [List.flatMap_cons, List.map_append, List.map_append] at htokens
        have hbehind := List.append_inj_right htokens hlength
        simp only [List.flatMap_cons, Block.pieces, List.cons_append, List.map_cons,
          List.cons.injEq] at hbehind
        simp [isBracket, ← hbehind.1, he] at hq

/-! ## Layouts -/

/-- A layout keeps the white space that the walk put in front of a token that is no bracket, unless it shows
the token between two brackets, with no white space on either side. -/
theorem kept_or_between {d : Dialect} {s : Style} {ps front back : List Piece} {q : Piece}
    (hplace : place d s .start ps = front ++ q :: back) (hq : isBracket q.token = false)
    (hgap : q.gap ≠ []) :
    (layGlued d s ps)[front.length]? = some q ∨
      ∃ outer a e rest, front = outer ++ [a] ∧ back = e :: rest ∧ a.token.isSymbol ['('] = true ∧
        e.token.isSymbol [')'] = true ∧ (spans (layGlued d s ps))[outer.length]? = some a.token.text ∧
        (spans (layGlued d s ps))[front.length]? = some q.token.text := by
  have hblocks := @exists_brackets_of_tucks front back q hq
  rw [← hplace] at hblocks
  have hlt : front.length <
      ((compactBlocks ((place d s .start ps).map .ofPiece)).flatMap Block.tucks).length := by
    have htokens := congrArg List.length (map_token_compactBlocks_ofPiece (place d s .start ps))
    simp only [List.length_map, List.length_flatMap, Block.length_pieces] at htokens
    rw [List.length_flatMap, htokens, hplace]
    simp
  cases htucked :
    ((compactBlocks ((place d s .start ps).map .ofPiece)).flatMap Block.tucks)[front.length] with
  | true =>
    have htucked : _ = some true := (List.getElem?_eq_getElem hlt).trans (congrArg some htucked)
    obtain ⟨outer, a, e, rest, rfl, rfl, ha, he, hclosing⟩ := hblocks htucked
    rw [List.length_append, List.length_singleton] at htucked
    refine .inr ⟨outer, a, e, rest, rfl, rfl, ha, he, ?_, getElem?_spans_of_tucks hplace hclosing⟩
    have hplace : place d s .start ps = outer ++ a :: q :: e :: rest := by simpa using hplace
    exact getElem?_spans_of_tucks hplace htucked
  | false =>
    have hkept := getElem?_pieces_compactBlocks ((List.getElem?_eq_getElem hlt).trans (congrArg some htucked))
    rw [hplace, List.getElem?_append_right (Nat.le_refl _), Nat.sub_self] at hkept
    left
    rw [layGlued, layBlocks, placeBlocks_ofPiece, hplace]
    exact getElem?_pieces_fillBlocks s hkept hgap

end SqlLayout.Layout
