import SqlLayout.Proofs.Layout.Statements

/-!
# The shape of white space in a layout

White space in a layout is one blank, one line break, or the empty line behind a delimiter
(`GapShape`).  The walk puts every break in front of a token anew, and the empty line only where it
has just passed the delimiter; joining bracket pairs takes white space away, and the blanks that are
filled in go where there is none.  So every pass on blocks keeps the shapes, and the tokens of a
layout show them (`gapShape_arrange`).
-/

namespace SqlLayout.Layout

/-- `GapShape s p text`: the white space `text` may stand behind the token `p`. -/
inductive GapShape (s : Style) (p : Token) : Text → Prop
  | blank : GapShape s p [' ']
  | line (k : Nat) : GapShape s p (s.lineBreak k)
  | parted (k : Nat) (delimiter : p.isSymbol [';'] = true) :
      GapShape s p (s.lineBreak k ++ s.lineBreak k)

/-- Behind the piece `p`, the white space of `q` has one of the shapes, if there is any. -/
def Shapely (s : Style) (p q : Piece) : Prop := q.gap = [] ∨ GapShape s p.token q.gap

/-! ## Levels -/

section Shapes

variable {s : Style} {p p' : Token}

/-- A negative level counts as none. -/
theorem lineBreak_toNat (s : Style) (level : Int) : s.lineBreak level.toNat = s.lineBreak level := by
  simp only [Style.lineBreak, Int.toNat_natCast]

theorem GapShape.lineBreak (s : Style) (p : Token) (level : Int) :
    GapShape s p (s.lineBreak level) := by
  rw [← lineBreak_toNat]
  exact .line _

theorem GapShape.breakText (s : Style) (p : Token) (level : Int) (t : Token) :
    GapShape s p (breakText (s.lineBreak level) t) := by
  unfold Layout.breakText
  split
  · exact .blank
  · exact .lineBreak s p level

theorem GapShape.emptyLine (level : Int) (delimiter : p.isSymbol [';'] = true) :
    GapShape s p (s.lineBreak level ++ s.lineBreak level) := by
  rw [← lineBreak_toNat]
  exact .parted _ delimiter

/-- Only the empty line depends on the token in front of it. -/
theorem GapShape.imp {text : Text} (h : GapShape s p text)
    (hdelimiter : p.isSymbol [';'] = true → p'.isSymbol [';'] = true) : GapShape s p' text := by
  cases h with
  | blank => exact .blank
  | line k => exact .line k
  | parted k delimiter => exact .parted k (hdelimiter delimiter)

theorem GapShape.of_gap? {p t : Token} {g : Text} (h : gap? s p t = some g) : GapShape s p g := by
  have hfeed : GapShape s p ['\n'] := .lineBreak s p 0
  unfold gap? at h
  repeat' split at h
  all_goals simp only [Option.some.injEq, reduceCtorEq] at h
  all_goals subst h
  · exact hfeed
  · exact .blank

end Shapes

/-! ## The walk -/

section Walk

variable {d : Dialect} {s : Style} {h : Hand}

/-- The empty line is put behind a delimiter only. -/
def Hand.PartsBehind (h : Hand) : Prop :=
  ∀ level, h.lead = .parted level → ∃ p ∈ h.last, p.isSymbol [';'] = true

theorem partsBehind_pass (hs : s.delimiter = [';']) (rest : List Text) {p : Piece}
    (hmarks : s.isDelimiter p.token.text = true → p.token.kind = .symbol) :
    (h.pass d s rest p).hand.PartsBehind := by
  have hmark : IsMark s := .inl hs
  have hsemicolon : s.isDelimiter p.token.text = true → p.token.isSymbol [';'] = true := by
    intro hdelimiter
    have htext := (isDelimiter_iff hmark _).mp hdelimiter
    simp [Token.isSymbol, hmarks hdelimiter, htext, hs]
  intro level hlead
  cases hskip : h.skips? s p.token with
  | some level' =>
    refine ⟨p.token, ?_, hsemicolon (Hand.lead_of_skips? hskip).2⟩
    simp [Hand.pass, hskip, Hand.skip]
  | none =>
    simp only [Hand.pass, hskip, Hand.visit] at hlead ⊢
    refine ⟨h.shown p.token, rfl, ?_⟩
    rw [isSymbol_shown]
    refine hsemicolon ?_
    rw [← Hand.isDelimiter_shown hmark h]
    -- the lead of a token that is no delimiter is never an empty line
    by_contra hother
    rw [Hand.leadBehind, if_neg hother] at hlead
    cases hnext : (h.move d s rest p.gap p.token).next with
    | some level' => simp [hnext] at hlead
    | none =>
      rw [hnext] at hlead
      cases hopen : isOpenComment (h.shown p.token) <;> simp [hopen] at hlead

/-- The walk carries the token that it has just passed. -/
theorem last_pass (rest : List Text) {p : Piece}
    (hmarks : s.isDelimiter p.token.text = true → p.token.kind = .symbol) :
    (h.pass d s rest p).hand.last = some (h.shown p.token) := by
  unfold Hand.pass
  split
  · next level hskip =>
    have hkind := hmarks (Hand.lead_of_skips? hskip).2
    rw [h.shown_of_kind_ne (by simp [hkind])]
    rfl
  · rfl

/-- What stands in front of a token when the walk gets there has one of the shapes. -/
theorem gapShape_gapBefore {p t : Token} {gap : Text} (hparts : h.PartsBehind)
    (hlast : h.last = some p) (hgap : gap = [] ∨ gap = [' ']) :
    h.gapBefore s gap t = [] ∨ GapShape s p (h.gapBefore s gap t) := by
  have hkeep : gap = [] ∨ GapShape s p gap := by
    rcases hgap with rfl | rfl
    · exact .inl rfl
    · exact .inr .blank
  unfold Hand.gapBefore
  split
  · exact hkeep
  · exact .inr (.breakText s p _ t)
  · next level hlead =>
    obtain ⟨p', hp', hsemicolon⟩ := hparts level hlead
    obtain rfl : p = p' := by simpa [hlast] using hp'
    exact .inr (.emptyLine level hsemicolon)
  · split
    · exact hkeep
    · exact .inr (.breakText s p _ t)

/-- What the walk leaves in front of a token has one of the shapes. -/
theorem gapShape_pass {p : Token} {q : Piece} (hparts : h.PartsBehind) (hlast : h.last = some p)
    (hgap : q.gap = [] ∨ q.gap = [' ']) (rest : List Text) :
    (h.pass d s rest q).gap = [] ∨ GapShape s p (h.pass d s rest q).gap := by
  have hbefore := gapShape_gapBefore (s := s) (t := q.token) hparts hlast hgap
  unfold Hand.pass
  split
  · exact .inl rfl
  · simp only [Hand.visit, Hand.gapAfter]
    split
    · exact hbefore
    · cases (h.move d s rest q.gap q.token).here with
      | none => exact hbefore
      | some level => exact .inr (.lineBreak s p level)

/-- The walk keeps the shapes: behind the token it carries and from each placed block to the next. -/
theorem shapely_placeBlocks (hs : s.delimiter = [';']) {bs : List Block} {gap : Text} {p : Token}
    (hparts : h.PartsBehind) (hlast : h.last = some p) (hjoins : ∀ b ∈ bs, b.Joins)
    (hmarks : ∀ b ∈ bs, s.isDelimiter b.token.text = true → b.token.kind = .symbol)
    (hgaps : ∀ b ∈ bs, b.head.gap = [] ∨ b.head.gap = [' ']) :
    (⟨gap, p⟩ :: (placeBlocks d s h bs).map Block.piece).IsChain (Shapely s) := by
  induction bs generalizing h gap p with
  | nil => exact .singleton _
  | cons b bs ih =>
    have hb := hjoins b (by simp)
    have hb' := hmarks b (by simp)
    have hshown := token_shown h (h.pass d s (bs.map (·.token.text)) b.piece).gap hb.plain
    rw [placeBlocks, List.map_cons, List.isChain_cons_cons, Block.piece, hshown]
    exact ⟨gapShape_pass (q := b.piece) hparts hlast (hgaps b (by simp)) _,
      ih (partsBehind_pass (p := b.piece) hs _ hb') (last_pass (p := b.piece) _ hb')
        (fun x hx => hjoins x (by simp [hx]))
        (fun x hx => hmarks x (by simp [hx])) fun x hx => hgaps x (by simp [hx])⟩

/-- The whole walk keeps the shapes. -/
theorem shapely_placeBlocks_start (hs : s.delimiter = [';']) {bs : List Block}
    (hjoins : ∀ b ∈ bs, b.Joins)
    (hmarks : ∀ b ∈ bs, s.isDelimiter b.token.text = true → b.token.kind = .symbol)
    (hgaps : ∀ b ∈ bs, b.head.gap = [] ∨ b.head.gap = [' ']) :
    ((placeBlocks d s .start bs).map Block.piece).IsChain (Shapely s) := by
  cases bs with
  | nil => exact .nil
  | cons b bs =>
    have hb' := hmarks b (by simp)
    rw [placeBlocks, List.map_cons, Block.piece, token_shown .start _ (hjoins b (by simp)).plain]
    exact shapely_placeBlocks hs (partsBehind_pass (p := b.piece) hs _ hb')
      (last_pass (p := b.piece) _ hb')
        (fun x hx => hjoins x (by simp [hx]))
      (fun x hx => hmarks x (by simp [hx])) fun x hx => hgaps x (by simp [hx])

end Walk

/-! ## Bracket pairs and blanks -/

section Passes

variable {s : Style}

/-- The shapes behind a token that is no delimiter may stand behind any token. -/
theorem isChain_shapely_congr {p p' : Piece} {ps : List Piece}
    (hdelimiter : p.token.isSymbol [';'] = true → p'.token.isSymbol [';'] = true)
    (h : (p :: ps).IsChain (Shapely s)) : (p' :: ps).IsChain (Shapely s) := by
  rw [List.isChain_cons] at h ⊢
  exact ⟨fun q hq => (h.1 q hq).imp_right fun hshape => hshape.imp hdelimiter, h.2⟩

theorem shapely_compactFrontBlocks {bs : List Block} (h : (bs.map Block.piece).IsChain (Shapely s)) :
    ((compactFrontBlocks bs).map Block.piece).IsChain (Shapely s) := by
  match bs with
  | [] | [_] | [_, _] => exact h
  | a :: c :: e :: bs =>
    rw [compactFrontBlocks]
    split
    · next henclosed =>
      simp only [isEnclosed, Bool.and_eq_true] at henclosed
      refine isChain_shapely_congr (p := e.piece) (fun hsemicolon => ?_) h.tail.tail
      have htext := text_of_isSymbol hsemicolon
      rw [Block.piece_token, text_of_isSymbol henclosed.2] at htext
      cases htext
    · exact h

theorem shapely_compactBlocks {bs : List Block} (h : (bs.map Block.piece).IsChain (Shapely s)) :
    ((compactBlocks bs).map Block.piece).IsChain (Shapely s) := by
  induction bs with
  | nil => exact .nil
  | cons b bs ih =>
    rw [compactBlocks]
    refine shapely_compactFrontBlocks ?_
    rw [List.map_cons, List.isChain_cons] at h ⊢
    refine ⟨fun q hq => ?_, ih h.2⟩
    -- the first block keeps its gap
    have hfirst := gap_head?_compactBlocks bs
    rw [List.head?_map] at hq
    obtain ⟨c, hc, rfl⟩ := Option.map_eq_some_iff.mp hq
    rw [hc, Option.map_some] at hfirst
    obtain ⟨c', hc', hgap⟩ := Option.map_eq_some_iff.mp hfirst.symm
    have hshape := h.1 c'.piece (by rw [List.head?_map, hc']; rfl)
    rwa [Shapely, Block.piece_gap, hgap] at hshape

theorem shapely_fillAfter {p : Piece} {bs : List Block}
    (h : (p :: bs.map Block.piece).IsChain (Shapely s)) :
    (p :: (fillAfter s p.token bs).map Block.piece).IsChain (Shapely s) := by
  induction bs generalizing p with
  | nil => exact h
  | cons b bs ih =>
    rw [List.map_cons, List.isChain_cons_cons] at h
    have hrest := ih h.2
    rw [fillAfter, List.map_cons, List.isChain_cons_cons]
    split
    · refine ⟨?_, isChain_shapely_congr (p := b.piece) id hrest⟩
      cases hfill : gap? s p.token b.token with
      | none => exact .inl rfl
      | some g => exact .inr (.of_gap? hfill)
    · exact ⟨h.1, hrest⟩

theorem shapely_fillBlocks {bs : List Block} (h : (bs.map Block.piece).IsChain (Shapely s)) :
    ((fillBlocks s bs).map Block.piece).IsChain (Shapely s) := by
  cases bs with
  | nil => exact .nil
  | cons b bs => exact shapely_fillAfter (p := b.piece) h

end Passes

/-! ## Tokens -/

namespace Writes

variable {ps : List Piece} {ts : List Token}

/-- Tokens that write pieces end with a visible one. -/
theorem isSpace_getLast? (h : Writes ps ts) : ∀ t ∈ ts.getLast?, t.isSpace = false := by
  induction h with
  | nil => simp
  | @cons p ps gs ts gap visible solid rest ih =>
    intro t ht
    rw [List.getLast?_append, List.getLast?_cons] at ht
    cases hlast : ts.getLast? with
    | none =>
      obtain rfl : p.token = t := by simpa [hlast] using ht
      exact visible
    | some last =>
      obtain rfl : last = t := by simpa [hlast] using ht
      exact ih last hlast

/-- Tokens that write pieces without white space in front have none at the ends. -/
theorem framed (h : Writes ps ts) (hfirst : ∀ p ∈ ps.head?, p.gap = []) : Framed ts := by
  refine ⟨?_, h.isSpace_getLast?⟩
  cases h with
  | nil => simp
  | @cons p ps gs ts gap visible solid rest =>
    rw [hfirst p (by simp)] at gap
    obtain rfl := gap.eq_nil
    simpa using visible

/-- What holds of the gaps of pieces holds of the white space tokens that write them. -/
theorem isChain_gaps_behind {R : Token → Text → Prop} (h : Writes ps ts) {p : Piece}
    (hp : p.token.isSpace = false) (hchain : (p :: ps).IsChain fun p q => q.gap = [] ∨ R p.token q.gap) :
    (p.token :: ts).IsChain fun p t => t.isSpace = true → p.isSpace = false ∧ R p t.text := by
  induction h generalizing p with
  | nil => exact .singleton _
  | @cons q ps gs ts gap visible solid rest ih =>
    rw [List.isChain_cons_cons] at hchain
    have hrest := ih visible hchain.2
    rcases gap with ⟨-, rfl⟩ | ⟨hgap, g, hg, htext, rfl⟩
    · exact List.isChain_cons_cons.mpr ⟨by simp [visible], hrest⟩
    · have hshape := hchain.1.resolve_left hgap
      rw [← htext] at hshape
      exact List.isChain_cons_cons.mpr ⟨fun _ => ⟨hp, hshape⟩,
        List.isChain_cons_cons.mpr ⟨by simp [visible], hrest⟩⟩

theorem isChain_gaps {R : Token → Text → Prop} (h : Writes ps ts)
    (hchain : ps.IsChain fun p q => q.gap = [] ∨ R p.token q.gap)
    (hfirst : ∀ p ∈ ps.head?, p.gap = []) :
    ts.IsChain fun p t => t.isSpace = true → p.isSpace = false ∧ R p t.text := by
  cases h with
  | nil => exact .nil
  | @cons p ps gs ts gap visible solid rest =>
    rw [hfirst p (by simp)] at gap
    obtain rfl := gap.eq_nil
    exact rest.isChain_gaps_behind visible hchain

end Writes

/-- The tokens of a layout neither begin nor end with white space and never have two white space
tokens in a row.  Each white space token is one blank, or a line feed with some levels of indentation
behind it, or, right behind a semicolon, this line break twice. -/
theorem gapShape_arrange (d : Dialect) (s : Style) (hs : s.delimiter = [';']) (sql : Text) :
    ∃ ts, arrange d s (tokenize d sql) = some ts ∧ Framed ts ∧ Spaced ts ∧
      ts.IsChain fun p t => t.isSpace = true → GapShape s p t.text := by
  have hmark : IsMark s := .inl hs
  obtain ⟨ts, harrange, hwrites⟩ := exists_arrange d hmark sql
  have hshapely :
      ((layBlocks d s (glueBlocks (reduce s (Piece.ofTokens (tokenize d sql))))).map Block.piece).IsChain
        (Shapely s) :=
    shapely_fillBlocks (shapely_compactBlocks (shapely_placeBlocks_start hs (joins_glueBlocks _)
      (marks_glueBlocks d hmark sql) (blank_glueBlocks d s sql)))
  have hfirst := gap_head?_layBlocks (d := d) (s := s)
    (gap_head?_glueBlocks (gap_head?_reduce s (Piece.ofTokens (tokenize d sql))))
  generalize layBlocks d s (glueBlocks (reduce s (Piece.ofTokens (tokenize d sql)))) = bs
    at hwrites hshapely hfirst
  have hfirst' : ∀ p ∈ (bs.map Block.piece).head?, p.gap = [] := by
    simpa [List.head?_map] using hfirst
  have hchain := hwrites.isChain_gaps hshapely hfirst'
  refine ⟨ts, harrange, hwrites.framed hfirst', ?_, ?_⟩
  · exact hchain.imp fun p t h hp => by_contra fun ht => by simp_all
  · exact hchain.imp fun p t h ht => (h ht).2

/-- A block comment ends its line, and the statements are apart. -/
theorem gapShape_arrange_statements :
    ∃ ts, arrange .standard .default (tokenize .standard "1 /* c */ 2;3".toList) = some ts ∧
      ts.map Token.text = ["1".toList, [' '], "/* c */".toList, ['\n'], "2".toList, ";".toList,
        ['\n', '\n'], "3".toList] ∧
      Framed ts ∧ Spaced ts ∧ ts.IsChain fun p t => t.isSpace = true → GapShape .default p t.text := by
  obtain ⟨ts, harrange, hshape⟩ := gapShape_arrange .standard .default rfl "1 /* c */ 2;3".toList
  have htexts : (arrange .standard .default (tokenize .standard "1 /* c */ 2;3".toList)).map
      (·.map Token.text) = some ["1".toList, [' '], "/* c */".toList, ['\n'], "2".toList, ";".toList,
        ['\n', '\n'], "3".toList] := by decide +kernel
  rw [harrange] at htexts
  exact ⟨ts, harrange, Option.some.inj htexts, hshape⟩

end SqlLayout.Layout
