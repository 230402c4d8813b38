import SqlLayout.Proofs.Layout.Kept
import SqlLayout.Proofs.Layout.Placement
import SqlLayout.Proofs.Token.Reread

/-!
# Where statements start

A delimiter that the walk visits sends what follows to the outermost level.  A delimiter with a
break in front of it is not visited: the break goes behind it and the level stays.  So the next
statement starts at column 0 unless such a delimiter, outside brackets, takes a break to a deeper
level behind it (`startsOver_iff_overhangs`).
-/

namespace SqlLayout.Layout

/-- What a reader of the tokens knows in front of a token. -/
structure Reader where
  /-- How many brackets are open. -/
  opened : Nat
  /-- Whether a semicolon outside brackets stands right in front. -/
  ended : Bool
  deriving DecidableEq, Repr

namespace Reader

/-- The reader in front of the first token. -/
def start : Reader := ⟨0, false⟩

/-- The reader behind a token; a closing bracket too many closes nothing. -/
def next (r : Reader) (t : Token) : Reader where
  opened :=
    if t.isSymbol ['('] then r.opened + 1
    else if t.isSymbol [')'] then r.opened - 1
    else r.opened
  ended := r.opened == 0 && t.isSymbol [';']

/-- The reader behind some pieces. -/
def past (r : Reader) (ps : List Piece) : Reader := ps.foldl (fun r p => r.next p.token) r

end Reader

/-- Line feeds and nothing else. -/
def isFeeds (text : Text) : Bool := !text.isEmpty && text.all (· == '\n')

/-- Whether behind every semicolon outside brackets only line feeds stand in front of the next
token. -/
def startsOver : Reader → List Piece → Bool
  | _, [] => true
  | r, p :: ps => (!r.ended || isFeeds p.gap) && startsOver (r.next p.token) ps

/-- The level of the line that a token starts behind the empty line of a delimiter: its own break,
or else the level of the empty line. -/
def Hand.lineLevel (d : Dialect) (s : Style) (h : Hand) (rest : List Text) (p : Piece) (level : Int) :
    Int :=
  if s.isDelimiter p.token.text then level else ((h.move d s rest p.gap p.token).here).getD level

/-- Whether the walk, in front of the pieces, meets a delimiter outside brackets that has a break in
front of it, and takes the break to a line behind it that is not at column 0. -/
def overhangs (d : Dialect) (s : Style) : Hand → List Piece → Bool
  | h, p :: q :: ps =>
    h.footing.brackets.isEmpty && (h.skips? s p.token).any (fun level =>
        0 < (h.skip s level p.token).hand.lineLevel d s (ps.map (·.token.text)) q level) ||
      overhangs d s (h.pass d s ((q :: ps).map (·.token.text)) p).hand (q :: ps)
  | _, _ => false

/-! ## Readers -/

section Readers

variable {r : Reader}

theorem Reader.past_append (r : Reader) (ps qs : List Piece) :
    r.past (ps ++ qs) = (r.past ps).past qs := by
  simp [Reader.past]

theorem Reader.past_cons (r : Reader) (p : Piece) (ps : List Piece) :
    r.past (p :: ps) = (r.next p.token).past ps := rfl

@[simp] theorem Reader.past_nil (r : Reader) : r.past [] = r := rfl

theorem startsOver_append (r : Reader) (ps qs : List Piece) :
    startsOver r (ps ++ qs) = (startsOver r ps && startsOver (r.past ps) qs) := by
  induction ps generalizing r with
  | nil => rfl
  | cons p ps ih => rw [List.cons_append, startsOver, startsOver, ih, Reader.past_cons, Bool.and_assoc]

/-- A reader looks at brackets and semicolons. -/
theorem Reader.next_congr (r : Reader) {t t' : Token} (h : ∀ text, t'.isSymbol text = t.isSymbol text) :
    r.next t' = r.next t := by
  simp [Reader.next, h]

theorem isSymbol_of_isSymbol {t : Token} {symbol : Text} (h : t.isSymbol symbol = true) (text : Text) :
    t.isSymbol text = (symbol == text) := by
  simp [Token.isSymbol, kind_of_isSymbol h, text_of_isSymbol h]

theorem Reader.next_of_kind_ne (r : Reader) {t : Token} (h : t.kind ≠ .symbol) :
    r.next t = ⟨r.opened, false⟩ := by
  simp [Reader.next, isSymbol_of_kind_ne h]

/-- Only a semicolon ends a statement. -/
theorem Reader.isSymbol_of_ended {t : Token} (h : (r.next t).ended = true) :
    r.opened = 0 ∧ t.isSymbol [';'] = true := by
  simpa [Reader.next] using h

theorem Reader.past_withGap (r : Reader) (b : Block) (gap : Text) :
    r.past (b.withGap gap).pieces = r.past b.pieces := rfl

theorem startsOver_cons_congr {p p' : Piece} {os os' : List Piece} (hnext : r.next p.token = r.next p'.token)
    (hgap : r.ended = true → isFeeds p.gap = isFeeds p'.gap)
    (hrest : startsOver (r.next p.token) os = startsOver (r.next p.token) os') :
    startsOver r (p :: os) = startsOver r (p' :: os') := by
  rw [startsOver, startsOver, ← hnext, hrest]
  cases hended : r.ended with
  | false => rfl
  | true => rw [hgap hended]

theorem startsOver_withGap (b : Block) (gap : Text) (qs : List Piece)
    (h : r.ended = true → isFeeds gap = isFeeds b.head.gap) :
    startsOver r ((b.withGap gap).pieces ++ qs) = startsOver r (b.pieces ++ qs) := by
  rw [Block.pieces, Block.pieces, List.cons_append, List.cons_append]
  exact startsOver_cons_congr rfl h rfl

/-- Spaces inside a block never follow a semicolon outside brackets. -/
theorem startsOver_more {b : Block} (h : b.Joins) (r : Reader) :
    startsOver (r.next b.head.token) b.more = true := by
  cases h with
  | single p => rfl
  | clause p q pair =>
    rw [r.next_of_kind_ne (by simp [(kinds_of_isClausePair pair).1])]
    rfl
  | mark p q t triple =>
    rcases isMarkTriple_cases triple with ⟨hp, hq, -⟩ | ⟨hp, hq, -⟩
    · simp [startsOver, Reader.next, Token.isSymbol, text_of_isSymbol hp, text_of_isSymbol hq]
    · simp [startsOver, Reader.next, Token.isSymbol, text_of_isSymbol hp, hq]

/-- A compound counts like one token. -/
theorem Reader.past_pieces {b : Block} (h : b.Joins) (r : Reader) :
    r.past b.pieces = r.next b.token := by
  cases h with
  | single p =>
    rw [Block.token_single]
    rfl
  | clause p q pair =>
    obtain ⟨hp, hq⟩ := kinds_of_isClausePair pair
    have hkind : (⟨p, [q]⟩ : Block).token.kind ≠ .symbol := by simp [hp]
    rw [r.next_of_kind_ne hkind]
    simp [Block.pieces, Reader.past_cons, Reader.next_of_kind_ne, hp, hq]
  | mark p q t triple =>
    have hnext : r.next (⟨p, [q, t]⟩ : Block).token = ⟨r.opened, false⟩ := by
      simp [Reader.next, isSymbol_of_isMarkTriple triple]
    rw [hnext]
    rcases isMarkTriple_cases triple with ⟨hp, hq, ht⟩ | ⟨hp, hq, ht⟩
    · simp [Block.pieces, Reader.past_cons, Reader.next, Token.isSymbol, kind_of_isSymbol hp,
        text_of_isSymbol hp, text_of_isSymbol hq, kind_of_isSymbol ht, text_of_isSymbol ht]
    · simp [Block.pieces, Reader.past_cons, Reader.next, Token.isSymbol, text_of_isSymbol hp, hq,
        text_of_isSymbol ht]

theorem startsOver_block {b : Block} (h : b.Joins) (r : Reader) (qs : List Piece) :
    startsOver r (b.pieces ++ qs) =
      ((!r.ended || isFeeds b.head.gap) && startsOver (r.next b.token) qs) := by
  rw [startsOver_append, Reader.past_pieces h, Block.pieces, startsOver, startsOver_more h,
    Bool.and_true]

end Readers

/-! ## The walk -/

theorem Block.Joins.shown {b : Block} (h : b.Joins) (hand : Hand) (gap : Text) :
    (⟨⟨gap, hand.shown b.head.token⟩, b.more⟩ : Block).Joins := by
  cases h with
  | single p => exact .single _
  | clause p q pair =>
    refine .clause _ _ ?_
    rw [hand.shown_of_kind_ne (by simp [(kinds_of_isClausePair pair).1])]
    exact pair
  | mark p q t triple =>
    refine .mark _ _ _ ?_
    rw [hand.shown_of_kind_ne (by simp [(kinds_of_isMarkTriple triple).1])]
    exact triple

section Walk

variable {d : Dialect} {s : Style} {h : Hand}

theorem joins_placeBlocks {bs : List Block} (hjoins : ∀ b ∈ bs, b.Joins) :
    ∀ b ∈ placeBlocks d s h bs, b.Joins := by
  induction bs generalizing h with
  | nil => simp [placeBlocks]
  | cons b bs ih =>
    rw [placeBlocks]
    exact List.forall_mem_cons.mpr ⟨(hjoins b (by simp)).shown h _,
      ih fun x hx => hjoins x (by simp [hx])⟩

theorem isFeeds_append {a b : Text} (ha : a ≠ []) (hb : b ≠ []) :
    isFeeds (a ++ b) = (isFeeds a && isFeeds b) := by
  have ha' : a.isEmpty = false := by simpa using ha
  have hb' : b.isEmpty = false := by simpa using hb
  have hab : (a ++ b).isEmpty = false := by simp [ha]
  simp only [isFeeds, ha', hb', hab, List.all_append, Bool.not_false, Bool.true_and]

/-- A line break is a line feed alone when its level is not positive. -/
theorem isFeeds_lineBreak (s : Style) (level : Int) :
    isFeeds (s.lineBreak level) = decide (level ≤ 0) := by
  have hsize := s.indentSize_pos
  cases hlevel : level.toNat with
  | zero =>
    have hle : level ≤ 0 := by omega
    simp [isFeeds, Style.lineBreak, hlevel, hle]
  | succ n =>
    have hlt : ¬ level ≤ 0 := by omega
    obtain ⟨k, hk⟩ := Nat.exists_eq_add_of_lt hsize
    have hchar : (s.indentKind.char == '\n') = false := by cases s.indentKind <;> decide
    simp [isFeeds, Style.lineBreak, hlevel, hlt, List.replicate_succ, Style.indentUnit, hk, hchar]

/-- The white space in front of a token that follows the empty line of a delimiter. -/
theorem isFeeds_pass_parted {level : Int} (hlead : h.lead = .parted level) (hlast : h.last ≠ none)
    (rest : List Text) (p : Piece) :
    isFeeds (h.pass d s rest p).gap = decide (h.lineLevel d s rest p level ≤ 0) := by
  have hskip : h.skips? s p.token = none := by simp [Hand.skips?, hlead]
  have hshown : h.shown p.token = p.token := by simp [Hand.shown, hlead]
  have hsome : h.last.isNone = false := by
    rwa [Option.isNone_eq_false_iff, Option.isSome_iff_ne_none]
  have hdouble : isFeeds (s.lineBreak level ++ s.lineBreak level) = decide (level ≤ 0) := by
    rw [isFeeds_append (lineBreak_ne_nil s _) (lineBreak_ne_nil s _), isFeeds_lineBreak, Bool.and_self]
  simp only [Hand.pass, hskip, Hand.visit, Hand.gapAfter, Hand.gapBefore, hlead, hshown, hsome,
    Bool.or_false, Hand.lineLevel]
  split
  · exact hdouble
  · cases (h.move d s rest p.gap p.token).here with
    | none => exact hdouble
    | some level' => exact isFeeds_lineBreak s level'

/-- A break in front of a token respects function calls; on the outermost level it goes no deeper. -/
theorem here_moveOf (a : Surroundings) (t : Token) (f : Footing) :
    (moveOf s a t f).here = none ∨ ∃ level, (moveOf s a t f).here = f.breakAt level ∧
      (f.brackets = [] → f.level = 0 → level ≤ 0) := by
  have hseparator : ∀ word, (Move.onSeparator s word f).here = none ∨
      (Move.onSeparator s word f).here = f.breakAt 0 := by
    intro word
    unfold Move.onSeparator
    split
    · exact .inl rfl
    · split
      · exact .inr rfl
      · exact .inl rfl
  have hword : ∀ word, (Move.onWord s word f).here = none := by
    intro word
    unfold Move.onWord
    split <;> rfl
  unfold moveOf
  split
  · unfold Move.onSymbol
    split
    · exact .inl rfl
    · split
      · next hbrackets =>
        split
        · exact .inr ⟨_, rfl, by simp [hbrackets]⟩
        · exact (hseparator _).imp_right fun h => ⟨0, h, by omega⟩
      · exact (hseparator _).imp_right fun h => ⟨0, h, by omega⟩
  · unfold Move.onKeyword
    split
    · exact .inl rfl
    · exact .inr ⟨_, rfl, by omega⟩
    · split
      · exact .inr ⟨_, rfl, by omega⟩
      · exact .inl rfl
    · exact .inr ⟨_, rfl, by omega⟩
    · exact .inr ⟨_, rfl, by omega⟩
    · exact .inl rfl
    · exact .inl rfl
    · exact .inr ⟨_, rfl, by omega⟩
    · exact .inl rfl
    · dsimp only
      split
      · exact .inl rfl
      · exact .inr ⟨_, rfl, by omega⟩
    · exact .inl rfl
  · unfold Move.onComment
    split <;> exact .inl rfl
  · unfold Move.onCommand
    dsimp only
    split
    · exact .inl rfl
    · exact .inr ⟨0, rfl, by omega⟩
  · unfold Move.onName
    split
    · exact .inr ⟨_, rfl, by omega⟩
    · exact .inl (hword _)
  all_goals exact .inl (hword _)

/-- Inside a function call a token keeps the white space in front of it. -/
theorem gap_pass_of_inCall (hcall : h.footing.inCall = true) (hlead : h.lead = .flow)
    (rest : List Text) (p : Piece) : (h.pass d s rest p).gap = p.gap := by
  have hskip : h.skips? s p.token = none := by simp [Hand.skips?, hlead]
  have hhere : (h.move d s rest p.gap p.token).here = none := by
    rw [Hand.move]
    rcases here_moveOf (s := s) (h.around d rest (h.gapBefore s p.gap p.token) (h.shown p.token))
      (h.shown p.token) h.footing with hnone | ⟨level, hhere, -⟩
    · exact hnone
    · simp [hhere, Footing.breakAt, hcall]
  simp [Hand.pass, hskip, Hand.visit, Hand.gapAfter, Hand.gapBefore, hlead, hhere]

/-- On the outermost level no break goes deeper. -/
theorem here_le_of_level (a : Surroundings) (t : Token) {f : Footing} (hbrackets : f.brackets = [])
    (hlevel : f.level = 0) : ∀ level ∈ (moveOf s a t f).here, level ≤ 0 := by
  intro level hmem
  rcases here_moveOf (s := s) a t f with hnone | ⟨level', hhere, hle⟩
  · simp [hnone] at hmem
  · simp only [hhere, Footing.breakAt, Footing.inCall, hbrackets, List.any_nil, Bool.false_eq_true,
      ↓reduceIte, Option.mem_def, Option.some.injEq] at hmem
    exact hmem ▸ hle hbrackets hlevel

theorem lineLevel_le (hbrackets : h.footing.brackets = []) (hlevel : h.footing.level = 0)
    (rest : List Text) (p : Piece) : h.lineLevel d s rest p 0 ≤ 0 := by
  unfold Hand.lineLevel
  split
  · exact Int.le_refl 0
  · have hle := here_le_of_level (s := s) (h.around d rest (h.gapBefore s p.gap p.token)
      (h.shown p.token)) (h.shown p.token) hbrackets hlevel
    rw [Hand.move]
    cases hhere : (moveOf s _ (h.shown p.token) h.footing).here with
    | none => exact Int.le_refl 0
    | some level => exact hle level hhere

/-- Every move opens and closes the brackets that it is made at. -/
theorem brackets_moveOf (a : Surroundings) (t : Token) (f : Footing) :
    (moveOf s a t f).footing.brackets =
      if t.isSymbol ['('] then ⟨a.call, f.level⟩ :: f.brackets
      else if t.isSymbol [')'] then f.brackets.tail
      else f.brackets := by
  have hseparator : ∀ word, (Move.onSeparator s word f).footing.brackets = f.brackets := by
    intro word
    unfold Move.onSeparator
    split
    · rfl
    · split <;> rfl
  have hword : ∀ word, (Move.onWord s word f).footing.brackets = f.brackets := by
    intro word
    unfold Move.onWord
    split <;> rfl
  by_cases hkind : t.kind = .symbol
  · have hopen : Text.upper t.text = ['('] ↔ t.text = ['('] := Text.upper_eq_iff (by decide)
    have hclose : Text.upper t.text = [')'] ↔ t.text = [')'] := Text.upper_eq_iff (by decide)
    simp only [moveOf, hkind, Move.onSymbol, hopen, hclose, Token.isSymbol]
    by_cases hopen' : t.text = ['(']
    · simp [hopen']
    · cases hbrackets : f.brackets with
      | nil => simp [hopen', hseparator, hbrackets]
      | cons b bs =>
        by_cases hclose' : t.text = [')']
        · simp [hclose']
        · simp [hopen', hclose', hseparator, hbrackets]
  · rw [isSymbol_of_kind_ne hkind, isSymbol_of_kind_ne hkind]
    simp only [Bool.false_eq_true, ↓reduceIte]
    unfold moveOf
    split
    · contradiction
    · unfold Move.onKeyword
      split <;> rfl
    · unfold Move.onComment
      split <;> rfl
    · rfl
    · unfold Move.onName
      split
      · rfl
      · exact hword _
    all_goals exact hword _

/-- Every move counts brackets as a reader does. -/
theorem length_brackets_moveOf (a : Surroundings) (t : Token) (f : Footing)
    (ended : Bool) :
    (moveOf s a t f).footing.brackets.length = (Reader.next ⟨f.brackets.length, ended⟩ t).opened := by
  rw [brackets_moveOf, Reader.next]
  split
  · rfl
  · split
    · exact List.length_tail
    · rfl

theorem isSymbol_shown (h : Hand) (t : Token) (text : Text) :
    (h.shown t).isSymbol text = t.isSymbol text := by
  by_cases hkind : t.kind = .comment
  · rw [isSymbol_of_kind_ne (by simp [h.kind_shown, hkind]), isSymbol_of_kind_ne (by simp [hkind])]
  · rw [h.shown_of_kind_ne hkind]

/-- The walk counts brackets as a reader does. -/
theorem length_brackets_pass (hmark : IsMark s) (rest : List Text) (p : Piece) {r : Reader}
    (hopened : r.opened = h.footing.brackets.length) :
    (r.next p.token).opened = (h.pass d s rest p).hand.footing.brackets.length := by
  obtain ⟨opened, ended⟩ := r
  obtain rfl : opened = h.footing.brackets.length := hopened
  cases hskip : h.skips? s p.token with
  | some level =>
    obtain ⟨-, hdelimiter⟩ := Hand.lead_of_skips? hskip
    obtain ⟨hopen, hclose, -⟩ := text_ne_of_isDelimiter hmark hdelimiter
    simp [Hand.pass, hskip, Hand.skip, Reader.next, Token.isSymbol, hopen, hclose]
  | none =>
    simp only [Hand.pass, hskip, Hand.visit, Hand.move]
    rw [length_brackets_moveOf _ _ _ ended, Reader.next_congr _ (isSymbol_shown h p.token)]

/-- Behind the end of a statement stands the empty line of its delimiter. -/
theorem isFeeds_pass_ended (hs : s.delimiter = [';']) {r : Reader} {p : Piece} (q : Piece)
    (rest rest' : List Text) (hopened : r.opened = h.footing.brackets.length)
    (hmarks : s.isDelimiter p.token.text = true → p.token.kind = .symbol) :
    (!(r.next p.token).ended || isFeeds ((h.pass d s rest p).hand.pass d s rest' q).gap) =
      !(h.footing.brackets.isEmpty && (h.skips? s p.token).any fun level =>
        0 < (h.skip s level p.token).hand.lineLevel d s rest' q level) := by
  have hmark : IsMark s := .inl hs
  cases hended : (r.next p.token).ended with
  | false =>
    have hcause : h.footing.brackets.isEmpty = false ∨ h.skips? s p.token = none := by
      by_cases hzero : r.opened = 0
      · refine .inr (Option.eq_none_iff_forall_ne_some.mpr fun level hskip => ?_)
        obtain ⟨-, hdelimiter⟩ := Hand.lead_of_skips? hskip
        have htext : p.token.text = [';'] := by
          rw [(isDelimiter_iff hmark _).mp hdelimiter, hs]
        simp [Reader.next, hzero, Token.isSymbol, hmarks hdelimiter, htext] at hended
      · refine .inl ?_
        have hne : h.footing.brackets ≠ [] := by
          rwa [ne_eq, ← List.length_eq_zero_iff, ← hopened]
        simpa using hne
    rcases hcause with hcause | hcause <;> simp [hcause]
  | true =>
    obtain ⟨hzero, hsemicolon⟩ := Reader.isSymbol_of_ended hended
    have hbrackets : h.footing.brackets = [] := by
      rw [← List.length_eq_zero_iff, ← hopened, hzero]
    have hdelimiter : s.isDelimiter p.token.text = true := by
      rw [isDelimiter_iff hmark, hs, text_of_isSymbol hsemicolon]
    cases hskip : h.skips? s p.token with
    | some level =>
      have hpass : (h.pass d s rest p).hand = (h.skip s level p.token).hand := by
        simp only [Hand.pass, hskip]
      have hlead : (h.skip s level p.token).hand.lead = .parted level := rfl
      rw [hpass, isFeeds_pass_parted hlead (by simp [Hand.skip])]
      simp [hbrackets, ← decide_not]
    | none =>
      have hkind : p.token.kind = .symbol := kind_of_isSymbol hsemicolon
      have hshown : h.shown p.token = p.token := h.shown_of_kind_ne (by simp [hkind])
      have hmove : h.move d s rest p.gap p.token =
          ⟨some 0, none, { h.footing with level := 0 }⟩ := by
        rw [Hand.move, hshown, moveOf_delimiter hmark _ _ hkind hdelimiter]
        simp [Footing.breakAt, Footing.inCall, hbrackets]
      have hlead : (h.pass d s rest p).hand.lead = .parted 0 := by
        simp only [Hand.pass, hskip, Hand.visit, hmove, hshown, Hand.leadBehind, hdelimiter,
          ↓reduceIte, Option.elim_some]
      have hfooting : (h.pass d s rest p).hand.footing = { h.footing with level := 0 } := by
        simp only [Hand.pass, hskip, Hand.visit, hmove]
      rw [isFeeds_pass_parted hlead (by simp [Hand.pass, hskip, Hand.visit])]
      have hlevel := lineLevel_le (d := d) (s := s) (h := (h.pass d s rest p).hand)
        (by rw [hfooting, hbrackets]) (by rw [hfooting]) rest' q
      simp [hlevel]

/-- What the walk leaves behind a token starts over unless a break overhangs. -/
theorem startsOver_placeBlocks_next (hs : s.delimiter = [';']) {b : Block} {bs : List Block}
    {r : Reader} (hjoins : ∀ c ∈ bs, c.Joins)
    (hmarks : ∀ c ∈ b :: bs, s.isDelimiter c.token.text = true → c.token.kind = .symbol)
    (hopened : r.opened = h.footing.brackets.length) :
    startsOver (r.next b.token) ((placeBlocks d s
        (h.pass d s (bs.map (·.token.text)) b.piece).hand bs).flatMap Block.pieces) =
      !overhangs d s h ((b :: bs).map Block.piece) := by
  induction bs generalizing b h r with
  | nil => rfl
  | cons c bs ih =>
    have htexts : (bs.map Block.piece).map (·.token.text) = bs.map (·.token.text) := by simp
    have hfirst := isFeeds_pass_ended (d := d) (p := b.piece) hs c.piece
      ((c :: bs).map (·.token.text)) (bs.map (·.token.text)) hopened (hmarks b (by simp))
    have hopened' := length_brackets_pass (d := d) (.inl hs) ((c :: bs).map (·.token.text)) b.piece
      hopened
    have hrest := ih (b := c) (fun x hx => hjoins x (by simp [hx]))
      (fun x hx => hmarks x (by simp [hx])) hopened'
    have hc := (hjoins c (by simp)).shown
    rw [placeBlocks, List.flatMap_cons, startsOver_block (hc _ _), token_shown _ _ (hjoins c (by simp)).plain,
      Reader.next_congr _ (isSymbol_shown _ c.token)]
    rw [Block.piece_token] at hrest hfirst
    rw [hrest, hfirst]
    conv_rhs => rw [List.map_cons, List.map_cons, overhangs, htexts, Bool.not_or]
    simp only [List.map_cons, Block.piece_token, htexts]
    rfl

theorem startsOver_placeBlocks (hs : s.delimiter = [';']) {bs : List Block}
    (hjoins : ∀ b ∈ bs, b.Joins)
    (hmarks : ∀ b ∈ bs, s.isDelimiter b.token.text = true → b.token.kind = .symbol) :
    startsOver .start ((placeBlocks d s .start bs).flatMap Block.pieces) =
      !overhangs d s .start (bs.map Block.piece) := by
  cases bs with
  | nil => rfl
  | cons b bs =>
    have hb := hjoins b (by simp)
    rw [placeBlocks, List.flatMap_cons, startsOver_block (hb.shown _ _), token_shown _ _ hb.plain,
      Reader.next_congr _ (isSymbol_shown _ b.token),
      startsOver_placeBlocks_next hs (fun x hx => hjoins x (by simp [hx])) hmarks rfl]
    rfl

end Walk

/-! ## Bracket pairs and blanks -/

/-- A block ends a statement only as one token. -/
def Block.Solo (b : Block) : Prop := ∀ r : Reader, (r.past b.pieces).ended = true → b.more = []

theorem Block.Joins.solo {b : Block} (h : b.Joins) : b.Solo := by
  intro r hended
  rw [Reader.past_pieces h] at hended
  exact h.more_of_isSymbol (Reader.isSymbol_of_ended hended).2

/-- A block that is one token and ends a statement is a semicolon outside brackets. -/
theorem Block.Solo.of_ended {b : Block} (h : b.Solo) {r : Reader} (hended : (r.past b.pieces).ended = true) :
    r.opened = 0 ∧ b.token.isSymbol [';'] = true := by
  have hmore := h r hended
  obtain ⟨p, more⟩ := b
  obtain rfl : more = [] := hmore
  rw [Block.token_single]
  exact Reader.isSymbol_of_ended hended

theorem Block.pieces_enclose (a c e : Block) :
    (a.enclose c e).pieces = a.pieces ++ ((c.withGap []).pieces ++ (e.withGap []).pieces) := by
  simp [Block.enclose, Block.pieces]

theorem Block.Solo.enclose {a c e : Block} (he : e.Solo) (hclose : e.token.isSymbol [')'] = true) :
    (a.enclose c e).Solo := by
  intro r hended
  rw [Block.pieces_enclose, Reader.past_append, Reader.past_append, Reader.past_withGap,
    Reader.past_withGap] at hended
  have htext := text_of_isSymbol (he.of_ended hended).2
  rw [text_of_isSymbol hclose] at htext
  cases htext

/-- What follows an opening bracket ends no statement. -/
theorem Block.Solo.not_ended {c : Block} (hc : c.Solo) {r : Reader} (hr : r.opened ≠ 0) :
    (r.past c.pieces).ended = false := by
  cases hended : (r.past c.pieces).ended with
  | false => rfl
  | true => exact absurd (hc.of_ended hended).1 hr

theorem startsOver_compactFrontBlocks {a : Block} {bs : List Block} (ha : a.Joins)
    (hsolo : ∀ b ∈ bs, b.Solo) (r : Reader) :
    startsOver r ((compactFrontBlocks (a :: bs)).flatMap Block.pieces) =
      startsOver r ((a :: bs).flatMap Block.pieces) := by
  match bs with
  | [] | [_] => rfl
  | c :: e :: bs =>
    rw [compactFrontBlocks]
    split
    · next henclosed =>
      simp only [isEnclosed, Bool.and_eq_true] at henclosed
      -- neither gap that is dropped stands behind a semicolon outside brackets
      have hopen : r.past a.pieces = ⟨r.opened + 1, false⟩ := by
        rw [Reader.past_pieces ha]
        simp [Reader.next, henclosed.1.1.1, isSymbol_of_isSymbol henclosed.1.1.1]
      have hclose : ((r.past a.pieces).past c.pieces).ended = false :=
        (hsolo c (by simp)).not_ended (by simp [hopen])
      simp only [List.flatMap_cons, Block.pieces_enclose, List.append_assoc, startsOver_append r a.pieces]
      rw [startsOver_withGap c [] _ (by simp [hopen]), startsOver_append _ c.pieces,
        startsOver_append _ c.pieces, startsOver_withGap e [] _ (by simp [hclose])]
    · rfl

theorem solo_compactBlocks {bs : List Block} (hsolo : ∀ b ∈ bs, b.Solo) :
    ∀ b ∈ compactBlocks bs, b.Solo := by
  refine forall_compactBlocks hsolo fun a c e _ _ he henclosed => ?_
  simp only [isEnclosed, Bool.and_eq_true] at henclosed
  exact he.enclose henclosed.2

theorem startsOver_compactBlocks {bs : List Block} (hjoins : ∀ b ∈ bs, b.Joins) (r : Reader) :
    startsOver r ((compactBlocks bs).flatMap Block.pieces) = startsOver r (bs.flatMap Block.pieces) := by
  induction bs generalizing r with
  | nil => rfl
  | cons b bs ih =>
    have hrest : ∀ x ∈ bs, x.Joins := fun x hx => hjoins x (by simp [hx])
    rw [compactBlocks, startsOver_compactFrontBlocks (hjoins b (by simp))
      (solo_compactBlocks fun x hx => (hrest x hx).solo), List.flatMap_cons, List.flatMap_cons,
      startsOver_append, startsOver_append, ih hrest]

/-- A blank behind a semicolon is as good as nothing. -/
theorem isFeeds_gap? (s : Style) {p : Token} (hp : p.kind = .symbol) (t : Token) :
    isFeeds ((gap? s p t).getD []) = false := by
  unfold gap?
  simp only [hp, reduceCtorEq, ↓reduceIte]
  repeat' split
  all_goals rfl

theorem startsOver_fillAfter (s : Style) {p : Token} {bs : List Block} {r : Reader}
    (hsolo : ∀ b ∈ bs, b.Solo) (hended : r.ended = true → p.kind = .symbol) :
    startsOver r ((fillAfter s p bs).flatMap Block.pieces) = startsOver r (bs.flatMap Block.pieces) := by
  induction bs generalizing p r with
  | nil => rfl
  | cons b bs ih =>
    have hrest := ih (p := b.token) (r := r.past b.pieces) (fun x hx => hsolo x (by simp [hx]))
      fun hended => kind_of_isSymbol ((hsolo b (by simp)).of_ended hended).2
    rw [fillAfter, List.flatMap_cons, List.flatMap_cons, startsOver_append r b.pieces, ← hrest,
      ← startsOver_append]
    split
    · next hempty =>
      have hgap : b.head.gap = [] := by simpa using hempty
      refine startsOver_withGap b _ _ fun hr => ?_
      rw [isFeeds_gap? s (hended hr), hgap]
      rfl
    · rfl

theorem startsOver_fillBlocks (s : Style) {bs : List Block} (hsolo : ∀ b ∈ bs, b.Solo) (r : Reader) :
    startsOver r ((fillBlocks s bs).flatMap Block.pieces) = startsOver r (bs.flatMap Block.pieces) := by
  cases bs with
  | nil => rfl
  | cons b bs =>
    rw [fillBlocks, List.flatMap_cons, List.flatMap_cons, startsOver_append, startsOver_append,
      startsOver_fillAfter s (fun x hx => hsolo x (by simp [hx]))
        fun hended => kind_of_isSymbol ((hsolo b (by simp)).of_ended hended).2]

/-! ## Layouts -/

theorem startsOver_lay (d : Dialect) {s : Style} (hs : s.delimiter = [';']) {ps : List Piece}
    (hmarks : ∀ b ∈ glueBlocks ps, s.isDelimiter b.token.text = true → b.token.kind = .symbol) :
    startsOver .start (lay d s ps) = !overhangs d s .start ((glueBlocks ps).map Block.piece) := by
  have hjoins : ∀ b ∈ placeBlocks d s .start (glueBlocks ps), b.Joins :=
    joins_placeBlocks (joins_glueBlocks ps)
  rw [lay, startsOver_fillBlocks s (solo_compactBlocks fun b hb => (hjoins b hb).solo),
    startsOver_compactBlocks hjoins, startsOver_placeBlocks hs (joins_glueBlocks ps) hmarks]

/-- Tokens that write pieces have these pieces. -/
theorem Writes.ofTokens {ps : List Piece} {ts : List Token} (h : Writes ps ts) :
    Piece.ofTokens ts = ps := by
  rw [Piece.ofTokens]
  induction h with
  | nil => rfl
  | @cons p ps gs ts gap visible solid rest ih =>
    have htail : ∀ g, Piece.ofTokensAfter g (p.token :: ts) = ⟨g, p.token⟩ :: ps := by
      intro g
      rw [Piece.ofTokensAfter_visible visible, ih]
    rcases gap with ⟨hgap, rfl⟩ | ⟨-, t, ht, htext, rfl⟩
    · rw [List.nil_append, htail, ← hgap]
    · rw [List.singleton_append, Piece.ofTokensAfter_space ht, List.nil_append, htail, htext]

/-- The walk gets the tokens of the glued blocks. -/
theorem visible_normalize (d : Dialect) (s : Style) (sql : Text) :
    Token.visible (normalize s (tokenize d sql)) =
      (glueBlocks (reduce s (Piece.ofTokens (tokenize d sql)))).map Block.token := by
  rw [← Piece.map_token_ofTokensAfter [], ← Piece.ofTokens, (writes_glueBlocks d s sql).ofTokens,
    List.map_map]
  rfl

theorem Shows.kind_eq {s : Style} {t t' : Token} (h : Shows s t t') : t'.kind = t.kind := by
  obtain ⟨text, -, rfl⟩ := h
  rfl

theorem Shows.isSymbol {s : Style} {t t' : Token} (h : Shows s t t') (text : Text) :
    t'.isSymbol text = t.isSymbol text := by
  obtain ⟨shown, hshown, rfl⟩ := h
  by_cases hkind : t.kind = .symbol
  · have hline : Layout.isLineComment t = false := isLineComment_of_kind_ne (by simp [hkind])
    simp only [shownTexts, hkind, reduceCtorEq, ↓reduceIte, hline, Bool.false_eq_true,
      List.mem_singleton] at hshown
    rw [hshown]
    rfl
  · rw [isSymbol_of_kind_ne hkind, isSymbol_of_kind_ne (by simpa [Token.withText] using hkind)]

theorem ShownAlike.isSymbol {s : Style} {t t' : Token} (h : ShownAlike s t t') (text : Text) :
    t'.isSymbol text = t.isSymbol text := by
  obtain ⟨u, ht, ht'⟩ := h
  exact (ht'.isSymbol text).trans (ht.isSymbol text).symm

/-- Whether statements start over depends on the symbols and on the text between starts of tokens. -/
theorem startsOver_congr {s : Style} {os os' : List Piece} (r : Reader) (h : SameSpans (ShownAlike s) os os')
    (hfirst : r.ended = true → os.head?.map Piece.gap = os'.head?.map Piece.gap) :
    startsOver r os = startsOver r os' := by
  induction h generalizing r with
  | nil => rfl
  | single tokens =>
    exact startsOver_cons_congr (r.next_congr tokens.isSymbol).symm
      (fun hended => congrArg isFeeds (by simpa using hfirst hended)) rfl
  | cons tokens text _ ih =>
    refine startsOver_cons_congr (r.next_congr tokens.isSymbol).symm
      (fun hended => congrArg isFeeds (by simpa using hfirst hended)) (ih _ ?_)
    -- a semicolon is shown as it is, so what follows it is white space only
    intro hended
    have hsemicolon := (Reader.isSymbol_of_ended hended).2
    rw [text_of_isSymbol hsemicolon,
      text_of_isSymbol ((tokens.isSymbol _).trans hsemicolon)] at text
    simpa using text

/-- Every text has a layout, and wherever one finds the tokens of the text in it: behind each
semicolon outside brackets nothing but line feeds stands in front of the next token, exactly when
the scan over the tokens meets no break that a delimiter takes to a deeper level. -/
theorem startsOver_iff_overhangs (d : Dialect) (s : Style) (hs : s.delimiter = [';']) (sql : Text) :
    ∃ out, format d s sql = some out ∧
      (∃ os, Laid s (tokenize d sql) os ∧ out = keepFinalNewline sql (Piece.render os)) ∧
      ∀ os, Laid s (tokenize d sql) os → out = keepFinalNewline sql (Piece.render os) →
        (startsOver .start os = true ↔
          overhangs d s .start (Piece.ofTokens (normalize s (tokenize d sql))) = false) := by
  have hmark : IsMark s := .inl hs
  have hlaid := laid_lay d hmark sql
  refine ⟨_, format_eq d hmark sql, ⟨_, hlaid, rfl⟩, ?_⟩
  intro os hos hsame
  rw [startsOver_congr .start (hos.sameSpans hlaid hsame.symm) (by simp [Reader.start]),
    startsOver_lay d hs (marks_glueBlocks d hmark sql), (writes_glueBlocks d s sql).ofTokens,
    Bool.not_eq_true']

/-- A statement behind a value starts over. -/
theorem startsOver_iff_overhangs_value :
    ∃ out os, format .standard .default "1;2".toList = some out ∧
      Laid .default (tokenize .standard "1;2".toList) os ∧
      out = keepFinalNewline "1;2".toList (Piece.render os) ∧ startsOver .start os = true := by
  obtain ⟨out, hout, ⟨os, hlaid, hsame⟩, hiff⟩ :=
    startsOver_iff_overhangs .standard .default rfl "1;2".toList
  exact ⟨out, os, hout, hlaid, hsame, (hiff os hlaid hsame).mpr (by decide +kernel)⟩

/-- Behind a block comment and a semicolon the next statement keeps the level of the last one. -/
theorem not_startsOver_comment :
    ∃ out os, format .standard .default "select 1 /* c */;2".toList = some out ∧
      Laid .default (tokenize .standard "select 1 /* c */;2".toList) os ∧
      out = keepFinalNewline "select 1 /* c */;2".toList (Piece.render os) ∧
      startsOver .start os = false := by
  have hrest : Lexer.tokenizeFrom .standard 6 " 1 /* c */;2".toList =
      [⟨.space, [' '], 6⟩, ⟨.value, ['1'], 7⟩, ⟨.space, [' '], 8⟩, ⟨.comment, "/* c */".toList, 9⟩,
        ⟨.symbol, [';'], 16⟩, ⟨.value, ['2'], 17⟩] := by decide +kernel
  have hstops : ∀ c ∈ " 1 /* c */;2".toList.head?, Lexer.isWordChar c = false := by
    intro c hc
    obtain rfl : ' ' = c := Option.some.inj hc
    decide
  have htokens : tokenize .standard ("select".toList ++ " 1 /* c */;2".toList) = _ :=
    Lexer.tokenize_keyword ⟨⟨'s', by decide, by decide⟩, by decide⟩
      ((Dialect.isSome_classify_standard _).mpr ⟨"SELECT", by decide +kernel, by decide +kernel⟩)
      hstops
  rw [show Text.byteSize "select".toList = 6 from rfl, hrest] at htokens
  rw [format, show "select 1 /* c */;2".toList = "select".toList ++ " 1 /* c */;2".toList from rfl,
    htokens]
  exact ⟨"SELECT\n    1 /* c */;\n    \n    2".toList,
    [⟨[], .keyword, "SELECT".toList, 0⟩, ⟨"\n    ".toList, .value, ['1'], 7⟩,
      ⟨[' '], .comment, "/* c */".toList, 9⟩, ⟨[], .symbol, [';'], 16⟩,
      ⟨"\n    \n    ".toList, .value, ['2'], 17⟩], by decide +kernel⟩

end SqlLayout.Layout
