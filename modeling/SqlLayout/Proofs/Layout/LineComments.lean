import SqlLayout.Proofs.Layout.Normalized

/-!
# What follows a line comment

A line comment loses its line feed when a break stands in front of it, and gets it back from the
break behind it.  Two places fail to give it back: the break in front of a second line comment is
one blank, and a bracket pair around the comment is compacted.  `swallows` finds them in a scan over
the tokens, and what the walk leaves closes every comment exactly when there are none
(`Walked.closes_iff`).
-/

namespace SqlLayout.Layout

/-- Behind every line comment, and before the next token, there is a line feed. -/
def EndsLines (os : List Piece) : Prop :=
  os.IsChain fun p q => isLineComment p.token = true → '\n' ∈ p.token.text ++ q.gap

instance (os : List Piece) : Decidable (EndsLines os) :=
  inferInstanceAs (Decidable (os.IsChain _))

/-- Whether a scan that has reached `σ` meets a line comment that swallows what follows it: its line
was ended in front of it, and next comes another line comment, or it stands alone between
brackets. -/
def swallows (d : Dialect) (s : Style) : Scan → List Token → Bool
  | _, [] => false
  | σ, x :: us =>
    (isLineComment x && σ.mood == .ended && us.head?.any isLineComment) ||
      (x.isSymbol ['('] && (σ.next d s x).mood == .ended && us.head?.any isLineComment &&
        us.tail.head?.any (·.isSymbol [')'])) ||
      swallows d s (σ.next d s x) us

/-! ## Token lists -/

/-- The white space in front of the first token that is not white space, if there is one. -/
def gapOf? : List Token → Option Text
  | [] => none
  | t :: ts => if t.isSpace then (gapOf? ts).map (t.text ++ ·) else some []

/-- Behind every line comment, and before the next token, there is a line feed. -/
def LinesEnd : List Token → Prop
  | [] => True
  | t :: ts => (isLineComment t = true → ∀ g ∈ gapOf? ts, '\n' ∈ t.text ++ g) ∧ LinesEnd ts

theorem gapOf?_space {t : Token} (h : t.isSpace = true) (ts : List Token) :
    gapOf? (t :: ts) = (gapOf? ts).map (t.text ++ ·) := by
  simp [gapOf?, h]

theorem gapOf?_visible {t : Token} (h : t.isSpace = false) (ts : List Token) :
    gapOf? (t :: ts) = some [] := by
  simp [gapOf?, h]

theorem isLineComment_of_isSpace {t : Token} (h : t.isSpace = true) : isLineComment t = false := by
  have hkind : t.kind = .space := by simpa [Token.isSpace] using h
  simp [isLineComment, hkind]

theorem linesEnd_cons_of_not {t : Token} (h : isLineComment t = false) (ts : List Token) :
    LinesEnd (t :: ts) ↔ LinesEnd ts := by
  simp [LinesEnd, h]

/-- The first gap of the pieces of a list. -/
theorem head?_ofTokensAfter (gap : Text) (ts : List Token) :
    (Piece.ofTokensAfter gap ts).head?.map Piece.gap = (gapOf? ts).map (gap ++ ·) := by
  induction ts generalizing gap with
  | nil => rfl
  | cons t ts ih =>
    cases h : t.isSpace with
    | true =>
      rw [Piece.ofTokensAfter_space h, gapOf?_space h, ih, Option.map_map]
      simp [Function.comp_def]
    | false => simp [Piece.ofTokensAfter_visible h, gapOf?_visible h]

theorem endsLines_ofTokensAfter (gap : Text) (ts : List Token) :
    EndsLines (Piece.ofTokensAfter gap ts) ↔ LinesEnd ts := by
  induction ts generalizing gap with
  | nil => simp [Piece.ofTokensAfter, EndsLines, LinesEnd]
  | cons t ts ih =>
    cases h : t.isSpace with
    | true =>
      rw [Piece.ofTokensAfter_space h, ih, linesEnd_cons_of_not (isLineComment_of_isSpace h)]
    | false =>
      rw [Piece.ofTokensAfter_visible h, EndsLines, List.isChain_cons, LinesEnd]
      have hrest := ih []
      have hhead := head?_ofTokensAfter [] ts
      rw [EndsLines] at hrest
      rw [hrest]
      refine and_congr_left fun _ => ?_
      simp only [List.nil_append, Option.map_id'] at hhead
      constructor
      · intro hchain hline g hg
        rw [← hhead, Option.mem_def, Option.map_eq_some_iff] at hg
        obtain ⟨q, hq, rfl⟩ := hg
        exact hchain q hq hline
      · intro hgap q hq hline
        refine hgap hline q.gap ?_
        rw [← hhead, Option.mem_def, Option.map_eq_some_iff]
        exact ⟨q, hq, rfl⟩

theorem Spells.gapOf?_eq {fs cs : List Token} (h : Spells Compound fs cs) :
    gapOf? fs = gapOf? cs := by
  induction h with
  | nil => rfl
  | @cons b fs t cs block rest ih =>
    cases hspace : t.isSpace with
    | true =>
      obtain rfl := block.eq_of_isSpace hspace
      rw [List.singleton_append, gapOf?_space hspace, gapOf?_space hspace, ih]
    | false =>
      obtain ⟨a, more, rfl, hkind⟩ := block.exists_first
      have ha : a.isSpace = false := by simpa [Token.isSpace, hkind] using hspace
      rw [List.cons_append, gapOf?_visible ha, gapOf?_visible hspace]

theorem isLineComment_of_isSymbol {t : Token} {symbol : Text} (h : t.isSymbol symbol = true) :
    isLineComment t = false := isLineComment_of_kind_ne (by simp [kind_of_isSymbol h])

/-- The compounds of a list hide no line comment. -/
theorem Spells.linesEnd {fs cs : List Token} (h : Spells Compound fs cs) :
    LinesEnd fs ↔ LinesEnd cs := by
  induction h with
  | nil => exact Iff.rfl
  | @cons b fs t cs block rest ih =>
    cases block with
    | one => rw [List.singleton_append, LinesEnd, LinesEnd, rest.gapOf?_eq, ih]
    | clause a b c first space blank second =>
      have ha : isLineComment a = false := isLineComment_of_kind_ne (by simp [first])
      have ha' : isLineComment (a.withText (a.text ++ ' ' :: c.text)) = false :=
        isLineComment_of_kind_ne (by simp [Token.withText, first])
      have hc : isLineComment c = false := isLineComment_of_kind_ne (by simp [second])
      simp only [List.cons_append, List.nil_append]
      rw [linesEnd_cons_of_not ha, linesEnd_cons_of_not (isLineComment_of_isSpace space),
        linesEnd_cons_of_not hc, linesEnd_cons_of_not ha', ih]
    | outerJoin a b c first middle last =>
      have ha : (a.withText ['(', '+', ')']).kind ≠ .comment := by
        simp [Token.withText, kind_of_isSymbol first]
      simp only [List.cons_append, List.nil_append]
      rw [linesEnd_cons_of_not (isLineComment_of_isSymbol first),
        linesEnd_cons_of_not (isLineComment_of_isSymbol middle),
        linesEnd_cons_of_not (isLineComment_of_isSymbol last),
        linesEnd_cons_of_not (isLineComment_of_kind_ne ha), ih]
    | angled a b c first middle last =>
      have ha : (a.withText (a.text ++ b.text ++ c.text)).kind ≠ .comment := by
        simp [Token.withText, kind_of_isSymbol first]
      have hb : isLineComment b = false := isLineComment_of_kind_ne (by simp [middle])
      simp only [List.cons_append, List.nil_append]
      rw [linesEnd_cons_of_not (isLineComment_of_isSymbol first), linesEnd_cons_of_not hb,
        linesEnd_cons_of_not (isLineComment_of_isSymbol last),
        linesEnd_cons_of_not (isLineComment_of_kind_ne ha), ih]

/-! ## Before brackets are compacted and gaps are filled -/

/-- What a token list must be like for its filled form to end its lines: white space behind a line
comment has a line feed or the comment does, and a comment alone between brackets has it itself. -/
def Closes : List Token → Prop
  | [] => True
  | t :: ts => (isLineComment t = true → ∀ g ∈ gapOf? ts, g ≠ [] → '\n' ∈ t.text ++ g) ∧
      (bracketsComment (t :: ts) = true → ∀ c ∈ (ts.drop 1).head?, '\n' ∈ c.text) ∧ Closes ts

/-- Lists that start with the same white space have the same first gap. -/
theorem Filled.gapOf?_eq {ws ms : List Token} (h : Filled ws ms)
    (hspace : ∀ t ∈ ms.head?, t.isSpace = true) : gapOf? ms = gapOf? ws := by
  induction h with
  | nil => rfl
  | @keep t ws ms closed loose rest ih =>
    have ht : t.isSpace = true := hspace t (by simp)
    rw [gapOf?_space ht, gapOf?_space ht]
    congr 1
    by_cases hhead : ∀ n ∈ ms.head?, n.isSpace = true
    · exact ih hhead
    · cases rest with
      | nil => rfl
      | keep n closed' loose' rest' =>
        have hn : n.isSpace = false := by simpa using hhead
        rw [gapOf?_visible hn, gapOf?_visible hn]
      | gap n n' g offset isGap visible apart line loose' rest' =>
        rw [gapOf?_visible visible.1, gapOf?_visible visible.1]
      | tighten a b c d e first left inner right last whole rest' =>
        have ha : a.isSpace = false := by simp [Token.isSpace, kind_of_isSymbol first]
        rw [gapOf?_visible ha, gapOf?_visible ha]
  | @gap p t g offset ws ms isGap visible apart line loose rest ih =>
    rw [hspace p (by simp)] at visible
    cases visible.1
  | @tighten a b c d e block ws ms first left inner right last whole rest ih =>
    have ha := hspace a (by simp)
    simp [Token.isSpace, kind_of_isSymbol first] at ha

theorem linesEnd_append_cons {x : Token} (hx : x.isSpace = false) (l r r' : List Token)
    (h : LinesEnd (x :: r) ↔ LinesEnd (x :: r')) :
    LinesEnd (l ++ x :: r) ↔ LinesEnd (l ++ x :: r') := by
  have hgap : ∀ l : List Token, gapOf? (l ++ x :: r) = gapOf? (l ++ x :: r') := by
    intro l
    induction l with
    | nil => simp [gapOf?, hx]
    | cons a as ih =>
      cases ha : a.isSpace with
      | true => rw [List.cons_append, List.cons_append, gapOf?_space ha, gapOf?_space ha, ih]
      | false => rw [List.cons_append, List.cons_append, gapOf?_visible ha, gapOf?_visible ha]
  induction l with
  | nil => exact h
  | cons a as ih => simp only [List.cons_append, LinesEnd, hgap, ih]

/-- White space behind a block that does not end in a line comment may go. -/
theorem Bracketed.linesEnd {b : List Token} {t d : Token} (h : Bracketed b t)
    (ht : isLineComment t = false) (hd : d.isSpace = true) (r : List Token) :
    LinesEnd (b ++ d :: r) ↔ LinesEnd (b ++ r) := by
  have hd' := isLineComment_of_isSpace hd
  cases h with
  | one =>
    simp only [List.singleton_append]
    rw [linesEnd_cons_of_not ht, linesEnd_cons_of_not ht, linesEnd_cons_of_not hd']
  | pair a e x b first inner last =>
    have he : e.isSpace = false := by simp [Token.isSpace, kind_of_isSymbol last]
    have hcongr := linesEnd_append_cons he (a :: b) (d :: r) r (by
      rw [linesEnd_cons_of_not (isLineComment_of_isSymbol last),
        linesEnd_cons_of_not (isLineComment_of_isSymbol last), linesEnd_cons_of_not hd'])
    simpa using hcongr

/-- What a filled list starts with when the walk's list starts with white space. -/
theorem Filled.exists_cons_cons {b c : Token} {ws ms : List Token}
    (h : Filled (b :: c :: ws) ms) (hb : b.isSpace = true) : ∃ more, ms = b :: c :: more := by
  cases h with
  | keep _ closed loose rest =>
    cases rest with
    | keep _ closed' loose' rest' => exact ⟨_, rfl⟩
    | gap _ t g offset isGap visible apart line loose' rest' => exact ⟨_, rfl⟩
    | tighten _ b' c' d' e' first left inner right last whole rest' => exact ⟨_, rfl⟩
  | gap _ t g offset isGap visible apart line loose rest =>
    rw [hb] at visible
    cases visible.1
  | tighten _ b' c' d' e' first left inner right last whole rest =>
    simp [Token.isSpace, kind_of_isSymbol first] at hb

theorem feed_mem_of_not_open {t : Token} (hline : isLineComment t = true)
    (hopen : isOpenComment t = false) : '\n' ∈ t.text := by
  simp only [isOpenComment, hline, Bool.true_and, Bool.not_eq_false'] at hopen
  have hlast : t.text.getLast? = some '\n' := by simpa [Text.endsWith] using hopen
  exact List.mem_of_getLast? hlast

theorem gapOf?_ne_nil {ws : List Token} (hgaps : Gaps ws)
    (hspace : ∀ t ∈ ws.head?, t.isSpace = true) : ∀ g ∈ gapOf? ws, g ≠ [] := by
  cases ws with
  | nil => simp [gapOf?]
  | cons t ts =>
    have ht : t.isSpace = true := hspace t (by simp)
    rw [gapOf?_space ht]
    intro g hg
    obtain ⟨g', -, rfl⟩ := Option.map_eq_some_iff.mp hg
    simp [(hgaps t (by simp) ht).1]

theorem bracketsComment_of_not_symbol {t : Token} (h : t.isSymbol ['('] = false) (ts : List Token) :
    bracketsComment (t :: ts) = false := by
  unfold bracketsComment
  split
  · next a b c d e r heq =>
    obtain ⟨rfl, -⟩ := List.cons.inj heq
    simp [h]
  · rfl

/-- A bracket pair around something else than a line comment is none around one. -/
theorem bracketsComment_of_tighten {a b c : Token} {block ws ms : List Token}
    (h : Filled ws (b :: (block ++ ms))) (hinner : Bracketed block c)
    (hc : isLineComment c = false) : bracketsComment (a :: ws) = false := by
  match ws, h with
  | b' :: c' :: d' :: e' :: r, h =>
    cases hpair : bracketsComment (a :: b' :: c' :: d' :: e' :: r) with
    | false => rfl
    | true =>
      simp only [bracketsComment, Bool.and_eq_true] at hpair
      obtain ⟨⟨⟨⟨-, hb⟩, hline⟩, -⟩, -⟩ := hpair
      obtain ⟨more, hmore⟩ := h.exists_cons_cons hb
      obtain ⟨x, xs, rfl, hkind⟩ := hinner.exists_first
      obtain ⟨-, rfl, -⟩ : b = b' ∧ x = c' ∧ xs ++ ms = more := by simpa using hmore
      have hsingle : x :: xs = [c] := by
        refine hinner.eq_of_kind ?_
        simp [← hkind, kind_of_isLineComment hline]
      obtain ⟨rfl, -⟩ := List.cons.inj hsingle
      rw [hc] at hline
      cases hline
  | [], _ | [_], _ | [_, _], _ | [_, _, _], _ => rfl

/-- White space behind a closed line comment makes no difference, and a comment that is open has
white space behind it. -/
theorem Filled.feed_iff {t : Token} {ws ms : List Token} (rest : Filled ws ms) (hgaps : Gaps ws)
    (closed : isOpenComment t = true → ∀ n ∈ ms.head?, n.isSpace = true) :
    (isLineComment t = true → ∀ g ∈ gapOf? ms, '\n' ∈ t.text ++ g) ↔
      (isLineComment t = true → ∀ g ∈ gapOf? ws, g ≠ [] → '\n' ∈ t.text ++ g) := by
  refine forall_congr' fun hline => ?_
  by_cases hhead : ∀ n ∈ ms.head?, n.isSpace = true
  · have hne := gapOf?_ne_nil hgaps (by rwa [← rest.head?_eq])
    rw [rest.gapOf?_eq hhead]
    exact ⟨fun hall g hg _ => hall g hg, fun hall g hg => hall g hg (hne g hg)⟩
  · have hopen : isOpenComment t = false := Bool.eq_false_iff.mpr fun hopen => hhead (closed hopen)
    have hfeed := feed_mem_of_not_open hline hopen
    exact ⟨fun _ _ _ _ => by simp [hfeed], fun _ _ _ => by simp [hfeed]⟩

/-- A line comment alone in a bracket pair ends its line where the white space behind it is dropped
when it does so by itself. -/
theorem linesEnd_tighten_comment {a b c d e : Token} {ms ws : List Token}
    (first : a.isSymbol ['('] = true) (left : b.isSpace = true) (right : d.isSpace = true)
    (last : e.isSymbol [')'] = true) (hc : isLineComment c = true)
    (ih : LinesEnd (c :: d :: e :: ms) ↔ Closes (b :: c :: d :: e :: ws)) :
    LinesEnd (c :: e :: ms) ↔ Closes (a :: b :: c :: d :: e :: ws) := by
  have hpair : bracketsComment (a :: b :: c :: d :: e :: ws) = true := by
    simp [bracketsComment, first, left, hc, right, last]
  have he : e.isSpace = false := by simp [Token.isSpace, kind_of_isSymbol last]
  have htight : LinesEnd (c :: e :: ms) ↔ '\n' ∈ c.text ∧ LinesEnd (e :: ms) := by
    rw [LinesEnd, gapOf?_visible he]
    simp [hc]
  have hloose : LinesEnd (c :: d :: e :: ms) ↔ '\n' ∈ c.text ++ d.text ∧ LinesEnd (e :: ms) := by
    rw [LinesEnd, gapOf?_space right, gapOf?_visible he,
      linesEnd_cons_of_not (isLineComment_of_isSpace right)]
    simp [hc]
  have hcloses : Closes (a :: b :: c :: d :: e :: ws) ↔
      '\n' ∈ c.text ∧ Closes (b :: c :: d :: e :: ws) := by
    rw [Closes, hpair]
    simp [isLineComment_of_isSymbol first]
  rw [hloose] at ih
  rw [htight, hcloses, ← ih]
  exact ⟨fun h => ⟨h.1, by simp [h.1], h.2⟩, fun h => ⟨h.1, h.2.2⟩⟩

/-- A filled list ends its lines exactly when the list it was filled from allows it. -/
theorem Filled.linesEnd_iff {ws ms : List Token} (h : Filled ws ms) (hgaps : Gaps ws) :
    LinesEnd ms ↔ Closes ws := by
  induction h with
  | nil => exact Iff.rfl
  | @keep t ws ms closed loose rest ih =>
    have hrest : Gaps ws := fun x hx => hgaps x (by simp [hx])
    simp only [LinesEnd, Closes, loose, rest.feed_iff hrest closed, ih hrest, Bool.false_eq_true,
      false_implies, true_and]
  | @gap p t g offset ws ms isGap visible apart line loose rest ih =>
    have hrest : Gaps ws := fun x hx => hgaps x (by simp [hx])
    have hhead : gapOf? ws = some [] := by
      have hsame := rest.head?_eq
      cases ws with
      | nil => simp at hsame
      | cons n ns =>
        obtain rfl : t = n := by simpa using hsame
        exact gapOf?_visible visible.2 ns
    have hspace : (Token.space g offset).isSpace = true := rfl
    have hleft : isLineComment p = true → '\n' ∈ p.text ++ g := by
      intro hline
      cases hopen : isOpenComment p with
      | true => simp [line hopen]
      | false => simp [feed_mem_of_not_open hline hopen]
    rw [LinesEnd, linesEnd_cons_of_not (isLineComment_of_isSpace hspace), ih hrest,
      gapOf?_space hspace, gapOf?_visible visible.2]
    simp only [Closes, loose, hhead, Token.space, Option.map_some, List.append_nil, Option.mem_def,
      Option.some.injEq, forall_eq', ne_eq, not_true_eq_false, false_implies, implies_true,
      Bool.false_eq_true, true_and, and_iff_right_iff_imp]
    exact fun _ => hleft
  | @tighten a b c d e block ws ms first left inner right last whole rest ih =>
    have hrest : Gaps ws := fun x hx => hgaps x (by simp [hx])
    have ha := isLineComment_of_isSymbol first
    have ih := ih hrest
    rw [linesEnd_cons_of_not (isLineComment_of_isSpace left)] at ih
    rw [linesEnd_cons_of_not ha]
    cases hc : isLineComment c with
    | true =>
      obtain rfl := inner.eq_of_kind (by simp [kind_of_isLineComment hc])
      obtain ⟨ws', rfl⟩ := whole hc
      exact linesEnd_tighten_comment first left right last hc ih
    | false =>
      rw [inner.linesEnd hc right] at ih
      have hpair : bracketsComment (a :: ws) = false := bracketsComment_of_tighten rest inner hc
      rw [ih, Closes, hpair]
      simp [ha]

/-! ## What the scan leaves -/

section Scans

variable {d : Dialect} {s : Style} {σ : Scan}

theorem closes_append {gs : List Token} (hgs : ∀ g ∈ gs, g.isSpace = true) (ts : List Token) :
    Closes (gs ++ ts) ↔ Closes ts := by
  induction gs with
  | nil => exact Iff.rfl
  | cons g gs ih =>
    have hg : g.isSpace = true := hgs g (by simp)
    rw [List.cons_append, Closes, bracketsComment_of_not_symbol (isSymbol_of_isSpace hg _),
      ih fun x hx => hgs x (by simp [hx])]
    simp [isLineComment_of_isSpace hg]

theorem gapOf?_append {gs : List Token} (hgs : ∀ g ∈ gs, g.isSpace = true) {x : Token}
    (hx : x.isSpace = false) (ts : List Token) :
    gapOf? (gs ++ x :: ts) = some (Token.concat gs) := by
  induction gs with
  | nil => simp [gapOf?_visible hx, Token.concat]
  | cons g gs ih =>
    rw [List.cons_append, gapOf?_space (hgs g (by simp)), ih fun y hy => hgs y (by simp [hy])]
    simp [Token.concat]

/-- Inside a call nothing sets a mood. -/
def Scan.Outside (σ : Scan) : Prop := σ.mood ≠ .plain → σ.calls.any id = false

theorem Scan.outside_next (σ : Scan) (x : Token) : (σ.next d s x).Outside := by
  intro hmood
  simp only [Scan.next, Scan.moodAfter] at hmood ⊢
  split at hmood
  · exact absurd rfl hmood
  · next hany => simpa using hany

/-- Behind a line comment in front of which its line was ended, the line is ended again. -/
theorem Scan.mood_next_comment {x : Token} {ns : List Token} (htidy : Tidy d s (x :: ns))
    (hσ : σ.Outside) (hline : isLineComment x = true) (hmood : σ.mood = .ended) :
    (σ.next d s x).mood = .ended := by
  have hkind := kind_of_isLineComment hline
  have hcalls : callsAfter σ.calls σ.callNext x = σ.calls :=
    callsAfter_of_kind_ne (by simp [hkind]) _ _
  have hany : σ.calls.any id = false := hσ (by simp [hmood])
  have hdelimiter : s.isDelimiter x.text = false :=
    htidy.isDelimiter_of_kind_ne (by simp) (by simp [hkind])
  simp [Scan.next, Scan.moodAfter, hcalls, hany, hdelimiter, hline, hmood]

/-- White space behind a shown line comment has its line feed unless a second one follows. -/
theorem closes_comment {x x' : Token} {gs ns ts : List Token} (hfits : Fits s σ.mood x gs x')
    (hrest : Walked d s (σ.next d s x) ns ts) (htidy : Tidy d s (x :: ns)) (hgaps : Gaps ts)
    (hfeed : isLineComment x = true → '\n' ∉ (settle x).text) (hσ : σ.Outside) :
    (isLineComment x' = true → ∀ g ∈ gapOf? ts, g ≠ [] → '\n' ∈ x'.text ++ g) ↔
      (isLineComment x && σ.mood == .ended && (Token.visible ns).head?.any isLineComment) = false := by
  rw [hfits.isLineComment]
  cases hline : isLineComment x with
  | false => simp
  | true =>
    cases hns : Token.visible ns with
    | nil =>
      rw [hrest.eq_nil hns]
      simp [gapOf?]
    | cons y us =>
      obtain ⟨ns', gs', y', ts', rfl, hy, hfits', hrest', hus, hsuffix⟩ := hrest.exists_visit hns
      have htidy' := htidy.tail.suffix hsuffix
      have hmem : y ∈ ns := hsuffix.subset (by simp)
      have hy' : y'.isSpace = false := by simpa [Token.isSpace, hfits'.kind] using hy
      have hne : ns ≠ [] := List.ne_nil_of_mem hmem
      rw [gapOf?_append hfits'.spaces hy']
      by_cases hmood : σ.mood = .ended
      · have hnext := Scan.mood_next_comment htidy hσ hline hmood
        have hx' : '\n' ∉ x'.text := by
          rw [hfits.token, if_pos hmood]
          exact hfeed hline
        cases hdelimiter : s.isDelimiter y.text with
        | true =>
          have hgs' := hfits'.skipped hnext hdelimiter
          have hkind : y.kind = .symbol := htidy'.marks y (by simp) hdelimiter
          have hyline := isLineComment_of_kind_ne (t := y) (by simp [hkind])
          simp [hgs', Token.concat, hyline]
        | false =>
          obtain ⟨g, rfl, hg⟩ := hfits'.ended hnext hdelimiter
          have hgap : g.text ≠ [] := (hgaps g (by simp) (hfits'.spaces g (by simp))).1
          simp [Token.concat, hmood, hgap, hx', hg]
      · have hx' : '\n' ∈ x'.text := by
          rw [hfits.token, if_neg hmood]
          exact feed_mem_of_not_open hline (htidy.isOpenComment_eq_false hne)
        have hmood' : (σ.mood == .ended) = false := by simpa using hmood
        simp [hx', hmood']

/-- What a bracket pair around a line comment looks like. -/
theorem exists_of_bracketsComment {a b : Token} {ts : List Token}
    (h : bracketsComment (a :: b :: ts) = true) :
    ∃ c d e r, ts = c :: d :: e :: r ∧ b.isSpace = true ∧ isLineComment c = true ∧
      d.isSpace = true ∧ e.isSymbol [')'] = true := by
  match ts with
  | c :: d :: e :: r =>
    simp only [bracketsComment, Bool.and_eq_true] at h
    exact ⟨c, d, e, r, rfl, h.1.1.1.2, h.1.1.2, h.1.2, h.2⟩
  | [] | [_] | [_, _] => cases h

/-- Whether a second token closes the bracket that a shown line comment stands behind. -/
theorem bracketsComment_iff (hmark : IsMark s) {a g y' : Token} {ns ts : List Token}
    (ha : a.isSymbol ['('] = true) (hg : g.isSpace = true) (hline : isLineComment y' = true)
    (hrest : Walked d s σ ns ts) (hmood : σ.mood = .ended) :
    bracketsComment (a :: g :: y' :: ts) =
      (Token.visible ns).head?.any (·.isSymbol [')']) := by
  cases hns : Token.visible ns with
  | nil =>
    rw [hrest.eq_nil hns]
    rfl
  | cons z us =>
    obtain ⟨ns', gs, z', ts', rfl, hz, hfits, hrest', hus, hsuffix⟩ := hrest.exists_visit hns
    have hz' : z'.isSpace = false := by simpa [Token.isSpace, hfits.kind] using hz
    rw [List.head?_cons, Option.any_some]
    cases hclose : z.isSymbol [')'] with
    | true =>
      have hother : s.isDelimiter z.text = false := isDelimiter_of_bracket hmark (.inr hclose)
      obtain ⟨g', rfl, -⟩ := hfits.ended hmood hother
      have hg' : g'.isSpace = true := hfits.spaces g' (by simp)
      simp [bracketsComment, ha, hg, hline, hg', hfits.isSymbol, hclose]
    | false =>
      cases hpair : bracketsComment (a :: g :: y' :: (gs ++ z' :: ts')) with
      | false => rfl
      | true =>
        obtain ⟨c, d', e, r, heq, -, -, hd, he⟩ := exists_of_bracketsComment hpair
        obtain ⟨-, heq⟩ := List.cons.inj heq
        cases gs with
        | nil =>
          obtain ⟨rfl, -⟩ := List.cons.inj heq
          rw [hz'] at hd
          cases hd
        | cons g' more =>
          obtain rfl : more = [] := by simpa using hfits.short
          obtain ⟨-, heq⟩ := List.cons.inj heq
          obtain ⟨rfl, -⟩ := List.cons.inj heq
          rw [hfits.isSymbol, hclose] at he
          cases he

/-- A line comment alone between brackets keeps its line feed when its line was not ended before. -/
theorem feed_mem_of_bracketsComment {x' y y' : Token} {gs ns ts : List Token}
    (hfits : Fits s σ.mood y gs y') (hrest : Walked d s (σ.next d s y) ns ts)
    (htidy : Tidy d s (y :: ns)) (hy : y.isSpace = false)
    (hcase : ¬ (isLineComment y = true ∧ σ.mood = .ended))
    (hpair : bracketsComment (x' :: (gs ++ y' :: ts)) = true) :
    ∀ c ∈ ((gs ++ y' :: ts).drop 1).head?, '\n' ∈ c.text := by
  cases gs with
  | nil =>
    obtain ⟨c, d', e, r, -, hspace, -⟩ := exists_of_bracketsComment hpair
    rw [show y'.isSpace = false by simpa [Token.isSpace, hfits.kind] using hy] at hspace
    cases hspace
  | cons g more =>
    obtain rfl : more = [] := by simpa using hfits.short
    obtain ⟨c, d', e, r, heq, -, hline, -⟩ := exists_of_bracketsComment hpair
    obtain ⟨rfl, rfl⟩ := List.cons.inj heq
    rw [hfits.isLineComment] at hline
    have hmood : σ.mood ≠ .ended := fun hmood => hcase ⟨hline, hmood⟩
    have hne : ns ≠ [] := by
      rintro rfl
      cases hrest
    have hfeed := feed_mem_of_not_open hline (htidy.isOpenComment_eq_false hne)
    rw [← (hfits.token.trans (if_neg hmood))] at hfeed
    simpa using hfeed

/-- A line comment alone between brackets has its line feed unless its line was ended before. -/
theorem closes_bracket (hmark : IsMark s) {x x' : Token} {gs ns ts : List Token}
    (hfits : Fits s σ.mood x gs x') (hrest : Walked d s (σ.next d s x) ns ts)
    (htidy : Tidy d s (x :: ns))
    (hfeed : ∀ t ∈ ns, isLineComment t = true → '\n' ∉ (settle t).text) :
    (bracketsComment (x' :: ts) = true → ∀ c ∈ (ts.drop 1).head?, '\n' ∈ c.text) ↔
      (x.isSymbol ['('] && (σ.next d s x).mood == .ended &&
        (Token.visible ns).head?.any isLineComment &&
        (Token.visible ns).tail.head?.any (·.isSymbol [')'])) = false := by
  cases hopen : x.isSymbol ['('] with
  | false =>
    rw [bracketsComment_of_not_symbol ((hfits.isSymbol _).trans hopen)]
    simp
  | true =>
    cases hns : Token.visible ns with
    | nil =>
      rw [hrest.eq_nil hns]
      simp [bracketsComment]
    | cons y us =>
      obtain ⟨ns', gs', y', ts', rfl, hy, hfits', hrest', hus, hsuffix⟩ := hrest.exists_visit hns
      have htidy' := htidy.tail.suffix hsuffix
      have hmem : y ∈ ns := hsuffix.subset (by simp)
      have hopen' : x'.isSymbol ['('] = true := (hfits.isSymbol _).trans hopen
      by_cases hcase : isLineComment y = true ∧ (σ.next d s x).mood = .ended
      · obtain ⟨hline, hmood⟩ := hcase
        have hkind := kind_of_isLineComment hline
        have hother : s.isDelimiter y.text = false :=
          htidy'.isDelimiter_of_kind_ne (by simp) (by simp [hkind])
        obtain ⟨g, rfl, -⟩ := hfits'.ended hmood hother
        have hnext : ((σ.next d s x).next d s y).mood = .ended :=
          Scan.mood_next_comment htidy' (Scan.outside_next σ x) hline hmood
        have hline' : isLineComment y' = true := hfits'.isLineComment.trans hline
        have hpair := bracketsComment_iff hmark hopen' (hfits'.spaces g (by simp)) hline' hrest' hnext
        have hfeed' : '\n' ∉ y'.text := by
          rw [hfits'.token, if_pos hmood]
          exact hfeed y hmem hline
        rw [List.singleton_append, hpair, hus]
        simp [hmood, hline, hfeed']
      · -- the comment keeps its line feed, or what stands between the brackets is no comment
        have hright : ((σ.next d s x).mood == .ended && (y :: us).head?.any isLineComment) = false := by
          cases hline : isLineComment y with
          | false => simp [hline]
          | true =>
            have hmood : (σ.next d s x).mood ≠ .ended := fun hmood => hcase ⟨hline, hmood⟩
            simp [hmood]
        refine iff_of_true (feed_mem_of_bracketsComment hfits' hrest' htidy' hy hcase) ?_
        rw [Bool.true_and, hright]
        rfl

/-- The list that a scan leaves closes its comments exactly when the scan meets none that swallows
what follows it. -/
theorem Walked.closes_iff (hmark : IsMark s) {ns ts : List Token} (h : Walked d s σ ns ts)
    (htidy : Tidy d s ns) (hgaps : Gaps ts)
    (hfeed : ∀ t ∈ ns, isLineComment t = true → '\n' ∉ (settle t).text) (hσ : σ.Outside) :
    Closes ts ↔ swallows d s σ (Token.visible ns) = false := by
  induction h with
  | nil => simp [Closes, Token.visible, swallows]
  | space space rest ih =>
    rw [visible_cons_space space]
    exact ih htidy.tail hgaps (fun t ht => hfeed t (by simp [ht])) hσ
  | @visit σ x x' gs ns ts visible fits rest ih =>
    have hgaps' : Gaps ts := fun t ht => hgaps t (by simp [ht])
    have hfeed' : ∀ t ∈ ns, isLineComment t = true → '\n' ∉ (settle t).text :=
      fun t ht => hfeed t (by simp [ht])
    have hcomment := closes_comment fits rest htidy hgaps' (hfeed x (by simp)) hσ
    have hbracket := closes_bracket hmark fits rest htidy hfeed'
    have hrest := ih htidy.tail hgaps' hfeed' (Scan.outside_next σ x)
    rw [closes_append fits.spaces, Closes, visible_cons visible, swallows, hcomment, hbracket, hrest]
    simp only [Bool.or_eq_false_iff, and_assoc]

end Scans

end SqlLayout.Layout
