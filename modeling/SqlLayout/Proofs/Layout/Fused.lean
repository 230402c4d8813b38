import SqlLayout.Proofs.Layout.Legible

/-!
# Symbols that become a comment

White space between two symbols is dropped, and the only thing that puts it back is the break behind
a delimiter.  So two hyphens, or a slash and a star, end up next to each other and open a comment,
unless the first of them is the delimiter and no function call is open.  `fuses` finds such a pair
in a scan over the tokens, and the layout of a text without comments has one exactly when there is
such a pair (`noComments_iff_fuses`).
-/

namespace SqlLayout.Layout

/-- No two neighbours open a comment. -/
def Unfused (ts : List Token) : Prop := ts.IsChain fun p t => opensComment p t = false

/-- Whether a scan that has reached `σ` meets two symbols that open a comment and stay together. -/
def fuses (d : Dialect) (s : Style) : Scan → List Token → Bool
  | _, [] => false
  | σ, x :: us =>
    us.head?.any (opensComment x) && !(s.isDelimiter x.text && !(σ.next d s x).calls.any id) ||
      fuses d s (σ.next d s x) us

theorem unfused_cons {p : Token} {ts : List Token} : Unfused (p :: ts) ↔
    (∀ t ∈ ts.head?, opensComment p t = false) ∧ Unfused ts := List.isChain_cons

theorem opensComment_of_isSpace {p t : Token} (h : p.isSpace = true ∨ t.isSpace = true) :
    opensComment p t = false := by
  rcases h with h | h <;> simp [opensComment, isSymbol_of_isSpace h]

theorem opensComment_of_not_marks {p : Token} (h : PartsAfter p) (t : Token) :
    opensComment p t = false := by
  simp [opensComment, h.1, h.2]

theorem partsAfter_of_text {p : Token} (hhyphen : p.text ≠ ['-']) (hslash : p.text ≠ ['/']) :
    PartsAfter p := by
  simp [PartsAfter, Token.isSymbol, hhyphen, hslash]

theorem unfused_cons_of_partsAfter {p : Token} (h : PartsAfter p) (ts : List Token) :
    Unfused (p :: ts) ↔ Unfused ts := by
  rw [unfused_cons]
  exact and_iff_right fun t _ => opensComment_of_not_marks h t

theorem partsAfter_of_isSpace {p : Token} (h : p.isSpace = true) : PartsAfter p :=
  ⟨isSymbol_of_isSpace h _, isSymbol_of_isSpace h _⟩

theorem partsAfter_of_isSymbol {p : Token} {symbol : Text} (h : p.isSymbol symbol = true)
    (hhyphen : symbol ≠ ['-']) (hslash : symbol ≠ ['/']) : PartsAfter p := by
  rw [← text_of_isSymbol h] at hhyphen hslash
  exact partsAfter_of_text hhyphen hslash

theorem unfused_spaces {gs : List Token} (hgs : ∀ g ∈ gs, g.isSpace = true) (ts : List Token) :
    Unfused (gs ++ ts) ↔ Unfused ts := by
  induction gs with
  | nil => rfl
  | cons g gs ih =>
    rw [List.cons_append, unfused_cons_of_partsAfter (partsAfter_of_isSpace (hgs g (by simp))),
      ih fun x hx => hgs x (by simp [hx])]

theorem unfused_append_spaces {gs : List Token} (hgs : ∀ g ∈ gs, g.isSpace = true)
    (ts : List Token) : Unfused (ts ++ gs) ↔ Unfused ts := by
  have hspaces : Unfused gs := by simpa [Unfused] using (unfused_spaces hgs []).mpr .nil
  unfold Unfused at hspaces ⊢
  rw [List.isChain_append]
  refine ⟨fun h => h.1, fun h => ⟨h, hspaces, fun p _ g hg => ?_⟩⟩
  exact opensComment_of_isSpace (.inr (hgs g (List.mem_of_mem_head? hg)))

/-! ## Compounds and filled gaps -/

/-- What a compound starts with opens no comment as its second symbol, nor does the compound. -/
theorem Compound.opensComment_head {b : List Token} {t : Token} (h : Compound b t) (p : Token) :
    ∀ a ∈ b.head?, opensComment p a = opensComment p t := by
  have hnot : ∀ {x : Token}, x.text.head? ≠ some '-' → x.text.head? ≠ some '*' →
      opensComment p x = false := by
    intro x hhyphen hstar
    have hhyphen' : x.isSymbol ['-'] = false := by
      cases hx : x.isSymbol ['-'] with
      | false => rfl
      | true => simp [text_of_isSymbol hx] at hhyphen
    have hstar' : x.isSymbol ['*'] = false := by
      cases hx : x.isSymbol ['*'] with
      | false => rfl
      | true => simp [text_of_isSymbol hx] at hstar
    simp [opensComment, hhyphen', hstar']
  cases h with
  | one t => simp
  | clause a b c first space blank second =>
    have hkind : (a.withText (a.text ++ ' ' :: c.text)).kind ≠ .symbol := by
      simp [Token.withText, first]
    simp [opensComment, isSymbol_of_kind_ne hkind,
      isSymbol_of_kind_ne (show a.kind ≠ .symbol by simp [first])]
  | outerJoin a b c first middle last =>
    have ha := text_of_isSymbol first
    simp only [List.head?_cons, Option.mem_def, Option.some.injEq, forall_eq']
    rw [hnot (by simp [ha]) (by simp [ha]), hnot (by simp [Token.withText]) (by simp [Token.withText])]
  | angled a b c first middle last =>
    have ha := text_of_isSymbol first
    simp only [List.head?_cons, Option.mem_def, Option.some.injEq, forall_eq']
    rw [hnot (by simp [ha]) (by simp [ha]),
      hnot (by simp [Token.withText, ha]) (by simp [Token.withText, ha])]

theorem Spells.opensComment_head {fs cs : List Token} (h : Spells Compound fs cs) (p : Token) :
    (∀ a ∈ fs.head?, opensComment p a = false) ↔ ∀ t ∈ cs.head?, opensComment p t = false := by
  cases h with
  | nil => simp
  | cons block rest =>
    obtain ⟨a, more, rfl, -⟩ := block.exists_first
    have hsame := block.opensComment_head p a (by simp)
    simp [hsame]

/-- Compounds hide no symbols that open a comment. -/
theorem Spells.unfused {fs cs : List Token} (h : Spells Compound fs cs) :
    Unfused fs ↔ Unfused cs := by
  induction h with
  | nil => exact Iff.rfl
  | @cons b fs t cs block rest ih =>
    cases block with
    | one =>
      rw [List.singleton_append, unfused_cons, unfused_cons, rest.opensComment_head t, ih]
    | clause a b c first space blank second =>
      have ha : PartsAfter a := partsAfter_of_kind_ne (by simp [first])
      have hb : PartsAfter b := partsAfter_of_isSpace space
      have hc : PartsAfter c := partsAfter_of_kind_ne (by simp [second])
      have ht : PartsAfter (a.withText (a.text ++ ' ' :: c.text)) :=
        partsAfter_of_kind_ne (by simp [Token.withText, first])
      simp only [List.cons_append, List.nil_append]
      rw [unfused_cons_of_partsAfter ha, unfused_cons_of_partsAfter hb,
        unfused_cons_of_partsAfter hc, unfused_cons_of_partsAfter ht, ih]
    | outerJoin a b c first middle last =>
      have ht : PartsAfter (a.withText ['(', '+', ')']) :=
        partsAfter_of_text (by simp [Token.withText]) (by simp [Token.withText])
      simp only [List.cons_append, List.nil_append]
      rw [unfused_cons_of_partsAfter (partsAfter_of_isSymbol first (by decide) (by decide)),
        unfused_cons_of_partsAfter (partsAfter_of_isSymbol middle (by decide) (by decide)),
        unfused_cons_of_partsAfter (partsAfter_of_isSymbol last (by decide) (by decide)),
        unfused_cons_of_partsAfter ht, ih]
    | angled a b c first middle last =>
      have ha := text_of_isSymbol first
      have hb : PartsAfter b := partsAfter_of_kind_ne (by simp [middle])
      have ht : PartsAfter (a.withText (a.text ++ b.text ++ c.text)) :=
        partsAfter_of_text (by simp [Token.withText, ha]) (by simp [Token.withText, ha])
      simp only [List.cons_append, List.nil_append]
      rw [unfused_cons_of_partsAfter (partsAfter_of_isSymbol first (by decide) (by decide)),
        unfused_cons_of_partsAfter hb,
        unfused_cons_of_partsAfter (partsAfter_of_isSymbol last (by decide) (by decide)),
        unfused_cons_of_partsAfter ht, ih]

/-- White space in front of a closing bracket may go. -/
theorem unfused_before_bracket {d e : Token} (hd : d.isSpace = true)
    (he : e.isSymbol [')'] = true) (l r : List Token) :
    Unfused (l ++ d :: e :: r) ↔ Unfused (l ++ e :: r) := by
  have hnot : ∀ p, opensComment p e = false := by
    intro p
    simp [opensComment, Token.isSymbol, text_of_isSymbol he]
  induction l with
  | nil => exact unfused_cons_of_partsAfter (partsAfter_of_isSpace hd) _
  | cons a l ih =>
    rw [List.cons_append, List.cons_append, unfused_cons, unfused_cons]
    refine and_congr ?_ ih
    cases l with
    | nil => simp [hnot, opensComment_of_isSpace (.inr hd)]
    | cons b l => simp

theorem Filled.unfused {ws ms : List Token} (h : Filled ws ms) : Unfused ms ↔ Unfused ws := by
  induction h with
  | nil => exact Iff.rfl
  | keep t closed loose rest ih =>
    rw [unfused_cons, unfused_cons, rest.head?_eq, ih]
  | @gap p t g offset ws ms isGap visible apart line loose rest ih =>
    have hspace' : (Token.space g offset).isSpace = true := rfl
    have hspace : PartsAfter (Token.space g offset) := partsAfter_of_isSpace hspace'
    have hhead := rest.head?_eq
    have hleft : Unfused (p :: Token.space g offset :: t :: ms) ↔ Unfused (t :: ms) := by
      rw [unfused_cons, unfused_cons_of_partsAfter hspace]
      exact and_iff_right (by simp [opensComment_of_isSpace (.inr hspace')])
    have hright : Unfused (p :: ws) ↔ Unfused ws := by
      rw [unfused_cons, ← hhead]
      simp [apart]
    rw [hleft, hright, ih]
  | @tighten a b c d e block ws ms first left inner right last whole rest ih =>
    have ha : PartsAfter a := partsAfter_of_isSymbol first (by decide) (by decide)
    rw [unfused_cons_of_partsAfter ha, unfused_cons_of_partsAfter ha, ← ih,
      unfused_cons_of_partsAfter (partsAfter_of_isSpace left)]
    exact (unfused_before_bracket right last block ms).symm

/-! ## Delimiters that are not marks -/

/-- No white space stands between symbols that open a comment.  `prev` is the last token that is not
white space, and `spaced` says whether white space came behind it. -/
def Tied : Option Token → Bool → List Token → Prop
  | _, _, [] => True
  | prev, spaced, t :: ts =>
    if t.isSpace then Tied prev true ts
    else (spaced = true → ∀ p ∈ prev, opensComment p t = false) ∧ Tied (some t) false ts

theorem tied_space {t : Token} (h : t.isSpace = true) (prev : Option Token) (spaced : Bool)
    (ts : List Token) : Tied prev spaced (t :: ts) ↔ Tied prev true ts := by
  rw [Tied, if_pos h]

theorem tied_visible {t : Token} (h : t.isSpace = false) (prev : Option Token) (spaced : Bool)
    (ts : List Token) : Tied prev spaced (t :: ts) ↔
      (spaced = true → ∀ p ∈ prev, opensComment p t = false) ∧ Tied (some t) false ts := by
  rw [Tied, if_neg (by simp [h])]

theorem Tied.unspaced {prev : Option Token} {spaced : Bool} {ts : List Token}
    (h : Tied prev true ts) : Tied prev spaced ts := by
  cases ts with
  | nil => trivial
  | cons t ts =>
    cases hspace : t.isSpace with
    | true => rwa [tied_space hspace] at h ⊢
    | false =>
      rw [tied_visible hspace] at h ⊢
      exact ⟨fun _ => h.1 rfl, h.2⟩

/-- What keeps a list tied keeps it so behind another list. -/
theorem Tied.append {a b : List Token} (h : ∀ prev spaced, Tied prev spaced a → Tied prev spaced b)
    (l : List Token) {prev : Option Token} {spaced : Bool} (hl : Tied prev spaced (l ++ a)) :
    Tied prev spaced (l ++ b) := by
  induction l generalizing prev spaced with
  | nil => exact h prev spaced hl
  | cons t l ih =>
    rw [List.cons_append] at hl ⊢
    cases hspace : t.isSpace with
    | true =>
      rw [tied_space hspace] at hl ⊢
      exact ih hl
    | false =>
      rw [tied_visible hspace] at hl ⊢
      exact ⟨hl.1, ih hl.2⟩

theorem Tied.of_prev {p p' : Token} (hsame : ∀ t, opensComment p' t = opensComment p t)
    {spaced : Bool} {ts : List Token} (h : Tied (some p) spaced ts) : Tied (some p') spaced ts := by
  induction ts generalizing spaced with
  | nil => trivial
  | cons t ts ih =>
    cases hspace : t.isSpace with
    | true =>
      rw [tied_space hspace] at h ⊢
      exact ih h
    | false =>
      rw [tied_visible hspace] at h ⊢
      refine ⟨fun hspaced q hq => ?_, h.2⟩
      rw [← Option.some.inj hq, hsame]
      exact h.1 hspaced p rfl

theorem Tied.settle {t : Token} {r : List Token} {prev : Option Token} {spaced : Bool}
    (h : Tied prev spaced (t :: r)) : Tied prev spaced (settle t :: r) := by
  by_cases hcomment : t.kind = .comment
  · have hspace : t.isSpace = false := by simp [Token.isSpace, hcomment]
    have hspace' : (Layout.settle t).isSpace = false := (isSpace_settle t).trans hspace
    rw [tied_visible hspace] at h
    rw [tied_visible hspace']
    refine ⟨fun hspaced p hp => ?_, ?_⟩
    · rw [opensComment_settle]
      exact h.1 hspaced p hp
    · refine Tied.of_prev (fun x => ?_) h.2
      simp [opensComment, isSymbol_settle]
  · rwa [settle_of_kind_ne hcomment]

/-- An edit keeps symbols together that open a comment, unless the first is a delimiter. -/
theorem Edit.tied {s : Style} (hs : ∀ p t, opensComment p t = true → s.isDelimiter p.text = false)
    {a b : List Token} (h : Edit s a b) {prev : Option Token} {spaced : Bool}
    (ha : Tied prev spaced a) : Tied prev spaced b := by
  cases h with
  | retext l r t g space gap =>
    refine Tied.append ?_ l ha
    intro prev spaced h
    have hspace : (t.withText g).isSpace = true := space
    rw [tied_space space] at h
    rwa [tied_space hspace]
  | insert l r p t g offset gap apart =>
    refine Tied.append ?_ l ha
    intro prev spaced h
    have hspace : (Token.space g offset).isSpace = true := rfl
    have hopens : opensComment p t = false := by
      cases hopens : opensComment p t with
      | false => rfl
      | true =>
        have hdelimiter := apart hopens
        rw [hs p t hopens] at hdelimiter
        cases hdelimiter
    cases hp : p.isSpace with
    | true =>
      rw [tied_space hp] at h ⊢
      rwa [tied_space hspace]
    | false =>
      rw [tied_visible hp] at h ⊢
      refine ⟨h.1, (tied_space hspace _ _ _).mpr ?_⟩
      cases ht : t.isSpace with
      | true =>
        rw [tied_space ht] at h ⊢
        exact h.2
      | false =>
        rw [tied_visible ht] at h ⊢
        exact ⟨fun _ q hq => by simpa [← Option.some.inj hq] using hopens, h.2.2⟩
  | settle l r t =>
    refine Tied.append ?_ l ha
    exact fun prev spaced h => h.settle
  | dropAfter l r p t absorbs space =>
    refine Tied.append ?_ l ha
    intro prev spaced h
    have hp := isSpace_of_absorbsSpace absorbs
    rw [tied_visible hp] at h ⊢
    rw [tied_space space] at h
    exact ⟨h.1, h.2.unspaced⟩
  | dropBefore l r t n space absorbs =>
    refine Tied.append ?_ l ha
    intro prev spaced h
    rw [tied_space space] at h
    exact h.unspaced

/-- Where white space keeps away from symbols, symbols are tied. -/
theorem tied_of_apart {p : Token} (hp : p.isSpace = false) {ts : List Token}
    (h : (p :: ts).IsChain Apart) : Tied (some p) false ts := by
  induction ts generalizing p with
  | nil => trivial
  | cons t ts ih =>
    obtain ⟨happart, htail⟩ := List.isChain_cons_cons.mp h
    cases ht : t.isSpace with
    | false => exact (tied_visible ht _ _ _).mpr ⟨by simp, ih ht htail⟩
    | true =>
      have hword : p.kind ≠ .symbol := by
        have hp' := happart.2 ht
        simp only [absorbsSpace, Bool.or_eq_false_iff] at hp'
        simpa using hp'.1
      refine (tied_space ht _ _ _).mpr ?_
      cases ts with
      | nil => trivial
      | cons n ns =>
        obtain ⟨happart', htail'⟩ := List.isChain_cons_cons.mp htail
        have hn : n.isSpace = false := (happart'.1 ht).1
        -- the list without `t` is still apart, because `n` needs no white space
        have hskip : Tied (some n) false ns := by
          have hchain : (p :: n :: ns).IsChain Apart :=
            List.isChain_cons_cons.mpr ⟨by simp [Apart, hp, hn], htail'⟩
          exact ((tied_visible hn _ _ _).mp (ih hp hchain)).2
        refine (tied_visible hn _ _ _).mpr ⟨fun _ q hq => ?_, hskip⟩
        rw [← Option.some.inj hq]
        exact opensComment_of_not_marks (partsAfter_of_kind_ne hword) n

theorem tied_start (spaced : Bool) {ts : List Token} (h : ts.IsChain Apart) :
    Tied none spaced ts := by
  induction ts generalizing spaced with
  | nil => trivial
  | cons t ts ih =>
    cases ht : t.isSpace with
    | true => exact (tied_space ht _ _ _).mpr (ih true h.tail)
    | false => exact (tied_visible ht _ _ _).mpr ⟨by simp, tied_of_apart ht h⟩

theorem Tied.opensComment_head {p : Token} {ts : List Token} (h : Tied (some p) true ts) :
    ∀ t ∈ (Token.visible ts).head?, opensComment p t = false := by
  induction ts with
  | nil => simp [Token.visible]
  | cons t ts ih =>
    cases hspace : t.isSpace with
    | true =>
      rw [visible_cons_space hspace]
      exact ih ((tied_space hspace _ _ _).mp h)
    | false =>
      rw [visible_cons hspace]
      simpa using ((tied_visible hspace _ _ _).mp h).1 rfl p rfl

/-- In a tied list the neighbours that open a comment are those among the visible tokens. -/
theorem Tied.unfused_iff {prev : Option Token} {spaced : Bool} {ts : List Token}
    (h : Tied prev spaced ts) : Unfused ts ↔ Unfused (Token.visible ts) := by
  induction ts generalizing prev spaced with
  | nil => rfl
  | cons t ts ih =>
    cases hspace : t.isSpace with
    | true =>
      rw [visible_cons_space hspace, unfused_cons_of_partsAfter (partsAfter_of_isSpace hspace)]
      exact ih ((tied_space hspace _ _ _).mp h)
    | false =>
      have htail := ((tied_visible hspace _ _ _).mp h).2
      rw [visible_cons hspace, unfused_cons, unfused_cons]
      refine and_congr ?_ (ih htail)
      cases ts with
      | nil => simp [Token.visible]
      | cons n ns =>
        cases hn : n.isSpace with
        | false => simp [visible_cons hn]
        | true =>
          rw [visible_cons_space hn]
          have hhead := Tied.opensComment_head ((tied_space hn _ _ _).mp htail)
          simpa [opensComment_of_isSpace (.inr hn)] using hhead

/-- Where no symbol that opens a comment is a delimiter, a scan fuses any two that do. -/
theorem fuses_eq_false_iff {d : Dialect} {s : Style}
    (hs : ∀ p t, opensComment p t = true → s.isDelimiter p.text = false) (σ : Scan)
    (us : List Token) : fuses d s σ us = false ↔ Unfused us := by
  induction us generalizing σ with
  | nil => simp [fuses, Unfused]
  | cons x us ih =>
    rw [fuses, Bool.or_eq_false_iff, ih, unfused_cons]
    refine and_congr_left fun _ => ?_
    cases us with
    | nil => simp
    | cons y us =>
      cases hopens : opensComment x y with
      | false => simp [hopens]
      | true => simp [hopens, hs x y hopens]

theorem text_of_opensComment {p t : Token} (h : opensComment p t = true) :
    p.text = ['-'] ∨ p.text = ['/'] := by
  simp only [opensComment, Bool.or_eq_true, Bool.and_eq_true] at h
  exact h.imp (fun h => text_of_isSymbol h.1) fun h => text_of_isSymbol h.1

theorem isDelimiter_of_not_isMark {s : Style} (hmark : ¬ IsMark s) {p t : Token}
    (h : opensComment p t = true) : s.isDelimiter p.text = false := by
  obtain ⟨c, hc, htext⟩ : ∃ c, (c = '-' ∨ c = '/') ∧ p.text = [c] := by
    rcases text_of_opensComment h with h | h
    · exact ⟨'-', .inl rfl, h⟩
    · exact ⟨'/', .inr rfl, h⟩
  cases hdelimiter : s.isDelimiter p.text with
  | false => rfl
  | true =>
    have hlower : c.toLower = c := by rcases hc with rfl | rfl <;> decide
    simp only [Style.isDelimiter, Text.sameAsciiCase, Text.asciiLower, htext, List.map_cons,
      List.map_nil, hlower, beq_iff_eq] at hdelimiter
    obtain ⟨x, hx, hlow⟩ := List.map_eq_singleton_iff.mp hdelimiter.symm
    have hsame := toLower_eq_mark (.inr hc) hlow
    rw [hsame] at hx
    refine absurd ?_ hmark
    rcases hc with rfl | rfl
    · exact .inr (.inl hx)
    · exact .inr (.inr hx)

/-! ## Delimiters that are marks -/

/-- Behind a symbol that may open a comment there is white space only if it is the delimiter. -/
theorem mood_next_of_opensComment {d : Dialect} {s : Style} {σ : Scan} {x y : Token}
    (h : opensComment x y = true) :
    (σ.next d s x).mood =
      if s.isDelimiter x.text && !(σ.next d s x).calls.any id then .parted else .plain := by
  have hkind : x.kind = .symbol := (kind_of_opensComment h).1
  have hends : endsLine x = false := by
    rcases text_of_opensComment h with htext | htext <;> simp [endsLine, hkind, htext]
  have hline : isLineComment x = false := by simp [isLineComment, hkind]
  simp only [Scan.next, Scan.moodAfter, hends, hline]
  cases (callsAfter σ.calls σ.callNext x).any id <;> cases s.isDelimiter x.text <;> simp

theorem Walked.unfused_iff {d : Dialect} {s : Style} {σ : Scan} {ns ts : List Token}
    (h : Walked d s σ ns ts) : Unfused ts ↔ fuses d s σ (Token.visible ns) = false := by
  induction h with
  | nil => simp [Unfused, Token.visible, fuses]
  | space space rest ih => rwa [visible_cons_space space]
  | @visit σ x x' gs ns ts visible fits rest ih =>
    rw [unfused_spaces fits.spaces, unfused_cons, visible_cons visible, fuses,
      Bool.or_eq_false_iff, ih]
    refine and_congr_left fun _ => ?_
    cases hns : Token.visible ns with
    | nil =>
      rw [rest.eq_nil hns]
      simp
    | cons y us =>
      obtain ⟨ns', gs', y', ts', rfl, hy, hfits', hrest', hus, hsuffix⟩ := rest.exists_visit hns
      have hsame : opensComment x' y' = opensComment x y := by
        simp [opensComment, fits.isSymbol, hfits'.isSymbol]
      cases hopens : opensComment x y with
      | false =>
        have hhead : ∀ t ∈ (gs' ++ y' :: ts').head?, opensComment x' t = false := by
          intro t ht
          cases gs' with
          | nil =>
            obtain rfl : y' = t := by simpa using ht
            rw [hsame, hopens]
          | cons g more =>
            obtain rfl : g = t := by simpa using ht
            exact opensComment_of_isSpace (.inr (hfits'.spaces g (by simp)))
        simpa [hopens] using hhead
      | true =>
        have hmood := mood_next_of_opensComment (d := d) (s := s) (σ := σ) hopens
        cases hparts : s.isDelimiter x.text && !(σ.next d s x).calls.any id with
        | true =>
          rw [hparts, if_pos rfl] at hmood
          obtain ⟨g, more, rfl⟩ := List.exists_cons_of_ne_nil (hfits'.parted hmood)
          have hg : g.isSpace = true := hfits'.spaces g (by simp)
          simp [opensComment_of_isSpace (.inr hg)]
        | false =>
          rw [hparts] at hmood
          have hkind : y.kind = .symbol := (kind_of_opensComment hopens).2
          have htext : y.text ≠ [')'] := by
            simp only [opensComment, Bool.or_eq_true, Bool.and_eq_true] at hopens
            rcases hopens with hopens | hopens <;> simp [text_of_isSymbol hopens.2]
          obtain rfl := hfits'.plain hmood hkind htext
          simp [hsame, hopens]

/-! ## Layouts -/

theorem Arranged.unfused_iff {s : Style} {sql : Text} {ws ms fs : List Token}
    (h : Arranged .standard s sql ws ms fs) (hfree : NoComments (tokenize .standard sql)) :
    Unfused fs ↔ fuses .standard s .start
      (Token.visible (normalize s (tokenize .standard sql))) = false := by
  rw [h.spells.unfused]
  by_cases hmark : IsMark s
  · obtain ⟨ws', hbreak, hwalked⟩ := exists_walked_normalize hmark sql
    obtain rfl : ws' = ws := Option.some.inj (hbreak.symm.trans h.walked)
    rw [h.filled.unfused, hwalked.unfused_iff]
  · -- nothing ever comes between the symbols, so only their order among the tokens matters
    have hs : ∀ p t, opensComment p t = true → s.isDelimiter p.text = false :=
      fun p t => isDelimiter_of_not_isMark hmark
    have hedits : Edits s (normalize s (tokenize .standard sql)) ms :=
      (Walk.edits_run h.walked).trans h.filled.edits
    have htied : Tied none false ms := by
      refine hedits.preserves (P := Tied none false) (fun hedit => hedit.tied hs) ?_
      exact tied_start false (apart_normalize .standard s sql)
    have hvisible : Token.visible ms = Token.visible (normalize s (tokenize .standard sql)) :=
      eq_of_forall₂_settles
        (fun t ht => noComments_normalize hfree t (List.mem_filter.mp ht).1) hedits.visible
    rw [htied.unfused_iff, hvisible, fuses_eq_false_iff hs]

/-- A text without comments has a layout, and the layout has no comment exactly when the scan over
the tokens meets no two symbols that open one and stay together. -/
theorem noComments_iff_fuses (s : Style) (sql : Text)
    (hfree : NoComments (tokenize .standard sql)) :
    ∃ out, format .standard s sql = some out ∧ (NoComments (tokenize .standard out) ↔
      fuses .standard s .start (Token.visible (normalize s (tokenize .standard sql))) = false) := by
  obtain ⟨ws, ms, fs, harranged, hout⟩ := exists_arranged_of_noComments s hfree
  obtain ⟨es, hlegible, hspaces, hconcat⟩ := harranged.exists_legible hfree
  refine ⟨_, hout, ?_⟩
  have hback : Unfused (fs ++ es) ↔ Unfused fs := unfused_append_spaces hspaces fs
  have hcomments := Lexer.commentFree_iff (Token.concat (fs ++ es))
  rw [hlegible.commentFree_iff] at hcomments
  rw [← hconcat, ← harranged.unfused_iff hfree, ← hback]
  exact hcomments.symm

/-- A sign behind a value is no comment. -/
theorem noComments_iff_fuses_sign :
    NoComments (tokenize .standard "1 -2".toList) ∧
      ∃ out, format .standard .default "1 -2".toList = some out ∧ NoComments (tokenize .standard out) := by
  have hfree : NoComments (tokenize .standard "1 -2".toList) := by decide +kernel
  obtain ⟨out, hout, hiff⟩ := noComments_iff_fuses .default _ hfree
  exact ⟨hfree, out, hout, hiff.mpr (by decide +kernel)⟩

/-- Two signs in a row become a comment. -/
theorem not_noComments_signs :
    ∃ out, NoComments (tokenize .standard "1 - -1".toList) ∧
      format .standard .default "1 - -1".toList = some out ∧
      ¬ NoComments (tokenize .standard out) :=
  ⟨"1 -- 1".toList, by decide +kernel⟩

end SqlLayout.Layout
