import SqlLayout.Layout
import SqlLayout.Proofs.Layout.Edit

/-!
# The passes edit white space

A break edits white space only, whichever token it stands at, so the walk does (`edits_run`).
-/

namespace SqlLayout.Layout

/-! ## Breaks -/

/-- Whether a break may stand behind the token: no comment starts with it. -/
def PartsAfter (t : Token) : Prop := t.isSymbol ['-'] = false ∧ t.isSymbol ['/'] = false

theorem isSymbol_of_kind_ne {t : Token} (h : t.kind ≠ .symbol) (symbol : Text) :
    t.isSymbol symbol = false := by
  simp [Token.isSymbol, h]

theorem partsAfter_of_kind_ne {t : Token} (h : t.kind ≠ .symbol) : PartsAfter t :=
  ⟨isSymbol_of_kind_ne h _, isSymbol_of_kind_ne h _⟩

theorem isSymbol_settle (t : Token) (symbol : Text) :
    (settle t).isSymbol symbol = t.isSymbol symbol := by
  unfold settle
  split
  · next h =>
    have hkind : t.kind = .comment := by simp_all [isLineComment]
    have hother : (TokenKind.comment == TokenKind.symbol) = false := by decide
    simp [Token.isSymbol, Token.withText, hkind, hother]
  · rfl

theorem opensComment_settle (p t : Token) : opensComment p (settle t) = opensComment p t := by
  simp [opensComment, isSymbol_settle]

theorem kind_of_opensComment {p t : Token} (h : opensComment p t = true) :
    p.kind = .symbol ∧ t.kind = .symbol := by
  simp only [opensComment, Token.isSymbol, Bool.or_eq_true, Bool.and_eq_true, beq_iff_eq] at h
  rcases h with h | h
  · exact ⟨h.1.1, h.2.1⟩
  · exact ⟨h.1.1, h.2.1⟩

theorem kind_ne_comment_of_opensComment {p t : Token} (h : opensComment p t = true) :
    t.kind ≠ .comment := by
  simp [(kind_of_opensComment h).2]

theorem edits_afterDelimiter {s : Style} {line : Text} (hline : IsGap line) (offset : Nat)
    (t : Token) (hdelimiter : s.isDelimiter t.text = true) (ts : List Token) :
    Edits s (t :: ts) (t :: afterDelimiter line offset ts) := by
  cases ts with
  | nil => exact .refl _
  | cons n ns =>
    exact .single (.insert [] ns t n (line ++ line) offset (hline.append hline)
      (fun _ => hdelimiter))

/-- A break in front of the current token edits white space only. -/
theorem Cursor.edits_breakHere {s : Style} {line : Text} (hline : IsGap line) (c : Cursor)
    (hparts : ∀ p ∈ c.before.head?, ∀ t ∈ c.after.head?, opensComment p t = true →
      s.isDelimiter t.text = true) :
    Edits s c.tokens (c.breakHere s line).tokens := by
  obtain ⟨before, after⟩ := c
  cases after with
  | nil => cases before <;> exact .refl _
  | cons t ts =>
    cases before with
    | nil =>
      simp only [Cursor.breakHere, Cursor.tokens]
      split
      · next hspace => exact .single (.retext [] ts t line hspace hline)
      · split
        · next hdelimiter => exact edits_afterDelimiter hline t.offset t hdelimiter ts
        · exact .refl _
    | cons p ps =>
      have hgap : IsGap (breakText line t) := isGap_breakText hline t
      have hsettle : Edits s ((p :: ps).reverse ++ t :: ts) ((p :: ps).reverse ++ settle t :: ts) :=
        .single (.settle _ _ _)
      refine hsettle.trans ?_
      simp only [Cursor.breakHere, Cursor.tokens]
      split
      · next hspace => exact .single (.retext _ ts _ _ hspace hgap)
      · split
        · next hdelimiter =>
          have hafter := edits_afterDelimiter hgap (settle t).offset (settle t) hdelimiter ts
          simpa using hafter.append_left (p :: ps).reverse
        · split
          · next hspace =>
            simpa using Edits.single (Edit.retext ps.reverse (settle t :: ts) p _ hspace hgap)
          · next hdelimiter hspace =>
            have hinsert := Edit.insert (s := s) ps.reverse ts p (settle t) (breakText line t)
              (settle t).offset hgap ?_
            · simpa using Edits.single hinsert
            · intro hopens
              rw [opensComment_settle] at hopens
              rw [settle_of_kind_ne (kind_ne_comment_of_opensComment hopens)] at hdelimiter
              exact absurd (hparts p (by simp) t (by simp) hopens) hdelimiter

/-- A break in front of the next token edits white space only. -/
theorem Cursor.edits_breakNext {s : Style} {line : Text} (hline : IsGap line) (c : Cursor)
    (hparts : ∀ t ∈ c.after.head?, PartsAfter t) :
    Edits s c.tokens (c.breakNext s line).tokens := by
  obtain ⟨before, after⟩ := c
  match after with
  | [] => exact .refl _
  | [cur] => exact .refl _
  | cur :: t :: ts =>
    have hcur : PartsAfter cur := hparts cur (by simp)
    have hgap : IsGap (breakText line t) := isGap_breakText hline t
    have hsettle : Edits s (before.reverse ++ cur :: t :: ts)
        (before.reverse ++ cur :: settle t :: ts) := by
      simpa using Edits.single (Edit.settle (s := s) (before.reverse ++ [cur]) ts t)
    refine hsettle.trans ?_
    simp only [Cursor.breakNext, Cursor.tokens]
    split
    · next hspace =>
      simpa using Edits.single (Edit.retext (s := s) (before.reverse ++ [cur]) ts _ _ hspace hgap)
    · split
      · next hdelimiter =>
        have hafter := edits_afterDelimiter hgap (settle t).offset (settle t) hdelimiter ts
        simpa using hafter.append_left (before.reverse ++ [cur])
      · split
        · next hspace => exact .single (.retext _ (settle t :: ts) cur _ hspace hgap)
        · have hinsert := Edit.insert (s := s) before.reverse ts cur (settle t) (breakText line t)
            (settle t).offset hgap ?_
          · simpa using Edits.single hinsert
          · intro hopens
            simp [opensComment, hcur.1, hcur.2] at hopens

/-! ## The walk -/

namespace Walk

theorem edits_breakHere {s : Style} (level : Int) (w : Walk)
    (hparts : ∀ p ∈ w.cursor.before.head?, ∀ t ∈ w.cursor.after.head?, opensComment p t = true →
      s.isDelimiter t.text = true) :
    Edits s w.cursor.tokens (w.breakHere s level).cursor.tokens := by
  unfold breakHere
  split
  · exact .refl _
  · exact Cursor.edits_breakHere (isGap_lineBreak s level) w.cursor hparts

theorem edits_breakNext {s : Style} (level : Int) (w : Walk)
    (hparts : ∀ t ∈ w.cursor.after.head?, PartsAfter t) :
    Edits s w.cursor.tokens (w.breakNext s level).cursor.tokens := by
  unfold breakNext
  split
  · exact .refl _
  · exact Cursor.edits_breakNext (isGap_lineBreak s level) w.cursor hparts

/-- A break in front of a token leaves the cursor at it or, behind a delimiter, at white space. -/
theorem kind_head?_breakHere {s : Style} (level : Int) {w : Walk} {t : Token}
    (ht : w.cursor.after.head? = some t) :
    ∀ x ∈ (w.breakHere s level).cursor.after.head?, x.kind = t.kind ∨ x.kind = .space := by
  unfold breakHere
  split
  · simp [ht]
  · obtain ⟨⟨before, after⟩, _⟩ := w
    cases after with
    | nil => simp at ht
    | cons a as =>
      obtain rfl : a = t := by simpa using ht
      have hdelimiter : ∀ (line : Text) (offset : Nat),
          ∀ x ∈ (afterDelimiter line offset as).head?, x.kind = a.kind ∨ x.kind = .space := by
        intro line offset x hx
        unfold afterDelimiter at hx
        split at hx
        · simp at hx
        · obtain rfl : Token.space (line ++ line) offset = x := by simpa using hx
          exact .inr rfl
      cases before with
      | nil =>
        simp only [Cursor.breakHere]
        repeat' split
        · simp [Token.withText]
        · exact hdelimiter _ _
        · simp
      | cons p ps =>
        simp only [Cursor.breakHere]
        repeat' split
        · simp [Token.withText, kind_settle]
        · exact hdelimiter _ _
        · simp [kind_settle]
        · simp [kind_settle]

variable {d : Dialect} {s : Style} {w : Walk} {t : Token}

/-- A token that is no symbol has a break in front of it like anywhere else. -/
theorem edits_breakHere_of_kind_ne (level : Int) (ht : w.cursor.after.head? = some t)
    (hkind : t.kind ≠ .symbol) :
    Edits s w.cursor.tokens (w.breakHere s level).cursor.tokens := by
  refine edits_breakHere level w ?_
  intro p _ x hx hopens
  obtain rfl : t = x := by simpa [ht] using hx
  exact absurd (kind_of_opensComment hopens).2 hkind

theorem edits_breakNext_of_kind_ne (level : Int) (ht : w.cursor.after.head? = some t)
    (hkind : t.kind ≠ .symbol) :
    Edits s w.cursor.tokens (w.breakNext s level).cursor.tokens := by
  refine edits_breakNext level w ?_
  intro x hx
  obtain rfl : t = x := by simpa [ht] using hx
  exact partsAfter_of_kind_ne hkind

/-- Breaks on both sides of a token that is no symbol. -/
theorem edits_breakNext_breakHere (level level' : Int) (ht : w.cursor.after.head? = some t)
    (hkind : t.kind ≠ .symbol) :
    Edits s w.cursor.tokens ((w.breakHere s level).breakNext s level').cursor.tokens := by
  refine (edits_breakHere_of_kind_ne level ht hkind).trans (edits_breakNext level' _ ?_)
  intro x hx
  refine partsAfter_of_kind_ne ?_
  rcases kind_head?_breakHere level ht x hx with h | h
  · rw [h]
    exact hkind
  · simp [h]

theorem upper_mark : Text.upper ['-'] = ['-'] ∧ Text.upper ['/'] = ['/'] ∧
    Text.upper ['*'] = ['*'] := by decide

theorem edits_onSymbol (ht : w.cursor.after.head? = some t) :
    Edits s w.cursor.tokens (w.onSymbol d s (Text.upper t.text)).cursor.tokens := by
  have next : ∀ (level : Int) (v : Walk), v.cursor = w.cursor → Text.upper t.text ≠ ['-'] →
      Text.upper t.text ≠ ['/'] → Edits s w.cursor.tokens (v.breakNext s level).cursor.tokens := by
    intro level v hv hminus hslash
    rw [← hv]
    refine edits_breakNext level v ?_
    intro x hx
    obtain rfl : t = x := by simpa [hv, ht] using hx
    constructor
    · cases h : t.isSymbol ['-'] with
      | false => rfl
      | true =>
        have htext : t.text = ['-'] := by simp_all [Token.isSymbol]
        exact absurd (htext ▸ upper_mark.1) hminus
    · cases h : t.isSymbol ['/'] with
      | false => rfl
      | true =>
        have htext : t.text = ['/'] := by simp_all [Token.isSymbol]
        exact absurd (htext ▸ upper_mark.2.1) hslash
  have here : ∀ (level : Int) (v : Walk), v.cursor = w.cursor →
      (Text.upper t.text = ['-'] ∨ Text.upper t.text = ['*'] →
        s.isDelimiter (Text.upper t.text) = true) →
      Edits s w.cursor.tokens (v.breakHere s level).cursor.tokens := by
    intro level v hv hdelimiter
    rw [← hv]
    refine edits_breakHere level v ?_
    intro p _ x hx hopens
    obtain rfl : t = x := by simpa [hv, ht] using hx
    have htext : t.text = ['-'] ∨ t.text = ['*'] := by
      simp only [opensComment, Token.isSymbol, Bool.or_eq_true, Bool.and_eq_true,
        beq_iff_eq] at hopens
      exact hopens.imp (·.2.2) (·.2.2)
    rcases htext with h | h
    · simpa [h, upper_mark.1] using hdelimiter
    · simpa [h, upper_mark.2.2] using hdelimiter
  have separator : Edits s w.cursor.tokens
      (onSymbol.onSeparator s (Text.upper t.text) w).cursor.tokens := by
    unfold onSymbol.onSeparator
    repeat' split
    · next hword => exact next _ w rfl (by simp [hword]) (by simp [hword])
    · next hdelimiter => exact here _ (w.atLevel 0) rfl (fun _ => hdelimiter)
    · exact .refl _
  unfold onSymbol
  split
  · next hword => exact next _ _ rfl (by simp [hword]) (by simp [hword])
  · split
    · split
      · next b bs _ hword => exact here _ (w.atLevel b.level) rfl (by simp [hword])
      · exact separator
    · exact separator

theorem edits_onKeyword (word : Text) (ht : w.cursor.after.head? = some t)
    (hkind : t.kind ≠ .symbol) :
    Edits s w.cursor.tokens (w.onKeyword s word).cursor.tokens := by
  unfold onKeyword
  split
  · exact edits_breakNext_of_kind_ne (w := w.atLevel (w.level + 1)) _ ht hkind
  · exact edits_breakNext_breakHere _ _ ht hkind
  · split
    · exact edits_breakHere_of_kind_ne _ ht hkind
    · exact .refl _
  · exact edits_breakHere_of_kind_ne (w := w.atLevel (w.level - 1)) _ ht hkind
  · exact edits_breakHere_of_kind_ne _ ht hkind
  · exact edits_breakNext_of_kind_ne _ ht hkind
  · exact edits_breakNext_of_kind_ne _ ht hkind
  · exact edits_breakHere_of_kind_ne _ ht hkind
  · exact .refl _
  · change Edits s w.cursor.tokens (if w.inRange then w else w.breakHere s w.level).cursor.tokens
    split
    · exact .refl _
    · exact edits_breakHere_of_kind_ne _ ht hkind
  · exact .refl _

theorem edits_onWord (word : Text) (ht : w.cursor.after.head? = some t)
    (hkind : t.kind ≠ .symbol) : Edits s w.cursor.tokens (w.onWord s word).cursor.tokens := by
  unfold onWord
  split
  · exact edits_breakNext_of_kind_ne (w := w.atLevel 0) _ ht hkind
  · exact .refl _

theorem edits_onCommand (ht : w.cursor.after.head? = some t) (hkind : t.kind ≠ .symbol) :
    Edits s w.cursor.tokens (w.onCommand s).cursor.tokens := by
  unfold onCommand
  dsimp only
  split
  · exact edits_breakNext_of_kind_ne (w := w.atLevel 0) _ ht hkind
  · exact edits_breakNext_breakHere (w := w.atLevel 0) _ _ ht hkind

/-- The reaction to a token edits white space only. -/
theorem edits_react (ht : w.cursor.after.head? = some t) :
    Edits s w.cursor.tokens (w.react d s t).cursor.tokens := by
  unfold react
  split
  · exact edits_onSymbol ht
  · next hkind => exact edits_onKeyword _ ht (by simp [hkind])
  · next hkind =>
    unfold onComment
    split
    · exact edits_breakNext_of_kind_ne _ ht (by simp [hkind])
    · exact .refl _
  · next hkind => exact edits_onCommand ht (by simp [hkind])
  · next hkind =>
    unfold onName
    split
    · exact edits_breakHere_of_kind_ne _ ht (by simp [hkind])
    · exact edits_onWord _ ht (by simp [hkind])
  all_goals
    next hkind => exact edits_onWord _ ht (by simp [hkind])

theorem edits_closeLineComment : Edits s w.cursor.tokens (w.closeLineComment s).cursor.tokens := by
  unfold closeLineComment
  split
  · next hopen =>
    refine edits_breakHere _ w ?_
    intro p hp t _ hopens
    -- the token in front is a comment, so the two are no mark
    unfold followsOpenLineComment at hopen
    split at hopen
    · next q _ _ _ hbefore _ =>
      obtain rfl : q = p := by simpa [hbefore] using hp
      have hkind := (kind_of_opensComment hopens).1
      simp [isLineComment, hkind] at hopen
    · cases hopen
  · exact .refl _

theorem tokens_advance (c : Cursor) : c.advance.tokens = c.tokens := by
  unfold Cursor.advance
  split
  · rfl
  · next h => simp [Cursor.tokens, h]

theorem edits_visit {w' : Walk} (h : w.visit d s = some w') :
    Edits s w.cursor.tokens w'.cursor.tokens := by
  unfold visit at h
  dsimp only at h
  split at h
  · cases h
  · next t ts hafter =>
    cases h
    have hreact : Edits s (w.closeLineComment s).cursor.tokens
        ((w.closeLineComment s).react d s t).cursor.tokens := edits_react (by simp [hafter])
    have hleave : (((w.closeLineComment s).react d s t).leave t.text).cursor.tokens =
        ((w.closeLineComment s).react d s t).cursor.tokens := tokens_advance _
    rw [hleave]
    exact edits_closeLineComment.trans hreact

/-- The whole walk edits white space only. -/
theorem edits_run {ts : List Token} (h : w.run d s = some ts) : Edits s w.cursor.tokens ts := by
  fun_induction run d s w with
  | case1 w hdone =>
    cases h
    exact .refl _
  | case2 w hmore hvisit => cases h
  | case3 w hmore w' hvisit ih => exact (edits_visit hvisit).trans (ih h)

end Walk

/-! ## Reducing and filling in white space -/

/-- No two white space tokens next to each other. -/
def Spaced (ts : List Token) : Prop :=
  ts.IsChain fun p t => p.isSpace = true → t.isSpace = false

/-- What stands before a token that is not white space does not change what is collapsed. -/
theorem collapseAfter_eq {ts : List Token} (h : ∀ t ∈ ts.head?, t.isSpace = false)
    (absorbed absorbed' : Bool) : collapseAfter absorbed ts = collapseAfter absorbed' ts := by
  cases ts with
  | nil => rfl
  | cons t ts => simp [collapseAfter, h t (by simp)]

theorem collapseAfter_visible {t : Token} (ht : t.isSpace = false) (absorbed : Bool) (ts : List Token) :
    collapseAfter absorbed (t :: ts) = t :: collapseAfter (absorbsSpace t) ts := by
  simp [collapseAfter, ht]

/-- Collapsing white space behind a token drops it or shrinks it. -/
theorem edits_collapseAfter {s : Style} (p : Token) (ts : List Token) (hts : Spaced (p :: ts)) :
    Edits s (p :: ts) (p :: collapseAfter (absorbsSpace p) ts) := by
  induction ts generalizing p with
  | nil => exact .refl _
  | cons t ts ih =>
    have htail : Spaced (t :: ts) := hts.tail
    cases hspace : t.isSpace with
    | false =>
      rw [collapseAfter_visible hspace]
      exact (ih t htail).cons p
    | true =>
      have hnext : ∀ n ∈ ts.head?, n.isSpace = false :=
        fun n hn => (List.isChain_cons.mp htail).1 n hn hspace
      have hshort : Spaced (p :: ts) :=
        List.isChain_cons.mpr ⟨fun n hn _ => hnext n hn, htail.tail⟩
      have hdropped : Edits s (p :: ts) (p :: collapseAfter false ts) := by
        rw [collapseAfter_eq hnext false (absorbsSpace p)]
        exact ih p hshort
      simp only [collapseAfter, hspace, ↓reduceIte]
      split
      · next habsorbed =>
        refine Edits.trans ?_ hdropped
        rcases Bool.or_eq_true _ _ ▸ habsorbed with hp | hn
        · exact .single (.dropAfter [] ts p t hp hspace)
        · cases ts with
          | nil => simp at hn
          | cons n ns => exact .single (.dropBefore [p] ns t n hspace (by simpa using hn))
      · have hkept := ih (t.withText [' ']) (List.isChain_cons.mpr ⟨fun n hn _ => hnext n hn, htail.tail⟩)
        have hflag : absorbsSpace (t.withText [' ']) = false := by
          cases habsorbs : absorbsSpace (t.withText [' ']) with
          | false => rfl
          | true =>
            have hvisible : t.isSpace = false := isSpace_of_absorbsSpace habsorbs
            simp [hspace] at hvisible
        rw [hflag] at hkept
        exact (Edits.single (.retext [p] ts t [' '] hspace isGap_blank)).trans (hkept.cons p)

theorem edits_collapse {s : Style} {ts : List Token} (hts : Spaced ts)
    (hfirst : ∀ t ∈ ts.head?, t.isSpace = false) : Edits s ts (collapse ts) := by
  cases ts with
  | nil => exact .refl _
  | cons t ts =>
    have heq : collapse (t :: ts) = t :: collapseAfter (absorbsSpace t) ts := by
      simp [collapse, collapseAfter, hfirst t (by simp)]
    rw [heq]
    exact edits_collapseAfter t ts hts

/-- White space that is left after collapsing is one blank. -/
theorem text_of_mem_collapseAfter (absorbed : Bool) (ts : List Token) :
    ∀ t ∈ collapseAfter absorbed ts, t.isSpace = true → t.text = [' '] := by
  fun_induction collapseAfter absorbed ts with
  | case1 => simp
  | case2 absorbed t ts hspace habsorbed ih => exact ih
  | case3 absorbed t ts hspace habsorbed ih => exact List.forall_mem_cons.mpr ⟨fun _ => rfl, ih⟩
  | case4 absorbed t ts hspace ih =>
    exact List.forall_mem_cons.mpr ⟨fun h => absurd h hspace, ih⟩

theorem exists_insertGaps_cons (s : Style) (t : Token) (ts : List Token) :
    ∃ rest, insertGaps s (t :: ts) = t :: rest := by
  cases ts with
  | nil => exact ⟨[], rfl⟩
  | cons n ns =>
    unfold insertGaps
    split <;> exact ⟨_, rfl⟩

theorem isGap_of_gap? {s : Style} {p t : Token} {g : Text} (h : gap? s p t = some g) : IsGap g := by
  unfold gap? at h
  repeat' split at h
  all_goals simp only [Option.some.injEq, reduceCtorEq] at h
  all_goals
    subst h
    exact ⟨by decide, by decide⟩

/-- Two symbols stay next to each other. -/
theorem gap?_symbol (s : Style) {p t : Token} (hp : p.kind = .symbol) (ht : t.kind = .symbol) :
    gap? s p t = none := by
  unfold gap?
  repeat' split
  all_goals simp_all

end SqlLayout.Layout
