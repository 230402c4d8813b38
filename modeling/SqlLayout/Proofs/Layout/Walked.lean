import SqlLayout.Proofs.Layout.Scan

/-!
# Every walk is a scan

At each token the cursor of the walk is in one of a few places (`Arrives`), and a visit leads from
one to the next.  So a walk over tokens that are `Tidy` never runs past its end, and leaves what the
scan allows (`exists_walked`).
-/

namespace SqlLayout.Layout

/-- Token lists as the walk gets them: single white space tokens away from symbols and comments,
line comments that end their line, and delimiters that are symbols. -/
structure Tidy (d : Dialect) (s : Style) (ns : List Token) : Prop where
  apart : ns.IsChain fun p t => (p.isSpace = true → t.isSpace = false ∧ absorbsSpace t = false) ∧
    (t.isSpace = true → absorbsSpace p = false)
  lines : ns.IsChain fun p _ => isLineComment p = true → Text.endsWith p.text '\n' = true
  gaps : Gaps ns
  marks : ∀ t ∈ ns, s.isDelimiter t.text = true → t.kind = .symbol
  calls : ∀ t ∈ ns, endsLine t = true → d.isFunction t.text = false
  last : ∀ t ∈ ns.getLast?, t.isSpace = false

/-- Functions have names that start with a letter. -/
def NamesFunctions (d : Dialect) : Prop :=
  ∀ text, d.isFunction text = true → ∃ c ∈ text.head?, Lexer.isLetter c = true

/-- `Arrives s mood c front ns`: with `front` behind it, nearest first, and `ns` still to come, the
walk has its cursor at `c`. -/
inductive Arrives (s : Style) : Mood → Cursor → List Token → List Token → Prop
  | done (mood : Mood) (front : List Token) : Arrives s mood ⟨front, []⟩ front []
  | plain (front ns : List Token)
      (closed : ∀ p ∈ front.head?, p.isSpace = false ∧ isOpenComment p = false) :
      Arrives s .plain ⟨front, ns⟩ front ns
  | spaced (front : List Token) (g x : Token) (rest : List Token) (space : g.isSpace = true)
      (visible : x.isSpace = false) (word : absorbsSpace x = false) :
      Arrives s .plain ⟨g :: front, x :: rest⟩ front (x :: rest)
  | ended (front : List Token) (g x : Token) (rest : List Token) (space : g.isSpace = true)
      (visible : x.isSpace = false) (line : '\n' ∈ g.text ↔ isLineComment x = false)
      (other : s.isDelimiter x.text = false) :
      Arrives s .ended ⟨g :: front, settle x :: rest⟩ front (x :: rest)
  | endedSpace (front : List Token) (g : Token) (rest : List Token) (line : Text)
      (space : g.isSpace = true) (gap : IsGap line) (feed : '\n' ∈ line) :
      Arrives s .ended ⟨front, g.withText line :: rest⟩ front (g :: rest)
  | comment (p : Token) (front : List Token) (x : Token) (rest : List Token)
      (opened : isOpenComment p = true) (visible : x.isSpace = false) :
      Arrives s .ended ⟨p :: front, x :: rest⟩ (p :: front) (x :: rest)
  | skipped (front : List Token) (x : Token) (rest : List Token) (line : Text) (offset : Nat)
      (delimiter : s.isDelimiter x.text = true) (gap : IsGap line) :
      Arrives s .ended ⟨x :: front, afterDelimiter line offset rest⟩ front (x :: rest)
  | parted (front : List Token) (g x : Token) (rest : List Token) (space : g.isSpace = true)
      (visible : x.isSpace = false) : Arrives s .parted ⟨g :: front, x :: rest⟩ front (x :: rest)

/-- The walk is where the scan is. -/
structure Ready (d : Dialect) (s : Style) (σ : Scan) (w : Walk) (front ns : List Token) : Prop where
  arrives : Arrives s σ.mood w.cursor front ns
  calls : w.calls = σ.calls
  outside : σ.mood ≠ .plain → σ.calls.any id = false ∧ σ.callNext = false
  previous : ∀ t ∈ ns.head?, t.isSymbol ['('] = true → d.isFunction w.previous = σ.callNext

namespace Tidy

variable {d : Dialect} {s : Style} {t : Token} {ns : List Token}

theorem tail (h : Tidy d s (t :: ns)) : Tidy d s ns where
  apart := h.apart.tail
  lines := h.lines.tail
  gaps := fun x hx => h.gaps x (by simp [hx])
  marks := fun x hx => h.marks x (by simp [hx])
  calls := fun x hx => h.calls x (by simp [hx])
  last := fun x hx => h.last x (List.mem_getLast?_cons hx)

/-- Only symbols are delimiters. -/
theorem isDelimiter_of_kind_ne (h : Tidy d s ns) {x : Token} (hx : x ∈ ns) (hkind : x.kind ≠ .symbol) :
    s.isDelimiter x.text = false :=
  Bool.eq_false_iff.mpr fun hdelimiter => hkind (h.marks x hx hdelimiter)

/-- A line comment that something follows is closed. -/
theorem isOpenComment_eq_false (h : Tidy d s (t :: ns)) (hns : ns ≠ []) :
    isOpenComment t = false := by
  obtain ⟨a, as, rfl⟩ := List.exists_cons_of_ne_nil hns
  exact isOpenComment_eq_false_of_ends (List.isChain_cons_cons.mp h.lines).1

/-- No white space follows a symbol or a comment. -/
theorem visible_of_absorbs (h : Tidy d s (t :: ns)) (ht : absorbsSpace t = true) :
    ∀ x ∈ ns.head?, x.isSpace = false := by
  intro x hx
  have hpair := (List.isChain_cons.mp h.apart).1 x hx
  cases hspace : x.isSpace with
  | false => rfl
  | true =>
    rw [hpair.2 hspace] at ht
    cases ht

end Tidy

/-! ## Line comments without their line feed -/

theorem isLineComment_iff (text : Text) :
    Dialect.isLineComment text = true ↔ ∃ cs, text = '-' :: '-' :: cs := by
  simp only [Dialect.isLineComment, Text.startsWith, Dialect.lineCommentMark,
    List.isPrefixOf_iff_prefix]
  constructor
  · rintro ⟨cs, rfl⟩
    exact ⟨cs, rfl⟩
  · rintro ⟨cs, rfl⟩
    exact ⟨cs, rfl⟩

theorem isLineComment_trimEnd {text : Text} (h : Dialect.isLineComment text = true) :
    Dialect.isLineComment (Text.trimEnd text) = true := by
  obtain ⟨cs, rfl⟩ := (isLineComment_iff text).mp h
  rw [Text.trimEnd_cons_of_not_blank (by decide), Text.trimEnd_cons_of_not_blank (by decide)]
  exact (isLineComment_iff _).mpr ⟨_, rfl⟩

theorem isLineComment_settle (t : Token) : isLineComment (settle t) = isLineComment t := by
  unfold settle
  split
  · next h =>
    rw [h]
    simp only [isLineComment, Bool.and_eq_true] at h ⊢
    exact ⟨h.1, isLineComment_trimEnd h.2⟩
  · rfl

theorem endsWith_trimEnd (text : Text) : Text.endsWith (Text.trimEnd text) '\n' = false := by
  cases h : Text.endsWith (Text.trimEnd text) '\n' with
  | false => rfl
  | true =>
    have hlast : (Text.trimEnd text).getLast? = some '\n' := by simpa [Text.endsWith] using h
    rw [Text.trimEnd, List.getLast?_reverse] at hlast
    have hhead := List.head?_dropWhile_not Text.isBlank text.reverse
    rw [hlast] at hhead
    exact absurd hhead (by decide)

theorem isOpenComment_settle {t : Token} (h : isLineComment t = true) :
    isOpenComment (settle t) = true := by
  have hsettle : settle t = t.withText (Text.trimEnd t.text) := by simp [settle, h]
  have hline := isLineComment_settle t
  rw [h] at hline
  unfold isOpenComment
  rw [hline, hsettle]
  simp [Token.withText, endsWith_trimEnd]

theorem endsLine_of_isLineComment {t : Token} (h : isLineComment t = true) : endsLine t = false := by
  have hkind := kind_of_isLineComment h
  simp only [isLineComment, Bool.and_eq_true] at h
  simp [endsLine, hkind, h.2]

theorem endsLine_settle (t : Token) : endsLine (settle t) = endsLine t := by
  by_cases h : isLineComment t = true
  · rw [endsLine_of_isLineComment h, endsLine_of_isLineComment (by rwa [isLineComment_settle])]
  · simp [settle, h]

theorem isDelimiter_settle {s : Style} (hmark : IsMark s) (t : Token) :
    s.isDelimiter (settle t).text = s.isDelimiter t.text := by
  by_cases h : isLineComment t = true
  · have hline := isLineComment_text h
    rw [isDelimiter_of_isLineComment hmark hline, settle, if_pos h]
    exact isDelimiter_of_isLineComment hmark (isLineComment_trimEnd hline)
  · simp [settle, h]

theorem isFunction_of_isLineComment {d : Dialect} (hnames : NamesFunctions d) {text : Text}
    (h : Dialect.isLineComment text = true) : d.isFunction text = false := by
  obtain ⟨cs, rfl⟩ := (isLineComment_iff text).mp h
  cases hfunction : d.isFunction ('-' :: '-' :: cs) with
  | false => rfl
  | true =>
    obtain ⟨c, hc, hletter⟩ := hnames _ hfunction
    obtain rfl : '-' = c := by simpa using hc
    exact absurd hletter (by decide)

theorem isFunction_settle {d : Dialect} (hnames : NamesFunctions d) (t : Token) :
    d.isFunction (settle t).text = d.isFunction t.text := by
  by_cases h : isLineComment t = true
  · have hline := isLineComment_text h
    rw [isFunction_of_isLineComment hnames hline, settle, if_pos h]
    exact isFunction_of_isLineComment hnames (isLineComment_trimEnd hline)
  · simp [settle, h]

theorem isFunction_of_allBlank {d : Dialect} (hnames : NamesFunctions d) {text : Text}
    (h : Text.allBlank text = true) : d.isFunction text = false := by
  cases hfunction : d.isFunction text with
  | false => rfl
  | true =>
    obtain ⟨c, hc, hletter⟩ := hnames _ hfunction
    have hblank : Text.isBlank c = true := by
      simp only [Text.allBlank, List.all_eq_true] at h
      exact h c (List.mem_of_head? hc)
    simp [Lexer.isLetter, hblank] at hletter

theorem isFunction_delimiter {d : Dialect} (hnames : NamesFunctions d) {s : Style}
    (hmark : IsMark s) {text : Text} (h : s.isDelimiter text = true) : d.isFunction text = false := by
  cases hfunction : d.isFunction text with
  | false => rfl
  | true =>
    obtain ⟨c, hc, hletter⟩ := hnames _ hfunction
    rw [(isDelimiter_iff hmark text).mp h] at hc
    rw [not_letter_delimiter hmark c (List.mem_of_head? hc)] at hletter
    cases hletter

theorem feed_mem_lineBreak (s : Style) (level : Int) : '\n' ∈ s.lineBreak level := by
  simp [Style.lineBreak]

/-! ## Steps -/

section Steps

variable {d : Dialect} {s : Style} {w : Walk}

theorem run_of_visit {w' : Walk} (hvisit : w.visit d s = some w') (hafter : w.cursor.after ≠ []) :
    w.run d s = w'.run d s := by
  rw [Walk.run]
  have hmore : w.cursor.after.isEmpty = false := by simpa using hafter
  simp only [hmore, Bool.false_eq_true, ↓reduceIte]
  split
  · next hnone =>
    rw [hvisit] at hnone
    cases hnone
  · next w'' hsome =>
    rw [hvisit] at hsome
    cases hsome
    rfl

theorem closeLineComment_of_space {g : Token} {rest : List Token}
    (hafter : w.cursor.after = g :: rest) (hg : g.isSpace = true) : w.closeLineComment s = w := by
  have hopen : Walk.followsOpenLineComment s w.cursor = false := by
    unfold Walk.followsOpenLineComment
    split
    · next ha =>
      rw [hafter] at ha
      cases ha
      simp [hg]
    · rfl
  simp [Walk.closeLineComment, hopen]

/-- White space is passed by. -/
theorem visit_space (hmark : IsMark s) {g : Token} {before rest : List Token}
    (hcursor : w.cursor = ⟨before, g :: rest⟩) (hg : g.isSpace = true)
    (hblank : Text.allBlank g.text = true) :
    w.visit d s = some { w with cursor := ⟨g :: before, rest⟩, previous := g.text } := by
  have hafter : w.cursor.after = g :: rest := by rw [hcursor]
  have hkind : g.kind = .space := by simpa [Token.isSpace] using hg
  have hreact : w.react d s g = w := by
    simp [Walk.react, hkind, Walk.onWord, isDelimiter_upper hmark,
      isDelimiter_of_allBlank hmark hblank]
  unfold Walk.visit
  rw [closeLineComment_of_space hafter hg]
  simp only [hafter, hreact, Walk.leave]
  rw [hcursor]
  rfl

/-- A break in front of a token that is no comment replaces the gap there or makes one. -/
theorem breakHere?_visible {x : Token} (hx : x.isSpace = false) (here : Option Int)
    (hword : here.isSome = true → x.kind ≠ .comment) (hother : s.isDelimiter x.text = false)
    {gs front : List Token} (rest : List Token) (hgs : ∀ g ∈ gs, g.isSpace = true)
    (hshort : gs.length ≤ 1) (hfront : gs = [] → ∀ p ∈ front.head?, p.isSpace = false) :
    ∃ gs', (⟨gs ++ front, x :: rest⟩ : Cursor).breakHere? s here = ⟨gs' ++ front, x :: rest⟩ ∧
      (∀ g ∈ gs', g.isSpace = true) ∧
      (gs' = gs ∨ here.isSome = true ∧ ∃ g, gs' = [g] ∧ '\n' ∈ g.text) := by
  cases here with
  | none => exact ⟨gs, rfl, hgs, .inl rfl⟩
  | some level =>
    have hcomment : x.kind ≠ .comment := hword rfl
    have hsettle : settle x = x := settle_of_kind_ne hcomment
    have hline : breakText (s.lineBreak level) x = s.lineBreak level := by
      simp [breakText, isLineComment, hcomment]
    have hfeed := feed_mem_lineBreak s level
    cases gs with
    | nil =>
      cases front with
      | nil => exact ⟨[], by simp [Cursor.breakHere?, Cursor.breakHere, hx, hother], by simp, .inl rfl⟩
      | cons p ps =>
        have hp : p.isSpace = false := hfront rfl p (by simp)
        refine ⟨[Token.space (s.lineBreak level) x.offset], ?_, by simp [Token.space, Token.isSpace],
          .inr ⟨rfl, _, rfl, hfeed⟩⟩
        simp [Cursor.breakHere?, Cursor.breakHere, hsettle, hline, hx, hother, hp]
    | cons g more =>
      obtain rfl : more = [] := by simpa using hshort
      have hg : g.isSpace = true := hgs g (by simp)
      have hg' : (g.withText (s.lineBreak level)).isSpace = true := hg
      refine ⟨[g.withText (s.lineBreak level)], ?_, by simp [hg'], .inr ⟨rfl, _, rfl, hfeed⟩⟩
      simp [Cursor.breakHere?, Cursor.breakHere, hsettle, hline, hx, hother, hg]

/-- Behind a token that ends its line. -/
theorem arrives_breakNext (hmark : IsMark s) {x : Token} (hx : x.isSpace = false)
    {rest : List Token} (hrest : Tidy d s rest) (before : List Token) (level : Int) :
    Arrives s .ended ((⟨before, x :: rest⟩ : Cursor).breakNext s (s.lineBreak level)).advance
      (x :: before) rest := by
  cases rest with
  | nil => exact .done _ _
  | cons y ys =>
    have hfeed := feed_mem_lineBreak s level
    have hgap := isGap_lineBreak s level
    simp only [Cursor.breakNext, isSpace_settle, isDelimiter_settle hmark, hx]
    cases hy : y.isSpace with
    | true =>
      have hkind : y.kind = .space := by simpa [Token.isSpace] using hy
      have hline : breakText (s.lineBreak level) y = s.lineBreak level :=
        breakText_of_kind_ne (by simp [hkind])
      simp only [↓reduceIte, Cursor.advance, settle_of_isSpace hy, hline]
      exact .endedSpace _ y ys _ hy hgap hfeed
    | false =>
      cases hdelimiter : s.isDelimiter y.text with
      | true =>
        have hsettle : settle y = y :=
          settle_of_kind_ne (by simp [hrest.marks y (by simp) hdelimiter])
        simp only [↓reduceIte, Cursor.advance, hsettle, Bool.false_eq_true]
        exact .skipped _ y ys _ _ hdelimiter (isGap_breakText hgap y)
      | false =>
        simp only [Bool.false_eq_true, ↓reduceIte, Cursor.advance]
        refine .ended _ _ y ys rfl hy ?_ hdelimiter
        by_cases hline : isLineComment y = true
        · simp [Token.space, breakText, hline]
        · simp [Token.space, breakText, hline, hfeed]

theorem followsOpenLineComment_eq {p x : Token} {before rest : List Token}
    (hcursor : w.cursor = ⟨p :: before, x :: rest⟩) :
    Walk.followsOpenLineComment s w.cursor =
      (isOpenComment p && !x.isSpace && !s.isDelimiter x.text) := by
  simp [Walk.followsOpenLineComment, hcursor, isOpenComment]

theorem closeLineComment_of_closed {before : List Token} {x : Token} {rest : List Token}
    (hcursor : w.cursor = ⟨before, x :: rest⟩)
    (hclosed : ∀ p ∈ before.head?, isOpenComment p = false) : w.closeLineComment s = w := by
  have hopen : Walk.followsOpenLineComment s w.cursor = false := by
    cases before with
    | nil => simp [Walk.followsOpenLineComment, hcursor]
    | cons p ps => simp [followsOpenLineComment_eq hcursor, hclosed p (by simp)]
  simp [Walk.closeLineComment, hopen]

theorem isOpenComment_of_isSpace {g : Token} (h : g.isSpace = true) : isOpenComment g = false := by
  have hkind : g.kind = .space := by simpa [Token.isSpace] using h
  simp [isOpenComment, isLineComment, hkind]

theorem isSpace_of_isOpenComment {p : Token} (h : isOpenComment p = true) : p.isSpace = false := by
  refine Bool.eq_false_iff.mpr fun hspace => ?_
  rw [isOpenComment_of_isSpace hspace] at h
  cases h

/-- An open comment outside function calls is closed by a line break in front of the next token. -/
theorem closeLineComment_of_open {p x : Token} {before rest : List Token}
    (hcursor : w.cursor = ⟨p :: before, x :: rest⟩) (hopen : isOpenComment p = true)
    (hcall : w.inCall = false) (hx : x.isSpace = false) (hother : s.isDelimiter x.text = false)
    (hsettled : s.isDelimiter (settle x).text = false) :
    w.closeLineComment s =
      { w with cursor := ⟨Token.space (breakText (s.lineBreak w.level) x) (settle x).offset ::
          p :: before, settle x :: rest⟩ } := by
  have hfollows : Walk.followsOpenLineComment s w.cursor = true := by
    simp [followsOpenLineComment_eq hcursor, hopen, hx, hother]
  rw [Walk.closeLineComment, if_pos hfollows]
  simp [Walk.breakHere, hcall, hcursor, Cursor.breakHere, isSpace_settle, hx, hsettled,
    isSpace_of_isOpenComment hopen]

/-- Where the walk stands once the line comment before is closed. -/
structure Closed (s : Style) (σ : Scan) (w w' : Walk) (x x' : Token) (gs front rest : List Token) :
    Prop where
  cursor : w'.cursor = ⟨gs ++ front, x' :: rest⟩
  fits : Fits s σ.mood x gs x'
  front : gs = [] → ∀ p ∈ front.head?, p.isSpace = false
  calls : w'.calls = w.calls
  previous : w'.previous = w.previous

theorem exists_closed (hmark : IsMark s) {σ : Scan} {x : Token} {front rest : List Token}
    (hready : Ready d s σ w front (x :: rest)) (hx : x.isSpace = false)
    (hother : s.isDelimiter x.text = false) :
    ∃ gs x', Closed s σ w (w.closeLineComment s) x x' gs front rest := by
  have harrives := hready.arrives
  generalize hmood : σ.mood = mood at harrives
  generalize hcursor : w.cursor = c at harrives
  generalize hns : x :: rest = ns at harrives
  cases harrives with
  | done => cases hns
  | plain front ns closed =>
    subst hns
    rw [closeLineComment_of_closed hcursor fun p hp => (closed p hp).2]
    refine ⟨[], x, hcursor, ?_, fun _ p hp => (closed p hp).1, rfl, rfl⟩
    constructor <;> simp [hmood]
  | spaced front g y more space visible word =>
    cases hns
    rw [closeLineComment_of_closed hcursor (by simpa using isOpenComment_of_isSpace space)]
    refine ⟨[g], x, hcursor, ?_, by simp, rfl, rfl⟩
    have hkind : x.kind ≠ .symbol := fun h => by simp [absorbsSpace, h] at word
    constructor <;> simp [hmood, space, hkind]
  | ended front g y more space visible line other =>
    cases hns
    rw [closeLineComment_of_closed hcursor (by simpa using isOpenComment_of_isSpace space)]
    refine ⟨[g], settle x, hcursor, ?_, by simp, rfl, rfl⟩
    constructor <;> simp [hmood, space, hother, line]
  | endedSpace front g more line space gap feed =>
    cases hns
    rw [hx] at space
    cases space
  | comment p front y more opened visible =>
    cases hns
    have hcall : w.inCall = false := by
      rw [Walk.inCall_eq, hready.calls]
      exact (hready.outside (by simp [hmood])).1
    rw [closeLineComment_of_open hcursor opened hcall hx hother
      ((isDelimiter_settle hmark x).trans hother)]
    refine ⟨[_], settle x, rfl, ?_, by simp, rfl, rfl⟩
    have hfeed := feed_mem_lineBreak s w.level
    constructor
    · simp [hmood]
    · simp [Token.space, Token.isSpace]
    · simp
    · intro _ _
      refine ⟨_, rfl, ?_⟩
      by_cases hline : isLineComment x = true <;> simp [Token.space, breakText, hline, hfeed]
    · simp [hother]
    · simp [hmood]
    · simp [hmood]
  | skipped front y more line offset delimiter gap =>
    cases hns
    rw [hother] at delimiter
    cases delimiter
  | parted front g y more space visible =>
    cases hns
    rw [closeLineComment_of_closed hcursor (by simpa using isOpenComment_of_isSpace space)]
    refine ⟨[g], x, hcursor, ?_, by simp, rfl, rfl⟩
    constructor <;> simp [hmood, space]

/-- A break in front of a token keeps what the scan allows there. -/
theorem Fits.breakHere {mood : Mood} {x x' : Token} {gs gs' : List Token}
    (h : Fits s mood x gs x') (hspaces : ∀ g ∈ gs', g.isSpace = true)
    (hother : s.isDelimiter x.text = false)
    (hgs : gs' = gs ∨ (x.kind ≠ .comment ∧ (x.kind = .symbol → x.text = [')'])) ∧
      ∃ g, gs' = [g] ∧ '\n' ∈ g.text) : Fits s mood x gs' x' := by
  rcases hgs with rfl | ⟨⟨hcomment, hsymbol⟩, g, rfl, hfeed⟩
  · exact h
  · have hline : isLineComment x = false := by simp [isLineComment, hcomment]
    refine ⟨h.token, hspaces, by simp, fun _ _ => ⟨g, rfl, by simp [hfeed, hline]⟩, ?_, by simp, ?_⟩
    · intro _ hdelimiter
      rw [hother] at hdelimiter
      cases hdelimiter
    · intro _ hkind htext
      exact absurd (hsymbol hkind) htext

/-- The scan outside all calls, behind a token that set its mood. -/
theorem outside_next {σ : Scan} {x : Token} {rest : List Token} (hmark : IsMark s)
    (hnames : NamesFunctions d) (htidy : Tidy d s (x :: rest))
    (hmood : (σ.next d s x).mood ≠ .plain) :
    (σ.next d s x).calls.any id = false ∧ (σ.next d s x).callNext = false := by
  simp only [Scan.next, Scan.moodAfter] at hmood ⊢
  split at hmood
  · exact absurd rfl hmood
  · next hany =>
    refine ⟨by simpa using hany, ?_⟩
    split at hmood
    · next hdelimiter => exact isFunction_delimiter hnames hmark hdelimiter
    · split at hmood
      · next hends =>
        simp only [Bool.or_eq_true, Bool.and_eq_true] at hends
        rcases hends with hends | ⟨hline, -⟩
        · exact htidy.calls x (by simp) hends
        · exact isFunction_of_isLineComment hnames (isLineComment_text hline)
      · exact absurd rfl hmood

theorem callsAfter_settle (calls : List Bool) (callNext : Bool) (x : Token) :
    callsAfter calls callNext (settle x) = callsAfter calls callNext x := by
  simp [callsAfter, isSymbol_settle]

/-- Which calls are open behind a token, as the walk and the scan see it. -/
theorem callsAfter_eq {σ : Scan} {x : Token} {front rest : List Token}
    (hready : Ready d s σ w front (x :: rest)) :
    callsAfter w.calls (d.isFunction w.previous) x = callsAfter σ.calls σ.callNext x := by
  rw [hready.calls]
  cases hopen : x.isSymbol ['('] with
  | true => rw [hready.previous x (by simp) hopen]
  | false => simp [callsAfter, hopen]

/-- A token is shown as an open comment only where its line was ended before it. -/
theorem isOpenComment_shown {mood : Mood} {x : Token} {rest : List Token}
    (htidy : Tidy d s (x :: rest)) (hrest : rest ≠ [])
    (h : ¬ (isLineComment x = true ∧ mood = .ended)) :
    isOpenComment (if mood = .ended then settle x else x) = false := by
  split
  · next hmood =>
    have hline : isLineComment x = false := by
      cases hline : isLineComment x with
      | false => rfl
      | true => exact absurd ⟨hline, hmood⟩ h
    simp [settle, hline, isOpenComment]
  · exact htidy.isOpenComment_eq_false hrest

/-- Where the walk arrives behind a token that is no delimiter. -/
theorem arrives_next (hmark : IsMark s) {mood : Mood} (calls : List Bool) {x x' : Token}
    {rest : List Token} (htidy : Tidy d s (x :: rest)) (hother : s.isDelimiter x.text = false)
    (hx' : x'.isSpace = false) (hshown : x' = if mood = .ended then settle x else x)
    (hcalls : isLineComment x = true → mood = .ended → calls.any id = false)
    (before : List Token) (level : Int) :
    Arrives s (Scan.moodAfter s mood calls x)
      ((⟨before, x' :: rest⟩ : Cursor).breakNext? s (endsLine x && !calls.any id) level).advance
      (x' :: before) rest := by
  have stays : ¬ (isLineComment x = true ∧ mood = .ended) →
      Arrives s .plain ⟨x' :: before, rest⟩ (x' :: before) rest := by
    intro hplain
    by_cases hrest : rest = []
    · subst hrest
      exact .done _ _
    · refine .plain _ _ ?_
      have hopen := isOpenComment_shown htidy hrest hplain
      rw [← hshown] at hopen
      simp [hx', hopen]
  unfold Scan.moodAfter
  cases hany : calls.any id with
  | true =>
    have hcursor : (⟨before, x' :: rest⟩ : Cursor).breakNext? s (endsLine x && !true) level =
        ⟨before, x' :: rest⟩ := by simp [Cursor.breakNext?]
    rw [hcursor]
    refine stays fun h => ?_
    rw [hcalls h.1 h.2] at hany
    cases hany
  | false =>
    simp only [hother, Bool.false_eq_true, ↓reduceIte, Bool.not_false, Bool.and_true]
    cases hends : endsLine x with
    | true =>
      have hcursor := arrives_breakNext hmark hx' htidy.tail before level
      simpa [Cursor.breakNext?] using hcursor
    | false =>
      by_cases hline : isLineComment x = true ∧ mood = .ended
      · have hopen : isOpenComment x' = true := by
          rw [hshown, if_pos hline.2]
          exact isOpenComment_settle hline.1
        simp only [hline.1, hline.2, Bool.false_or, beq_self_eq_true, Bool.and_true, ↓reduceIte,
          Cursor.breakNext?, Bool.false_eq_true, Cursor.advance]
        cases rest with
        | nil => exact .done _ _
        | cons y ys =>
          have habsorbs : absorbsSpace x = true := by
            simp [absorbsSpace, kind_of_isLineComment hline.1]
          exact .comment x' before y ys hopen (htidy.visible_of_absorbs habsorbs y (by simp))
      · have hmood : (isLineComment x && mood == .ended) = false := by
          simpa using hline
        simp only [hmood, Bool.or_false, Bool.false_eq_true, ↓reduceIte, Cursor.breakNext?,
          Cursor.advance]
        exact stays hline

/-- A visit to a token that is no delimiter. -/
theorem exists_visit_word (hmark : IsMark s) (hnames : NamesFunctions d) {σ : Scan} {x : Token}
    {front rest : List Token} (hready : Ready d s σ w front (x :: rest))
    (htidy : Tidy d s (x :: rest)) (hx : x.isSpace = false)
    (hother : s.isDelimiter x.text = false) :
    ∃ w' gs x', w.visit d s = some w' ∧ Fits s σ.mood x gs x' ∧
      Ready d s (σ.next d s x) w' (x' :: (gs ++ front)) rest := by
  obtain ⟨gs, x', hclosed⟩ := exists_closed hmark hready hx hother
  have hx' : x'.kind = x.kind ∧ x'.isSpace = false ∧ s.isDelimiter x'.text = false ∧
      endsLine x' = endsLine x ∧ d.isFunction x'.text = d.isFunction x.text ∧
      (∀ calls callNext, callsAfter calls callNext x' = callsAfter calls callNext x) ∧
      (x.kind = .symbol → x'.text = x.text) := by
    rw [hclosed.fits.token]
    split
    · refine ⟨kind_settle x, (isSpace_settle x).trans hx, (isDelimiter_settle hmark x).trans hother,
        endsLine_settle x, isFunction_settle hnames x, fun _ _ => callsAfter_settle _ _ _, ?_⟩
      intro hkind
      rw [settle_of_kind_ne (by simp [hkind])]
    · exact ⟨rfl, hx, hother, rfl, rfl, fun _ _ => rfl, fun _ => rfl⟩
  obtain ⟨hkind, hspace, hdelimiter, hends, hfunction, hcalls, htext⟩ := hx'
  have hreacts : Reacts d s (w.closeLineComment s) x' ((w.closeLineComment s).react d s x') :=
    reacts_react hspace fun _ => by rwa [isDelimiter_upper hmark]
  have hafter : (w.closeLineComment s).cursor.after = x' :: rest := by rw [hclosed.cursor]
  have hnext : ((w.closeLineComment s).react d s x').calls =
      callsAfter σ.calls σ.callNext x := by
    rw [hreacts.calls, hclosed.calls, hclosed.previous, hcalls, callsAfter_eq hready]
  obtain ⟨here, level, hcursor, hhere⟩ := hreacts.cursor
  obtain ⟨gs', hcursor', hspaces, hgs⟩ := breakHere?_visible hspace here (fun h => (hhere h).1)
    hdelimiter rest hclosed.fits.spaces hclosed.fits.short hclosed.front
  rw [hclosed.cursor, hnext, hends, hcursor'] at hcursor
  have hfits : Fits s σ.mood x gs' x' := by
    refine hclosed.fits.breakHere hspaces hother (hgs.imp_right fun h => ⟨?_, h.2⟩)
    have hallowed := hhere h.1
    rw [hkind] at hallowed
    exact ⟨hallowed.1, fun hsymbol => (htext hsymbol) ▸ hallowed.2 hsymbol⟩
  refine ⟨((w.closeLineComment s).react d s x').leave x'.text, gs', x', ?_, hfits, ?_⟩
  · simp only [Walk.visit, hafter]
  · refine ⟨?_, hnext, outside_next hmark hnames htidy, ?_⟩
    · have harrives := arrives_next hmark (callsAfter σ.calls σ.callNext x) htidy hother
        hspace hclosed.fits.token ?_ (gs' ++ front) level
      · simpa [Walk.leave, hcursor, Scan.next] using harrives
      · intro hline hmood
        rw [callsAfter_of_kind_ne (by simp [kind_of_isLineComment hline])]
        exact (hready.outside (by simp [hmood])).1
    · intro t _ _
      exact hfunction

theorem text_ne_of_isDelimiter (hmark : IsMark s) {text : Text} (h : s.isDelimiter text = true) :
    text ≠ ['('] ∧ text ≠ [')'] ∧ text ≠ [','] := by
  have htext := (isDelimiter_iff hmark text).mp h
  rcases hmark with hmark | hmark | hmark <;> rw [hmark] at htext <;> simp [htext]

/-- A bracket is no delimiter, so the walk does not pass over it. -/
theorem isDelimiter_of_bracket (hmark : IsMark s) {t : Token}
    (ht : t.isSymbol ['('] = true ∨ t.isSymbol [')'] = true) : s.isDelimiter t.text = false := by
  refine Bool.eq_false_iff.mpr fun hdelimiter => ?_
  obtain ⟨hopen, hclose, -⟩ := text_ne_of_isDelimiter hmark hdelimiter
  rcases ht with ht | ht
  · exact hopen (text_of_isSymbol ht)
  · exact hclose (text_of_isSymbol ht)

theorem callsAfter_delimiter (hmark : IsMark s) {x : Token} (h : s.isDelimiter x.text = true)
    (calls : List Bool) (callNext : Bool) : callsAfter calls callNext x = calls := by
  obtain ⟨hopen, hclose, -⟩ := text_ne_of_isDelimiter hmark h
  simp [callsAfter, Token.isSymbol, hopen, hclose]

/-- A delimiter goes back to the outermost level and breaks the line. -/
theorem react_delimiter (hmark : IsMark s) {x : Token} (hkind : x.kind = .symbol)
    (h : s.isDelimiter x.text = true) : w.react d s x = (w.atLevel 0).breakHere s 0 := by
  obtain ⟨hopen, hclose, hcomma⟩ := text_ne_of_isDelimiter hmark h
  have hopen' : Text.upper x.text ≠ ['('] := mt (Text.upper_eq_iff (by decide)).mp hopen
  have hclose' : Text.upper x.text ≠ [')'] := mt (Text.upper_eq_iff (by decide)).mp hclose
  have hcomma' : Text.upper x.text ≠ [','] := mt (Text.upper_eq_iff (by decide)).mp hcomma
  have hseparator : Walk.onSymbol.onSeparator s (Text.upper x.text) w =
      (w.atLevel 0).breakHere s 0 := by
    simp [Walk.onSymbol.onSeparator, hcomma', isDelimiter_upper hmark, h]
  unfold Walk.react
  simp only [hkind, Walk.onSymbol, hopen', ↓reduceIte, hclose']
  split <;> exact hseparator

theorem breakHere_delimiter {x : Token} (hkind : x.kind = .symbol)
    (h : s.isDelimiter x.text = true) (before rest : List Token) (line : Text) :
    (⟨before, x :: rest⟩ : Cursor).breakHere s line =
      ⟨x :: before, afterDelimiter line x.offset rest⟩ := by
  have hsettle : settle x = x := settle_of_kind_ne (by simp [hkind])
  have hspace : x.isSpace = false := by simp [Token.isSpace, hkind]
  have hline : breakText line x = line := by simp [breakText, isLineComment, hkind]
  cases before with
  | nil => simp [Cursor.breakHere, hspace, h]
  | cons p ps => simp [Cursor.breakHere, hspace, h, hsettle, hline]

/-- Where the walk arrives behind a delimiter. -/
theorem arrives_delimiter {x : Token} {rest : List Token} (htidy : Tidy d s (x :: rest))
    (hkind : x.kind = .symbol) (before : List Token) (line : Text) :
    Arrives s .parted (⟨x :: before, afterDelimiter line x.offset rest⟩ : Cursor).advance
      (x :: before) rest := by
  cases rest with
  | nil => exact .done _ _
  | cons y ys =>
    refine .parted _ _ _ _ rfl ?_
    exact htidy.visible_of_absorbs (by simp [absorbsSpace, hkind]) y (by simp)

/-- A visit to a delimiter. -/
theorem exists_visit_delimiter (hmark : IsMark s) (hnames : NamesFunctions d) {σ : Scan} {x : Token}
    {front rest : List Token} (hready : Ready d s σ w front (x :: rest))
    (htidy : Tidy d s (x :: rest)) (hdelimiter : s.isDelimiter x.text = true) {gs : List Token}
    (hcursor : w.cursor = ⟨gs ++ front, x :: rest⟩) (hclosed : w.closeLineComment s = w) :
    ∃ w', w.visit d s = some w' ∧ Ready d s (σ.next d s x) w' (x :: (gs ++ front)) rest := by
  have hkind : x.kind = .symbol := htidy.marks x (by simp) hdelimiter
  have hspace : x.isSpace = false := by simp [Token.isSpace, hkind]
  have hcalls : callsAfter σ.calls σ.callNext x = σ.calls := callsAfter_delimiter hmark hdelimiter _ _
  refine ⟨((w.atLevel 0).breakHere s 0).leave x.text, ?_, ?_, ?_, ?_, ?_⟩
  · simp only [Walk.visit, hclosed, hcursor]
    rw [react_delimiter hmark hkind hdelimiter]
  · have hnext : (σ.next d s x).mood = if σ.calls.any id then .plain else .parted := by
      simp only [Scan.next, Scan.moodAfter, hcalls, hdelimiter, ↓reduceIte]
    have hcall : (w.atLevel 0).inCall = σ.calls.any id := by
      rw [← hready.calls, ← Walk.inCall_eq]
      rfl
    rw [hnext]
    simp only [Walk.leave, Walk.breakHere, hcall]
    split
    · have hadvance : (w.atLevel 0).cursor.advance = ⟨x :: (gs ++ front), rest⟩ := by
        simp [Walk.atLevel, hcursor, Cursor.advance]
      rw [hadvance]
      refine .plain _ _ ?_
      simp [hspace, isOpenComment, isLineComment, hkind]
    · have hbreak : (w.atLevel 0).cursor.breakHere s (s.lineBreak 0) =
          ⟨x :: (gs ++ front), afterDelimiter (s.lineBreak 0) x.offset rest⟩ := by
        simp only [Walk.atLevel, hcursor]
        exact breakHere_delimiter hkind hdelimiter _ _ _
      rw [hbreak]
      exact arrives_delimiter htidy hkind _ _
  · have hkeep : (((w.atLevel 0).breakHere s 0).leave x.text).calls = w.calls :=
      Walk.calls_breakHere s 0 (w.atLevel 0)
    rw [hkeep, hready.calls]
    exact hcalls.symm
  · exact outside_next hmark hnames htidy
  · intro t _ _
    rfl

theorem after_ne_nil_of_visit {w' : Walk} (h : w.visit d s = some w') : w.cursor.after ≠ [] := by
  intro hnil
  have hlt := Walk.remaining_lt_of_visit h
  simp [Walk.remaining, hnil] at hlt

/-- A delimiter that a break behind the token before it has passed already. -/
theorem exists_step_skipped (hmark : IsMark s) (hnames : NamesFunctions d) {σ : Scan} {x : Token}
    {front rest : List Token} (hready : Ready d s σ w front (x :: rest))
    (htidy : Tidy d s (x :: rest)) (hdelimiter : s.isDelimiter x.text = true)
    (hmood : σ.mood = .ended) {line : Text} {offset : Nat} (hgap : IsGap line)
    (hcursor : w.cursor = ⟨x :: front, afterDelimiter line offset rest⟩) :
    ∃ w', w.run d s = w'.run d s ∧ Ready d s (σ.next d s x) w' (x :: front) rest := by
  have hkind : x.kind = .symbol := htidy.marks x (by simp) hdelimiter
  have hcalls : (σ.next d s x).calls = σ.calls := callsAfter_delimiter hmark hdelimiter _ _
  have hnext : (σ.next d s x).mood = .parted := by
    have hany := (hready.outside (by simp [hmood])).1
    rw [← hcalls] at hany
    simp only [Scan.next] at hany ⊢
    simp [Scan.moodAfter, hany, hdelimiter]
  cases rest with
  | nil =>
    refine ⟨w, rfl, ?_, hready.calls.trans hcalls.symm, outside_next hmark hnames htidy, by simp⟩
    rw [hcursor]
    exact .done _ _
  | cons y ys =>
    have hblank : Text.allBlank (Token.space (line ++ line) offset).text = true :=
      (hgap.append hgap).2
    have hvisit := visit_space (d := d) hmark hcursor rfl hblank
    refine ⟨_, run_of_visit hvisit (after_ne_nil_of_visit hvisit), ?_,
      hready.calls.trans hcalls.symm, outside_next hmark hnames htidy, ?_⟩
    · rw [hnext]
      refine .parted _ _ _ _ rfl ?_
      exact htidy.visible_of_absorbs (by simp [absorbsSpace, hkind]) y (by simp)
    · intro t _ _
      have hfunction : (σ.next d s x).callNext = false :=
        isFunction_delimiter hnames hmark hdelimiter
      rw [hfunction]
      exact isFunction_of_allBlank hnames hblank

/-- The walk passes a delimiter. -/
theorem exists_step_delimiter (hmark : IsMark s) (hnames : NamesFunctions d) {σ : Scan} {x : Token}
    {front rest : List Token} (hready : Ready d s σ w front (x :: rest))
    (htidy : Tidy d s (x :: rest)) (hdelimiter : s.isDelimiter x.text = true) :
    ∃ w' gs, w.run d s = w'.run d s ∧ Fits s σ.mood x gs x ∧
      Ready d s (σ.next d s x) w' (x :: (gs ++ front)) rest := by
  have hkind : x.kind = .symbol := htidy.marks x (by simp) hdelimiter
  have hx : x.isSpace = false := by simp [Token.isSpace, hkind]
  have hsettle : settle x = x := settle_of_kind_ne (by simp [hkind])
  have visited : ∀ gs, w.cursor = ⟨gs ++ front, x :: rest⟩ →
      w.closeLineComment s = w → Fits s σ.mood x gs x →
      ∃ w' gs, w.run d s = w'.run d s ∧ Fits s σ.mood x gs x ∧
        Ready d s (σ.next d s x) w' (x :: (gs ++ front)) rest := by
    intro gs hcursor hclosed hfits
    obtain ⟨w', hvisit, hready'⟩ :=
      exists_visit_delimiter hmark hnames hready htidy hdelimiter hcursor hclosed
    exact ⟨w', gs, run_of_visit hvisit (after_ne_nil_of_visit hvisit), hfits, hready'⟩
  have harrives := hready.arrives
  generalize hmood : σ.mood = mood at harrives
  generalize hcursor : w.cursor = c at harrives
  generalize hns : x :: rest = ns at harrives
  rw [← hmood]
  cases harrives with
  | done => cases hns
  | plain front ns closed =>
    subst hns
    refine visited [] hcursor ?_ ?_
    · exact closeLineComment_of_closed hcursor fun p hp => (closed p hp).2
    · constructor <;> simp [hmood]
  | spaced front g y more space visible word =>
    cases hns
    simp [absorbsSpace, hkind] at word
  | ended front g y more space visible line other =>
    cases hns
    rw [hdelimiter] at other
    cases other
  | endedSpace front g more line space gap feed =>
    cases hns
    rw [hx] at space
    cases space
  | comment p front y more opened visible =>
    cases hns
    refine visited [] hcursor ?_ ?_
    · simp [Walk.closeLineComment, followsOpenLineComment_eq hcursor, hdelimiter]
    · constructor <;> simp [hmood, hsettle, hdelimiter]
  | skipped front y more line offset delimiter gap =>
    cases hns
    obtain ⟨w', hrun, hready'⟩ :=
      exists_step_skipped hmark hnames hready htidy hdelimiter hmood gap hcursor
    refine ⟨w', [], hrun, ?_, hready'⟩
    constructor <;> simp [hmood, hsettle, hdelimiter]
  | parted front g y more space visible =>
    cases hns
    refine visited [g] hcursor ?_ ?_
    · exact closeLineComment_of_closed hcursor (by simpa using isOpenComment_of_isSpace space)
    · constructor <;> simp [hmood, space]

/-- The walk passes a token that is not white space. -/
theorem exists_step (hmark : IsMark s) (hnames : NamesFunctions d) {σ : Scan} {x : Token}
    {front rest : List Token} (hready : Ready d s σ w front (x :: rest))
    (htidy : Tidy d s (x :: rest)) (hx : x.isSpace = false) :
    ∃ w' gs x', w.run d s = w'.run d s ∧ Fits s σ.mood x gs x' ∧
      Ready d s (σ.next d s x) w' (x' :: (gs ++ front)) rest := by
  cases hdelimiter : s.isDelimiter x.text with
  | false =>
    obtain ⟨w', gs, x', hvisit, hfits, hready'⟩ :=
      exists_visit_word hmark hnames hready htidy hx hdelimiter
    exact ⟨w', gs, x', run_of_visit hvisit (after_ne_nil_of_visit hvisit), hfits, hready'⟩
  | true =>
    obtain ⟨w', gs, hrun, hfits, hready'⟩ :=
      exists_step_delimiter hmark hnames hready htidy hdelimiter
    exact ⟨w', gs, x, hrun, hfits, hready'⟩

/-- In front of white space the walk is in its line, or a break was written into the white space. -/
theorem Arrives.of_isSpace {mood : Mood} {c : Cursor} {front rest : List Token} {g : Token}
    (h : Arrives s mood c front (g :: rest)) (hg : g.isSpace = true)
    (hother : s.isDelimiter g.text = false) :
    (mood = .plain ∧ c = ⟨front, g :: rest⟩) ∨ ∃ line, mood = .ended ∧ IsGap line ∧ '\n' ∈ line ∧
      c = ⟨front, g.withText line :: rest⟩ := by
  have hopaque : g.isSpace ≠ false := by simp [hg]
  cases h with
  | plain => exact .inl ⟨rfl, rfl⟩
  | endedSpace front g rest line space gap feed => exact .inr ⟨line, rfl, gap, feed, rfl⟩
  | spaced _ _ _ _ _ visible => exact absurd visible hopaque
  | ended _ _ _ _ _ visible => exact absurd visible hopaque
  | comment _ _ _ _ _ visible => exact absurd visible hopaque
  | parted _ _ _ _ _ visible => exact absurd visible hopaque
  | skipped _ _ _ _ _ delimiter =>
    rw [hother] at delimiter
    cases delimiter

/-- The walk passes white space. -/
theorem exists_step_space (hmark : IsMark s) {σ : Scan} {g : Token} {front rest : List Token}
    (hready : Ready d s σ w front (g :: rest)) (htidy : Tidy d s (g :: rest))
    (hg : g.isSpace = true) :
    ∃ w', w.run d s = w'.run d s ∧ Ready d s σ w' front rest := by
  obtain ⟨y, ys, rfl⟩ : ∃ y ys, rest = y :: ys := by
    cases rest with
    | nil =>
      rw [htidy.last g (by simp)] at hg
      cases hg
    | cons y ys => exact ⟨y, ys, rfl⟩
  obtain ⟨hy, habsorbs⟩ := (List.isChain_cons_cons.mp htidy.apart).1.1 hg
  have hsymbol : y.kind ≠ .symbol := fun h => by simp [absorbsSpace, h] at habsorbs
  have hcomment : y.kind ≠ .comment := fun h => by simp [absorbsSpace, h] at habsorbs
  have passed : ∀ g' : Token, g'.isSpace = true → Text.allBlank g'.text = true →
      w.cursor = ⟨front, g' :: y :: ys⟩ → Arrives s σ.mood ⟨g' :: front, y :: ys⟩ front (y :: ys) →
      ∃ w', w.run d s = w'.run d s ∧ Ready d s σ w' front (y :: ys) := by
    intro g' hspace hblank hcursor harrives
    have hvisit := visit_space (d := d) hmark hcursor hspace hblank
    refine ⟨_, run_of_visit hvisit (after_ne_nil_of_visit hvisit), harrives, hready.calls,
      hready.outside, ?_⟩
    intro t ht hopen
    obtain rfl : y = t := by simpa using ht
    exact absurd (kind_of_isSymbol hopen) hsymbol
  have hblank := (htidy.gaps g (by simp) hg).2
  rcases hready.arrives.of_isSpace hg (isDelimiter_of_allBlank hmark hblank) with
    ⟨hmood, hcursor⟩ | ⟨line, hmood, gap, feed, hcursor⟩
  · rw [hmood] at passed
    exact passed g hg hblank hcursor (.spaced _ _ _ _ hg hy habsorbs)
  · rw [hmood] at passed
    refine passed (g.withText line) hg gap.2 hcursor ?_
    have hother : s.isDelimiter y.text = false := htidy.isDelimiter_of_kind_ne (by simp) hsymbol
    have hended := Arrives.ended (s := s) front (g.withText line) y ys hg hy
      (by simp [Token.withText, feed, isLineComment, hcomment]) hother
    rwa [settle_of_kind_ne hcomment] at hended

end Steps

/-! ## Whole walks -/

/-- A walk that is where a scan is ends with what the scan allows. -/
theorem exists_walked_from {d : Dialect} {s : Style} (hmark : IsMark s) (hnames : NamesFunctions d)
    (ns : List Token) {σ : Scan} {w : Walk} {front : List Token} (htidy : Tidy d s ns)
    (hready : Ready d s σ w front ns) :
    ∃ ts, w.run d s = some (front.reverse ++ ts) ∧ Walked d s σ ns ts := by
  induction ns generalizing σ w front with
  | nil =>
    have hcursor : w.cursor = ⟨front, []⟩ := by
      have harrives := hready.arrives
      generalize w.cursor = c at harrives
      generalize σ.mood = mood at harrives
      cases harrives <;> rfl
    refine ⟨[], ?_, .nil σ⟩
    rw [Walk.run]
    simp [hcursor, Cursor.tokens]
  | cons x rest ih =>
    cases hx : x.isSpace with
    | true =>
      obtain ⟨w', hrun, hready'⟩ := exists_step_space hmark hready htidy hx
      obtain ⟨ts, hts, hwalked⟩ := ih htidy.tail hready'
      exact ⟨ts, hrun.trans hts, .space hx hwalked⟩
    | false =>
      obtain ⟨w', gs, x', hrun, hfits, hready'⟩ := exists_step hmark hnames hready htidy hx
      obtain ⟨ts, hts, hwalked⟩ := ih htidy.tail hready'
      refine ⟨gs ++ x' :: ts, ?_, .visit hx hfits hwalked⟩
      have hreverse : gs.reverse = gs := by
        cases gs with
        | nil => rfl
        | cons g more =>
          obtain rfl : more = [] := by simpa using hfits.short
          rfl
      rw [hrun, hts]
      simp [hreverse]

/-- The walk over tidy tokens ends with what a scan from the start allows. -/
theorem exists_walked {d : Dialect} {s : Style} (hmark : IsMark s) (hnames : NamesFunctions d)
    {ns : List Token} (htidy : Tidy d s ns) :
    ∃ ts, breakLines d s ns = some ts ∧ Walked d s .start ns ts := by
  have hready : Ready d s .start (Walk.start ns) [] ns := by
    refine ⟨.plain [] ns (by simp), rfl, by simp [Scan.start], ?_⟩
    intro t _ _
    have hblank : Text.allBlank [' '] = true := by decide
    exact isFunction_of_allBlank hnames hblank
  exact exists_walked_from hmark hnames ns htidy hready

/-! ## What a scan leaves -/

section Walked

variable {d : Dialect} {s : Style} {σ : Scan}

theorem Tidy.suffix {ns ns' : List Token} (h : Tidy d s ns) (hsuffix : ns' <:+ ns) :
    Tidy d s ns' := by
  obtain ⟨front, rfl⟩ := hsuffix
  induction front with
  | nil => exact h
  | cons t front ih => exact ih h.tail

theorem Fits.kind {mood : Mood} {x x' : Token} {gs : List Token} (h : Fits s mood x gs x') :
    x'.kind = x.kind := by
  rw [h.token]
  split
  · exact kind_settle x
  · rfl

theorem Fits.isLineComment {mood : Mood} {x x' : Token} {gs : List Token}
    (h : Fits s mood x gs x') : Layout.isLineComment x' = Layout.isLineComment x := by
  rw [h.token]
  split
  · exact isLineComment_settle x
  · rfl

theorem Fits.isSymbol {mood : Mood} {x x' : Token} {gs : List Token} (h : Fits s mood x gs x')
    (symbol : Text) : x'.isSymbol symbol = x.isSymbol symbol := by
  rw [h.token]
  split
  · exact isSymbol_settle x symbol
  · rfl

theorem Walked.eq_nil {ns ts : List Token} (h : Walked d s σ ns ts)
    (hns : Token.visible ns = []) : ts = [] := by
  induction h with
  | nil => rfl
  | space space rest ih => exact ih (by rwa [visible_cons_space space] at hns)
  | visit visible fits rest ih => simp [visible_cons visible] at hns

/-- The first token of a list, as the scan leaves it. -/
theorem Walked.exists_visit {ns ts us : List Token} {y : Token} (h : Walked d s σ ns ts)
    (hns : Token.visible ns = y :: us) :
    ∃ ns' gs y' ts', ts = gs ++ y' :: ts' ∧ y.isSpace = false ∧ Fits s σ.mood y gs y' ∧
      Walked d s (σ.next d s y) ns' ts' ∧ Token.visible ns' = us ∧ y :: ns' <:+ ns := by
  induction h with
  | nil => cases hns
  | space space rest ih =>
    obtain ⟨ns', gs, y', ts', hts, hy, hfits, hrest, hus, hsuffix⟩ :=
      ih (by rwa [visible_cons_space space] at hns)
    exact ⟨ns', gs, y', ts', hts, hy, hfits, hrest, hus, hsuffix.trans (List.suffix_cons _ _)⟩
  | visit visible fits rest ih =>
    rw [visible_cons visible] at hns
    obtain ⟨rfl, rfl⟩ := List.cons.inj hns
    exact ⟨_, _, _, _, rfl, visible, fits, rest, rfl, List.suffix_rfl⟩

end Walked

end SqlLayout.Layout
